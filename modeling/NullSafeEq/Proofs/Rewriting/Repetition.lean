import NullSafeEq.Proofs.Rewriting.Agreement
import NullSafeEq.Proofs.Rewriting.Cuts

/-!
# Listing a match again

A match that is listed twice is spliced in twice, both times over the range that its place has in
the source. The second time hits what the first one put in, or what follows it, so the text stays as
it is only when the replacement fits the place. Written out without a source, each place takes one
text, that of the last match listed for it, and a repetition changes nothing else.
-/
namespace NullSafeEq

namespace Tree

/-- What a list of matches puts at the place of one of them: the last one listed there decides. -/
def textAt (t : Tree) (helper : String) (found : List Match) (m : Match) : String :=
  t.replacement helper (lastAt found m)

/-- A text can be put at a place of the source once more: it is as long as what stands there, or it
is not longer and the place is at the end. -/
def Fits (t : Tree) (place : Site) (inserted : String) : Prop :=
  ∃ source span, t.source = some source ∧ place.node.span = some span ∧
    (inserted.length = span.stop - span.start ∨
      inserted.length ≤ span.stop - span.start ∧ span.stop = source.length)

end Tree

section
variable {t : Tree} {text helper : String} {before after found front back : List Match}
  {m o : Match}

/-! ## The matches that are applied -/

theorem mem_repeated (listed : m ∈ before ++ after) :
    o ∈ before ++ m :: after ↔ o ∈ before ++ after := by
  rw [List.perm_middle.mem_iff, List.mem_cons]
  exact or_iff_right_of_imp fun same => same ▸ listed

theorem any_repeated (listed : m ∈ before ++ after) (p : Match → Bool) :
    (before ++ m :: after).any p = (before ++ after).any p := by
  rw [Bool.eq_iff_iff, List.any_eq_true, List.any_eq_true]
  simp only [mem_repeated listed]

/-- A match below another one is left out however often it is listed. -/
theorem outermost_repeated_below (listed : m ∈ before ++ after)
    (below : m ∉ Tree.outermost (before ++ after)) :
    Tree.outermost (before ++ m :: after) = Tree.outermost (before ++ after) := by
  unfold Tree.outermost at below ⊢
  simp only [any_repeated listed, List.filter_append]
  refine congrArg _ (List.filter_cons_of_neg fun highest => ?_)
  exact below (List.mem_filter.mpr ⟨listed, highest⟩)

/-- A topmost match is applied once more. -/
theorem outermost_repeated (member : m ∈ Tree.outermost (before ++ after)) : ∃ front back,
    Tree.outermost (before ++ after) = front ++ back ∧
      Tree.outermost (before ++ m :: after) = front ++ m :: back := by
  unfold Tree.outermost at member ⊢
  obtain ⟨listed, highest⟩ := List.mem_filter.mp member
  simp only [any_repeated listed, List.filter_append]
  exact ⟨_, _, rfl, congrArg _ (List.filter_cons_of_pos highest)⟩

/-! ## The texts at the places -/

/-- The matches at the place of an outermost one are outermost, too. -/
theorem textAt_outermost (member : m ∈ Tree.outermost found) :
    t.textAt helper (Tree.outermost found) m = t.textAt helper found m := by
  obtain ⟨listed, highest⟩ := List.mem_filter.mp member
  unfold Tree.textAt Tree.lastAt Tree.outermost
  rw [← List.filter_reverse, List.find?_filter]
  congr 3
  funext o
  by_cases same : o.span.path = m.span.path
  · have highest' : (!found.any fun other => other.span.isAbove o.span) = true := by
      simpa only [Site.isAbove, same] using highest
    simp [highest']
  · simp [Site.sameAs, same]

theorem patch_of_mem (member : m ∈ found) : t.patch helper found m.span.path =
    some (t.textAt helper found m) :=
  congrArg (Option.map (t.replacement helper)) (find_lastAt member rfl)

theorem patch_repeated (listed : m ∈ front ++ back)
    (same : t.textAt helper (front ++ m :: back) m = t.textAt helper (front ++ back) m) :
    t.patch helper (front ++ m :: back) = t.patch helper (front ++ back) := by
  funext path
  by_cases here : m.span.path = path
  · subst here
    rw [patch_of_mem (by simp), patch_of_mem listed, same]
  · simp [Tree.patch, List.find?_append, here]

/-- The texts at all places stay the same when that at the place of the repeated match does. -/
theorem patch_outermost_repeated (member : m ∈ Tree.outermost (before ++ after))
    (same : t.textAt helper (before ++ m :: after) m = t.textAt helper (before ++ after) m) :
    t.patch helper (Tree.outermost (before ++ m :: after)) =
      t.patch helper (Tree.outermost (before ++ after)) := by
  obtain ⟨front, back, once, twice⟩ := outermost_repeated member
  have member' : m ∈ Tree.outermost (before ++ m :: after) := by simp [twice]
  rw [← textAt_outermost member', ← textAt_outermost member, once, twice] at same
  rw [once, twice]
  exact patch_repeated (once ▸ member) same

theorem cutOf_congr {selected selected' : List Match} (member : m ∈ selected)
    (member' : m ∈ selected') (same : t.patch helper selected = t.patch helper selected') :
    cutOf t helper selected m = cutOf t helper selected' m := by
  have texts := congrFun same m.span.path
  rw [patch_of_mem member, patch_of_mem member', Option.some_inj] at texts
  unfold cutOf
  rw [← Tree.textAt, texts, Tree.textAt]

/-! ## The edits -/

theorem editsOf_perm (t : Tree) (helper : String) (found : List Match) :
    (editsOf t helper found).Perm
      ((Tree.outermost found).map fun m => (cutOf t helper (Tree.outermost found) m).edit) :=
  lastFirst_perm _

theorem mem_editsOf {e : Span × String} : e ∈ editsOf t helper found ↔
    ∃ m ∈ Tree.outermost found, (cutOf t helper (Tree.outermost found) m).edit = e :=
  (editsOf_perm t helper found).mem_iff.trans List.mem_map

theorem length_replacement_pos (t : Tree) (helper : String) (m : Match) :
    0 < (t.replacement helper m).length := by
  have call : 0 < (helper ++ "(" ++ t.textOf m.left.node ++ ", " ++ t.textOf m.right.node ++
      ")").length := by
    simp only [String.length_append, show "(".length = 1 from rfl]
    omega
  unfold Tree.replacement
  by_cases negated : m.negated = true
  · rw [if_pos negated, String.length_append]
    exact Nat.add_pos_right _ call
  · rwa [if_neg negated]

theorem editsOf_bounded (read : Tree.read text = .ok t)
    (placed : ∀ m ∈ found, m.span.top = t.root) (helper : String) :
    ∀ e ∈ editsOf t helper found, e.1.start < e.1.stop ∧ e.1.stop ≤ text.length ∧
      0 < e.2.length := by
  intro e member
  obtain ⟨m, selected, rfl⟩ := mem_editsOf.mp member
  obtain ⟨solid, bounded⟩ :=
    cutOf_bounded read (placed m (outermost_spec.mp selected).1) helper (Tree.outermost found)
  exact ⟨solid, bounded, length_replacement_pos t helper _⟩

/-- Any two edits are the same one, or their ranges are apart. -/
theorem editsOf_apart (read : Tree.read text = .ok t)
    (placed : ∀ m ∈ found, m.span.top = t.root) (helper : String) :
    ∀ a ∈ editsOf t helper found, ∀ b ∈ editsOf t helper found,
      a = b ∨ a.1.stop ≤ b.1.start ∨ b.1.stop ≤ a.1.start := by
  intro a member b member'
  obtain ⟨m, selected, rfl⟩ := mem_editsOf.mp member
  obtain ⟨o, selected', rfl⟩ := mem_editsOf.mp member'
  by_cases same : m.span.path = o.span.path
  · left
    have top := (placed m (outermost_spec.mp selected).1).trans
      (placed o (outermost_spec.mp selected').1).symm
    have place : m.span = o.span := Site.eq_of_path top same
    have last := find_lastAt selected same
    rw [find_lastAt selected' rfl, Option.some_inj] at last
    rw [cutOf, cutOf, place, last]
  · exact .inr (cutOf_apart read placed selected selected' same helper (Tree.outermost found))

theorem edit_cutOf {span : Span} (member : m ∈ Tree.outermost found)
    (spans : m.span.node.span = some span) :
    (cutOf t helper (Tree.outermost found) m).edit = (span, t.textAt helper found m) := by
  rw [Cut.edit, span_cutOf spans, ← textAt_outermost member]
  rfl

/-- The edit of the repeated match is made once more right after the first time, and nothing else
changes. -/
theorem editsOf_repeated {span : Span} (read : Tree.read text = .ok t)
    (placed : ∀ o ∈ before ++ after, o.span.top = t.root)
    (member : m ∈ Tree.outermost (before ++ after)) (spans : m.span.node.span = some span)
    (same : t.textAt helper (before ++ m :: after) m = t.textAt helper (before ++ after) m) :
    let e := (span, t.textAt helper (before ++ after) m)
    ∃ later earlier, e ∉ later ∧ editsOf t helper (before ++ after) = later ++ e :: earlier ∧
      editsOf t helper (before ++ m :: after) = later ++ e :: e :: earlier := by
  intro e
  let edit (o : Match) := (cutOf t helper (Tree.outermost (before ++ after)) o).edit
  have first : edit m = e := edit_cutOf member spans
  have listed := (outermost_spec.mp member).1
  have patches := patch_outermost_repeated member same
  obtain ⟨front, back, once, twice⟩ := outermost_repeated member
  have edits : ∀ o ∈ Tree.outermost (before ++ m :: after),
      (cutOf t helper (Tree.outermost (before ++ m :: after)) o).edit = edit o := by
    intro o chosen
    have chosen' : o ∈ Tree.outermost (before ++ after) := by
      rw [once] at member ⊢
      rw [twice] at chosen
      exact (mem_repeated member).mp chosen
    exact congrArg Cut.edit (cutOf_congr chosen chosen' patches)
  obtain ⟨later, earlier, split, absent⟩ :=
    List.eq_append_cons_of_mem (mem_editsOf.mpr ⟨m, member, first⟩)
  refine ⟨later, earlier, absent, split, ?_⟩
  have perm : (editsOf t helper (before ++ m :: after)).Perm (later ++ e :: e :: earlier) := calc
    (editsOf t helper (before ++ m :: after)).Perm
        ((Tree.outermost (before ++ m :: after)).map edit) := by
      rw [← List.map_congr_left edits]
      exact editsOf_perm t helper _
    List.Perm _ (e :: (Tree.outermost (before ++ after)).map edit) := by
      rw [once, twice, ← first, ← List.map_cons]
      exact List.perm_middle.map edit
    List.Perm _ (e :: (later ++ e :: earlier)) := .cons _ (split ▸ (editsOf_perm t helper _).symm)
    List.Perm _ (later ++ e :: e :: earlier) := List.perm_middle.symm
  -- edits with one start are the same edit, so they have only one descending order
  have descends : Descending (later ++ e :: earlier) := split ▸ descending_lastFirst _
  refine (descending_lastFirst _).unique descends.again perm fun a ranged b ranged' start => ?_
  have placed' : ∀ o ∈ before ++ m :: after, o.span.top = t.root :=
    fun o repeated => placed o ((mem_repeated listed).mp repeated)
  have solid := (editsOf_bounded read placed' helper a ranged).1
  have solid' := (editsOf_bounded read placed' helper b ranged').1
  refine (editsOf_apart read placed' helper a ranged b ranged').resolve_right fun apart => ?_
  omega

/-! ## Making an edit again -/

/-- When the turn of an edit comes, the text still reaches beyond its start, and beyond its end just
when the source does. -/
theorem reached_of_split {later earlier : List (Span × String)} {e : Span × String}
    (read : Tree.read text = .ok t) (placed : ∀ m ∈ found, m.span.top = t.root)
    (split : editsOf t helper found = later ++ e :: earlier) (absent : e ∉ later) :
    e.1.start < (spliceAll later text.toList).length ∧
      ((spliceAll later text.toList).length ≤ e.1.stop ↔ text.length ≤ e.1.stop) := by
  have bounded := editsOf_bounded read placed helper
  have apart := editsOf_apart read placed helper
  have descends : Descending (later ++ e :: earlier) := split ▸ descending_lastFirst _
  rw [split] at bounded apart
  obtain ⟨solid, inside, -⟩ := bounded e (by simp)
  have solidLater : ∀ d ∈ later, d.1.start < d.1.stop ∧ d.1.stop ≤ text.length ∧ 0 < d.2.length :=
    fun d member => bounded d (List.mem_append_left _ member)
  have inserts : ∀ d ∈ later, 0 < d.2.length := fun d member => (solidLater d member).2.2
  -- the edits made before this one lie behind its range
  have behind : ∀ d ∈ later, e.1.stop ≤ d.1.start := by
    intro d member
    have solid' := (solidLater d member).1
    have order := (List.pairwise_append.mp descends).2.2 d member e List.mem_cons_self
    rcases apart d (List.mem_append_left _ member) e (by simp) with same | before | after
    · exact (absent (same ▸ member)).elim
    · omega
    · exact after
  have size : text.toList.length = text.length := String.length_toList
  constructor
  · refine lt_length_spliceAll inserts (fun d member => ?_) (by omega)
    exact solid.le.trans (behind d member)
  constructor
  · intro short
    by_contra long
    have : e.1.stop < (spliceAll later text.toList).length :=
      lt_length_spliceAll inserts behind (by omega)
    omega
  · intro short
    -- nothing can stand behind an edit at the end
    have none : later = [] := by
      refine List.eq_nil_iff_forall_not_mem.mpr fun d member => ?_
      have after := behind d member
      have := solidLater d member
      omega
    rw [none, spliceAll_nil]
    omega

/-- The edits at different places go down the text. -/
theorem editsOf_falling (read : Tree.read text = .ok t)
    (placed : ∀ m ∈ found, m.span.top = t.root)
    (distinct : (found.map fun m => m.span.path).Nodup) (helper : String) :
    (editsOf t helper found).Pairwise fun a b => b.1.stop ≤ a.1.start := by
  obtain ⟨new, spliced⟩ := exists_spliced read placed distinct helper
  rw [editsOf_of_spliced spliced (sortedCuts_perm helper).symm, List.pairwise_reverse,
    List.pairwise_map]
  exact sortedCuts_behind read placed distinct helper

theorem fits_iff {span : Span} {inserted : String} (source : t.source = some text)
    (spans : m.span.node.span = some span) (bounded : span.stop ≤ text.length) :
    t.Fits m.span inserted ↔ inserted.length = span.stop - span.start ∨
      inserted.length ≤ span.stop - span.start ∧ text.length ≤ span.stop := by
  have last : span.stop = text.length ↔ text.length ≤ span.stop :=
    ⟨fun same => same.ge, bounded.antisymm⟩
  constructor
  · rintro ⟨source', span', known, ranged, fits⟩
    cases source.symm.trans known
    cases spans.symm.trans ranged
    rwa [← last]
  · intro fits
    exact ⟨text, span, source, spans, by rwa [last]⟩

theorem apply_congr {found' : List Match} (same : Tree.outermost found' = Tree.outermost found) :
    t.apply helper found' = t.apply helper found := by
  unfold Tree.apply
  rw [same]

/-- Applying a list with a topmost match listed again makes one edit twice. -/
theorem apply_twice (read : Tree.read text = .ok t)
    (placed : ∀ o ∈ before ++ after, o.span.top = t.root) (helper : String)
    (member : m ∈ Tree.outermost (before ++ after))
    (same : t.textAt helper (before ++ m :: after) m = t.textAt helper (before ++ after) m) :
    ∃ span earlier reached,
      let inserted := t.textAt helper (before ++ after) m
      let once := Tree.splice reached span inserted
      let twice := Tree.splice once span inserted
      t.apply helper (before ++ after) = String.ofList (spliceAll earlier once) ∧
        t.apply helper (before ++ m :: after) = String.ofList (spliceAll earlier twice) ∧
        (twice = once ↔ t.Fits m.span inserted) ∧
        (((before ++ after).map fun m => m.span.path).Nodup →
          (spliceAll earlier twice = spliceAll earlier once ↔ twice = once)) := by
  have listed := (outermost_spec.mp member).1
  have placed' : ∀ o ∈ before ++ m :: after, o.span.top = t.root :=
    fun o repeated => placed o ((mem_repeated listed).mp repeated)
  obtain ⟨source, -⟩ := layout_of_read read
  obtain ⟨span, covers⟩ := covers_of_read read (placed m listed)
  obtain ⟨later, earlier, absent, once, twice⟩ :=
    editsOf_repeated read placed member covers.spans same
  obtain ⟨long, last⟩ := reached_of_split read placed once absent
  refine ⟨span, earlier, spliceAll later text.toList, ?_, ?_, ?_, ?_⟩
  · rw [apply_eq_spliceAll source (spanned_of_read read placed), once, spliceAll_append,
      spliceAll_cons]
  · rw [apply_eq_spliceAll source (spanned_of_read read placed'), twice, spliceAll_append,
      spliceAll_cons, spliceAll_cons]
  · rw [fits_iff source covers.spans covers.bounded, ← last]
    exact splice_again_iff long.le covers.solid.le
  · intro distinct
    have falling := editsOf_falling read placed distinct helper
    rw [once, List.pairwise_append, List.pairwise_cons] at falling
    obtain ⟨-, ⟨before, apart⟩, -⟩ := falling
    refine spliceAll_again_iff (fun e member => ?_) apart before long.le
    exact (editsOf_bounded read placed helper e (by simp [once, member])).1.le

/-- Of matches at different places none decides for another one. -/
theorem textAt_repeated (distinct : ((before ++ after).map fun m => m.span.path).Nodup)
    (listed : m ∈ before ++ after) :
    t.textAt helper (before ++ m :: after) m = t.textAt helper (before ++ after) m := by
  obtain ⟨listed', path⟩ := lastAt_spec ((mem_repeated listed).mpr listed)
  have last : Tree.lastAt (before ++ m :: after) m = m :=
    List.inj_on_of_nodup_map distinct ((mem_repeated listed).mp listed') listed path
  rw [Tree.textAt, Tree.textAt, last, lastAt_eq distinct listed]

/-- Written out without a source, a tree takes a match that is listed again like one listed once. -/
theorem sourceless_apply_repeated (member : m ∈ Tree.outermost (before ++ after))
    (same : t.sourceless.textAt helper (before ++ m :: after) m =
      t.sourceless.textAt helper (before ++ after) m) :
    t.sourceless.apply helper (before ++ m :: after) =
      t.sourceless.apply helper (before ++ after) :=
  congrArg t.root.renderWith (patch_outermost_repeated member same)

/-- Listing a match again, at any position, changes nothing when the tree is written out without a
source, provided that the last match for its place still asks for the same text. With a source that
text has to fit the place, too. Of matches at different places one that lies below another one can
always be listed again, and a topmost one just when its replacement fits. -/
theorem apply_repeated (read : Tree.read text = .ok t)
    (placed : ∀ o ∈ before ++ after, o.span.top = t.root) (listed : m ∈ before ++ after)
    (helper : String) :
    let found := before ++ after
    let again := before ++ m :: after
    ((m.IsTopmost found →
        t.sourceless.textAt helper again m = t.sourceless.textAt helper found m) →
      t.sourceless.apply helper again = t.sourceless.apply helper found) ∧
    ((m.IsTopmost found → t.textAt helper again m = t.textAt helper found m ∧
        t.Fits m.span (t.textAt helper found m)) →
      t.apply helper again = t.apply helper found) ∧
    ((found.map Match.span).Nodup →
      t.sourceless.apply helper again = t.sourceless.apply helper found ∧
      (t.apply helper again = t.apply helper found ↔
        (m.IsTopmost found → t.Fits m.span (t.replacement helper m)))) := by
  intro found again
  by_cases member : m ∈ Tree.outermost found
  · have topmost := (mem_outermost_iff placed).mp member
    refine ⟨fun same => sourceless_apply_repeated member (same topmost), fun settled => ?_,
      fun distinct => ?_⟩
    · obtain ⟨same, fits⟩ := settled topmost
      obtain ⟨span, earlier, reached, once, twice, fitting, -⟩ :=
        apply_twice read placed helper member same
      rw [once, twice, fitting.mpr fits]
    · have paths := distinct_paths placed distinct
      refine ⟨sourceless_apply_repeated member (textAt_repeated paths listed), ?_⟩
      obtain ⟨span, earlier, reached, once, twice, fitting, seen⟩ :=
        apply_twice read placed helper member (textAt_repeated paths listed)
      have text : t.textAt helper found m = t.replacement helper m := by
        rw [Tree.textAt, lastAt_eq paths listed]
      rw [once, twice, String.ofList_inj, seen paths, fitting, text]
      exact ⟨fun fits _ => fits, fun fits => fits topmost⟩
  · have below : ¬m.IsTopmost found := mt (mem_outermost_iff placed).mpr member
    have same := outermost_repeated_below listed member
    exact ⟨fun _ => apply_congr same, fun _ => apply_congr same, fun _ =>
      ⟨apply_congr same, iff_of_true (apply_congr same) fun topmost => (below topmost).elim⟩⟩

end

/-- The call of a helper with a name of five letters is as long as the call that it replaces, so the
match may be listed again on either side of another one. -/
theorem apply_repeated_fitting :
    ∃ t m o, Tree.read "a.equals(b) || x" = .ok t ∧ m.span.path = [0] ∧ o.span.path = [1] ∧
      t.apply "equal" [m, o] = "equal(a, b) || !equal(x, a)" ∧
      t.apply "equal" [m, o, m] = t.apply "equal" [m, o] ∧
      t.sourceless.apply "equal" [m, o, m] = t.sourceless.apply "equal" [m, o] := by
  let a := Expr.name "a" (some ⟨0, 1⟩)
  let b := Expr.name "b" (some ⟨9, 10⟩)
  let x := Expr.name "x" (some ⟨15, 16⟩)
  let call := Expr.invoke a "equals" [b] (some ⟨0, 11⟩)
  let t : Tree := ⟨.binary .or call x (some ⟨0, 16⟩), some "a.equals(b) || x"⟩
  let place : Site := ⟨call, [.leftOf .or x (some ⟨0, 16⟩)]⟩
  let other : Site := ⟨x, [.rightOf .or call (some ⟨0, 16⟩)]⟩
  let left := place.down (.receiverOf "equals" [b] (some ⟨0, 11⟩)) a
  let right := place.down (.argOfInvoke a "equals" [] [] (some ⟨0, 11⟩)) b
  let m : Match := ⟨place, left, right, false, .directCall⟩
  let o : Match := ⟨other, other, left, true, .binary⟩
  have read : Tree.read "a.equals(b) || x" = .ok t := rfl
  have placed : ∀ n ∈ [m, o] ++ [], n.span.top = t.root :=
    List.forall_mem_cons.mpr ⟨rfl, List.forall_mem_cons.mpr ⟨rfl, nofun⟩⟩
  have listed : m ∈ [m, o] ++ [] := List.mem_cons_self
  have last : Tree.lastAt [m, o] m = m := rfl
  have again : Tree.lastAt [m, o, m] m = Tree.lastAt [m, o] m := rfl
  have fits : t.Fits m.span (t.textAt "equal" [m, o] m) :=
    ⟨"a.equals(b) || x", ⟨0, 11⟩, rfl, rfl, .inl (by rw [Tree.textAt, last]; cbv)⟩
  have applied : t.apply "equal" [m, o] = "equal(a, b) || !equal(x, a)" := by cbv
  obtain ⟨written, spliced, -⟩ := apply_repeated read placed listed "equal"
  exact ⟨t, m, o, read, rfl, rfl, applied,
    spliced fun _ => ⟨congrArg (t.replacement "equal") again, fits⟩,
    written fun _ => congrArg (t.sourceless.replacement "equal") again⟩

/-- The call of the standard helper is longer than the call that it replaces: listed again, it is
put over the front part of itself, unless the tree is written out without its source. -/
theorem apply_repeated_longer :
    ∃ t m, Tree.read "a.equals(b)" = .ok t ∧ m.span = .root t.root ∧
      t.apply standardHelper [m] = "java.util.Objects.equals(a, b)" ∧
      t.apply standardHelper [m, m] = "java.util.Objects.equals(a, b)bjects.equals(a, b)" ∧
      t.sourceless.apply standardHelper [m, m] = "java.util.Objects.equals(a, b)" := by
  let a := Expr.name "a" (some ⟨0, 1⟩)
  let b := Expr.name "b" (some ⟨9, 10⟩)
  let call := Expr.invoke a "equals" [b] (some ⟨0, 11⟩)
  let t : Tree := ⟨call, some "a.equals(b)"⟩
  let left := (Site.root call).down (.receiverOf "equals" [b] (some ⟨0, 11⟩)) a
  let right := (Site.root call).down (.argOfInvoke a "equals" [] [] (some ⟨0, 11⟩)) b
  let m : Match := ⟨.root call, left, right, false, .directCall⟩
  exact ⟨t, m, rfl, rfl, by cbv, by cbv, by cbv⟩

end NullSafeEq
