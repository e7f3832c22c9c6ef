import NullSafeEq.Proofs.Reading.Spans
import NullSafeEq.Proofs.Rewriting.Regrowth

/-!
# Applying matches to a text

Applying matches to the tree of a text gives a text that is read as the tree in which the place of
every outermost match is taken by the helper call on its operands.
-/
namespace NullSafeEq

/-- What takes the place of a match: the helper called on its operands, behind a `!` when the
match is negated. -/
def Match.rewritten (helper : DottedName) (m : Match) : Expr :=
  let call := helper.call [m.left.node, m.right.node]
  if m.negated then .prefixed .not call none else call

/-- The matches of a list as grafts. -/
def Match.grafts (helper : DottedName) (selected : List Match) : Grafts := fun path =>
  (selected.reverse.find? fun m => m.span.path == path).map (Match.rewritten helper)

/-- The match lies in an expression, and what it replaces binds no tighter than its replacement. -/
structure Match.In (m : Match) (root : Expr) : Prop where
  span : m.span.top = root
  left : m.left.top = root
  right : m.right.top = root
  loose : m.negated = true → m.span.node.level ≤ 8

theorem Expr.level_le (e : Expr) : e.level ≤ 9 := by
  cases e with
  | binary op l r => exact Nat.le_trans op.level_le (by decide)
  | prefixed op =>
    cases op with
    | not => exact Nat.le_succ 8
    | negate | plus => exact Nat.le_add_right 7 2
  | conditional => exact Nat.zero_le 9
  | cast => exact Nat.le_succ 8
  | _ => exact Nat.le_refl 9

theorem DottedName.level_call (n : DottedName) (args : List Expr) : (n.call args).level = 9 := by
  cases n <;> rfl

/-- The text of a node lays out the node. -/
def Tree.Shows (t : Tree) (e : Expr) : Prop :=
  ∃ items, LaysOut .operand items e ∧ typeset items = (t.textOf e).toList

namespace Match
variable {m : Match} {root : Expr} {n : DottedName}

theorem In.level_le (h : m.In root) : m.span.node.level ≤ (m.rewritten n).level := by
  unfold rewritten
  by_cases negated : m.negated = true
  · rw [if_pos negated]
    exact h.loose negated
  · rw [if_neg negated, n.level_call]
    exact m.span.node.level_le

/-- The text of a replacement lays out what takes the place of the match. -/
theorem prints_rewritten {t : Tree} (valid : n.Valid) (left : t.Shows m.left.node)
    (right : t.Shows m.right.node) : Prints (t.replacement n.text m) (m.rewritten n) := by
  have args : List.Forall₂ Prints [t.textOf m.left.node, t.textOf m.right.node]
      [m.left.node, m.right.node] := .cons left (.cons right .nil)
  have call := n.prints_call valid args
  unfold rewritten Tree.replacement
  by_cases negated : m.negated = true
  · rw [if_pos negated, if_pos negated]
    have bang : PrintsParts .operand "!" [.token .bang] .operand := .token (by rintro ⟨⟩)
    have tight : (Expr.prefixed .not (n.call [m.left.node, m.right.node]) none).Leveled := by
      show 7 ≤ _
      rw [n.level_call]
      decide
    exact .ofParts tight (bang.append (call.sub (.inl rfl) 0) (by decide))
      (by simp [Expr.argumentList, String.intercalate_cons_cons])
  · rw [if_neg negated, if_neg negated]
    obtain ⟨items, lays, same⟩ := call
    refine ⟨items, lays, same.trans ?_⟩
    simp [Expr.argumentList, String.intercalate_cons_cons]

end Match

section
variable {t : Tree} {n : DottedName} {found selected : List Match} {m : Match}

theorem find_lastAt (member : m ∈ selected) {path : Path} (same : m.span.path = path) :
    (selected.reverse.find? fun m => m.span.path == path) = some (Tree.lastAt selected m) := by
  subst same
  obtain ⟨last, found⟩ : ∃ last, (selected.reverse.find? fun o => o.span.path == m.span.path) =
      some last := by
    apply Option.isSome_iff_exists.mp
    rw [List.find?_isSome]
    exact ⟨m, List.mem_reverse.mpr member, by simp⟩
  have sameAs : Tree.lastAt selected m = last := by
    unfold Tree.lastAt Site.sameAs
    rw [found]
    rfl
  rw [found, sameAs]

/-- The texts and the expressions that replace matches agree. -/
theorem agree_of_in (inside : ∀ m ∈ selected, m.In t.root) (valid : n.Valid)
    (shows : ∀ s : Site, s.top = t.root → t.Shows s.node) :
    Agree (t.patch n.text selected) (Match.grafts n selected) t.root := by
  intro path node atPath
  unfold Tree.patch Match.grafts
  cases found : selected.reverse.find? fun m => m.span.path == path with
  | none => exact .inl ⟨rfl, rfl⟩
  | some m =>
    have member : m ∈ selected := List.mem_reverse.mp (List.mem_of_find?_eq_some found)
    have samePath : m.span.path = path := by simpa using List.find?_some found
    have lies := inside m member
    obtain ⟨is, lays, laid⟩ :=
      m.prints_rewritten valid (shows m.left lies.left) (shows m.right lies.right)
    have sameNode : m.span.node = node := by
      have := m.span.at?_path
      rw [lies.span, samePath, atPath] at this
      exact (Option.some.inj this).symm
    refine .inr ⟨_, _, is, rfl, rfl, ?_, lays, laid⟩
    rw [← sameNode]
    exact lies.level_le

/-- An outermost match lies below no other match. -/
theorem outermost_spec : m ∈ Tree.outermost found ↔
    m ∈ found ∧ ∀ other ∈ found, other.span.isAbove m.span = false := by
  simp [Tree.outermost]

theorem outermost_distinct (distinct : (found.map fun m => m.span.path).Nodup) :
    ((Tree.outermost found).map fun m => m.span.path).Nodup :=
  distinct.sublist (List.filter_sublist.map _)

theorem lastAt_spec (member : m ∈ found) :
    Tree.lastAt found m ∈ found ∧ (Tree.lastAt found m).span.path = m.span.path := by
  have last := find_lastAt member rfl
  exact ⟨List.mem_reverse.mp (List.mem_of_find?_eq_some last), by simpa using List.find?_some last⟩

/-- Of matches at different places only the match itself has its place. -/
theorem lastAt_eq (distinct : (found.map fun m => m.span.path).Nodup) (member : m ∈ found) :
    Tree.lastAt found m = m :=
  List.inj_on_of_nodup_map distinct (lastAt_spec member).1 member (lastAt_spec member).2

theorem mapM_of_some {α β : Type} {f : α → Option β} {h : α → β} {l : List α}
    (each : ∀ x ∈ l, f x = some (h x)) : l.mapM f = some (l.map h) := by
  induction l with
  | nil => rfl
  | cons x l ih =>
    obtain ⟨first, rest⟩ := List.forall_mem_cons.mp each
    rw [List.mapM_cons, first, ih rest]
    rfl

/-- The cut of a match that is applied. -/
def cutOf (t : Tree) (helper : String) (selected : List Match) (m : Match) : Cut where
  path := m.span.path
  span := m.span.node.span.getD ⟨0, 0⟩
  text := t.replacement helper (Tree.lastAt selected m)

theorem mem_cuts {c : Cut} (inside : ∀ m ∈ found, m.In t.root)
    (spanned : ∀ m ∈ found, ∃ span, m.span.node.span = some span) :
    c ∈ (Tree.outermost found).map (cutOf t n.text (Tree.outermost found)) ↔
      CutAt (t.patch n.text (Tree.outermost found)) t.root c := by
  rw [List.mem_map]
  constructor
  · rintro ⟨m, member, rfl⟩
    obtain ⟨listed, highest⟩ := outermost_spec.mp member
    obtain ⟨span, same⟩ := spanned m listed
    refine ⟨m.span.node, ?_, ?_, ?_, ?_⟩
    · rw [← (inside m listed).span]
      exact m.span.at?_path
    · rw [cutOf, same]
      rfl
    · have last := find_lastAt member rfl
      exact congrArg (Option.map (t.replacement n.text)) last
    · intro p below differs
      unfold Tree.patch
      rw [Option.map_eq_none_iff, List.find?_eq_none]
      intro other otherMember otherPath
      have otherListed := (outermost_spec.mp (List.mem_reverse.mp otherMember)).1
      obtain rfl : other.span.path = p := by simpa using otherPath
      have above := highest other otherListed
      rw [isAbove_iff.mpr ⟨below, differs⟩] at above
      cases above
  · rintro ⟨node, atPath, located, replaced, -⟩
    unfold Tree.patch at replaced
    obtain ⟨m, found, text⟩ := Option.map_eq_some_iff.mp replaced
    have member := List.mem_reverse.mp (List.mem_of_find?_eq_some found)
    have samePath : m.span.path = c.path := by simpa using List.find?_some found
    have last := find_lastAt member samePath
    rw [found] at last
    have sameNode : m.span.node = node := by
      have := m.span.at?_path
      rw [(inside m (outermost_spec.mp member).1).span, samePath, atPath] at this
      exact (Option.some.inj this).symm
    refine ⟨m, member, ?_⟩
    obtain ⟨path, range, replacement⟩ := c
    unfold cutOf
    rw [samePath, sameNode, located, ← Option.some.inj last, text]
    rfl

/-- The edits that apply the outermost matches, the last start first. -/
def editsOf (t : Tree) (helper : String) (found : List Match) : List (Span × String) :=
  lastFirst ((Tree.outermost found).map fun m => (cutOf t helper (Tree.outermost found) m).edit)

/-- Where all places are known the replacements are spliced in, the last start first. -/
theorem apply_eq_spliceAll {text helper : String} (source : t.source = some text)
    (spanned : ∀ m ∈ found, ∃ span, m.span.node.span = some span) :
    t.apply helper found = String.ofList (spliceAll (editsOf t helper found) text.toList) := by
  have each : ∀ m ∈ Tree.outermost found, t.edit? helper (Tree.outermost found) m =
      some (cutOf t helper (Tree.outermost found) m).edit := by
    intro m member
    obtain ⟨span, same⟩ := spanned m (outermost_spec.mp member).1
    rw [Tree.edit?, Cut.edit, cutOf, same]
    rfl
  have edits := mapM_of_some each
  rw [Tree.apply, source]
  simp only [Tree.edits?, edits, Option.map_some]
  rfl

theorem editsOf_of_spliced {o : Nat} {helper : String} {cuts : List Cut} {old new : List Char}
    (spliced : Spliced o old new cuts)
    (perm : ((Tree.outermost found).map (cutOf t helper (Tree.outermost found))).Perm cuts) :
    editsOf t helper found = (cuts.map Cut.edit).reverse := by
  have mapped := perm.map Cut.edit
  rw [List.map_map] at mapped
  exact spliced.lastFirst_eq mapped

/-- Applying matches replaces the ranges of the outermost ones. -/
theorem apply_of_spliced {text helper : String} {cuts : List Cut} {new : List Char}
    (source : t.source = some text) (spanned : ∀ m ∈ found, ∃ span, m.span.node.span = some span)
    (spliced : Spliced 0 text.toList new cuts)
    (perm : ((Tree.outermost found).map (cutOf t helper (Tree.outermost found))).Perm cuts) :
    t.apply helper found = String.ofList new := by
  rw [apply_eq_spliceAll source spanned, editsOf_of_spliced spliced perm]
  exact congrArg String.ofList (spliced.spliceAll_reverse (rfl : ([] : List Char).length = 0))

theorem placed_of_in (inside : ∀ m ∈ found, m.In t.root) : ∀ m ∈ found, m.span.top = t.root :=
  fun m member => (inside m member).span

/-- In a tree that has been read all ranges are known. -/
theorem spanned_of_read {text : String} (read : Tree.read text = .ok t)
    (placed : ∀ m ∈ found, m.span.top = t.root) :
    ∀ m ∈ found, ∃ span, m.span.node.span = some span :=
  fun m member => (covers_of_read read (placed m member)).imp fun _ covers => covers.spans

/-- Applying matches at different places to the tree of a text gives a text that is read as the
tree with the outermost ones replaced. -/
theorem read_apply {text : String} (read : Tree.read text = .ok t) (valid : n.Valid)
    (inside : ∀ m ∈ found, m.In t.root) (distinct : (found.map fun m => m.span.path).Nodup) :
    ∃ t', Tree.read (t.apply n.text found) = .ok t' ∧
      t'.root.unspanned = (t.root.graft (Match.grafts n (Tree.outermost found))).unspanned := by
  obtain ⟨source, items, tail, same, blank, written, lays⟩ := layout_of_read read
  have stands : Stands 0 .operand items t.root := ⟨written, lays, .inl rfl⟩
  have insideOuter := fun m member => inside m (outermost_spec.mp member).1
  have shows (s : Site) (top : s.top = t.root) : t.Shows s.node := by
    obtain ⟨is, laysNode, textNode⟩ := textOf_eq source same stands (top ▸ s.at?_path)
    exact ⟨is, laysNode, textNode.symm⟩
  have agree := agree_of_in insideOuter valid shows
  obtain ⟨items', cuts, lays', spliced, listed⟩ := regrows agree 0 .operand items stands
  have spanned := spanned_of_read read (placed_of_in inside)
  have perm : ((Tree.outermost found).map (cutOf t n.text (Tree.outermost found))).Perm cuts := by
    refine (List.perm_ext_iff_of_nodup ?_ spliced.nodup).mpr fun c => ?_
    · refine List.Nodup.of_map Cut.path ?_
      rw [List.map_map]
      exact outermost_distinct distinct
    · rw [mem_cuts inside spanned, listed]
  have whole : Spliced 0 text.toList (typeset items' ++ tail) cuts := by
    rw [same]
    have := spliced.append (.keep _ tail)
    rwa [List.append_nil] at this
  rw [apply_of_spliced source spanned whole perm]
  exact lays'.read blank

end

end NullSafeEq
