import NullSafeEq.Proofs.Rewriting.Application

/-!
# Cutting out the topmost places

Matches may be placed at any nodes of a tree that has been read, with any operands. The places that
lie below no other one cover ranges of the text that are apart from each other. Applying the matches
replaces just these ranges and keeps the characters between them, in whatever order the matches are
listed.
-/
namespace NullSafeEq

/-- The match is listed, and no listed match is placed above it. -/
def Match.IsTopmost (m : Match) (found : List Match) : Prop :=
  m ∈ found ∧ ∀ other ∈ found, other.span ∉ m.span.ancestors

/-- The cut takes the place of the match out and puts the helper call there. -/
structure Cut.Replaces (c : Cut) (t : Tree) (helper : String) (m : Match) : Prop where
  path : c.path = m.span.path
  span : m.span.node.span = some c.span
  text : c.text = t.replacement helper m

section
variable {t : Tree} {text : String} {found order : List Match} {m m' : Match}

theorem mem_outermost_iff (placed : ∀ m ∈ found, m.span.top = t.root) :
    m ∈ Tree.outermost found ↔ m.IsTopmost found := by
  refine outermost_spec.trans (and_congr_right fun member => forall₂_congr fun other listed => ?_)
  have top : m.span.top = other.span.top := (placed m member).trans (placed other listed).symm
  rw [← Bool.not_eq_true, Site.isAbove_iff_mem_ancestors top]

/-- In one tree different places have different paths. -/
theorem distinct_paths (placed : ∀ m ∈ found, m.span.top = t.root)
    (distinct : (found.map Match.span).Nodup) : (found.map fun m => m.span.path).Nodup := by
  refine List.pairwise_map.mpr ((List.pairwise_map.mp distinct).imp_of_mem ?_)
  intro a b listed listed' differs same
  exact differs (Site.eq_of_path ((placed a listed).trans (placed b listed').symm) same)

/-- Outermost matches at different places have ranges one behind the other. -/
theorem outermost_apart (read : Tree.read text = .ok t)
    (placed : ∀ m ∈ found, m.span.top = t.root) (member : m ∈ Tree.outermost found)
    (member' : m' ∈ Tree.outermost found) (differs : m.span.path ≠ m'.span.path) :
    m.span.node.Precedes m'.span.node ∨ m'.span.node.Precedes m.span.node := by
  obtain ⟨listed, highest⟩ := outermost_spec.mp member
  obtain ⟨listed', highest'⟩ := outermost_spec.mp member'
  exact precedes_of_apart read (placed m listed) (placed m' listed')
    (fun same => differs (congrArg Site.path same)) (highest' m listed) (highest m' listed')

/-! ## The cuts of the outermost matches -/

theorem span_cutOf {helper : String} {selected : List Match} {span : Span}
    (spans : m.span.node.span = some span) : (cutOf t helper selected m).span = span := by
  rw [cutOf, spans, Option.getD_some]

theorem cutOf_bounded (read : Tree.read text = .ok t) (top : m.span.top = t.root)
    (helper : String) (selected : List Match) :
    (cutOf t helper selected m).span.start < (cutOf t helper selected m).span.stop ∧
      (cutOf t helper selected m).span.stop ≤ text.length := by
  obtain ⟨span, covers⟩ := covers_of_read read top
  rw [span_cutOf covers.spans]
  exact ⟨covers.solid, covers.bounded⟩

theorem cutOf_apart (read : Tree.read text = .ok t) (placed : ∀ m ∈ found, m.span.top = t.root)
    (member : m ∈ Tree.outermost found) (member' : m' ∈ Tree.outermost found)
    (differs : m.span.path ≠ m'.span.path) (helper : String) (selected : List Match) :
    (cutOf t helper selected m).span.stop ≤ (cutOf t helper selected m').span.start ∨
      (cutOf t helper selected m').span.stop ≤ (cutOf t helper selected m).span.start := by
  rcases outermost_apart read placed member member' differs with
    ⟨x, y, spans, spans', le⟩ | ⟨x, y, spans, spans', le⟩
  · exact .inl (by rwa [span_cutOf spans, span_cutOf spans'])
  · exact .inr (by rwa [span_cutOf spans, span_cutOf spans'])

/-- The cuts of the outermost matches, from the first to the last. -/
def sortedCuts (t : Tree) (helper : String) (found : List Match) : List Cut :=
  ((Tree.outermost found).map (cutOf t helper (Tree.outermost found))).mergeSort
    fun a b => a.span.start ≤ b.span.start

theorem sortedCuts_perm (helper : String) : (sortedCuts t helper found).Perm
    ((Tree.outermost found).map (cutOf t helper (Tree.outermost found))) :=
  List.mergeSort_perm _ _

theorem mem_sortedCuts {helper : String} {c : Cut} : c ∈ sortedCuts t helper found ↔
    ∃ m ∈ Tree.outermost found, cutOf t helper (Tree.outermost found) m = c :=
  (sortedCuts_perm helper).mem_iff.trans List.mem_map

theorem sortedCuts_ascending (helper : String) :
    (sortedCuts t helper found).Pairwise fun a b => a.span.start ≤ b.span.start :=
  List.pairwise_mergeSort' (Order.Preimage (fun c : Cut => c.span.start) (· ≤ ·)) _

theorem sortedCuts_bounded (read : Tree.read text = .ok t)
    (placed : ∀ m ∈ found, m.span.top = t.root) {helper : String} {c : Cut}
    (member : c ∈ sortedCuts t helper found) :
    c.span.start < c.span.stop ∧ c.span.stop ≤ text.length := by
  obtain ⟨m, selected, rfl⟩ := mem_sortedCuts.mp member
  exact cutOf_bounded read (placed m (outermost_spec.mp selected).1) helper _

theorem sortedCuts_apart (read : Tree.read text = .ok t)
    (placed : ∀ m ∈ found, m.span.top = t.root)
    (distinct : (found.map fun m => m.span.path).Nodup) (helper : String) :
    (sortedCuts t helper found).Pairwise fun a b =>
      a.span.stop ≤ b.span.start ∨ b.span.stop ≤ a.span.start := by
  rw [(sortedCuts_perm helper).pairwise_iff Or.symm, List.pairwise_map]
  refine (List.pairwise_map.mp (outermost_distinct distinct)).imp_of_mem ?_
  intro m m' member member' differs
  exact cutOf_apart read placed member member' differs helper _

theorem sortedCuts_behind (read : Tree.read text = .ok t)
    (placed : ∀ m ∈ found, m.span.top = t.root)
    (distinct : (found.map fun m => m.span.path).Nodup) (helper : String) :
    (sortedCuts t helper found).Pairwise fun a b => a.span.stop ≤ b.span.start := by
  have order := (sortedCuts_apart read placed distinct helper).and (sortedCuts_ascending helper)
  refine order.imp_of_mem fun {a b} _ member order => ?_
  have := (sortedCuts_bounded read placed member).1
  omega

/-- The places of the outermost matches can be replaced one after the other. -/
theorem exists_spliced (read : Tree.read text = .ok t)
    (placed : ∀ m ∈ found, m.span.top = t.root)
    (distinct : (found.map fun m => m.span.path).Nodup) (helper : String) :
    ∃ new, Spliced 0 text.toList new (sortedCuts t helper found) := by
  refine Spliced.exists_of_apart (fun c member => (sortedCuts_bounded read placed member).1)
    (fun c member => ⟨Nat.zero_le _, ?_⟩) (sortedCuts_behind read placed distinct helper)
  rw [Nat.zero_add, String.length_toList]
  exact (sortedCuts_bounded read placed member).2

/-- The texts that take the places of the outermost matches stand in the new text. -/
theorem infix_apply (read : Tree.read text = .ok t) (placed : ∀ m ∈ found, m.span.top = t.root)
    (distinct : (found.map fun m => m.span.path).Nodup) (member : m ∈ Tree.outermost found)
    (helper : String) : (t.replacement helper m).toList <:+: (t.apply helper found).toList := by
  obtain ⟨source, -⟩ := layout_of_read read
  obtain ⟨new, spliced⟩ := exists_spliced read placed distinct helper
  have part := spliced.infix_of_mem (mem_sortedCuts.mpr ⟨m, member, rfl⟩)
  rw [cutOf, lastAt_eq (outermost_distinct distinct) member] at part
  rwa [apply_of_spliced source (spanned_of_read read placed) spliced (sortedCuts_perm _).symm,
    String.toList_ofList]

/-! ## The order of the matches -/

theorem outermost_perm (perm : order.Perm found) :
    (Tree.outermost order).Perm (Tree.outermost found) := by
  have below (m : Match) : (order.any fun other => other.span.isAbove m.span) =
      found.any fun other => other.span.isAbove m.span := perm.any_eq
  unfold Tree.outermost
  simp only [below]
  exact perm.filter _

/-- The cuts do not depend on the order in which the matches are listed. -/
theorem cuts_perm (perm : order.Perm found) (distinct : (found.map fun m => m.span.path).Nodup)
    (helper : String) : ((Tree.outermost order).map (cutOf t helper (Tree.outermost order))).Perm
      ((Tree.outermost found).map (cutOf t helper (Tree.outermost found))) := by
  have distinct' : (order.map fun m => m.span.path).Nodup := (perm.map _).nodup_iff.mpr distinct
  have same : ∀ m ∈ Tree.outermost order, cutOf t helper (Tree.outermost order) m =
      cutOf t helper (Tree.outermost found) m := by
    intro m member
    have member' := (outermost_perm perm).mem_iff.mp member
    rw [cutOf, cutOf, lastAt_eq (outermost_distinct distinct') member,
      lastAt_eq (outermost_distinct distinct) member']
  rw [List.map_congr_left same]
  exact (outermost_perm perm).map _

theorem cutOf_eq_iff {helper : String} {selected : List Match} {c : Cut}
    (read : Tree.read text = .ok t) (top : m.span.top = t.root)
    (alone : Tree.lastAt selected m = m) :
    cutOf t helper selected m = c ↔ c.Replaces t helper m := by
  obtain ⟨span, covers⟩ := covers_of_read read top
  have spans := covers.spans
  unfold cutOf
  rw [alone, spans, Option.getD_some]
  constructor
  · rintro rfl
    exact ⟨rfl, spans, rfl⟩
  · rintro ⟨path, span', replacement⟩
    obtain ⟨p, range, inserted⟩ := c
    cases spans.symm.trans span'
    rw [← path, ← replacement]

/-- Matches at different places of a tree that has been read, with any operands, may be listed in
any order: applying them cuts the topmost places out of the text, puts the replacement of its match
in each of them, and keeps all other characters. -/
theorem apply_splices (read : Tree.read text = .ok t) (placed : ∀ m ∈ found, m.span.top = t.root)
    (distinct : (found.map Match.span).Nodup) (helper : String) :
    ∃ cuts new, Spliced 0 text.toList new cuts ∧
      (∀ c, c ∈ cuts ↔ ∃ m, m.IsTopmost found ∧ c.Replaces t helper m) ∧
      ∀ order, order.Perm found → t.apply helper order = String.ofList new := by
  have paths := distinct_paths placed distinct
  obtain ⟨new, spliced⟩ := exists_spliced read placed paths helper
  refine ⟨sortedCuts t helper found, new, spliced, fun c => ?_, fun order perm => ?_⟩
  · refine mem_sortedCuts.trans (exists_congr fun m => ?_)
    rw [← mem_outermost_iff placed]
    refine and_congr_right fun member => ?_
    exact cutOf_eq_iff read (placed m (outermost_spec.mp member).1)
      (lastAt_eq (outermost_distinct paths) member)
  · obtain ⟨source, -⟩ := layout_of_read read
    have placed' : ∀ m ∈ order, m.span.top = t.root :=
      fun m listed => placed m (perm.mem_iff.mp listed)
    exact apply_of_spliced source (spanned_of_read read placed') spliced
      ((cuts_perm perm paths helper).trans (sortedCuts_perm helper).symm)

end

/-- Of three matches the one in the argument of the call is left out, and an operand may be the
whole expression. -/
theorem apply_splices_nested :
    let result := "!eq(b, b) + eq(a + f( b ), a)"
    ∃ t found, Tree.read "a + f( b )" = .ok t ∧
      found.map (fun m => m.span.path) = [[1, 0], [0], [1]] ∧
      ∃ cuts, Spliced 0 "a + f( b )".toList result.toList cuts ∧
        (∀ c, c ∈ cuts ↔ ∃ m, m.IsTopmost found ∧ c.Replaces t "eq" m) ∧
        ∀ order, order.Perm found → t.apply "eq" order = result := by
  intro result
  let a := Expr.name "a" (some ⟨0, 1⟩)
  let b := Expr.name "b" (some ⟨7, 8⟩)
  let call := Expr.call "f" [b] (some ⟨4, 10⟩)
  let whole := Expr.binary .add a call (some ⟨0, 10⟩)
  let t : Tree := ⟨whole, some "a + f( b )"⟩
  let left : Site := ⟨a, [.leftOf .add call (some ⟨0, 10⟩)]⟩
  let right : Site := ⟨call, [.rightOf .add a (some ⟨0, 10⟩)]⟩
  let inner : Site := right.down (.argOfCall "f" [] [] (some ⟨4, 10⟩)) b
  let found : List Match := [⟨inner, left, left, false, .binary⟩,
    ⟨left, inner, inner, true, .directCall⟩, ⟨right, .root whole, left, false, .conditional⟩]
  have read : Tree.read "a + f( b )" = .ok t := rfl
  have placed : ∀ m ∈ found, m.span.top = t.root := by
    simp only [found, List.forall_mem_cons]
    exact ⟨rfl, rfl, rfl, nofun⟩
  have distinct : (found.map Match.span).Nodup := List.Nodup.of_map Site.path (by decide)
  have applied : t.apply "eq" found = result := by cbv
  obtain ⟨cuts, new, spliced, replaced, same⟩ := apply_splices read placed distinct "eq"
  have all := (same found (.refl _)).symm.trans applied
  have text : new = result.toList := by rw [← all, String.toList_ofList]
  exact ⟨t, found, read, rfl, cuts, text ▸ spliced, replaced, fun order perm =>
    (same order perm).trans all⟩

end NullSafeEq
