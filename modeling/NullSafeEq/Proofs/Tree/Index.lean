import NullSafeEq.Expr.Index
import NullSafeEq.Proofs.Tree.Walk

/-!
# The index agrees with the expression

A walk from a stack visits the sites of the stack one after the other, each with all that lies
below it in pre-order. The entries of the index are the children of the sites that are visited, so
a look-up in it has the answer that the frames around a site give at once. What these answers are
is said by the relation of a site to its children alone.
-/
namespace NullSafeEq

open Relation

namespace Site
variable {a c p s : Site} {skip : Expr → Bool}

/-- The second site is a direct child of the first. -/
def HasChild (p c : Site) : Prop := c ∈ p.children

theorem parent_cons (e : Expr) (f : Frame) (fs : List Frame) :
    parent? ⟨e, f :: fs⟩ = some ⟨f.fill e, fs⟩ := rfl

theorem hasChild_iff : p.HasChild c ↔ c.parent? = some p := by
  obtain ⟨e, above⟩ := c
  constructor
  · intro child
    obtain ⟨⟨f, o⟩, opening, same⟩ := List.mem_map.mp child
    cases same
    rw [parent_cons, Expr.fill_of_mem_openings opening]
  · intro parent
    cases above with
    | nil => cases parent
    | cons f fs =>
      cases parent
      exact List.mem_map.mpr ⟨(f, e), Expr.mem_openings f e, rfl⟩

theorem HasChild.top (h : p.HasChild c) : c.top = p.top := by
  obtain ⟨⟨f, o⟩, opening, rfl⟩ := List.mem_map.mp h
  exact top_down (Expr.fill_of_mem_openings opening)

theorem parent_eq_none_iff : s.parent? = none ↔ s = root s.top := by
  obtain ⟨e, above⟩ := s
  cases above with
  | nil => exact iff_of_true rfl rfl
  | cons f fs => exact iff_of_false nofun fun same => List.cons_ne_nil _ _ (Site.mk.inj same).2

/-! ## Below a site -/

/-- The sites that a site lies properly below are met on the way up from it. -/
theorem transGen_hasChild_iff : TransGen HasChild a s ↔ a ∈ s.ancestors := by
  obtain ⟨e, above⟩ := s
  induction above generalizing e with
  | nil =>
    refine ⟨fun below => ?_, nofun⟩
    obtain ⟨p, -, last⟩ := TransGen.tail'_iff.mp below
    cases hasChild_iff.mp last
  | cons f fs ih =>
    -- the last step comes from the site that fills the innermost frame
    rw [TransGen.tail'_iff, ancestors, climb, List.mem_cons]
    constructor
    · rintro ⟨p, upper, last⟩
      cases hasChild_iff.mp last
      exact (reflTransGen_iff_eq_or_transGen.mp upper).imp Eq.symm (ih (f.fill e)).mp
    · intro above
      refine ⟨⟨f.fill e, fs⟩, ?_, hasChild_iff.mpr rfl⟩
      exact reflTransGen_iff_eq_or_transGen.mpr (above.imp Eq.symm (ih (f.fill e)).mpr)

theorem transGen_hasChild_iff_within : TransGen HasChild a s ↔ s.Within a ∧ a ≠ s :=
  transGen_hasChild_iff.trans mem_ancestors_iff

theorem reflTransGen_hasChild_iff : ReflTransGen HasChild a s ↔ s.Within a := by
  rw [reflTransGen_iff_eq_or_transGen, transGen_hasChild_iff_within]
  constructor
  · rintro (rfl | ⟨within, -⟩)
    · exact .refl _
    · exact within
  · intro within
    by_cases same : s = a
    · exact .inl same
    · exact .inr ⟨within, Ne.symm same⟩

theorem within_root_iff {e : Expr} : s.Within (root e) ↔ s.top = e :=
  ⟨fun within => within.1, fun top => ⟨top, List.nil_prefix⟩⟩

/-! ## The nearest construct -/

/-- The nearest site properly above another one of which `skip` does not hold. -/
structure IsNearest (skip : Expr → Bool) (s a : Site) : Prop where
  above : TransGen HasChild a s
  counts : skip a.node = false
  between : ∀ b, TransGen HasChild a b → TransGen HasChild b s → skip b.node = true

theorem enclosing_eq_none_iff :
    s.enclosing? skip = none ↔ ∀ a, TransGen HasChild a s → skip a.node = true := by
  simp only [enclosing?, List.find?_eq_none, transGen_hasChild_iff, Bool.not_eq_true',
    Bool.not_eq_false]

theorem isNearest_of_enclosing (h : s.enclosing? skip = some a) : IsNearest skip s a where
  above := transGen_hasChild_iff.mpr (List.mem_of_find?_eq_some h)
  counts := by simpa using List.find?_some h
  between := by
    intro b below above
    obtain ⟨within, differs⟩ := transGen_hasChild_iff_within.mp above
    obtain ⟨inner, other⟩ := transGen_hasChild_iff_within.mp below
    by_contra stays
    have outer := enclosing_between h within differs (Bool.eq_false_iff.mpr stays)
    exact other (outer.antisymm inner)

theorem enclosing_eq_some_iff : s.enclosing? skip = some a ↔ IsNearest skip s a := by
  refine ⟨isNearest_of_enclosing, fun nearest => ?_⟩
  cases found : s.enclosing? skip with
  | none =>
    have skipped := enclosing_eq_none_iff.mp found a nearest.above
    rw [nearest.counts] at skipped
    cases skipped
  | some x =>
    have first := isNearest_of_enclosing found
    obtain ⟨within, differs⟩ := transGen_hasChild_iff_within.mp nearest.above
    have inner := enclosing_between found within differs nearest.counts
    by_cases same : a = x
    · rw [same]
    · -- the first site that counts would stand between the two and be skipped
      have below := transGen_hasChild_iff_within.mpr ⟨inner, same⟩
      have skipped := nearest.between x below first.above
      rw [first.counts] at skipped
      cases skipped

/-! ## The walk -/

/-- What is on the stack is visited with all that lies below it before the rest. -/
theorem walkFrom_eq (stack : List Site) :
    walkFrom stack = stack.flatMap fun s => s.node.sitesBelow s.above := by
  fun_induction walkFrom stack with
  | case1 => rfl
  | case2 s stack ih =>
    rw [ih, List.flatMap_append, List.flatMap_cons, Expr.sitesBelow_eq, List.cons_append, children,
      List.flatMap_map]
    rfl

theorem walk_eq (s : Site) : s.walk = s.node.sitesBelow s.above := by
  rw [walk, walkFrom_eq, List.flatMap_singleton]

/-- A site is visited before its children, and these from left to right. -/
theorem walk_step (s : Site) : s.walk = s :: s.children.flatMap walk := by
  rw [walk, walkFrom, List.append_nil, walkFrom_eq]
  exact congrArg _ (List.flatMap_congr fun c _ => (walk_eq c).symm)

theorem mem_walkFrom_perm {stack stack' : List Site} (same : stack.Perm stack') :
    s ∈ walkFrom stack ↔ s ∈ walkFrom stack' := by
  simp only [walkFrom_eq, List.mem_flatMap, same.mem_iff]

theorem any_sameAs_iff {sites : List Site} (top : ∀ s ∈ sites, s.top = a.top) :
    sites.any a.sameAs = true ↔ a ∈ sites := by
  rw [List.any_eq_true]
  constructor
  · rintro ⟨s, member, same⟩
    rwa [eq_of_path (top s member).symm (beq_iff_eq.mp same)]
  · intro member
    exact ⟨a, member, beq_self_eq_true _⟩

end Site

/-! ## The entries of the index -/

namespace ParentIndex
variable {x : ParentIndex} {s p : Site} {path : Path}

theorem mem_enter : (path, p) ∈ (x.enter s).entries ↔
    (p = s ∧ ∃ c, p.HasChild c ∧ c.path = path) ∨ (path, p) ∈ x.entries := by
  simp only [enter, List.mem_append, List.mem_reverse, List.mem_map, Prod.mk.injEq]
  refine or_congr_left ?_
  constructor
  · rintro ⟨c, child, same, rfl⟩
    exact ⟨rfl, c, child, same⟩
  · rintro ⟨rfl, c, child, same⟩
    exact ⟨c, child, same, rfl⟩

/-- What is entered are the children of the sites that a walk from the stack visits. The two take
the children of a site in opposite orders, so only the members of the walk count here. -/
theorem mem_enterFrom {stack : List Site} : (path, p) ∈ (x.enterFrom stack).entries ↔
    (p ∈ Site.walkFrom stack ∧ ∃ c, p.HasChild c ∧ c.path = path) ∨ (path, p) ∈ x.entries := by
  fun_induction enterFrom x stack with
  | case1 x => simp [Site.walkFrom]
  | case2 x s stack ih =>
    have visited : p ∈ Site.walkFrom (s.children.reverse ++ stack) ↔
        p ∈ Site.walkFrom (s.children ++ stack) :=
      Site.mem_walkFrom_perm ((List.reverse_perm _).append_right _)
    rw [ih, mem_enter, visited, Site.walkFrom, List.mem_cons, ← or_assoc, or_and_right,
      or_comm (a := _ ∧ _)]

end ParentIndex

namespace Expr
variable {e : Expr} {a b p s : Site}

theorem walk_eq_sites (e : Expr) : e.walk = e.sites := (Site.root e).walk_eq

theorem mem_walk_iff : s ∈ e.walk ↔ s.top = e := by
  rw [walk_eq_sites, mem_sites_iff]

theorem mem_parents_iff {path : Path} : (path, p) ∈ e.parents.entries ↔
    p.top = e ∧ ∃ c, p.HasChild c ∧ c.path = path := by
  rw [parents, ParentIndex.mem_enterFrom, ← mem_walk_iff]
  exact or_iff_left List.not_mem_nil

/-! ## Looking up what lies around a site -/

theorem hasChild_of_parents (top : s.top = e) (found : e.parents.parent? s = some p) :
    p.HasChild s := by
  obtain ⟨above, c, child, path⟩ := mem_parents_iff.mp (ParentIndex.mem_entries_of_parent found)
  have same : c = s := Site.eq_of_path (child.top.trans (above.trans top.symm)) path
  exact same ▸ child

theorem parent_parents (top : s.top = e) : e.parents.parent? s = s.parent? := by
  cases found : e.parents.parent? s with
  | some p => exact (Site.hasChild_iff.mp (hasChild_of_parents top found)).symm
  | none =>
    cases parent : s.parent? with
    | none => rfl
    | some p =>
      have child := Site.hasChild_iff.mpr parent
      have entered := mem_parents_iff.mpr ⟨child.top.symm.trans top, s, child, rfl⟩
      have missing := List.lookup_eq_none_iff.mp found _ entered
      simp at missing

theorem ancestors_parents (top : s.top = e) : e.parents.ancestors s = s.ancestors := by
  obtain ⟨n, above⟩ := s
  have parent := parent_parents top
  induction above generalizing n with
  | nil => exact ParentIndex.ancestors_of_none parent
  | cons f fs ih =>
    rw [ParentIndex.ancestors_of_some parent, ih (f.fill n) top (parent_parents top)]
    rfl

theorem isAncestor_strict_iff (topA : a.top = e) (topB : b.top = e) :
    e.parents.isAncestor a b true = true ↔ TransGen Site.HasChild a b := by
  rw [ParentIndex.isAncestor, if_pos rfl, ancestors_parents topB, Site.transGen_hasChild_iff]
  exact Site.any_sameAs_iff fun s met => (Site.top_climb met).trans (topB.trans topA.symm)

theorem isAncestor_iff (topA : a.top = e) (topB : b.top = e) :
    e.parents.isAncestor a b false = true ↔ ReflTransGen Site.HasChild a b := by
  rw [ParentIndex.isAncestor, if_neg Bool.false_ne_true, ancestors_parents topB,
    reflTransGen_iff_eq_or_transGen, Site.transGen_hasChild_iff, eq_comm (a := b), ← List.mem_cons]
  refine Site.any_sameAs_iff fun s met => ?_
  rcases List.mem_cons.mp met with rfl | above
  · exact topB.trans topA.symm
  · exact (Site.top_climb above).trans (topB.trans topA.symm)

theorem isAncestor_eq_isAbove (topA : a.top = e) (topB : b.top = e) :
    e.parents.isAncestor a b true = a.isAbove b := by
  rw [Bool.eq_iff_iff, isAncestor_strict_iff topA topB, Site.transGen_hasChild_iff,
    Site.isAbove_iff_mem_ancestors (topB.trans topA.symm)]

theorem isAncestor_eq_isAtOrAbove (topA : a.top = e) (topB : b.top = e) :
    e.parents.isAncestor a b false = a.isAtOrAbove b := by
  rw [Bool.eq_iff_iff, isAncestor_iff topA topB, Site.reflTransGen_hasChild_iff,
    Site.isAtOrAbove_iff]
  exact and_iff_right (topB.trans topA.symm)

theorem skipParents_parents (skip : Expr → Bool) (top : s.top = e) :
    e.parents.skipParents skip s = s.enclosing? skip := by
  rw [ParentIndex.skipParents, ancestors_parents top]
  rfl

/-- The index agrees with the expression, site by site. The walk lists every site once, a site
before what lies below it and its children from left to right. The parent of a site is the one that
it is a child of, its ancestors are those that it lies below, and the nearest one that counts has
only skipped ones below it. Beside each look-up stands the answer that the frames around a site
give without an index. -/
theorem index_agrees (e : Expr) :
    (e.walk.Nodup ∧ (∀ s, s ∈ e.walk ↔ ReflTransGen Site.HasChild (.root e) s) ∧
      (∀ s : Site, s.walk = s :: s.children.flatMap Site.walk ∧
        s.children.map Site.node = s.node.children) ∧
      e.walk = e.sites) ∧
    (∀ c ∈ e.walk, (∀ p, e.parents.parent? c = some p ↔ p.HasChild c) ∧
      (e.parents.parent? c = none ↔ c = .root e) ∧
      e.parents.parent? c = c.parent?) ∧
    (∀ a ∈ e.walk, ∀ b ∈ e.walk,
      (e.parents.isAncestor a b true = true ↔ TransGen Site.HasChild a b) ∧
      (e.parents.isAncestor a b false = true ↔ ReflTransGen Site.HasChild a b) ∧
      e.parents.isAncestor a b true = a.isAbove b ∧
      e.parents.isAncestor a b false = a.isAtOrAbove b) ∧
    ∀ s ∈ e.walk, ∀ skip,
      (∀ a, e.parents.skipParents skip s = some a ↔ Site.IsNearest skip s a) ∧
      (e.parents.skipParents skip s = none ↔
        ∀ a, TransGen Site.HasChild a s → skip a.node = true) ∧
      e.parents.skipParents skip s = s.enclosing? skip := by
  refine ⟨⟨?_, fun s => ?_, fun s => ⟨s.walk_step, s.node_children⟩, e.walk_eq_sites⟩,
    fun c listed => ?_, fun a listedA b listedB => ?_, fun s listed skip => ?_⟩
  · rw [walk_eq_sites]
    exact e.nodup_sites
  · rw [mem_walk_iff, Site.reflTransGen_hasChild_iff, Site.within_root_iff]
  · have top := mem_walk_iff.mp listed
    have look := parent_parents top
    refine ⟨fun p => ?_, ?_, look⟩
    · rw [look, Site.hasChild_iff]
    · rw [look, Site.parent_eq_none_iff, top]
  · have topA := mem_walk_iff.mp listedA
    have topB := mem_walk_iff.mp listedB
    exact ⟨isAncestor_strict_iff topA topB, isAncestor_iff topA topB,
      isAncestor_eq_isAbove topA topB, isAncestor_eq_isAtOrAbove topA topB⟩
  · have look := skipParents_parents skip (mem_walk_iff.mp listed)
    refine ⟨fun a => ?_, ?_, look⟩
    · rw [look, Site.enclosing_eq_some_iff]
    · rw [look, Site.enclosing_eq_none_iff]

/-- One name at two places of `q.m(a, !(a))`. -/
theorem index_agrees_repeated :
    let a : Expr := .name "a" none
    let q : Expr := .name "q" none
    let denied : Expr := .prefixed .not (.paren a none) none
    let e : Expr := .invoke q "m" [a, denied] none
    let first : Site := ⟨a, [.argOfInvoke q "m" [] [denied] none]⟩
    let body : Site := ⟨.paren a none, [.operandOf .not none, .argOfInvoke q "m" [a] [] none]⟩
    let second : Site := body.down (.bodyOfParen none) a
    (first ∈ e.walk ∧ second ∈ e.walk ∧ .root e ∈ e.walk) ∧
      e.parents.parent? second = some body ∧
      e.parents.isAncestor (.root e) second true = true ∧
      e.parents.isAncestor first second false = false ∧
      e.parents.skipParents (fun n => n.isParen || n.isPrefixed) second = some (.root e) := by
  intro a q denied e first body second
  obtain ⟨⟨-, listed, -, -⟩, parents, ancestors, nearest⟩ := index_agrees e
  let argument : Site := ⟨denied, [.argOfInvoke q "m" [a] [] none]⟩
  have toFirst : (Site.root e).HasChild first := .tail _ (.head _)
  have toArgument : (Site.root e).HasChild argument := .tail _ (.tail _ (.head _))
  have toBody : argument.HasChild body := .head _
  have toSecond : body.HasChild second := .head _
  have below : TransGen Site.HasChild (.root e) second :=
    .tail (.tail (.single toArgument) toBody) toSecond
  have root := (listed (.root e)).mpr .refl
  have left := (listed first).mpr (.single toFirst)
  have right := (listed second).mpr below.to_reflTransGen
  refine ⟨⟨left, right, root⟩, ((parents second right).1 body).mpr toSecond,
    (ancestors _ root second right).1.mpr below, ?_, ?_⟩
  · rw [(ancestors first left second right).2.2.2]
    rfl
  · rw [(nearest second right _).2.2]
    rfl

end Expr

end NullSafeEq
