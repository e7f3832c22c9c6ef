import NullSafeEq.Proofs.Idiom.Parentheses
import NullSafeEq.Proofs.Idiom.Respelling

/-!
# The same call in two texts

Two expressions that differ in spans only have the same places, and a call at such a place has the
same match in both. The counterparts without parentheses tell that there is a match, and the places
tell which parentheses stand around and in its operands.
-/
namespace NullSafeEq

namespace Frame

/-- The frame without spans. -/
def unspanned : Frame → Frame
  | memberOf id _ => memberOf id none
  | receiverOf id args _ => receiverOf id (args.map Expr.unspanned) none
  | argOfCall id before after _ =>
    argOfCall id (before.map Expr.unspanned) (after.map Expr.unspanned) none
  | argOfInvoke q id before after _ =>
    argOfInvoke q.unspanned id (before.map Expr.unspanned) (after.map Expr.unspanned) none
  | leftOf op r _ => leftOf op r.unspanned none
  | rightOf op l _ => rightOf op l.unspanned none
  | operandOf op _ => operandOf op none
  | testOf y n _ => testOf y.unspanned n.unspanned none
  | yesOf t n _ => yesOf t.unspanned n.unspanned none
  | noOf t y _ => noOf t.unspanned y.unspanned none
  | bodyOfParen _ => bodyOfParen none
  | bodyOfCast type _ => bodyOfCast type none
  | arrayOf i _ => arrayOf i.unspanned none
  | positionOf a _ => positionOf a.unspanned none
  | argOfCreate type before after _ =>
    argOfCreate type (before.map Expr.unspanned) (after.map Expr.unspanned) none

theorem unspanned_fill (f : Frame) (c : Expr) :
    (f.fill c).unspanned = f.unspanned.fill c.unspanned := by
  cases f <;> simp [fill, unspanned, Expr.unspanned]

theorem slot_unspanned (f : Frame) : f.unspanned.slot = f.slot := by
  cases f <;> simp [slot, earlier, unspanned]

theorem isParen_unspanned (f : Frame) : f.unspanned.isParen = f.isParen := by
  cases f <;> rfl

end Frame

namespace Expr

/-- Without spans and parentheses the same is left as without parentheses and then spans. -/
theorem erased_unspanned (e : Expr) :
    e.unspanned.erased (fun _ => none) = e.erased fun _ => none := by
  induction e using induct_children with
  | step e ih =>
  have each (args : List Expr) (below : ∀ c ∈ args, c ∈ e.children) :
      (args.map unspanned).map (erased fun _ => none) = args.map (erased fun _ => none) := by
    rw [List.map_map]
    exact List.map_congr_left fun c member => ih c (below c member)
  cases e with
  | literal | name | self => rfl
  | call id args | create id args =>
    simp only [unspanned, erased, unspannedAll_eq, erasedAll_eq, each args fun _ h => h]
  | invoke q id args =>
    simp only [unspanned, erased, unspannedAll_eq, erasedAll_eq, ih q List.mem_cons_self,
      each args fun _ h => List.mem_cons_of_mem _ h]
  | _ =>
    simp only [children, List.mem_cons, List.not_mem_nil, or_false, forall_eq_or_imp,
      forall_eq] at ih
    simp only [unspanned, erased, ih]

theorem isParen_unspanned (e : Expr) : e.unspanned.isParen = e.isParen := by
  cases e <;> rfl

theorem isCall_unspanned (e : Expr) : e.unspanned.isCall = e.isCall := by
  cases e <;> rfl

theorem at?_unspanned (p : Path) (e : Expr) : e.unspanned.at? p = (e.at? p).map unspanned := by
  induction p generalizing e with
  | nil => rfl
  | cons i p ih =>
    rw [at?, at?, children_unspanned, List.getElem?_map, Option.map_bind, Option.bind_map]
    exact congrArg _ (funext ih)

/-- A path to a subexpression leads to a site. -/
theorem exists_site {p : Path} {e c : Expr} (found : e.at? p = some c) :
    ∃ s : Site, s.top = e ∧ s.path = p ∧ s.node = c := by
  induction p using List.reverseRecOn generalizing c with
  | nil => exact ⟨Site.root e, rfl, rfl, Option.some.inj found⟩
  | append_singleton p i ih =>
    rw [at?_append] at found
    obtain ⟨o, outer, child⟩ := Option.bind_eq_some_iff.mp found
    obtain ⟨s, top, path, rfl⟩ := ih outer
    obtain ⟨c', atIndex, rest⟩ := Option.bind_eq_some_iff.mp child
    cases rest
    obtain ⟨f, filled, slot⟩ := exists_frame atIndex
    refine ⟨s.down f c, (Site.top_down filled).trans top, ?_, rfl⟩
    simp [← path, ← slot, Site.down, Site.path]

end Expr

theorem Frame.erased_unspanned (f : Frame) :
    f.unspanned.erased (fun _ => none) = f.erased fun _ => none := by
  cases f <;> simp [unspanned, erased, Expr.erased_unspanned]

namespace Site
variable {a b s : Site} {e : Expr}

/-- The site without spans. -/
def unspanned (s : Site) : Site := ⟨s.node.unspanned, s.above.map Frame.unspanned⟩

theorem top_unspanned (s : Site) : s.unspanned.top = s.top.unspanned := by
  obtain ⟨e, above⟩ := s
  induction above generalizing e with
  | nil => rfl
  | cons f fs ih =>
    rw [top_cons, ← ih, unspanned, unspanned, List.map_cons, top_cons, Frame.unspanned_fill]

theorem path_unspanned (s : Site) : s.unspanned.path = s.path := by
  simp [path, unspanned, Function.comp_def, Frame.slot_unspanned]

theorem erased_unspanned (s : Site) :
    s.unspanned.erased (fun _ => none) = s.erased fun _ => none := by
  simp only [erased, unspanned, Expr.erased_unspanned, List.filter_map, List.map_map,
    Function.comp_def, Frame.isParen_unspanned, Frame.erased_unspanned]

/-- Sites with one path are the same without spans when the whole expressions are. -/
theorem unspanned_eq (tops : a.top.unspanned = b.top.unspanned) (paths : a.path = b.path) :
    a.unspanned = b.unspanned := by
  refine eq_of_path ?_ ?_
  · rw [top_unspanned, top_unspanned, tops]
  · rw [path_unspanned, path_unspanned, paths]

/-- A site has a counterpart in every expression that differs from the whole one in spans only. -/
theorem exists_respanned (same : s.top.unspanned = e.unspanned) :
    ∃ s' : Site, s'.top = e ∧ s'.unspanned = s.unspanned := by
  have found := Expr.at?_unspanned s.path e
  rw [← same, Expr.at?_unspanned, at?_path] at found
  obtain ⟨c, atPath, -⟩ := Option.map_eq_some_iff.mp found.symm
  obtain ⟨s', top, path, -⟩ := Expr.exists_site atPath
  exact ⟨s', top, unspanned_eq (top.symm ▸ same.symm) path⟩

/-- Sites that are no parentheses are the same without spans when they are without spans and
parentheses. -/
theorem unspanned_of_erased (tops : a.top.unspanned = b.top.unspanned)
    (solid : a.node.isParen = false) (solid' : b.node.isParen = false)
    (same : a.erased (fun _ => none) = b.erased fun _ => none) : a.unspanned = b.unspanned := by
  obtain ⟨x, top, respanned⟩ := exists_respanned tops
  have solidX : x.node.isParen = false := by
    have nodes : x.node.unspanned = a.node.unspanned := congrArg node respanned
    rw [← Expr.isParen_unspanned, nodes, Expr.isParen_unspanned, solid]
  have counterpart : x.erased (fun _ => none) = b.erased fun _ => none := by
    rw [← erased_unspanned, respanned, erased_unspanned, same]
  rw [← erased_inj top solidX solid' counterpart, respanned]

end Site

/-- The match without spans. -/
def Match.unspanned (m : Match) : Match :=
  ⟨m.span.unspanned, m.left.unspanned, m.right.unspanned, m.negated, m.form⟩

/-- At the same place of two expressions that differ in spans only a call has the same match. -/
theorem Detector.analyze_respanned {d : Detector} (standard : d.compare = nullComparison)
    (given : d.resolve.Given) {call call' : Site} {m : Match} (isCall : call.node.isCall = true)
    (same : call'.unspanned = call.unspanned) (found : d.analyze? call = some m) :
    ∃ m', d.analyze? call' = some m' ∧ m'.unspanned = m.unspanned := by
  have nodes : call'.node.unspanned = call.node.unspanned := congrArg Site.node same
  have isCall' : call'.node.isCall = true := by
    rw [← Expr.isCall_unspanned, nodes, Expr.isCall_unspanned, isCall]
  have tops : call'.top.unspanned = call.top.unspanned := by
    rw [← Site.top_unspanned, same, Site.top_unspanned]
  have matches' : d.analyze? (call'.erased fun _ => none) =
      (d.analyze? call').map (Match.erased fun _ => none) :=
    analyze_erased given.blind standard (Expr.isParen_of_isCall isCall')
  rw [← Site.erased_unspanned, same, Site.erased_unspanned,
    analyze_erased given.blind standard (Expr.isParen_of_isCall isCall), found] at matches'
  obtain ⟨m', found', counterpart⟩ := Option.map_eq_some_iff.mp matches'.symm
  obtain ⟨span, left, right, negated, form⟩ := Match.mk.inj counterpart
  obtain ⟨spanSolid, leftSolid, rightSolid⟩ := solid_of_analyze standard isCall found
  obtain ⟨spanSolid', leftSolid', rightSolid'⟩ := solid_of_analyze standard isCall' found'
  have inside := analyze_in found
  have inside' := analyze_in found'
  have alike {x x' : Site} (top : x.top = call.top) (top' : x'.top = call'.top)
      (solid : x.node.isParen = false) (solid' : x'.node.isParen = false)
      (erased : x'.erased (fun _ => none) = x.erased fun _ => none) : x'.unspanned = x.unspanned :=
    Site.unspanned_of_erased (by rw [top, top', tops]) solid' solid erased
  refine ⟨m', found', ?_⟩
  rw [Match.unspanned, Match.unspanned, negated, form,
    alike inside.span inside'.span spanSolid spanSolid' span,
    alike inside.left inside'.left leftSolid leftSolid' left,
    alike inside.right inside'.right rightSolid rightSolid' right]

end NullSafeEq
