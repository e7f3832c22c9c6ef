import NullSafeEq.Proofs.Idiom.Respelling

/-!
# Expressions without matches

A detector finds nothing in a tree just when it reports no call in it. Stated along the tree, this
needs of the surroundings of an expression only the construct that stands around it.
-/
namespace NullSafeEq

namespace Expr

/-- The construct around the children of a node, given the one around the node itself. -/
def contextBelow (context : Option Expr) (e : Expr) : Option Expr :=
  if e.isTransparent then context else some e

end Expr

/-- The construct around a site in an expression with a construct around it. -/
def Site.contextIn (context : Option Expr) (s : Site) : Option Expr :=
  match s.enclosing? Expr.isTransparent with
  | some around => some around.node
  | none => context

theorem Site.contextIn_cons (context : Option Expr) (e : Expr) (f : Frame) (fs : List Frame) :
    contextIn context ⟨e, f :: fs⟩ =
      (f.fill e).contextBelow (contextIn context ⟨f.fill e, fs⟩) := by
  unfold contextIn Expr.contextBelow
  rw [enclosing_cons]
  cases (f.fill e).isTransparent <;> rfl

theorem Site.contextIn_none (s : Site) :
    s.contextIn none = (s.enclosing? Expr.isTransparent).map Site.node := by
  unfold contextIn
  cases s.enclosing? Expr.isTransparent <;> rfl

namespace Detector
variable {d : Detector}

/-- No call in an expression with a construct around it is reported. -/
inductive Quiet (d : Detector) : Option Expr → Expr → Prop
  | node {context : Option Expr} {e : Expr} (here : ¬ d.Reports context e)
    (below : ∀ c ∈ e.children, Quiet d (e.contextBelow context) c) : Quiet d context e

theorem Quiet.here {context : Option Expr} {e : Expr} (h : d.Quiet context e) :
    ¬ d.Reports context e := by
  cases h with
  | node here below => exact here

theorem Quiet.child {context : Option Expr} {e c : Expr} (h : d.Quiet context e)
    (member : c ∈ e.children) : d.Quiet (e.contextBelow context) c := by
  cases h with
  | node here below => exact below c member

/-- In a quiet expression every site is quiet. -/
theorem Quiet.inside {context : Option Expr} {s : Site} (h : d.Quiet context s.top) :
    d.Quiet (s.contextIn context) s.node := by
  obtain ⟨e, above⟩ := s
  induction above generalizing e with
  | nil => exact h
  | cons f fs ih =>
    rw [Site.contextIn_cons]
    refine (ih (f.fill e) h).child ?_
    rw [Frame.children_fill]
    exact List.mem_append_right _ List.mem_cons_self

theorem quiet_of_sites {context : Option Expr} (s : Site)
    (each : ∀ r : Site, r.Within s → ¬ d.Reports (r.contextIn context) r.node) :
    d.Quiet (s.contextIn context) s.node := by
  obtain ⟨e, above⟩ := s
  induction e using Expr.induct_children generalizing above with
  | step e ih =>
  refine .node (each _ (.refl _)) fun c member => ?_
  obtain ⟨i, atIndex⟩ := List.mem_iff_getElem?.mp member
  obtain ⟨f, rfl, -⟩ := Expr.exists_frame atIndex
  have := ih c member (f :: above) fun r within => each r (within.trans (.up c f above))
  rwa [Site.contextIn_cons] at this

/-- An expression is quiet when no site in it is reported. -/
theorem quiet_iff {context : Option Expr} {e : Expr} :
    d.Quiet context e ↔ ∀ r : Site, r.top = e → ¬ d.Reports (r.contextIn context) r.node := by
  constructor
  · rintro h r rfl
    exact h.inside.here
  · intro each
    exact quiet_of_sites (Site.root e) fun r within => each r within.1

theorem quiet_unspanned (free : d.resolve.SpanFree) {context : Option Expr} {e : Expr} :
    d.Quiet (context.map Expr.unspanned) e.unspanned ↔ d.Quiet context e := by
  have below (context : Option Expr) (e : Expr) :
      e.unspanned.contextBelow (context.map Expr.unspanned) =
        (e.contextBelow context).map Expr.unspanned := by
    have : e.unspanned.isTransparent = e.isTransparent := by cases e <;> rfl
    unfold Expr.contextBelow
    rw [this]
    cases e.isTransparent <;> rfl
  induction e using Expr.induct_children generalizing context with
  | step e ih =>
  constructor
  · intro h
    refine .node ((reports_unspanned free context e).not.mp h.here) fun c member => ?_
    refine (ih c member).mp ?_
    rw [← below]
    refine h.child ?_
    rw [Expr.children_unspanned]
    exact List.mem_map_of_mem member
  · intro h
    refine .node ((reports_unspanned free context e).not.mpr h.here) fun c' member => ?_
    rw [Expr.children_unspanned] at member
    obtain ⟨c, inside, rfl⟩ := List.mem_map.mp member
    rw [below]
    exact (ih c inside).mpr (h.child inside)

theorem firstPerPlace_eq_nil {found : List Match} : firstPerPlace [] found = [] ↔ found = [] := by
  cases found with
  | nil => exact Iff.rfl
  | cons m rest => simp [firstPerPlace]

/-- An expression by itself is quiet when no call in it has a match. -/
theorem quiet_none_iff (standard : d.compare = nullComparison) (applies : d.applicable = true)
    {e : Expr} : d.Quiet none e ↔ ∀ r : Site, r.top = e → d.analyze? r = none := by
  rw [quiet_iff]
  refine forall₂_congr fun r _ => ?_
  rw [Site.contextIn_none, ← analyze_isSome standard applies r,
    Option.eq_none_iff_forall_ne_some]
  exact not_exists

/-- A detector finds nothing in a tree just when the tree is quiet. -/
theorem scan_eq_nil_iff (standard : d.compare = nullComparison) (applies : d.applicable = true)
    (t : Tree) : d.scan t = [] ↔ d.Quiet none t.root := by
  rw [scan, if_pos applies, firstPerPlace_eq_nil, List.filterMap_eq_nil_iff,
    quiet_none_iff standard applies]
  constructor
  · intro nothing r top
    rw [Option.eq_none_iff_forall_ne_some]
    intro m found
    have isCall := isCall_of_calledName (calledName_of_analyze found)
    rw [nothing r (mem_calls_iff.mpr ⟨top, isCall⟩)] at found
    cases found
  · intro quiet call member
    exact quiet call (top_of_mem_calls member)

end Detector

end NullSafeEq
