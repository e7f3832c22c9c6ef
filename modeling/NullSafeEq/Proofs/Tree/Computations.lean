import NullSafeEq.Proofs.Rewriting.GraftedSites
import NullSafeEq.Proofs.Tree.Walk

/-!
# What an expression computes

The calls, object creations, array accesses and casts in an expression, counted with repetitions.
They are those of the root and those of the children. Grafts that each exchange one of them for
another exchange as many as there are grafts.
-/
namespace NullSafeEq

/-- What one node computes. -/
inductive Computation where
  /-- A call by the name called and the number of arguments. -/
  | call (id : String) (arity : Nat)
  | creation (type : String) (arity : Nat)
  | access
  | cast (type : String)
  deriving DecidableEq, Repr

namespace Expr

/-- What the root computes itself, besides its children. -/
def computation? : Expr → Option Computation
  | call id args _ | invoke _ id args _ => some (.call id args.length)
  | create type args _ => some (.creation type args.length)
  | index .. => some .access
  | cast type _ _ => some (.cast type)
  | _ => none

/-- What the nodes of an expression compute, all together. -/
def computations (e : Expr) : Multiset Computation :=
  (e.sites.filterMap fun s => s.node.computation? : List Computation)

/-- What the root computes itself. -/
def ownComputations (e : Expr) : Multiset Computation := (e.computation?.toList : List Computation)

/-- Where an expression stands does not matter for its nodes. -/
theorem nodes_sitesBelow (above : List Frame) (e : Expr) :
    (e.sitesBelow above).map Site.node = e.sites.map Site.node := by
  induction e using induct_children generalizing above with
  | step e ih =>
  rw [sites, sitesBelow_eq, sitesBelow_eq, List.map_cons, List.map_cons, List.map_flatMap,
    List.map_flatMap]
  refine congrArg (e :: ·) (List.flatMap_congr fun p opening => ?_)
  have child := ih p.2 (mem_children_of_mem_openings opening)
  exact (child (p.1 :: above)).trans (child [p.1]).symm

theorem filterMap_sitesBelow (above : List Frame) (e : Expr) :
    ((e.sitesBelow above).filterMap fun s => s.node.computation? : List Computation) =
      e.computations := by
  have nodes := congrArg (List.filterMap computation?) (nodes_sitesBelow above e)
  rw [List.filterMap_map, List.filterMap_map] at nodes
  exact congrArg _ nodes

/-- An expression computes what its root and its children compute. -/
theorem computations_eq (e : Expr) :
    e.computations = e.ownComputations + (e.children.map computations).sum := by
  have split : (e.sites.filterMap fun s => s.node.computation?) = e.computation?.toList ++
      e.openings.flatMap fun p => (sitesBelow [p.1] p.2).filterMap fun s => s.node.computation? := by
    rw [sites, sitesBelow_eq, List.filterMap_cons, List.filterMap_flatMap]
    cases e.computation? <;> rfl
  rw [computations, split, ← Multiset.coe_add, ← Multiset.coe_bind, ownComputations, ← openings_snd,
    List.map_map]
  simp only [filterMap_sitesBelow]
  rfl

/-- The children after a change, by the frames of the old ones. -/
theorem children_mapChildren (f : Nat → Expr → Expr) (e : Expr) :
    (e.mapChildren f).children = e.openings.map fun p => f p.1.slot p.2 := by
  have indexed : (e.mapChildren f).children = e.children.mapIdx f := by
    refine List.ext_getElem? fun i => ?_
    rw [child_mapChildren, List.getElem?_mapIdx]
  rw [indexed, List.mapIdx_eq_zipIdx_map, ← openings_zipIdx, List.map_map]
  rfl

theorem length_mapArgs (f : Nat → Expr → Expr) (i : Nat) (es : List Expr) :
    (mapArgs f i es).length = es.length := by
  induction es generalizing i with
  | nil => rfl
  | cons e es ih => rw [mapArgs, List.length_cons, ih, List.length_cons]

theorem ownComputations_mapChildren (f : Nat → Expr → Expr) (e : Expr) :
    (e.mapChildren f).ownComputations = e.ownComputations := by
  cases e <;> simp only [mapChildren, ownComputations, computation?, length_mapArgs]

theorem ownComputations_unspanned (e : Expr) : e.unspanned.ownComputations = e.ownComputations := by
  cases e <;> simp only [unspanned, ownComputations, computation?, unspannedAll_eq, List.length_map]

/-- Where an expression was read from does not matter for what it computes. -/
theorem computations_unspanned (e : Expr) : e.unspanned.computations = e.computations := by
  induction e using induct_children with
  | step e ih =>
    have below : e.children.map (computations ∘ unspanned) = e.children.map computations :=
      List.map_congr_left ih
    rw [computations_eq, computations_eq e, ownComputations_unspanned, children_unspanned,
      List.map_map, below]

end Expr

/-! ## Exchanges -/

/-- Sums that differ in each summand by some exchanges differ by all of them. -/
theorem sum_exchange {α β : Type} {a b : β} {old new : α → Multiset β} {count : α → Nat}
    {l : List α} (each : ∀ x ∈ l, new x + .replicate (count x) a = old x + .replicate (count x) b) :
    (l.map new).sum + .replicate (l.map count).sum a =
      (l.map old).sum + .replicate (l.map count).sum b := by
  induction l with
  | nil => rfl
  | cons x l ih =>
    obtain ⟨first, rest⟩ := List.forall_mem_cons.mp each
    simp only [List.map_cons, List.sum_cons, Multiset.replicate_add]
    rw [add_add_add_comm, first, ih rest, add_add_add_comm]

/-- The number of grafts at and below a site. -/
def Grafts.countBelow (g : Grafts) (s : Site) : Nat :=
  (s.node.sitesBelow s.above).countP fun r => (g r.path).isSome

/-- Grafts none of which lies below another one, where each computes what the node computed that it
takes the place of, but for `b` in the place of `a`. -/
structure Grafts.Exchange (g : Grafts) (a b : Computation) (top : Expr) : Prop where
  swaps : ∀ (s : Site) (new : Expr), s.top = top → g s.path = some new →
    new.computations + {a} = s.node.computations + {b}
  apart : ∀ (s r : Site), s.top = top → r.Within s → r ≠ s → (g s.path).isSome = true →
    g r.path = none

namespace Grafts
variable {g : Grafts} {a b : Computation} {s : Site}

theorem countBelow_of_none (ungrafted : g s.path = none) : g.countBelow s =
    (s.node.openings.map fun p => g.countBelow (s.down p.1 p.2)).sum := by
  rw [countBelow, Expr.sitesBelow_eq, List.countP_cons, List.countP_flatMap]
  simp [ungrafted, countBelow, Site.down, Function.comp_def]

theorem countBelow_of_some {new : Expr} (grafted : g s.path = some new)
    (below : ∀ r : Site, r.Within s → r ≠ s → g r.path = none) : g.countBelow s = 1 := by
  have distinct := s.node.nodup_sitesBelow s.above
  rw [Expr.sitesBelow_eq, List.nodup_cons] at distinct
  rw [countBelow, Expr.sitesBelow_eq, List.countP_cons, List.countP_eq_zero.mpr]
  · simp [grafted]
  · intro r member
    have inside : r ∈ s.node.sitesBelow s.above := by
      rw [Expr.sitesBelow_eq]
      exact List.mem_cons_of_mem _ member
    rw [below r (Expr.within_of_mem_sitesBelow inside) fun same => distinct.1 (same ▸ member)]
    nofun

/-- Every graft in a node exchanges one computation. -/
theorem Exchange.grafted (h : g.Exchange a b s.top) :
    (s.grafted g).computations + .replicate (g.countBelow s) a =
      s.node.computations + .replicate (g.countBelow s) b := by
  obtain ⟨e, above⟩ := s
  induction e using Expr.induct_children generalizing above with
  | step e ih =>
  cases here : g (Site.path ⟨e, above⟩) with
  | some new =>
    have once := countBelow_of_some here fun r within differs =>
      h.apart _ r rfl within differs (by rw [here]; rfl)
    rw [once, Site.grafted_of_some here, Multiset.replicate_one, Multiset.replicate_one]
    exact h.swaps _ new rfl here
  | none =>
    have each : ∀ p ∈ e.openings,
        (p.2.graft (g.at (Site.path ⟨e, above⟩ ++ [p.1.slot]))).computations +
            .replicate (g.countBelow (Site.down ⟨e, above⟩ p.1 p.2)) a =
          p.2.computations + .replicate (g.countBelow (Site.down ⟨e, above⟩ p.1 p.2)) b := by
      intro p opening
      have same := Expr.fill_of_mem_openings opening
      have child := ih p.2 (Expr.mem_children_of_mem_openings opening) (p.1 :: above)
        (by rwa [Site.top_cons, same])
      rwa [Site.grafted, Site.path_cons, same] at child
    rw [countBelow_of_none here, Site.grafted_of_none here, Expr.computations_eq,
      Expr.computations_eq e, Expr.children_mapChildren, Expr.ownComputations_mapChildren,
      ← Expr.openings_snd, List.map_map, List.map_map, add_assoc, add_assoc]
    exact congrArg (e.ownComputations + ·) (sum_exchange each)

end Grafts

end NullSafeEq
