import NullSafeEq.Proofs.Idiom.Quiet
import NullSafeEq.Proofs.Rewriting.Graft

/-!
# Sites of a grafted expression

A site with no graft above it is a site of the grafted expression too, with the grafts below it in
place. So a grafted expression is quiet when these sites are, and what was put in is.
-/
namespace NullSafeEq

/-- The grafts below a path. -/
def Grafts.at (g : Grafts) (path : Path) : Grafts := fun rest => g (path ++ rest)

theorem Grafts.under_at (g : Grafts) (path : Path) (i : Nat) :
    (g.at path).under i = g.at (path ++ [i]) := by
  funext rest
  simp [under, Grafts.at]

theorem Grafts.at_root (g : Grafts) (path : Path) : g.at path [] = g path := by
  simp [Grafts.at]

namespace Expr

theorem children_mapArgs {f : Nat → Expr → Expr} {slot i : Nat} {es : List Expr} :
    (mapArgs f slot es)[i]? = es[i]?.map (f (slot + i)) := by
  induction es generalizing slot i with
  | nil => rfl
  | cons e es ih =>
    cases i with
    | zero => rfl
    | succ i =>
      rw [mapArgs, List.getElem?_cons_succ, List.getElem?_cons_succ, ih, Nat.add_right_comm,
        Nat.add_assoc]

theorem child_mapChildren (f : Nat → Expr → Expr) (e : Expr) (i : Nat) :
    (e.mapChildren f).children[i]? = e.children[i]?.map (f i) := by
  cases e with
  | literal | name | self => rfl
  | call id args | create id args =>
    rw [mapChildren, children, children_mapArgs, Nat.zero_add]
    rfl
  | invoke q id args =>
    cases i with
    | zero => rfl
    | succ i =>
      show (mapArgs f 1 args)[i]? = args[i]?.map (f (i + 1))
      rw [children_mapArgs, Nat.add_comm]
  | member | prefixed | paren | cast => rcases i with _ | i <;> rfl
  | binary | index => rcases i with _ | _ | i <;> rfl
  | conditional => rcases i with _ | _ | _ | i <;> rfl

theorem isTransparent_mapChildren (f : Nat → Expr → Expr) (e : Expr) :
    (e.mapChildren f).isTransparent = e.isTransparent := by
  cases e <;> rfl

end Expr

namespace Site
variable {g : Grafts} {s : Site}

/-- The node of a site with the grafts at and below it in place. -/
def grafted (g : Grafts) (s : Site) : Expr := s.node.graft (g.at s.path)

/-- The construct around a site with the grafts in place. -/
def graftedContext (g : Grafts) (s : Site) : Option Expr :=
  (s.enclosing? Expr.isTransparent).map (grafted g)

/-- Nothing is grafted above a site. -/
def Clear (g : Grafts) (s : Site) : Prop := ∀ a, s.Within a → a ≠ s → g a.path = none

theorem grafted_of_some {new : Expr} (h : g s.path = some new) : s.grafted g = new :=
  Expr.graft_of_some ((g.at_root s.path).trans h)

theorem grafted_of_none (h : g s.path = none) :
    s.grafted g = s.node.mapChildren fun i c => c.graft (g.at (s.path ++ [i])) := by
  rw [grafted, Expr.graft_of_none ((g.at_root s.path).trans h)]
  simp only [Grafts.under_at]

theorem path_down (s : Site) (f : Frame) (c : Expr) : (s.down f c).path = s.path ++ [f.slot] := by
  simp [down, path]

theorem clear_root (g : Grafts) (e : Expr) : (root e).Clear g :=
  fun _ within differs => (differs within.nil_eq).elim

/-- A site below a clear one that is not grafted itself is clear. -/
theorem Clear.down (h : s.Clear g) (ungrafted : g s.path = none) {f : Frame} {c : Expr}
    (same : f.fill c = s.node) : (s.down f c).Clear g := by
  intro a within differs
  rcases within.cons_cases with rfl | outer
  · exact (differs rfl).elim
  rw [same] at outer
  by_cases here : a = s
  · rw [here]
    exact ungrafted
  · exact h a outer here

/-- What lies around a clear site is clear and not grafted. -/
theorem Clear.up {a : Site} (h : s.Clear g) (within : s.Within a) (differs : a ≠ s) :
    a.Clear g ∧ g a.path = none := by
  refine ⟨fun b outer other => h b (within.trans outer) ?_, h a within differs⟩
  rintro rfl
  exact other (within.antisymm outer)

theorem graftedContext_cons {e : Expr} {f : Frame} {fs : List Frame}
    (ungrafted : g (path ⟨f.fill e, fs⟩) = none) : graftedContext g ⟨e, f :: fs⟩ =
      (grafted g ⟨f.fill e, fs⟩).contextBelow (graftedContext g ⟨f.fill e, fs⟩) := by
  unfold graftedContext Expr.contextBelow
  rw [enclosing_cons, grafted_of_none ungrafted, Expr.isTransparent_mapChildren,
    ← grafted_of_none ungrafted]
  cases (f.fill e).isTransparent <;> rfl

end Site

namespace Detector
variable {d : Detector} {g : Grafts}

/-- A clear site of a quiet grafted expression is quiet with its grafts in place. -/
theorem Quiet.of_clear {s : Site} (h : d.Quiet none (s.top.graft g)) (clear : s.Clear g) :
    d.Quiet (s.graftedContext g) (s.grafted g) := by
  obtain ⟨e, above⟩ := s
  induction above generalizing e with
  | nil => exact h
  | cons f fs ih =>
    have outer := clear.up (.up e f fs) (Site.Within.up_ne e f fs)
    rw [Site.graftedContext_cons outer.2]
    refine (ih (f.fill e) h outer.1).child ?_
    have child := Expr.child_mapChildren
      (fun i c => c.graft (g.at (Site.path ⟨f.fill e, fs⟩ ++ [i]))) (f.fill e) f.slot
    rw [← Site.grafted_of_none outer.2, Frame.child_fill, Option.map_some,
      ← Site.path_cons] at child
    exact List.mem_of_getElem? child

theorem quiet_of_clear_sites (s : Site) (clear : s.Clear g)
    (each : ∀ r : Site, r.Within s → r.Clear g →
      (∀ new, g r.path = some new → d.Quiet (r.graftedContext g) new) ∧
      (g r.path = none → ¬ d.Reports (r.graftedContext g) (r.grafted g))) :
    d.Quiet (s.graftedContext g) (s.grafted g) := by
  obtain ⟨e, above⟩ := s
  induction e using Expr.induct_children generalizing above with
  | step e ih =>
  cases ungrafted : g (Site.path ⟨e, above⟩) with
  | some new =>
    rw [Site.grafted_of_some ungrafted]
    exact (each _ (.refl _) clear).1 new ungrafted
  | none =>
    refine .node ((each _ (.refl _) clear).2 ungrafted) fun c' member => ?_
    rw [Site.grafted_of_none ungrafted] at member
    obtain ⟨i, atIndex⟩ := List.mem_iff_getElem?.mp member
    rw [Expr.child_mapChildren] at atIndex
    obtain ⟨c, original, rfl⟩ := Option.map_eq_some_iff.mp atIndex
    obtain ⟨f, rfl, rfl⟩ := Expr.exists_frame original
    have := ih c (List.mem_of_getElem? original) (f :: above) (clear.down ungrafted rfl)
      fun r within => each r (within.trans (.up c f above))
    rw [Site.graftedContext_cons ungrafted] at this
    rw [← Site.path_cons]
    exact this

/-- A grafted expression is quiet when every clear site of the original is, be it that something
was grafted there or not. -/
theorem quiet_graft_iff {e : Expr} : d.Quiet none (e.graft g) ↔ ∀ s : Site, s.top = e → s.Clear g →
    (∀ new, g s.path = some new → d.Quiet (s.graftedContext g) new) ∧
    (g s.path = none → ¬ d.Reports (s.graftedContext g) (s.grafted g)) := by
  constructor
  · rintro h s rfl clear
    have quiet := h.of_clear clear
    refine ⟨fun new grafted => ?_, fun _ => quiet.here⟩
    rwa [Site.grafted_of_some grafted] at quiet
  · intro each
    exact quiet_of_clear_sites (Site.root e) (Site.clear_root g e)
      fun r within clear => each r within.1 clear

end Detector

end NullSafeEq
