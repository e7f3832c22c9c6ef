import NullSafeEq.Proofs.Grammar.Production

/-!
# Grafting

Other expressions put in the place of some nodes. The root keeps its production but for the
children, and levels only ever rise, so a grafted tree obeys the grammar when the original does.
-/
namespace NullSafeEq

/-- Expressions put in the place of the nodes at some paths. -/
abbrev Grafts := Path → Option Expr

/-- The grafts below the child with index `i`. -/
def Grafts.under (g : Grafts) (i : Nat) : Grafts := fun path => g (i :: path)

/-- A change of the child in a piece of a production. -/
def Part.mapSub (f : Nat → Expr → Expr) : Part → Part
  | .sub slot e => .sub slot (f slot e)
  | p => p

namespace Expr

mutual

/-- The expression with grafts in the place of its nodes; of nested ones the outer one counts. -/
def graft (g : Grafts) (e : Expr) : Expr :=
  match g [] with
  | some new => new
  | none =>
    match e with
    | literal k t s => literal k t s
    | name id s => name id s
    | member q id s => member (q.graft (g.under 0)) id s
    | self w o s => self w o s
    | call id args s => call id (graftEach g 0 args) s
    | invoke q id args s => invoke (q.graft (g.under 0)) id (graftEach g 1 args) s
    | binary op l r s => binary op (l.graft (g.under 0)) (r.graft (g.under 1)) s
    | prefixed op e s => prefixed op (e.graft (g.under 0)) s
    | conditional t y n s =>
      conditional (t.graft (g.under 0)) (y.graft (g.under 1)) (n.graft (g.under 2)) s
    | paren e s => paren (e.graft (g.under 0)) s
    | cast type e s => cast type (e.graft (g.under 0)) s
    | index a i s => index (a.graft (g.under 0)) (i.graft (g.under 1)) s
    | create type args s => create type (graftEach g 0 args) s

/-- Consecutive children with their grafts, the first of which has index `i`. -/
def graftEach (g : Grafts) (i : Nat) : List Expr → List Expr
  | [] => []
  | e :: es => e.graft (g.under i) :: graftEach g (i + 1) es

end

/-! ## One level -/

/-- A change of consecutive children, the first of which has index `i`. -/
def mapArgs (f : Nat → Expr → Expr) (i : Nat) : List Expr → List Expr
  | [] => []
  | e :: es => f i e :: mapArgs f (i + 1) es

/-- A change of the children, each of which is known by its index. -/
def mapChildren (f : Nat → Expr → Expr) : Expr → Expr
  | literal k t s => literal k t s
  | name id s => name id s
  | member q id s => member (f 0 q) id s
  | self w o s => self w o s
  | call id args s => call id (mapArgs f 0 args) s
  | invoke q id args s => invoke (f 0 q) id (mapArgs f 1 args) s
  | binary op l r s => binary op (f 0 l) (f 1 r) s
  | prefixed op e s => prefixed op (f 0 e) s
  | conditional t y n s => conditional (f 0 t) (f 1 y) (f 2 n) s
  | paren e s => paren (f 0 e) s
  | cast type e s => cast type (f 0 e) s
  | index a i s => index (f 0 a) (f 1 i) s
  | create type args s => create type (mapArgs f 0 args) s

theorem graftEach_eq_mapArgs (g : Grafts) (i : Nat) (es : List Expr) :
    graftEach g i es = mapArgs (fun i c => c.graft (g.under i)) i es := by
  induction es generalizing i with
  | nil => rfl
  | cons e es ih => rw [graftEach, mapArgs, ih]

theorem graft_of_some {g : Grafts} {e new : Expr} (h : g [] = some new) : e.graft g = new := by
  cases e <;> simp only [graft, h]

theorem graft_of_none {g : Grafts} {e : Expr} (h : g [] = none) :
    e.graft g = e.mapChildren fun i c => c.graft (g.under i) := by
  cases e <;> simp only [graft, h, mapChildren, graftEach_eq_mapArgs]

theorem mapArgs_congr {f h : Nat → Expr → Expr} (slot : Nat) (es : List Expr)
    (same : ∀ i c, es[i]? = some c → f (slot + i) c = h (slot + i) c) :
    mapArgs f slot es = mapArgs h slot es := by
  induction es generalizing slot with
  | nil => rfl
  | cons e es ih =>
    have rest := ih (slot + 1) fun i c found => by
      have := same (i + 1) c found
      rwa [← Nat.add_assoc, Nat.add_right_comm] at this
    rw [mapArgs, mapArgs, rest, show f slot e = h slot e from same 0 e rfl]

theorem mapChildren_congr {f h : Nat → Expr → Expr} {e : Expr}
    (same : ∀ i c, e.children[i]? = some c → f i c = h i c) : e.mapChildren f = e.mapChildren h := by
  cases e with
  | literal | name | self => rfl
  | call id args | create id args =>
    have args := mapArgs_congr (f := f) (h := h) 0 args fun i c found => by
      rw [Nat.zero_add]
      exact same i c found
    rw [mapChildren, mapChildren, args]
  | invoke q id args =>
    have args := mapArgs_congr (f := f) (h := h) 1 args fun i c found => by
      rw [Nat.add_comm]
      exact same (i + 1) c found
    rw [mapChildren, mapChildren, args, same 0 q rfl]
  | member | prefixed | paren | cast => rw [mapChildren, mapChildren, same 0 _ rfl]
  | binary | index => rw [mapChildren, mapChildren, same 0 _ rfl, same 1 _ rfl]
  | conditional => rw [mapChildren, mapChildren, same 0 _ rfl, same 1 _ rfl, same 2 _ rfl]

theorem mapArgs_self (slot : Nat) (es : List Expr) : mapArgs (fun _ c => c) slot es = es := by
  induction es generalizing slot with
  | nil => rfl
  | cons e es ih => rw [mapArgs, ih]

theorem mapChildren_self (e : Expr) : e.mapChildren (fun _ c => c) = e := by
  cases e <;> simp only [mapChildren, mapArgs_self]

/-- Without grafts nothing changes. -/
theorem graft_nothing (e : Expr) : e.graft (fun _ => none) = e := by
  induction e using induct_children with
  | step e ih =>
    rw [graft_of_none rfl]
    nth_rewrite 2 [← mapChildren_self e]
    exact mapChildren_congr fun i c found => ih c (List.mem_of_getElem? found)

theorem level_mapChildren (f : Nat → Expr → Expr) (e : Expr) : (e.mapChildren f).level = e.level := by
  cases e with
  | prefixed op => cases op <;> rfl
  | _ => rfl

theorem furtherArgs_mapArgs (f : Nat → Expr → Expr) (i : Nat) (es : List Expr) :
    furtherArgs i (mapArgs f i es) = (furtherArgs i es).map (Part.mapSub f) := by
  induction es generalizing i with
  | nil => rfl
  | cons e es ih => simp [mapArgs, furtherArgs, ih, Part.mapSub]

theorem bracketed_mapArgs (f : Nat → Expr → Expr) (i : Nat) (es : List Expr) :
    bracketed i (mapArgs f i es) = (bracketed i es).map (Part.mapSub f) := by
  cases es with
  | nil => rfl
  | cons e es => simp [bracketed, argParts, mapArgs, furtherArgs_mapArgs, Part.mapSub]

theorem production_mapChildren (f : Nat → Expr → Expr) (e : Expr) :
    (e.mapChildren f).production = e.production.map (Part.mapSub f) := by
  cases e with
  | self word outer => cases outer <;> rfl
  | call | create | invoke => simp [mapChildren, production, bracketed_mapArgs, Part.mapSub]
  | _ => rfl

/-- A change that only tightens the children keeps the levels in order. -/
theorem leveled_mapChildren {f : Nat → Expr → Expr} {e : Expr} (h : e.Leveled)
    (tighter : ∀ i c, e.children[i]? = some c → c.level ≤ (f i c).level) :
    (e.mapChildren f).Leveled := by
  cases e with
  | member q | invoke q | index q | prefixed op q | cast type q | conditional q =>
    exact Nat.le_trans h (tighter 0 _ rfl)
  | binary op l r =>
    exact ⟨Nat.le_trans h.1 (tighter 0 l rfl), Nat.lt_of_lt_of_le h.2 (tighter 1 r rfl)⟩
  | _ => trivial

end Expr

end NullSafeEq
