import NullSafeEq.Proofs.Idiom.Computations
import NullSafeEq.Proofs.Rewriting.GraftedSites

/-!
# Shapes in a grafted expression

What takes the place of a match is a call with two arguments. That is no part of an idiom: the
operands of an idiom are paths, and its call has one argument. So an idiom that stands in the
grafted expression stood in the original.
-/
namespace NullSafeEq

namespace Expr

/-- Without calls. -/
inductive CallFree : Expr → Prop
  | node {e : Expr} (here : e.isCall = false) (each : ∀ c ∈ e.children, CallFree c) : CallFree e

theorem CallFree.here {e : Expr} (h : e.CallFree) : e.isCall = false := by
  cases h with
  | node here each => exact here

theorem CallFree.child {e c : Expr} (h : e.CallFree) (member : c ∈ e.children) : c.CallFree := by
  cases h with
  | node here each => exact each c member

/-- No call is computed where there is none. -/
theorem callFree_iff {e : Expr} : e.CallFree ↔ ∀ id arity, .call id arity ∉ e.computations := by
  induction e using induct_children with
  | step e ih =>
  have own : e.isCall = false ↔ ∀ id arity, .call id arity ∉ e.ownComputations := by
    cases e <;> simp [isCall, ownComputations, computation?]
  have below (x : Computation) : x ∈ (e.children.map computations).sum ↔
      ∃ c ∈ e.children, x ∈ c.computations := by
    rw [← Multiset.sum_coe]
    refine Multiset.mem_join.trans ?_
    simp
  simp only [computations_eq e, Multiset.mem_add, below, not_or, not_exists, not_and, forall_and,
    ← own]
  constructor
  · intro free
    exact ⟨free.here, fun id arity c member => (ih c member).mp (free.child member) id arity⟩
  · rintro ⟨here, each⟩
    exact .node here fun c member => (ih c member).mpr fun id arity => each id arity c member

theorem callFree_of_bare {e : Expr} (h : e.bare.CallFree) : e.CallFree := by
  rwa [callFree_iff, computations_bare, ← callFree_iff] at h

theorem callFree_of_nullTest {e x : Expr} {equal : Bool} (h : e.nullTest? = some (x, equal))
    (free : x.CallFree) : e.CallFree := by
  rwa [callFree_iff, computations_nullTest h, ← callFree_iff]

/-- Nothing that has a name contains a call. -/
theorem callFree_of_name {resolve : Resolver} {e : Expr} {name : String}
    (h : qualifiedName? resolve e = some name) : e.CallFree := by
  rw [callFree_iff, computations_of_name h]
  exact fun _ _ => Multiset.notMem_zero _

end Expr

/-! ## What takes the place of matches -/

/-- Whatever is grafted takes the place of a match. -/
def Grafts.FromMatches (g : Grafts) : Prop :=
  ∀ path new, g path = some new → ∃ (n : DottedName) (m : Match), new = m.rewritten n

theorem Grafts.FromMatches.at {g : Grafts} (h : g.FromMatches) (path : Path) :
    (g.at path).FromMatches := fun rest new grafted => h (path ++ rest) new grafted

theorem Grafts.FromMatches.under {g : Grafts} (h : g.FromMatches) (i : Nat) :
    (g.under i).FromMatches := fun rest new grafted => h (i :: rest) new grafted

theorem DottedName.isCall_call (n : DottedName) (args : List Expr) :
    (n.call args).isCall = true := by
  cases n <;> rfl

theorem DottedName.bare_call (n : DottedName) (args : List Expr) :
    (n.call args).bare = n.call args := by
  cases n <;> rfl

/-- The helper call is no call of the equality method with one argument. -/
theorem DottedName.equalsCall_call (n : DottedName) (l r : Expr) (method : String) :
    (n.call [l, r]).equalsCall? method = none := by
  cases n <;> rfl

namespace Match

theorem rewritten_cases (n : DottedName) (m : Match) :
    m.rewritten n = n.call [m.left.node, m.right.node] ∨
      m.negated = true ∧ m.rewritten n = .prefixed .not (n.call [m.left.node, m.right.node]) none := by
  unfold rewritten
  cases m.negated with
  | true => exact .inr ⟨rfl, rfl⟩
  | false => exact .inl rfl

theorem bare_rewritten (n : DottedName) (m : Match) : (m.rewritten n).bare = m.rewritten n := by
  rcases m.rewritten_cases n with same | ⟨-, same⟩
  · rw [same, n.bare_call]
  · rw [same]
    rfl

theorem not_callFree_rewritten (n : DottedName) (m : Match) : ¬ (m.rewritten n).CallFree := by
  have call : ¬ (n.call [m.left.node, m.right.node]).CallFree := by
    intro free
    have := free.here
    rw [n.isCall_call] at this
    cases this
  rcases m.rewritten_cases n with same | ⟨-, same⟩
  · rwa [same]
  · rw [same]
    exact fun free => call (free.child List.mem_cons_self)

theorem rewritten_ne_invoke (n : DottedName) (m : Match) (q : Expr) (id : String) (a : Expr)
    (sp : Option Span) : m.rewritten n ≠ .invoke q id [a] sp := by
  rcases m.rewritten_cases n with same | ⟨-, same⟩
  · rw [same]
    cases n <;> simp [DottedName.call]
  · simp [same]

end Match

namespace Expr
variable {g : Grafts}

/-- An expression without calls has no grafts in it. -/
theorem graft_of_callFree (origin : g.FromMatches) {e : Expr} (h : (e.graft g).CallFree) :
    e.graft g = e := by
  induction e using induct_children generalizing g with
  | step e ih =>
  cases here : g [] with
  | some new =>
    obtain ⟨n, m, rfl⟩ := origin [] new here
    rw [graft_of_some here] at h
    exact (m.not_callFree_rewritten n h).elim
  | none =>
    rw [graft_of_none here] at h ⊢
    nth_rewrite 2 [← mapChildren_self e]
    refine mapChildren_congr fun i c found => ?_
    refine ih c (List.mem_of_getElem? found) (origin.under i) (h.child ?_)
    refine List.mem_of_getElem? (i := i) ?_
    rw [child_mapChildren, found]
    rfl

end Expr

/-- Parentheses around a grafted expression stay around it. -/
theorem Site.bare_grafted (g : Grafts) (s : Site) :
    (∃ (a : Site) (new : Expr), a.Within s ∧ a.bare = s.bare ∧ g a.path = some new ∧
      (s.grafted g).bare = new.bare) ∨
    (g s.bare.path = none ∧ (s.grafted g).bare = s.bare.grafted g) := by
  obtain ⟨e, above⟩ := s
  induction e using Expr.induct_children generalizing above with
  | step e ih =>
  cases here : g (Site.path ⟨e, above⟩) with
  | some new => exact .inl ⟨_, new, .refl _, rfl, here, by rw [grafted_of_some here]⟩
  | none =>
    cases e with
    | paren b sp =>
      have inner := ih b List.mem_cons_self (.bodyOfParen sp :: above)
      have same : (grafted g ⟨.paren b sp, above⟩).bare =
          (grafted g ⟨b, .bodyOfParen sp :: above⟩).bare := by
        rw [grafted_of_none here, grafted, path_cons]
        rfl
      rw [same]
      rcases inner with ⟨a, new, within, bare, grafts, result⟩ | ⟨ungrafted, result⟩
      · exact .inl ⟨a, new, within.trans (.up b (.bodyOfParen sp) above), bare, grafts, result⟩
      · exact .inr ⟨ungrafted, result⟩
    | _ =>
      refine .inr ⟨here, ?_⟩
      rw [show Site.bare ⟨_, above⟩ = ⟨_, above⟩ from rfl, grafted_of_none here]
      rfl

namespace Expr
variable {g : Grafts}

theorem bare_graft (g : Grafts) (e : Expr) :
    (∃ path new, g path = some new ∧ (e.graft g).bare = new.bare) ∨
    ∃ path, (e.graft g).bare = e.bare.mapChildren fun i c => c.graft (g.at (path ++ [i])) := by
  rcases (Site.root e).bare_grafted g with ⟨a, new, -, -, grafts, same⟩ | ⟨ungrafted, same⟩
  · exact .inl ⟨_, new, grafts, same⟩
  · refine .inr ⟨(Site.root e).bare.path, ?_⟩
    rw [Site.grafted_of_none ungrafted, Site.node_bare] at same
    exact same

/-- A call with one argument was not grafted. -/
theorem invoke_graft (origin : g.FromMatches) {e q' a' : Expr} {id : String} {sp : Option Span}
    (same : (e.graft g).bare = .invoke q' id [a'] sp) : ∃ q a gq ga,
      e.bare = .invoke q id [a] sp ∧ Grafts.FromMatches gq ∧ Grafts.FromMatches ga ∧
      q' = q.graft gq ∧ a' = a.graft ga := by
  rcases bare_graft g e with ⟨path, new, grafts, isNew⟩ | ⟨path, isOld⟩
  · obtain ⟨n, m, rfl⟩ := origin path new grafts
    rw [same, m.bare_rewritten] at isNew
    exact (m.rewritten_ne_invoke n _ _ _ _ isNew.symm).elim
  · rw [same] at isOld
    cases original : e.bare with
    | invoke q id' args sp' =>
      rw [original] at isOld
      match args with
      | [a] =>
        cases isOld
        exact ⟨q, a, _, _, rfl, origin.at _, origin.at _, rfl, rfl⟩
      | [] | _ :: _ :: _ => cases isOld
    | _ =>
      rw [original] at isOld
      cases isOld

/-- A negation was not grafted, unless it negates a helper call. -/
theorem not_graft (origin : g.FromMatches) {e o' : Expr} {sp : Option Span}
    (same : (e.graft g).bare = .prefixed .not o' sp) :
    (∃ path n m, g path = some (Match.rewritten n m) ∧ m.negated = true ∧
      o' = n.call [m.left.node, m.right.node]) ∨
    ∃ o go, e.bare = .prefixed .not o sp ∧ Grafts.FromMatches go ∧ o' = o.graft go := by
  rcases bare_graft g e with ⟨path, new, grafts, isNew⟩ | ⟨path, isOld⟩
  · obtain ⟨n, m, rfl⟩ := origin path new grafts
    rw [same, m.bare_rewritten] at isNew
    rcases m.rewritten_cases n with plain | ⟨negated, negation⟩
    · rw [plain] at isNew
      cases n <;> cases isNew
    · rw [negation] at isNew
      cases isNew
      exact .inl ⟨path, n, m, grafts, negated, rfl⟩
  · rw [same] at isOld
    cases original : e.bare with
    | prefixed op o sp' =>
      rw [original] at isOld
      cases isOld
      exact .inr ⟨o, _, rfl, origin.at _, rfl⟩
    | _ =>
      rw [original] at isOld
      cases isOld

theorem denied_graft (origin : g.FromMatches) {e q' a' : Expr} {id : String} {sp : Option Span}
    (same : (e.graft g).denied.1 = .invoke q' id [a'] sp) : ∃ q a gq ga,
      e.denied = (.invoke q id [a] sp, (e.graft g).denied.2) ∧ Grafts.FromMatches gq ∧
      Grafts.FromMatches ga ∧ q' = q.graft gq ∧ a' = a.graft ga := by
  unfold denied at same ⊢
  split at same
  next o' notSpan negation =>
    rcases not_graft origin negation with ⟨path, n, m, -, -, rfl⟩ | ⟨o, go, original, from', rfl⟩
    · rw [n.bare_call] at same
      cases n <;> cases same
    · obtain ⟨q, a, gq, ga, isCall, origins⟩ := invoke_graft from' same
      refine ⟨q, a, gq, ga, ?_, origins⟩
      simp only [original, isCall]
  next other =>
    obtain ⟨q, a, gq, ga, isCall, origins⟩ := invoke_graft origin same
    refine ⟨q, a, gq, ga, ?_, origins⟩
    simp only [isCall]

/-- A call of the equality method in a grafted expression was one before. -/
theorem equalsCall_graft (origin : g.FromMatches) {e q' a' : Expr} {method : String} {equal : Bool}
    (h : (e.graft g).equalsCall? method = some (q', a', equal)) : ∃ q a sp gq ga,
      e.denied = (.invoke q method [a] sp, equal) ∧ Grafts.FromMatches gq ∧ Grafts.FromMatches ga ∧
      (q.graft gq).isSelf = false ∧ q' = (q.graft gq).bare ∧ a' = (a.graft ga).bare := by
  unfold equalsCall? at h
  split at h
  next q₁ id a₁ sp same =>
    rw [Option.ite_none_right_eq_some] at h
    obtain ⟨⟨rfl, notSelf⟩, h⟩ := h
    cases h
    obtain ⟨q, a, gq, ga, original, originQ, originA, rfl, rfl⟩ := denied_graft origin same
    exact ⟨q, a, sp, gq, ga, original, originQ, originA, notSelf, rfl, rfl⟩
  next => cases h

/-- The qualifier of a call in an idiom has a name, so nothing was grafted in it. -/
theorem equalsCall_of_graft (origin : g.FromMatches) {e q' a' : Expr} {method : String}
    {equal : Bool} (h : (e.graft g).equalsCall? method = some (q', a', equal))
    (free : q'.CallFree) : ∃ (a : Expr) (ga : Grafts),
      e.equalsCall? method = some (q', a.bare, equal) ∧ ga.FromMatches ∧
      a' = (a.graft ga).bare := by
  obtain ⟨q, a, sp, gq, ga, original, originQ, originA, notSelf, rfl, rfl⟩ :=
    equalsCall_graft origin h
  have same := graft_of_callFree originQ (callFree_of_bare free)
  rw [same] at notSelf ⊢
  refine ⟨a, ga, ?_, originA, rfl⟩
  simp [equalsCall?, original, notSelf]

/-- A test for null of something without calls was not grafted. -/
theorem nullTest_of_graft (origin : g.FromMatches) {e x : Expr} {equal : Bool}
    (h : (e.graft g).nullTest? = some (x, equal)) (free : x.CallFree) :
    e.nullTest? = some (x, equal) := by
  rwa [graft_of_callFree origin (callFree_of_nullTest h free)] at h

end Expr

namespace Detector
variable {d : Detector} {g : Grafts}

theorem guarded_of_graft {g g' : Grafts} (origin : g.FromMatches) (origin' : g'.FromMatches)
    {check callee : Expr} {equal : Bool}
    (h : d.Guarded (check.graft g) (callee.graft g') equal) : d.Guarded check callee equal := by
  obtain ⟨x, q, a, name, tested, called, named, qualifier⟩ := h
  obtain ⟨a', ga, original, -, -⟩ :=
    Expr.equalsCall_of_graft origin' called (Expr.callFree_of_name qualifier)
  exact ⟨x, q, _, name, Expr.nullTest_of_graft origin tested (Expr.callFree_of_name named),
    original, named, qualifier⟩

/-- A guarded call in a grafted expression was one before. -/
theorem isGuard_of_graft (origin : g.FromMatches) {e : Expr}
    (h : d.IsGuard (e.mapChildren fun i c => c.graft (g.under i))) : d.IsGuard e := by
  cases e with
  | binary op l r sp =>
    cases op with
    | and => exact guarded_of_graft (origin.under 0) (origin.under 1) h
    | or =>
      simp only [IsGuard, Expr.mapChildren] at h ⊢
      split at h
      next o' notSpan negation =>
        rcases Expr.not_graft (origin.under 1) negation with
          ⟨path, n, m, -, -, rfl⟩ | ⟨o, go, original, from', rfl⟩
        · obtain ⟨x, q, a, name, -, called, -⟩ := h
          rw [n.equalsCall_call] at called
          cases called
        · rw [original]
          exact guarded_of_graft (origin.under 0) from' h
      next => cases h
    | _ => cases h
  | _ => cases h

/-- An idiom with a ternary in a grafted expression was one before. -/
theorem isTernary_of_graft (origin : g.FromMatches) {e : Expr}
    (h : d.IsTernary (e.mapChildren fun i c => c.graft (g.under i))) : d.IsTernary e := by
  cases e with
  | conditional t y n sp =>
    obtain ⟨x, null, v, equal, q, a, first, second, tested, compared, called, named, qualifier,
      namedV, argument⟩ := h
    have test := Expr.nullTest_of_graft (origin.under 0) tested (Expr.callFree_of_name named)
    have branches {g g' : Grafts} {b b' : Expr} (from₁ : g.FromMatches) (from₂ : g'.FromMatches)
        (compared : (b.graft g).nullTest? = some (v, equal))
        (called : (b'.graft g').equalsCall? d.method = some (q, a, equal)) :
        b.nullTest? = some (v, equal) ∧ b'.equalsCall? d.method = some (q, a, equal) := by
      refine ⟨Expr.nullTest_of_graft from₁ compared (Expr.callFree_of_name namedV), ?_⟩
      obtain ⟨a₀, ga, original, from₃, rfl⟩ :=
        Expr.equalsCall_of_graft from₂ called (Expr.callFree_of_name qualifier)
      have free := Expr.callFree_of_bare (Expr.callFree_of_name argument)
      rwa [Expr.graft_of_callFree from₃ free]
    cases null with
    | true =>
      obtain ⟨compared, called⟩ := branches (origin.under 1) (origin.under 2) compared called
      exact ⟨x, true, v, equal, q, a, first, second, test, compared, called, named, qualifier,
        namedV, argument⟩
    | false =>
      obtain ⟨compared, called⟩ := branches (origin.under 2) (origin.under 1) compared called
      exact ⟨x, false, v, equal, q, a, first, second, test, compared, called, named, qualifier,
        namedV, argument⟩
  | _ => cases h

end Detector

end NullSafeEq
