import NullSafeEq.Proofs.Idiom.Coverage
import NullSafeEq.Proofs.Meaning.Preservation

/-!
# Where the other idioms change their meaning

A guarded call with no identity comparison in front of it differs from the helper call in its place
when both operands are null and only then. A bare call differs when its qualifier is null: it
throws, and the helper call tells whether the argument is null.
-/
namespace NullSafeEq

/-! ## Outcomes -/

namespace Outcome
variable {Object : Type} (box : Bool → Object)

/-- What does not throw stands for a reference, which is null for null only. -/
theorem boxed_of_ne_thrown {o : Outcome Object} (normal : o ≠ .thrown) :
    ∃ r, o.boxed box = .reference r ∧ (o = .null ↔ r = .null) := by
  cases o with
  | reference r => exact ⟨r, rfl, by simp⟩
  | truth b => exact ⟨.object (box b), rfl, by simp⟩
  | thrown => exact (normal rfl).elim

end Outcome

namespace Environment
variable {Object : Type} (env : Environment Object)

theorem boxed_valueOf (box : Bool → Object) (p : ValuePath) :
    (env.valueOf p).boxed box = env.valueOf p := by
  rcases env.valueOf_cases p with thrown | ⟨r, same⟩
  · rw [thrown]
    rfl
  · rw [same]
    rfl

variable [DecidableEq Object]

/-- The outcome of an expression where truth values are boxed. -/
def evalBoxed (box : Bool → Object) (method : String) (helper : DottedName) (e : Expr) :
    Outcome Object :=
  env.evalWith (.boxed box) method helper e

/-- The helper asks the equality method of an object. -/
theorem helperCall_object (o : Object) (y : Reference Object) :
    env.helperCall (.reference (.object o)) (.reference y) = .truth (env.holds o y) := by
  by_cases same : y = .object o
  · rw [same, helperCall, env.holds_self, decide_eq_true rfl, Bool.true_or]
  · rw [helperCall, decide_eq_false same, Bool.false_or]

/-- A guarded call on references and the helper call differ when both are null. -/
theorem guarded_outcome (x y : Reference Object) (equal : Bool) : ∃ b c,
    ((Outcome.reference x).compared (!equal) .null).shortCircuit (!equal)
      ((env.methodCall (.reference x) (.reference y)).polar equal) = .truth b ∧
    (env.helperCall (.reference x) (.reference y)).polar equal = .truth c ∧
    (b ≠ c ↔ x = .null ∧ y = .null) := by
  cases x with
  | null => cases y <;> cases equal <;> exact ⟨_, _, rfl, rfl, by simp⟩
  | object o =>
    -- past the guard both call the method
    rw [helperCall_object]
    cases equal <;> exact ⟨_, _, rfl, rfl, by simp⟩

end Environment

/-! ## Matches -/

/-- The place of a guarded call that was not widened is the guard. -/
theorem Detector.span_of_not_isWidened {d : Detector} {m : Match} {guard : Site}
    (h : d.binary? guard = some m) (narrow : ¬ m.IsWidened d) : m.span = guard := by
  obtain ⟨-, stays | ⟨op, left, sp, above, frames, place⟩⟩ := d.binary_place h
  · exact stays
  · refine (narrow ⟨guard, h, isAbove_iff.mpr ?_⟩).elim
    have within : guard.Within m.span := place ▸ .wrapped_up frames
    refine ⟨within.2, fun same => ?_⟩
    -- the operator is outside the parentheses around the guard
    have longer := (Site.Within.wrapped guard).2.length_le
    rw [← same, place, Site.length_path, Site.length_path, frames, List.length_cons] at longer
    exact Nat.not_succ_le_self _ longer

/-- Widening takes in the guard on the right, so an operator on a call was not widened to. -/
theorem Match.not_isWidened_of_call {d : Detector} {m : Match} {op : BinaryOp} {l r : Expr}
    {sp : Option Span} (same : m.span.node = .binary op l r sp) (isCall : r.isCall = true) :
    ¬ m.IsWidened d := by
  rintro ⟨guard, h, above⟩
  obtain ⟨isBinary, stays | ⟨_, _, _, _, -, place⟩⟩ := d.binary_place h
  · rw [stays] at above
    exact (isAbove_iff.mp above).2 rfl
  · rw [place] at same
    obtain ⟨-, -, rfl, -⟩ := Expr.binary.inj same
    have bare := Site.isCall_wrapBelow isCall
    rw [Expr.isCall_of_isBinary isBinary] at bare
    cases bare

section
variable {Object : Type} [DecidableEq Object] (env : Environment Object) (box : Bool → Object)
variable (helper : DottedName) {d : Detector} {m : Match}

/-- A guarded call and the helper call in its place. -/
theorem evalBoxed_guard {s : Site} (standard : d.compare = nullComparison)
    (wf : s.top.WellFormed) (h : d.binary? s = some m) (narrow : ¬ m.IsWidened d)
    (left : env.evalBoxed box d.method helper m.left.node ≠ .thrown)
    (right : env.evalBoxed box d.method helper m.right.node ≠ .thrown) : ∃ b c,
      env.evalBoxed box d.method helper m.span.node = .truth b ∧
      env.evalBoxed box d.method helper (m.rewritten helper) = .truth c ∧
      (b ≠ c ↔ env.evalBoxed box d.method helper m.left.node = .null ∧
        env.evalBoxed box d.method helper m.right.node = .null) := by
  rw [Detector.span_of_not_isWidened h narrow]
  obtain ⟨check, callee, equal, guarded, checkTop, calleeTop, split⟩ :=
    env.evalWith_binary (.boxed box) helper h
  obtain ⟨found, calls, plain, test, tests, differs, checked, testNamed, qualifierNamed, rfl⟩ :=
    Detector.guardedCall_iff.mp guarded
  rw [standard] at tests
  obtain ⟨qualifierTop, -⟩ := equalityCall_top calls
  obtain ⟨p, qualifier, compared⟩ := env.evalWith_of_name (.boxed box) helper d.method
    (Site.wellFormed ((qualifierTop.trans calleeTop).symm ▸ wf))
    (Site.wellFormed (((nullCheck_top tests).trans checkTop).symm ▸ wf)) qualifierNamed testNamed
  have guard := env.evalWith_guard (.boxed box) helper calls plain tests differs split
  unfold Environment.evalBoxed at left right ⊢
  rw [qualifier] at left
  obtain ⟨x, isReference⟩ := (env.valueOf_cases p).resolve_left left
  obtain ⟨y, boxed, null⟩ := Outcome.boxed_of_ne_thrown box right
  rw [compared, qualifier, boxed, env.boxed_valueOf, isReference] at guard
  rw [env.evalWith_rewritten, guard, qualifier, boxed, env.boxed_valueOf, isReference, null,
    Bool.not_not]
  obtain ⟨b, c, span, replacement, differ⟩ := env.guarded_outcome x y equal
  exact ⟨b, c, span, replacement, by simpa using differ⟩

/-- A bare call and the helper call in its place. -/
theorem evalBoxed_direct {call : Site} (h : d.direct? call = some m)
    (named : call.node.calledName? = some d.method)
    (left : env.evalBoxed box d.method helper m.left.node ≠ .thrown)
    (right : env.evalBoxed box d.method helper m.right.node ≠ .thrown) :
    (env.evalBoxed box d.method helper m.left.node ≠ .null → ∃ b,
      env.evalBoxed box d.method helper m.span.node = .truth b ∧
      env.evalBoxed box d.method helper (m.rewritten helper) = .truth b) ∧
    (env.evalBoxed box d.method helper m.left.node = .null →
      env.evalBoxed box d.method helper m.span.node = .thrown ∧
      env.evalBoxed box d.method helper (m.rewritten helper) =
        .truth (decide (env.evalBoxed box d.method helper m.right.node = .null))) := by
  obtain ⟨q, a, sp, same, qualifier, argument, affirmed⟩ := Detector.direct_operands h named
  unfold Environment.evalBoxed at left right ⊢
  obtain ⟨x, qualifierBoxed, qualifierNull⟩ := Outcome.boxed_of_ne_thrown box left
  obtain ⟨y, argumentBoxed, argumentNull⟩ := Outcome.boxed_of_ne_thrown box right
  have whole : env.evalWith (.boxed box) d.method helper m.span.node =
      env.methodCall (.reference x) (.reference y) := by
    rw [qualifier, Environment.evalWith_bare] at qualifierBoxed
    rw [argument, Environment.evalWith_bare] at argumentBoxed
    rw [(Detector.direct_place h).1, same, Environment.evalWith]
    simp only [Environment.evalAllWith, if_pos, qualifierBoxed, argumentBoxed]
  simp only [Environment.evalWith_rewritten, affirmed, whole, qualifierBoxed, argumentBoxed, ne_eq,
    qualifierNull, argumentNull]
  cases x with
  | null => exact ⟨fun object => (object rfl).elim, fun _ => ⟨rfl, rfl⟩⟩
  | object o => exact ⟨fun _ => ⟨_, rfl, env.helperCall_object o y⟩, by simp⟩

/-- In every tree that was read, and where both operands of a match do not throw: a guarded call
that was not widened and the helper call in its place are both true or false, and they differ when
both operands are null and only then; a bare call and the helper call in its place are true alike
unless the qualifier is null, and then the bare call throws while the helper call tells whether the
argument is null. Operands are boxed, so any argument that does not throw will do. -/
theorem eval_inexact_idiom {text : String} {t : Tree} (read : Tree.read text = .ok t)
    (standard : d.compare = nullComparison) (member : m ∈ d.scan t)
    (left : env.evalBoxed box d.method helper m.left.node ≠ .thrown)
    (right : env.evalBoxed box d.method helper m.right.node ≠ .thrown) :
    (m.form = .binary → ¬ m.IsWidened d → ∃ b c,
      env.evalBoxed box d.method helper m.span.node = .truth b ∧
      env.evalBoxed box d.method helper (m.rewritten helper) = .truth c ∧
      (b ≠ c ↔ env.evalBoxed box d.method helper m.left.node = .null ∧
        env.evalBoxed box d.method helper m.right.node = .null)) ∧
    (m.form = .directCall →
      (env.evalBoxed box d.method helper m.left.node ≠ .null → ∃ b,
        env.evalBoxed box d.method helper m.span.node = .truth b ∧
        env.evalBoxed box d.method helper (m.rewritten helper) = .truth b) ∧
      (env.evalBoxed box d.method helper m.left.node = .null →
        env.evalBoxed box d.method helper m.span.node = .thrown ∧
        env.evalBoxed box d.method helper (m.rewritten helper) =
          .truth (decide (env.evalBoxed box d.method helper m.right.node = .null)))) := by
  obtain ⟨call, listed, found⟩ := Detector.analyze_of_mem_scan member
  rcases Detector.analyze_cases found with direct | ⟨context, around, binary | conditional⟩
  · have bare := evalBoxed_direct env box helper direct (Detector.calledName_of_analyze found) left
      right
    obtain ⟨-, q, -, a, -, rfl⟩ := Detector.direct_iff.mp direct
    exact ⟨nofun, fun _ => bare⟩
  · have wf : context.top.WellFormed := by
      rw [Site.top_enclosing around, Detector.top_of_mem_calls listed]
      exact wellFormed_of_read read
    refine ⟨fun _ narrow => evalBoxed_guard env box helper standard wf binary narrow left right, ?_⟩
    rw [Detector.binary_form binary]
    nofun
  · obtain ⟨t, y, n, sp, same, -, -, -, -, -, -, -, -, -, -, -, -, -, rfl⟩ :=
      Detector.conditional_iff.mp conditional
    exact ⟨nofun, nofun⟩

end

/-- `a != null && a.equals(g())` where both operands are null, and `b.equals(a == b)` where objects
are numbers that stand for truth values too. -/
theorem eval_inexact_idiom_null :
    let env : Environment Nat := ⟨fun p => some (if p = .name "a" then .null else .object 2),
      fun o r => r = .object o, fun _ => decide_eq_true rfl, fun _ => .null⟩
    let d : Detector := ⟨fun _ => .value, false, "equals", nullComparison, true⟩
    let helper := DottedName.plain "same"
    ∃ t guarded bare, Tree.read "f(a != null && a.equals(g()), b.equals(a == b))" = .ok t ∧
      d.scan t = [guarded, bare] ∧
      (∃ b c, env.evalBoxed Bool.toNat "equals" helper guarded.span.node = .truth b ∧
        env.evalBoxed Bool.toNat "equals" helper (guarded.rewritten helper) = .truth c ∧ b ≠ c) ∧
      ∃ b, env.evalBoxed Bool.toNat "equals" helper bare.span.node = .truth b ∧
        env.evalBoxed Bool.toNat "equals" helper (bare.rewritten helper) = .truth b := by
  intro env d helper
  let check := Expr.binary .ne (.name "a" (some ⟨2, 3⟩)) (.literal .null "null" (some ⟨7, 11⟩))
    (some ⟨2, 11⟩)
  let call := Expr.invoke (.name "a" (some ⟨15, 16⟩)) "equals" [.call "g" [] (some ⟨24, 27⟩)]
    (some ⟨15, 28⟩)
  let other := Expr.invoke (.name "b" (some ⟨30, 31⟩)) "equals"
    [.binary .eq (.name "a" (some ⟨39, 40⟩)) (.name "b" (some ⟨44, 45⟩)) (some ⟨39, 45⟩)]
    (some ⟨30, 46⟩)
  have read : Tree.read "f(a != null && a.equals(g()), b.equals(a == b))" =
      .ok ⟨.call "f" [.binary .and check call (some ⟨2, 28⟩), other] (some ⟨0, 47⟩),
        some "f(a != null && a.equals(g()), b.equals(a == b))"⟩ := rfl
  refine ⟨_, _, _, read, rfl, ?_, ?_⟩
  · obtain ⟨b, c, span, replacement, differ⟩ := (eval_inexact_idiom env Bool.toNat helper (d := d)
      read rfl List.mem_cons_self (by decide) (by decide)).1 rfl
      (Match.not_isWidened_of_call (r := call) rfl rfl)
    exact ⟨b, c, span, replacement, differ.mpr ⟨rfl, rfl⟩⟩
  · exact ((eval_inexact_idiom env Bool.toNat helper (d := d) read rfl
      (List.mem_cons_of_mem _ List.mem_cons_self) (by decide) (by decide)).2 rfl).1 (by decide)

end NullSafeEq
