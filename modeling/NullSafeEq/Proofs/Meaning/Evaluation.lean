import NullSafeEq.Proofs.Meaning.ValuePath

/-!
# Evaluation

A meaning for expressions as far as equality idioms need one. Value paths denote references, the
operators work as in the language, the equality method is any relation that holds of an object and
itself, and what remains may evaluate to anything.
-/
namespace NullSafeEq

/-- A reference to an object, or null. -/
inductive Reference (Object : Type) where
  | null | object (o : Object)
  deriving DecidableEq, Repr

/-- What an expression evaluates to: a reference, a truth value or an exception. -/
inductive Outcome (Object : Type) where
  | reference (r : Reference Object) | truth (b : Bool) | thrown
  deriving DecidableEq, Repr

namespace Outcome
variable {Object : Type}

/-- The outcome of `null`. -/
abbrev null : Outcome Object := reference .null

/-- Logical negation. -/
def negated : Outcome Object → Outcome Object
  | truth b => truth !b
  | _ => thrown

/-- An outcome as it stands for `true` and its negation for `false`. -/
def polar (o : Outcome Object) (positive : Bool) : Outcome Object :=
  if positive then o else o.negated

/-- `==` for `true` and `!=` for `false`. -/
def compared [DecidableEq Object] (equal : Bool) : Outcome Object → Outcome Object → Outcome Object
  | thrown, _ | _, thrown => thrown
  | l, r => truth (decide (l = r) == equal)

/-- `||` for `true` and `&&` for `false`: the right operand counts when the left one is not that
value. -/
def shortCircuit (stop : Bool) : Outcome Object → Outcome Object → Outcome Object
  | truth b, r => if b = stop then truth b else r
  | _, _ => thrown

/-- `test ? yes : no` -/
def choose : Outcome Object → Outcome Object → Outcome Object → Outcome Object
  | truth b, yes, no => if b then yes else no
  | _, _, _ => thrown

end Outcome

/-- Whether an expression is this chain of names, with no parentheses in it. -/
def DottedName.isSpelled : DottedName → Expr → Bool
  | plain id, .name id' _ => id = id'
  | member outer id, .member q id' _ => id = id' && outer.isSpelled q
  | _, _ => false

/-- What an expression may depend on. -/
structure Environment (Object : Type) where
  /-- What a path denotes; nothing stands for an exception. -/
  denote : ValuePath → Option (Reference Object)
  /-- The outcome of the equality method of an object. -/
  holds : Object → Reference Object → Bool
  holds_self : ∀ o, holds o (.object o) = true
  /-- The outcome of everything that the idioms do not speak of. -/
  other : Expr → Outcome Object

namespace Environment
variable {Object : Type}

/-- The outcome of a path. -/
def valueOf (env : Environment Object) (p : ValuePath) : Outcome Object :=
  match env.denote p with
  | some r => .reference r
  | none => .thrown

/-- A path denotes a reference unless it throws. -/
theorem valueOf_cases (env : Environment Object) (p : ValuePath) :
    env.valueOf p = .thrown ∨ ∃ r, env.valueOf p = .reference r := by
  unfold valueOf
  cases env.denote p with
  | none => exact .inl rfl
  | some r => exact .inr ⟨r, rfl⟩

/-- The equality method called on a qualifier. -/
def methodCall (env : Environment Object) : Outcome Object → Outcome Object → Outcome Object
  | .reference (.object q), .reference a => .truth (env.holds q a)
  | _, _ => .thrown

variable [DecidableEq Object]

/-- The helper called on two operands. -/
def helperCall (env : Environment Object) : Outcome Object → Outcome Object → Outcome Object
  | .reference .null, .reference r => .truth (decide (r = .null))
  | .reference (.object l), .reference r => .truth (decide (r = .object l) || env.holds l r)
  | _, _ => .thrown

mutual

/-- The outcome of an expression, for the names of the equality method and of the helper. -/
def eval (env : Environment Object) (method : String) (helper : DottedName) :
    Expr → Outcome Object
  | .literal .null _ _ => .null
  | .literal .boolean text _ => .truth (text = "true")
  | .name id _ => env.valueOf (.name id)
  | .self word outer _ => env.valueOf (.self word outer)
  | .member q id s =>
    match q.valuePath? with
    | some base => env.valueOf (.member base id)
    | none => env.other (.member q id s)
  | .call id args s =>
    match env.evalAll method helper args with
    | [l, r] =>
      if helper.isSpelled (.name id none) then env.helperCall l r else env.other (.call id args s)
    | _ => env.other (.call id args s)
  | .invoke q id args s =>
    match env.evalAll method helper args with
    | [a] =>
      if id = method then env.methodCall (env.eval method helper q) a
      else env.other (.invoke q id args s)
    | [l, r] =>
      if helper.isSpelled (.member q id none) then env.helperCall l r
      else env.other (.invoke q id args s)
    | _ => env.other (.invoke q id args s)
  | .binary .or l r _ => (env.eval method helper l).shortCircuit true (env.eval method helper r)
  | .binary .and l r _ => (env.eval method helper l).shortCircuit false (env.eval method helper r)
  | .binary .eq l r _ => (env.eval method helper l).compared true (env.eval method helper r)
  | .binary .ne l r _ => (env.eval method helper l).compared false (env.eval method helper r)
  | .prefixed .not e _ => (env.eval method helper e).negated
  | .conditional t y n _ =>
    (env.eval method helper t).choose (env.eval method helper y) (env.eval method helper n)
  | .paren e _ => env.eval method helper e
  | e => env.other e

/-- The outcomes of several expressions. -/
def evalAll (env : Environment Object) (method : String) (helper : DottedName) :
    List Expr → List (Outcome Object)
  | [] => []
  | e :: es => env.eval method helper e :: env.evalAll method helper es

end

end Environment

theorem DottedName.isSpelled_toExpr (n : DottedName) : n.isSpelled n.toExpr = true := by
  induction n with
  | plain id => simp [DottedName.toExpr, DottedName.isSpelled]
  | member outer id ih => simp [DottedName.toExpr, DottedName.isSpelled, ih]

end NullSafeEq
