import NullSafeEq.Grammar.Reading
import NullSafeEq.Idiom.Match

/-!
# Finding equality idioms

Every call of the equality method is looked at in its context, the nearest construct around it
other than parentheses and prefix operators. A short-circuit operator may make it a guarded call,
a ternary may make it one of two branches; failing that, the bare call is reported itself, unless
only guarded calls are wanted or the context makes it an operand of something else.
-/
namespace NullSafeEq

/-- What the detector depends on besides the tree. -/
structure Detector where
  resolve : Resolver
  /-- Report guarded calls only. -/
  requireGuard : Bool
  /-- The name of the equality method. -/
  method : String
  compare : NullComparison
  /-- Without this nothing is reported. -/
  applicable : Bool

namespace Detector

def nameOf (d : Detector) (s : Site) : Option String := qualifiedName? d.resolve s.node

/-- `first == second` for `true` and `first != second` for `false`, in either order. -/
def comparesNames (d : Detector) (equal : Bool) (first second : String) (e : Expr) : Bool :=
  match e.bare with
  | .binary op l r _ =>
    op = (if equal then .eq else .ne) &&
      match qualifiedName? d.resolve l, qualifiedName? d.resolve r with
      | some left, some right =>
        (left = first && right = second) || (left = second && right = first)
      | _, _ => false
  | _ => false

/-- The place to replace for a guarded call: the guard itself, or the disjunction with an identity
comparison of the same operands in front of it (the conjunction with its dual for `!=`). -/
def widen (d : Detector) (guard : Site) (equal : Bool) (first second : String) : Site :=
  let outer := guard.wrapped
  match outer.above with
  | .rightOf op left sp :: above =>
    if op = (if equal then .or else .and) && d.comparesNames equal first second left then
      ⟨.binary op left outer.node sp, above⟩
    else guard
  | _ => guard

/-- A null check on the left and a call on the right, where the check lets the call through exactly
when the qualifier of the call is not null. -/
def guardedCall? (d : Detector) (guard check callee : Site) (equal : Bool) : Option Match := do
  let found ← equalityCall? d.method callee
  if !found.equal then none
  let test ← nullCheck? d.compare check
  if test.equal = equal then none
  let checked ← d.nameOf test.compared
  if d.nameOf found.qualifier ≠ some checked then none
  let span :=
    match d.nameOf found.argument with
    | some argument => d.widen guard equal checked argument
    | none => guard
  return ⟨span, found.qualifier, found.argument, !equal, .binary⟩

/-- `x != null && x.equals(y)` and its dual `x == null || !x.equals(y)`. -/
def binary? (d : Detector) (s : Site) : Option Match :=
  match s.node with
  | .binary .and l r sp =>
    d.guardedCall? s (s.down (.leftOf .and r sp) l) (s.down (.rightOf .and l sp) r).bare true
  | .binary .or l r sp =>
    let right := (s.down (.rightOf .or l sp) r).bare
    match right.node with
    | .prefixed .not e notSpan =>
      d.guardedCall? s (s.down (.leftOf .or r sp) l) (right.down (.operandOf .not notSpan) e).bare
        false
    | _ => none
  | _ => none

/-- `x == null ? y == null : x.equals(y)` with its variants: the test may say that `x` is null or
that it is not, and both branches may be negated. -/
def conditional? (d : Detector) (s : Site) : Option Match :=
  match s.node with
  | .conditional t y n sp => do
    let test ← nullCheck? d.compare (s.down (.testOf y n sp) t)
    let yes := s.down (.yesOf t n sp) y
    let no := s.down (.noOf t y sp) n
    let (nullBranch, valueBranch) := if test.equal then (yes, no) else (no, yes)
    let other ← nullCheck? d.compare nullBranch.bare
    let found ← equalityCall? d.method valueBranch.bare
    if other.equal ≠ found.equal then none
    let tested ← d.nameOf test.compared
    let otherName ← d.nameOf other.compared
    let argument ← d.nameOf found.argument
    let qualifier ← d.nameOf found.qualifier
    if tested ≠ qualifier || otherName ≠ argument then none
    return ⟨s, found.qualifier, found.argument, !found.equal, .conditional⟩
  | _ => none

/-- The bare call `q.m(a)`. -/
def direct? (d : Detector) (call : Site) : Option Match :=
  if d.requireGuard then none
  else
    match call.receiver?, call.soleArgument? with
    | some qualifier, some argument =>
      some ⟨call, qualifier.bare, argument.bare, false, .directCall⟩
    | _, _ => none

/-- The outer shape of a guarded call: a conjunction, or a disjunction with a negation on the
right. -/
def isGuardShape : Expr → Bool
  | .binary .and .. => true
  | .binary .or _ r _ => r.bare.isNot
  | _ => false

/-- The match of a call in its context. -/
def inContext? (d : Detector) (call context : Site) : Option Match :=
  match context.node with
  | .binary .. =>
    match d.binary? context with
    | some found => some found
    | none => if isGuardShape context.node then d.direct? call else none
  | .conditional .. =>
    match d.conditional? context with
    | some found => some found
    | none => d.direct? call
  | _ => d.direct? call

/-- The match of one site; only calls of the equality method have one. -/
def analyze? (d : Detector) (call : Site) : Option Match :=
  if !d.applicable || call.node.calledName? ≠ some d.method then none
  else if call.receiver?.any fun q => q.node.isSelf then none
  else
    match call.enclosing? fun e => e.isParen || e.isPrefixed with
    | some context => d.inContext? call context
    | none => d.direct? call

/-- The matches in order, each place once. -/
def firstPerPlace (seen : List Path) : List Match → List Match
  | [] => []
  | m :: rest =>
    if seen.contains m.span.path then firstPerPlace seen rest
    else m :: firstPerPlace (m.span.path :: seen) rest

/-- The matches of all calls of a tree in pre-order of the calls. -/
def scan (d : Detector) (t : Tree) : List Match :=
  if d.applicable then firstPerPlace [] (t.calls.filterMap d.analyze?) else []

end Detector

end NullSafeEq
