import NullSafeEq.Expr.Site
import NullSafeEq.Names.Resolver

/-!
# Matches and their building blocks

The parts that the idioms are made of: a negation, a comparison with null, a call of the equality
method. Each is recognised with parentheses looked through, and answers with sites of the tree.
-/
namespace NullSafeEq

/-- The surface form that a match was recognised from. -/
inductive Form where
  | binary | conditional | directCall
  deriving DecidableEq, Repr

def Form.text : Form → String
  | binary => "binary" | conditional => "conditional" | directCall => "direct_call"

/-- A place that may be replaced by a call of a null-safe helper on two operands, behind a `!` when
`negated` holds. -/
structure Match where
  span : Site
  left : Site
  right : Site
  negated : Bool
  form : Form
  deriving Repr

/-- A comparison of a site with null: the other operand, when the first argument is an equality
(for `true`) or an inequality (for `false`) with null on one side. -/
abbrev NullComparison := Site → Bool → Option Site

/-- `x == null` and `null == x` for `true`, `x != null` and `null != x` for `false`. -/
def nullComparison : NullComparison := fun s equal =>
  let b := s.bare
  match b.node with
  | .binary op l r sp =>
    if op = (if equal then .eq else .ne) then
      let left := (b.down (.leftOf op r sp) l).bare
      let right := (b.down (.rightOf op l sp) r).bare
      if right.node.isNull then some left
      else if left.node.isNull then some right
      else none
    else none
  | _ => none

/-- A site without parentheses and without at most one leading `!`, and whether there was none. -/
def unwrapNegation (s : Site) : Site × Bool :=
  let b := s.bare
  match b.node with
  | .prefixed .not e sp => ((b.down (.operandOf .not sp) e).bare, false)
  | _ => (b, true)

/-- A test whether an operand is null (`equal`) or not. -/
structure NullCheck where
  compared : Site
  equal : Bool
  deriving Repr

/-- `x == null`, `x != null` and their negations; `!(x != null)` says that `x` is null. -/
def nullCheck? (compare : NullComparison) (s : Site) : Option NullCheck :=
  let (inner, positive) := unwrapNegation s
  match compare inner true with
  | some compared => some ⟨compared, positive⟩
  | none => (compare inner false).map fun compared => ⟨compared, !positive⟩

/-- A call of the equality method on a qualifier, under a `!` unless `equal`. -/
structure EqualityCall where
  qualifier : Site
  argument : Site
  equal : Bool
  deriving Repr

/-- `q.m(a)` and `!q.m(a)`, where `q` is not `this` or `super`. -/
def equalityCall? (method : String) (s : Site) : Option EqualityCall :=
  let (inner, positive) := unwrapNegation s
  if inner.node.calledName? = some method then
    match inner.receiver?, inner.soleArgument? with
    | some qualifier, some argument =>
      if qualifier.node.isSelf then none else some ⟨qualifier.bare, argument.bare, positive⟩
    | _, _ => none
  else none

end NullSafeEq
