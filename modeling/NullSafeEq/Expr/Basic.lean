/-!
# Expressions

The expressions of a Java-like language as far as equality idioms need them: literals, reference
chains, calls, operators, ternaries, casts, indexing and object creation. Parentheses stay in the
tree. A node that was read from a text carries the range of code points that it was read from; a
node built by hand may carry none.
-/
namespace NullSafeEq

/-- The code points of a text from `start` up to, and without, `stop`. -/
structure Span where
  start : Nat
  stop : Nat
  deriving DecidableEq, Repr

inductive LiteralKind where
  | null | boolean | number | string | char
  deriving DecidableEq, Repr

inductive BinaryOp where
  | or | and | eq | ne | lt | gt | le | ge | add | sub | mul | div | rem
  deriving DecidableEq, Repr

namespace BinaryOp

def text : BinaryOp → String
  | or => "||" | and => "&&"
  | eq => "==" | ne => "!="
  | lt => "<" | gt => ">" | le => "<=" | ge => ">="
  | add => "+" | sub => "-"
  | mul => "*" | div => "/" | rem => "%"

/-- How tightly an operator binds; all operators associate to the left. -/
def level : BinaryOp → Nat
  | or => 1
  | and => 2
  | eq | ne => 3
  | lt | gt | le | ge => 4
  | add | sub => 5
  | mul | div | rem => 6

end BinaryOp

inductive PrefixOp where
  | not | negate | plus
  deriving DecidableEq, Repr

def PrefixOp.text : PrefixOp → String
  | not => "!" | negate => "-" | plus => "+"

/-- The two words by which an object refers to itself. -/
inductive SelfWord where
  | this | super
  deriving DecidableEq, Repr

def SelfWord.text : SelfWord → String
  | this => "this" | super => "super"

/-- Expressions. Names are not checked, so a tree built by hand may hold any text as a name. -/
inductive Expr where
  | literal (kind : LiteralKind) (text : String) (span : Option Span)
  /-- An unqualified name. -/
  | name (id : String) (span : Option Span)
  /-- A name selected from a qualifier: `a.b`, `f().b`. -/
  | member (qualifier : Expr) (id : String) (span : Option Span)
  /-- `this` or `super`, or one of them qualified by a class: `Outer.this`. -/
  | self (word : SelfWord) (outer : Option String) (span : Option Span)
  /-- A call without a qualifier: `f(x)`. -/
  | call (id : String) (args : List Expr) (span : Option Span)
  /-- A call on a qualifier: `a.f(x)`. -/
  | invoke (qualifier : Expr) (id : String) (args : List Expr) (span : Option Span)
  | binary (op : BinaryOp) (left right : Expr) (span : Option Span)
  | prefixed (op : PrefixOp) (operand : Expr) (span : Option Span)
  /-- `test ? yes : no` -/
  | conditional (test yes no : Expr) (span : Option Span)
  | paren (body : Expr) (span : Option Span)
  | cast (type : String) (body : Expr) (span : Option Span)
  | index (array position : Expr) (span : Option Span)
  | create (type : String) (args : List Expr) (span : Option Span)
  deriving Repr, BEq, Inhabited

namespace Expr

/-- The range that a node was read from. -/
def span : Expr → Option Span
  | literal _ _ s | name _ s | member _ _ s | self _ _ s | call _ _ s | invoke _ _ _ s
  | binary _ _ _ s | prefixed _ _ s | conditional _ _ _ s | paren _ s | cast _ _ s
  | index _ _ s | create _ _ s => s

/-- The direct subexpressions from left to right; a qualifier comes before the arguments. -/
def children : Expr → List Expr
  | literal .. | name .. | self .. => []
  | member q _ _ => [q]
  | call _ args _ | create _ args _ => args
  | invoke q _ args _ => q :: args
  | binary _ l r _ => [l, r]
  | prefixed _ e _ | paren e _ | cast _ e _ => [e]
  | conditional t y n _ => [t, y, n]
  | index a i _ => [a, i]

mutual

/-- The number of nodes. -/
def size : Expr → Nat
  | literal .. | name .. | self .. => 1
  | member q _ _ => q.size + 1
  | call _ args _ | create _ args _ => totalSize args + 1
  | invoke q _ args _ => q.size + totalSize args + 1
  | binary _ l r _ => l.size + r.size + 1
  | prefixed _ e _ | paren e _ | cast _ e _ => e.size + 1
  | conditional t y n _ => t.size + y.size + n.size + 1
  | index a i _ => a.size + i.size + 1

/-- The number of nodes of several expressions. -/
def totalSize : List Expr → Nat
  | [] => 0
  | e :: es => e.size + totalSize es

end

theorem totalSize_append (es fs : List Expr) :
    totalSize (es ++ fs) = totalSize es + totalSize fs := by
  induction es with
  | nil => simp [totalSize]
  | cons e es ih => rw [List.cons_append, totalSize, ih, totalSize, Nat.add_assoc]

theorem totalSize_perm {es fs : List Expr} (same : es.Perm fs) : totalSize es = totalSize fs := by
  induction same with
  | nil => rfl
  | cons e _ ih => rw [totalSize, totalSize, ih]
  | swap e f es => simp only [totalSize, Nat.add_left_comm]
  | trans _ _ first second => exact first.trans second

/-- A node has one node more than its children have together. -/
theorem size_eq (e : Expr) : e.size = totalSize e.children + 1 := by
  cases e <;> simp [size, children, totalSize, Nat.add_assoc]

/-- The innermost expression inside any number of parentheses. -/
def bare : Expr → Expr
  | paren e _ => e.bare
  | e => e

/-- `a.b.c` for a pure chain of names, with parentheses looked through at every level. -/
def dotted? : Expr → Option String
  | name id _ => some id
  | member q id _ => q.dotted?.map fun base => base ++ "." ++ id
  | paren e _ => e.dotted?
  | _ => none

/-- `this` or `super`, qualified or not, inside any number of parentheses. -/
def isSelf (e : Expr) : Bool :=
  match e.bare with
  | self .. => true
  | _ => false

/-- The literal `null` itself. -/
def isNull : Expr → Bool
  | literal .null _ _ => true
  | _ => false

/-- A logical negation itself. -/
def isNot : Expr → Bool
  | prefixed .not _ _ => true
  | _ => false

/-- A name, qualified or not, itself. -/
def isReference : Expr → Bool
  | name .. | member .. => true
  | _ => false

/-- The name that a call calls. -/
def calledName? : Expr → Option String
  | call id .. | invoke _ id .. => some id
  | _ => none

def isParen : Expr → Bool
  | paren .. => true
  | _ => false

def isPrefixed : Expr → Bool
  | prefixed .. => true
  | _ => false

def isCall : Expr → Bool
  | call .. | invoke .. => true
  | _ => false

mutual

/-- The same expression without spans. -/
def unspanned : Expr → Expr
  | literal k t _ => literal k t none
  | name id _ => name id none
  | member q id _ => member q.unspanned id none
  | self w o _ => self w o none
  | call id args _ => call id (unspannedAll args) none
  | invoke q id args _ => invoke q.unspanned id (unspannedAll args) none
  | binary op l r _ => binary op l.unspanned r.unspanned none
  | prefixed op e _ => prefixed op e.unspanned none
  | conditional t y n _ => conditional t.unspanned y.unspanned n.unspanned none
  | paren e _ => paren e.unspanned none
  | cast type e _ => cast type e.unspanned none
  | index a i _ => index a.unspanned i.unspanned none
  | create type args _ => create type (unspannedAll args) none

/-- Several expressions without spans. -/
def unspannedAll : List Expr → List Expr
  | [] => []
  | e :: es => e.unspanned :: unspannedAll es

end

end Expr

end NullSafeEq
