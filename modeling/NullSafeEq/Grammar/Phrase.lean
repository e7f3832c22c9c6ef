import NullSafeEq.Grammar.Token

/-!
# Phrases

A phrase is an expression as the grammar sees it. The type of a cast and the qualifier of `this`
or `super` are phrases of any shape, and the places of the tokens are kept. Turning a phrase into
an expression checks that those two are class names, that is, chains of names; the first misuse in
bottom-up order from left to right is reported.
-/
namespace NullSafeEq

inductive Phrase where
  | literal (kind : LiteralKind) (text : String) (range : Span)
  | name (id : String) (range : Span)
  | self (word : SelfWord) (range : Span)
  | member (base : Phrase) (id : String) (range : Span)
  | selfOf (base : Phrase) (word : SelfWord) (range : Span)
  | call (id : String) (start : Nat) (args : List Phrase) (stop : Nat)
  | invoke (base : Phrase) (id : String) (args : List Phrase) (stop : Nat)
  | index (base position : Phrase) (stop : Nat)
  | create (start : Nat) (type : String) (args : List Phrase) (stop : Nat)
  | paren (start : Nat) (body : Phrase) (stop : Nat)
  | cast (start : Nat) (type body : Phrase)
  | prefixed (start : Nat) (op : PrefixOp) (operand : Phrase)
  | binary (op : BinaryOp) (left right : Phrase)
  | conditional (test yes no : Phrase)
  deriving Repr, BEq, Inhabited

/-- A class name was required and something else was found. -/
inductive Misuse where
  /-- The type of the cast that opens at an offset. -/
  | castType (offset : Nat)
  /-- The qualifier of the `this` or `super` at an offset. -/
  | selfQualifier (word : SelfWord) (offset : Nat)
  deriving DecidableEq, Repr

namespace Phrase

/-- Where the first token of a phrase starts. -/
def start : Phrase → Nat
  | literal _ _ range | name _ range | self _ range => range.start
  | member base .. | selfOf base .. | invoke base .. | index base .. => base.start
  | call _ start .. | create start .. | paren start .. | cast start .. | prefixed start .. => start
  | binary _ left _ => left.start
  | conditional test .. => test.start

/-- Where the last token of a phrase stops. -/
def stop : Phrase → Nat
  | literal _ _ range | name _ range | self _ range | member _ _ range | selfOf _ _ range =>
    range.stop
  | call _ _ _ stop | invoke _ _ _ stop | index _ _ stop | create _ _ _ stop | paren _ _ stop =>
    stop
  | cast _ _ body => body.stop
  | prefixed _ _ operand => operand.stop
  | binary _ _ right => right.stop
  | conditional _ _ no => no.stop

def span (p : Phrase) : Span := ⟨p.start, p.stop⟩

/-- `a.b.c` for a pure chain of names, with parentheses looked through at every level. -/
def dotted? : Phrase → Option String
  | name id _ => some id
  | member base id _ => base.dotted?.map fun outer => outer ++ "." ++ id
  | paren _ body _ => body.dotted?
  | _ => none

mutual

/-- The expression of a phrase in which every cast type and every qualifier of `this` and `super`
is a class name. -/
def toExpr (p : Phrase) : Except Misuse Expr :=
  match p with
  | literal kind text range => .ok (.literal kind text (some range))
  | name id range => .ok (.name id (some range))
  | self word range => .ok (.self word none (some range))
  | member base id _ => do return .member (← base.toExpr) id (some p.span)
  | selfOf base word range => do
    let _ ← base.toExpr
    match base.dotted? with
    | some outer => return .self word (some outer) (some p.span)
    | none => .error (.selfQualifier word range.start)
  | call id _ args _ => do return .call id (← toExprs args) (some p.span)
  | invoke base id args _ => do
    let qualifier ← base.toExpr
    return .invoke qualifier id (← toExprs args) (some p.span)
  | index base position _ => do
    let array ← base.toExpr
    return .index array (← position.toExpr) (some p.span)
  | create _ type args _ => do return .create type (← toExprs args) (some p.span)
  | paren _ body _ => do return .paren (← body.toExpr) (some p.span)
  | cast start type body => do
    let _ ← type.toExpr
    let operand ← body.toExpr
    match type.dotted? with
    | some id => return .cast id operand (some p.span)
    | none => .error (.castType start)
  | prefixed _ op operand => do return .prefixed op (← operand.toExpr) (some p.span)
  | binary op left right => do
    let l ← left.toExpr
    return .binary op l (← right.toExpr) (some p.span)
  | conditional test yes no => do
    let t ← test.toExpr
    let y ← yes.toExpr
    return .conditional t y (← no.toExpr) (some p.span)

/-- The expressions of several phrases. -/
def toExprs : List Phrase → Except Misuse (List Expr)
  | [] => .ok []
  | p :: ps => do
    let e ← p.toExpr
    return e :: (← toExprs ps)

end

end Phrase

end NullSafeEq
