import NullSafeEq.Grammar.Parser
import NullSafeEq.Expr.Site
import NullSafeEq.Text.Classes
import NullSafeEq.Text.Lines
import NullSafeEq.Text.Quoted

/-!
# Reading an expression from a text

A tree is an expression together with the text that it was read from, if any. A text that the
grammar does not accept is rejected before anything is said about casts and qualifiers.
-/
namespace NullSafeEq

/-- An expression and the text that its spans refer to. -/
structure Tree where
  root : Expr
  source : Option String
  deriving Repr, Inhabited

/-- Why a text could not be read, and where. -/
inductive ReadError where
  /-- The text is no expression; it is kept without the blanks around it. -/
  | invalid (place : Text.Place) (text : String)
  | castType (place : Text.Place)
  | selfQualifier (word : SelfWord) (place : Text.Place)
  deriving DecidableEq, Repr

namespace ReadError

def place : ReadError → Text.Place
  | invalid p _ | castType p | selfQualifier _ p => p

def message : ReadError → String
  | invalid p text =>
    s!"Invalid expression at line {p.line}, column {p.column}: {Text.quoted text}"
  | castType _ => "cast type must be a class name"
  | selfQualifier word _ => s!"'{word.text}' can only be qualified by a class name"

end ReadError

namespace Tree

/-- Read a text as an expression. -/
def read (text : String) : Except ReadError Tree :=
  let place := Text.Place.ofOffset text.toList
  match Parser.parse (Lexeme.ofText text) with
  | .error offset => .error (.invalid (place offset) (Text.trim text))
  | .ok phrase =>
    match phrase.toExpr with
    | .error (.castType offset) => .error (.castType (place offset))
    | .error (.selfQualifier word offset) => .error (.selfQualifier word (place offset))
    | .ok root => .ok ⟨root, some text⟩

/-- The text of a node: what it was read from, or its canonical text when that is not known. -/
def textOf (t : Tree) (e : Expr) : String :=
  match t.source, e.span with
  | some source, some span => Text.slice source span.start span.stop
  | _, _ => e.render

/-- All sites of the tree in pre-order. -/
def sites (t : Tree) : List Site := t.root.sites

/-- The sites of all calls in pre-order. -/
def calls (t : Tree) : List Site := t.sites.filter fun s => s.node.isCall

end Tree

end NullSafeEq
