import Mathlib
import NullSafeEq.Grammar.Token
import NullSafeEq.Expr.Site

/-!
# Productions

What the root of an expression is written as: a sequence of tokens, class names and
subexpressions. `Spelled` says that a list of lexemes spells a whole expression, level by level;
the condition on spans is a parameter. `WellFormed` is the part of it that speaks of the tree
alone: the levels of the operands and the words that stand in the nodes.
-/
namespace NullSafeEq

/-- The words that are no unqualified names. -/
def keywords : List String := ["null", "true", "false", "this", "super", "new"]

/-- Starts like a name and goes on like one. -/
def IsIdentifier (id : String) : Prop :=
  ∃ c cs, id.toList = c :: cs ∧ Lexeme.isNameStart c = true ∧ cs.all Lexeme.isNameChar = true

/-- A name that stands alone. -/
def IsPlainName (id : String) : Prop := IsIdentifier id ∧ id ∉ keywords

/-- A name after a dot. -/
def IsMemberName (id : String) : Prop := IsIdentifier id ∧ id ≠ "this" ∧ id ≠ "super"

/-- A chain of names with dots between them. -/
inductive DottedName where
  | plain (id : String)
  | member (outer : DottedName) (id : String)
  deriving DecidableEq, Repr

namespace DottedName

def text : DottedName → String
  | plain id => id
  | member outer id => outer.text ++ "." ++ id

/-- The first name is no keyword, the others are neither `this` nor `super`. -/
def Valid : DottedName → Prop
  | plain id => IsPlainName id
  | member outer id => outer.Valid ∧ IsMemberName id

/-- The chain as an expression. -/
def toExpr : DottedName → Expr
  | plain id => .name id none
  | member outer id => .member outer.toExpr id none

/-- The chain called with arguments. -/
def call (args : List Expr) : DottedName → Expr
  | plain id => .call id args none
  | member outer id => .invoke outer.toExpr id args none

end DottedName

/-- The text of a cast type, or of the qualifier of `this` and `super`. -/
def IsClassName (text : String) : Prop := ∃ n : DottedName, n.Valid ∧ n.text = text

/-- The text of the type after `new`, where every word counts as a name. -/
def IsNewType (text : String) : Prop :=
  ∃ words : List String, words ≠ [] ∧ (∀ w ∈ words, IsIdentifier w) ∧
    text = String.intercalate "." words

/-- What stands between quotes: no quote and no backslash, or a backslash with the character
after it, which is no line feed. -/
inductive QuotedBody (mark : Char) : List Char → Prop
  | nil : QuotedBody mark []
  | plain {c cs} (differs : c ≠ mark) (noEscape : c ≠ '\\') (rest : QuotedBody mark cs) :
    QuotedBody mark (c :: cs)
  | escaped {c cs} (sameLine : c ≠ '\n') (rest : QuotedBody mark cs) :
    QuotedBody mark ('\\' :: c :: cs)

/-- Digits, possibly a point and more digits, possibly a type suffix. -/
def IsNumber (cs : List Char) : Prop :=
  ∃ whole fraction suffix, cs = whole ++ fraction ++ suffix ∧
    whole ≠ [] ∧ (∀ c ∈ whole, Text.isDecimalDigit c = true) ∧
    (fraction = [] ∨ ∃ digits, fraction = '.' :: digits ∧ digits ≠ [] ∧
      ∀ c ∈ digits, Text.isDecimalDigit c = true) ∧
    (suffix = [] ∨ ∃ c ∈ "lLfFdD".toList, suffix = [c])

/-- The texts of the literals of each kind. -/
def LiteralKind.Accepts (kind : LiteralKind) (text : String) : Prop :=
  match kind with
  | .null => text = "null"
  | .boolean => text = "true" ∨ text = "false"
  | .number => IsNumber text.toList
  | .string => ∃ body, text.toList = '"' :: (body ++ ['"']) ∧ QuotedBody '"' body
  | .char => ∃ body, text.toList = '\'' :: (body ++ ['\'']) ∧ QuotedBody '\'' body ∧ body ≠ []

def PrefixOp.token : PrefixOp → Token
  | not => .bang
  | negate => .op .sub
  | plus => .op .add

namespace Expr

/-- How tightly the root binds. A sign binds less tightly than a negation or a cast, since after
a parenthesis it would be a subtraction or an addition. -/
def level : Expr → Nat
  | conditional .. => 0
  | binary op .. => op.level
  | prefixed .negate .. | prefixed .plus .. => 7
  | prefixed .not .. | cast .. => 8
  | _ => 9

/-- The direct operands bind as tightly as their places ask for. -/
def Leveled : Expr → Prop
  | member q _ _ | invoke q _ _ _ | index q _ _ => 9 ≤ q.level
  | binary op l r _ => op.level ≤ l.level ∧ op.level < r.level
  | prefixed _ e _ => 7 ≤ e.level
  | cast _ e _ => 8 ≤ e.level
  | conditional t _ _ _ => 1 ≤ t.level
  | _ => True

/-- The words of the root are such that they can be read back. -/
def Worded : Expr → Prop
  | literal kind text _ => kind.Accepts text
  | name id _ | call id _ _ => IsPlainName id
  | member _ id _ | invoke _ id _ _ => IsMemberName id
  | self _ (some outer) _ => IsClassName outer
  | cast type _ _ => IsClassName type
  | create type _ _ => IsNewType type
  | _ => True

/-- Obeys the levels of the grammar and has words that can be read back, at every node. -/
inductive WellFormed : Expr → Prop
  | node {e : Expr} (leveled : e.Leveled) (worded : e.Worded)
    (below : ∀ c ∈ e.children, WellFormed c) : WellFormed e

theorem size_le_totalSize {c : Expr} {es : List Expr} (h : c ∈ es) : c.size ≤ totalSize es := by
  induction es with
  | nil => cases h
  | cons e es ih =>
    rcases List.mem_cons.mp h with rfl | member
    · simp only [totalSize]
      omega
    · have := ih member
      simp only [totalSize]
      omega

theorem size_child_lt {e c : Expr} (h : c ∈ e.children) : c.size < e.size := by
  rw [e.size_eq]
  exact Nat.lt_succ_of_le (size_le_totalSize h)

/-- What holds of a node whenever it holds of its children holds of every expression. -/
theorem induct_children {motive : Expr → Prop}
    (step : ∀ e, (∀ c ∈ e.children, motive c) → motive e) (e : Expr) : motive e := by
  have bounded : ∀ n (e : Expr), e.size < n → motive e := by
    intro n
    induction n with
    | zero => intro e h; omega
    | succ n ih =>
      intro e h
      exact step e (fun c member => ih c (by have := size_child_lt member; omega))
  exact bounded (e.size + 1) e (Nat.lt_succ_self _)

end Expr

/-- A piece of what a node is written as. -/
inductive Part where
  | token (t : Token)
  /-- A chain of names in which parentheses may stand. -/
  | className (text : String)
  /-- `new` and the words of a type. -/
  | newType (type : String)
  /-- The child with index `slot`. -/
  | sub (slot : Nat) (e : Expr)

namespace Expr

/-- Further arguments, the first of which has index `slot`. -/
def furtherArgs (slot : Nat) : List Expr → List Part
  | [] => []
  | e :: es => .token .comma :: .sub slot e :: furtherArgs (slot + 1) es

/-- Arguments with commas between them, the first of which has index `slot`. -/
def argParts (slot : Nat) : List Expr → List Part
  | [] => []
  | e :: es => .sub slot e :: furtherArgs (slot + 1) es

/-- Arguments in parentheses. -/
def bracketed (slot : Nat) (args : List Expr) : List Part :=
  .token .openParen :: (argParts slot args ++ [.token .closeParen])

/-- What the root is written as. -/
def production : Expr → List Part
  | literal kind text _ => [.token (.literal kind text)]
  | name id _ => [.token (.name id)]
  | self word none _ => [.token (.self word)]
  | self word (some outer) _ => [.className outer, .token .dot, .token (.self word)]
  | member q id _ => [.sub 0 q, .token .dot, .token (.name id)]
  | call id args _ => .token (.name id) :: bracketed 0 args
  | invoke q id args _ => .sub 0 q :: .token .dot :: .token (.name id) :: bracketed 1 args
  | binary op l r _ => [.sub 0 l, .token (.op op), .sub 1 r]
  | prefixed op e _ => [.token op.token, .sub 0 e]
  | conditional t y n _ =>
    [.sub 0 t, .token .question, .sub 1 y, .token .colon, .sub 2 n]
  | paren e _ => [.token .openParen, .sub 0 e, .token .closeParen]
  | cast type e _ => [.token .openParen, .className type, .token .closeParen, .sub 0 e]
  | index a i _ => [.sub 0 a, .token .openSquare, .sub 1 i, .token .closeSquare]
  | create type args _ => .newType type :: bracketed 0 args

end Expr

namespace Expr

theorem sub_mem_furtherArgs {j slot : Nat} {c : Expr} {es : List Expr} :
    .sub j c ∈ furtherArgs slot es ↔ ∃ i, j = slot + i ∧ es[i]? = some c := by
  induction es generalizing slot with
  | nil => simp [furtherArgs]
  | cons e es ih =>
    simp only [furtherArgs, List.mem_cons, ih, reduceCtorEq, false_or, Part.sub.injEq]
    constructor
    · rintro (⟨rfl, rfl⟩ | ⟨i, rfl, found⟩)
      · exact ⟨0, rfl, rfl⟩
      · exact ⟨i + 1, by omega, found⟩
    · rintro ⟨i, rfl, found⟩
      cases i with
      | zero =>
        cases found
        exact .inl ⟨rfl, rfl⟩
      | succ i => exact .inr ⟨i, by omega, found⟩

theorem sub_mem_bracketed {j slot : Nat} {c : Expr} {es : List Expr} :
    .sub j c ∈ bracketed slot es ↔ ∃ i, j = slot + i ∧ es[i]? = some c := by
  rw [← sub_mem_furtherArgs]
  cases es with
  | nil => simp [bracketed, argParts, furtherArgs]
  | cons e es => simp [bracketed, argParts, furtherArgs]

/-- The subexpressions in the production of a node are its children. -/
theorem sub_mem_production {i : Nat} {e c : Expr} :
    .sub i c ∈ e.production ↔ e.children[i]? = some c := by
  cases e with
  | literal | name => simp [production, children]
  | self word outer => cases outer <;> simp [production, children]
  | call id args | create id args => simp [production, children, sub_mem_bracketed]
  | invoke q id args =>
    cases i <;> simp [production, children, sub_mem_bracketed, eq_comm, Nat.add_comm 1]
  | member | prefixed | paren | cast =>
    rcases i with _ | i <;> simp [production, children, eq_comm]
  | binary | index => rcases i with _ | _ | i <;> simp [production, children, eq_comm]
  | conditional => rcases i with _ | _ | _ | i <;> simp [production, children, eq_comm]

end Expr

/-- The lexemes of a class name. -/
inductive Lexeme.Names : String → List Lexeme → Prop
  | name {id} {t : Lexeme} (word : t.token = .name id) : Names id [t]
  | member {outer id ts} {d t : Lexeme} (front : Names outer ts) (dot : d.token = .dot)
    (word : t.token = .name id) : Names (outer ++ "." ++ id) (ts ++ [d, t])
  | paren {id ts} {l r : Lexeme} (opens : l.token = .openParen) (body : Names id ts)
    (closes : r.token = .closeParen) : Names id (l :: (ts ++ [r]))

/-- The lexemes of words with dots between them. -/
inductive Lexeme.Words : List String → List Lexeme → Prop
  | one {w} {t : Lexeme} (word : t.token = .name w) : Words [w] [t]
  | more {w ws ts} {t d : Lexeme} (word : t.token = .name w) (dot : d.token = .dot)
    (rest : Words ws ts) : Words (w :: ws) (t :: d :: ts)

/-- The lexemes of `new` and a type. -/
def Lexeme.NewType (type : String) (ts : List Lexeme) : Prop :=
  ∃ t words us, ts = t :: us ∧ t.token = .create ∧ Words words us ∧
    type = String.intercalate "." words

/-- From the start of the first lexeme to the end of the last one. -/
def Lexeme.Located (span : Option Span) (ts : List Lexeme) : Prop :=
  ∃ first ∈ ts.head?, ∃ last ∈ ts.getLast?, span = some ⟨first.span.start, last.span.stop⟩

/-- Any span at all. -/
def Lexeme.Anywhere (_ : Option Span) (_ : List Lexeme) : Prop := True

section
variable (placed : Option Span → List Lexeme → Prop)

mutual

/-- The lexemes spell the expression. -/
inductive Spelled : Expr → List Lexeme → Prop
  | node {e ts} (leveled : e.Leveled) (span : placed e.span ts)
    (parts : SpelledParts e.production ts) : Spelled e ts

/-- The lexemes spell the pieces of a production one after the other. -/
inductive SpelledParts : List Part → List Lexeme → Prop
  | nil : SpelledParts [] []
  | token {t : Token} {l : Lexeme} {ps ts} (same : l.token = t) (rest : SpelledParts ps ts) :
    SpelledParts (.token t :: ps) (l :: ts)
  | className {text ps us ts} (names : Lexeme.Names text us) (rest : SpelledParts ps ts) :
    SpelledParts (.className text :: ps) (us ++ ts)
  | newType {type ps us ts} (words : Lexeme.NewType type us) (rest : SpelledParts ps ts) :
    SpelledParts (.newType type :: ps) (us ++ ts)
  | sub {slot e ps us ts} (body : Spelled e us) (rest : SpelledParts ps ts) :
    SpelledParts (.sub slot e :: ps) (us ++ ts)

end

end

/-- The lexemes spell the expression, and every node has the span of its lexemes. -/
abbrev Written : Expr → List Lexeme → Prop := Spelled Lexeme.Located

end NullSafeEq
