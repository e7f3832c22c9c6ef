import NullSafeEq.Grammar.Phrase

/-!
# Reading a phrase from tokens

A deterministic machine with a stack. The stack holds the constructs that have been opened, the
focus says what stands in front of the next token: an operand is expected, or a phrase has ended,
or the inside of a dotted name is being read. Each token takes one step. A parenthesis in front of
an operand turns out to have been a cast when the operand begins; a sign after a parenthesis is
subtraction or addition.
-/
namespace NullSafeEq.Parser

/-- A construct that waits for its rightmost part. -/
inductive Pending where
  | binary (op : BinaryOp) (left : Phrase)
  | prefixed (start : Nat) (op : PrefixOp)
  | cast (start : Nat) (type : Phrase)
  | paren (start : Nat)
  /-- `f(x, y,` with the finished arguments in reverse. -/
  | call (id : String) (start : Nat) (done : List Phrase)
  | invoke (base : Phrase) (id : String) (done : List Phrase)
  | create (start : Nat) (type : String) (done : List Phrase)
  | index (base : Phrase)
  /-- `test ?` -/
  | yesPart (test : Phrase)
  /-- `test ? yes :` -/
  | noPart (test yes : Phrase)
  deriving Repr

/-- What stands in front of the next token. -/
inductive Focus where
  | operand
  | value (p : Phrase)
  /-- A dot after a phrase. -/
  | member (base : Phrase)
  /-- `new` and the words of a type name so far, with a word to follow. -/
  | typeName (start : Nat) (words : List String)
  /-- `new` and the words of a type name so far, at the end of a word. -/
  | typeTail (start : Nat) (words : List String)
  deriving Repr

structure State where
  stack : List Pending
  focus : Focus
  deriving Repr

/-- Nothing has been read. -/
def State.start : State := ⟨[], .operand⟩

/-- Finish the constructs on the stack that bind at least as tightly as `level` around a phrase
that has ended. At level zero the last part of a ternary ends too. -/
def settle (level : Nat) (p : Phrase) : List Pending → Phrase × List Pending
  | .prefixed start op :: rest => settle level (.prefixed start op p) rest
  | .cast start type :: rest => settle level (.cast start type p) rest
  | .binary op left :: rest =>
    if level ≤ op.level then settle level (.binary op left p) rest else (p, .binary op left :: rest)
  | .noPart test yes :: rest =>
    if level = 0 then settle level (.conditional test yes p) rest
    else (p, .noPart test yes :: rest)
  | stack => (p, stack)

/-- A token where an operand is expected. A closing parenthesis ends an empty argument list. -/
def beginOperand (stack : List Pending) (t : Lexeme) : Option State :=
  match t.token with
  | .literal kind text => some ⟨stack, .value (.literal kind text t.span)⟩
  | .name id => some ⟨stack, .value (.name id t.span)⟩
  | .self word => some ⟨stack, .value (.self word t.span)⟩
  | .create => some ⟨stack, .typeName t.span.start []⟩
  | .openParen => some ⟨.paren t.span.start :: stack, .operand⟩
  | .bang => some ⟨.prefixed t.span.start .not :: stack, .operand⟩
  | .op .sub => some ⟨.prefixed t.span.start .negate :: stack, .operand⟩
  | .op .add => some ⟨.prefixed t.span.start .plus :: stack, .operand⟩
  | .closeParen =>
    match stack with
    | .call id start [] :: rest => some ⟨rest, .value (.call id start [] t.span.stop)⟩
    | .invoke base id [] :: rest => some ⟨rest, .value (.invoke base id [] t.span.stop)⟩
    | .create start type [] :: rest => some ⟨rest, .value (.create start type [] t.span.stop)⟩
    | _ => none
  | _ => none

/-- A parenthesis that is followed by an operand is a cast. -/
def beginCastOperand (stack : List Pending) (p : Phrase) (t : Lexeme) : Option State :=
  match p with
  | .paren start type _ => beginOperand (.cast start type :: stack) t
  | _ => none

/-- Close the innermost bracket with a parenthesis that stops at an offset. -/
def closeParen (stop : Nat) : Phrase × List Pending → Option State
  | (p, .paren start :: rest) => some ⟨rest, .value (.paren start p stop)⟩
  | (p, .call id start done :: rest) =>
    some ⟨rest, .value (.call id start (p :: done).reverse stop)⟩
  | (p, .invoke base id done :: rest) =>
    some ⟨rest, .value (.invoke base id (p :: done).reverse stop)⟩
  | (p, .create start type done :: rest) =>
    some ⟨rest, .value (.create start type (p :: done).reverse stop)⟩
  | _ => none

/-- End an argument and expect another one. -/
def nextArgument : Phrase × List Pending → Option State
  | (p, .call id start done :: rest) => some ⟨.call id start (p :: done) :: rest, .operand⟩
  | (p, .invoke base id done :: rest) => some ⟨.invoke base id (p :: done) :: rest, .operand⟩
  | (p, .create start type done :: rest) =>
    some ⟨.create start type (p :: done) :: rest, .operand⟩
  | _ => none

/-- A token after a phrase that has ended. -/
def continueValue (stack : List Pending) (p : Phrase) (t : Lexeme) : Option State :=
  match t.token with
  | .dot => some ⟨stack, .member p⟩
  | .openSquare => some ⟨.index p :: stack, .operand⟩
  | .openParen =>
    match p with
    | .name id range => some ⟨.call id range.start [] :: stack, .operand⟩
    | .member base id _ => some ⟨.invoke base id [] :: stack, .operand⟩
    | _ => beginCastOperand stack p t
  | .op op =>
    let (left, rest) := settle op.level p stack
    some ⟨.binary op left :: rest, .operand⟩
  | .question =>
    let (test, rest) := settle 1 p stack
    some ⟨.yesPart test :: rest, .operand⟩
  | .colon =>
    match settle 0 p stack with
    | (yes, .yesPart test :: rest) => some ⟨.noPart test yes :: rest, .operand⟩
    | _ => none
  | .comma => nextArgument (settle 0 p stack)
  | .closeParen => closeParen t.span.stop (settle 0 p stack)
  | .closeSquare =>
    match settle 0 p stack with
    | (position, .index base :: rest) => some ⟨rest, .value (.index base position t.span.stop)⟩
    | _ => none
  | _ => beginCastOperand stack p t

/-- One token; nothing when no expression goes on like that. -/
def step (s : State) (t : Lexeme) : Option State :=
  match s.focus with
  | .operand => beginOperand s.stack t
  | .value p => continueValue s.stack p t
  | .member base =>
    match t.token with
    | .name id => some ⟨s.stack, .value (.member base id t.span)⟩
    | .self word => some ⟨s.stack, .value (.selfOf base word t.span)⟩
    | _ => none
  | .typeName start words =>
    match t.token with
    | .name id => some ⟨s.stack, .typeTail start (words ++ [id])⟩
    | _ => none
  | .typeTail start words =>
    match t.token with
    | .dot => some ⟨s.stack, .typeName start words⟩
    | .openParen => some ⟨.create start (String.intercalate "." words) [] :: s.stack, .operand⟩
    | _ => none

/-- Read tokens one after the other; the error is the token at which no expression goes on. -/
def run (s : State) : List Lexeme → Except Lexeme State
  | [] => .ok s
  | t :: ts =>
    match step s t with
    | some next => run next ts
    | none => .error t

/-- The phrase that has been read, when nothing is pending. -/
def State.result? (s : State) : Option Phrase :=
  match s.focus with
  | .value p =>
    match settle 0 p s.stack with
    | (whole, []) => some whole
    | _ => none
  | _ => none

/-- The phrase that a list of tokens forms. The error is the offset of the first token that does
not fit; when the text ends too early, that of the last token, and zero without any token. -/
def parse (ts : List Lexeme) : Except Nat Phrase :=
  match run State.start ts with
  | .error t => .error t.span.start
  | .ok s =>
    match s.result? with
    | some p => .ok p
    | none => .error ((ts.getLast?.map fun t => t.span.start).getD 0)

end NullSafeEq.Parser
