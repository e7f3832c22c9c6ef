import NullSafeEq.Grammar.Parser
import NullSafeEq.Proofs.Grammar.Production

/-!
# Derivations

The grammar of phrases as a relation: which lexemes a phrase reads, with the level of every
operand. It is written without the stack machine, which is proved to decide it.
-/
namespace NullSafeEq.Phrase

/-- How tightly the root binds, on the scale of `Expr.level`. -/
def level : Phrase → Nat
  | conditional .. => 0
  | binary op .. => op.level
  | prefixed _ .negate _ | prefixed _ .plus _ => 7
  | prefixed _ .not _ | cast .. => 8
  | _ => 9

mutual

/-- The lexemes that a phrase reads. -/
def Reads (p : Phrase) (ts : List Lexeme) : Prop :=
  match p with
  | literal kind text range => ts = [⟨.literal kind text, range⟩]
  | name id range => ts = [⟨.name id, range⟩]
  | self word range => ts = [⟨.self word, range⟩]
  | member base id range => ∃ us d, ts = us ++ [d, ⟨.name id, range⟩] ∧ d.token = .dot ∧
      9 ≤ base.level ∧ base.Reads us
  | selfOf base word range => ∃ us d, ts = us ++ [d, ⟨.self word, range⟩] ∧ d.token = .dot ∧
      9 ≤ base.level ∧ base.Reads us
  | call id start args stop => ∃ f l us r, ts = f :: l :: (us ++ [r]) ∧ f.token = .name id ∧
      f.span.start = start ∧ l.token = .openParen ∧ ReadsArgs args us ∧ r.token = .closeParen ∧
      r.span.stop = stop
  | invoke base id args stop => ∃ bs d f l us r, ts = bs ++ d :: f :: l :: (us ++ [r]) ∧
      d.token = .dot ∧ f.token = .name id ∧ l.token = .openParen ∧ ReadsArgs args us ∧
      r.token = .closeParen ∧ r.span.stop = stop ∧ 9 ≤ base.level ∧ base.Reads bs
  | index base position stop => ∃ bs l us r, ts = bs ++ l :: (us ++ [r]) ∧
      l.token = .openSquare ∧ r.token = .closeSquare ∧ r.span.stop = stop ∧ 9 ≤ base.level ∧
      base.Reads bs ∧ position.Reads us
  | create start type args stop => ∃ ns l us r, ts = ns ++ l :: (us ++ [r]) ∧
      Lexeme.NewType type ns ∧ ns.head?.map (·.span.start) = some start ∧
      l.token = .openParen ∧ ReadsArgs args us ∧ r.token = .closeParen ∧ r.span.stop = stop
  | paren start body stop => ∃ l us r, ts = l :: (us ++ [r]) ∧ l.token = .openParen ∧
      l.span.start = start ∧ r.token = .closeParen ∧ r.span.stop = stop ∧ body.Reads us
  | cast start type body => ∃ l us r bs, ts = l :: (us ++ r :: bs) ∧ l.token = .openParen ∧
      l.span.start = start ∧ r.token = .closeParen ∧ type.Reads us ∧ 8 ≤ body.level ∧
      body.Reads bs
  | prefixed start op operand => ∃ o us, ts = o :: us ∧ o.token = op.token ∧
      o.span.start = start ∧ 7 ≤ operand.level ∧ operand.Reads us
  | binary op left right => ∃ ls o rs, ts = ls ++ o :: rs ∧ o.token = .op op ∧
      op.level ≤ left.level ∧ left.Reads ls ∧ op.level < right.level ∧ right.Reads rs
  | conditional test yes no => ∃ us q vs c ws, ts = us ++ q :: (vs ++ c :: ws) ∧
      q.token = .question ∧ c.token = .colon ∧ 1 ≤ test.level ∧ test.Reads us ∧
      yes.Reads vs ∧ no.Reads ws

/-- The lexemes of phrases with commas between them. -/
def ReadsArgs (ps : List Phrase) (ts : List Lexeme) : Prop :=
  match ps with
  | [] => ts = []
  | p :: ps => ∃ us vs, ts = us ++ vs ∧ p.Reads us ∧ ReadsFurther ps vs

/-- The lexemes of phrases with a comma in front of each. -/
def ReadsFurther (ps : List Phrase) (ts : List Lexeme) : Prop :=
  match ps with
  | [] => ts = []
  | p :: ps => ∃ c us vs, ts = c :: (us ++ vs) ∧ c.token = .comma ∧ p.Reads us ∧
      ReadsFurther ps vs

end

/-- The lexemes of phrases with a comma behind each, for phrases in reverse order. -/
def ReadsDone : List Phrase → List Lexeme → Prop
  | [], ts => ts = []
  | p :: done, ts => ∃ us vs c, ts = us ++ (vs ++ [c]) ∧ ReadsDone done us ∧ p.Reads vs ∧
      c.token = .comma

theorem ReadsDone.args {done ps : List Phrase} {p : Phrase} {ts us vs : List Lexeme}
    (front : ReadsDone done ts) (next : p.Reads us) (rest : ReadsFurther ps vs) :
    ReadsArgs (done.reverse ++ p :: ps) (ts ++ (us ++ vs)) := by
  induction done generalizing p ps ts us vs with
  | nil =>
    cases front
    exact ⟨us, vs, rfl, next, rest⟩
  | cons q done ih =>
    obtain ⟨ts', us', c, rfl, front', reads, comma⟩ := front
    have further : ReadsFurther (p :: ps) (c :: (us ++ vs)) := ⟨c, us, vs, rfl, comma, next, rest⟩
    simpa using ih front' reads further

/-- Finished arguments and a last one are the arguments of a call. -/
theorem ReadsDone.close {done : List Phrase} {p : Phrase} {ts us : List Lexeme}
    (front : ReadsDone done ts) (last : p.Reads us) :
    ReadsArgs (p :: done).reverse (ts ++ us) := by
  have none : ReadsFurther [] [] := rfl
  simpa using front.args last none

end NullSafeEq.Phrase
