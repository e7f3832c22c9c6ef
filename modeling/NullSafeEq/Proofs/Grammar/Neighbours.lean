import NullSafeEq.Proofs.Grammar.Correspondence
import NullSafeEq.Proofs.Lexing.Layout

/-!
# Neighbouring tokens

What the machine waits for determines the mode in which the next token is found, and of the tokens
that it accepts one after the other none goes on into the next one, `new` apart.
-/
namespace NullSafeEq

namespace Parser

/-- The mode in which the next token is found is the one that the focus asks for. At the start of
an operand either of the two plain modes will do. -/
def Focus.Agrees (mode : Lexeme.Mode) : Focus → Prop
  | operand => mode.Plain
  | value _ => mode = .operator
  | member _ => mode = .member
  | typeName .. => mode = .typeName
  | typeTail .. => mode = .typeTail

/-- What the focus can be behind a token. -/
def Focus.Behind (t : Token) : Focus → Prop
  | operand => t.isWord = false ∧ t.isNumber = false ∧ t ≠ .dot
  | value p => t ≠ .dot ∧ t ≠ .bang ∧ t ≠ .create ∧ (∀ o, t ≠ .op o) ∧
      ((t.isWord || t.isNumber) = true → ∀ start body stop, p ≠ .paren start body stop)
  | member _ => t = .dot
  | typeName .. => t = .dot ∨ t = .create
  | typeTail .. => ∃ id, t = .name id

theorem after_plain {mode : Lexeme.Mode} (plain : mode.Plain) (t : Token) :
    mode.after t = Lexeme.Mode.operand.after t := by
  rcases plain with rfl | rfl <;> rfl

theorem beginOperand_focus {stack : List Pending} {t : Lexeme} {s : State}
    (h : beginOperand stack t = some s) :
    s.focus.Agrees (Lexeme.Mode.operand.after t.token) ∧ s.focus.Behind t.token := by
  obtain ⟨token, range⟩ := t
  cases token with
  | literal | name | self =>
    cases h
    exact ⟨rfl, by simp, by simp, by simp, by simp, fun _ => by simp⟩
  | create =>
    cases h
    exact ⟨rfl, .inr rfl⟩
  | bang | openParen =>
    cases h
    exact ⟨.inl rfl, rfl, rfl, by simp⟩
  | op o =>
    cases o with
    | sub | add =>
      cases h
      exact ⟨.inl rfl, rfl, rfl, by simp⟩
    | _ => cases h
  | closeParen =>
    simp only [beginOperand] at h
    split at h
    case h_4 => cases h
    all_goals
      cases h
      exact ⟨rfl, by simp, by simp, by simp, by simp, by simp⟩
  | _ => cases h

theorem beginCastOperand_focus {stack : List Pending} {p : Phrase} {t : Lexeme} {s : State}
    (h : beginCastOperand stack p t = some s) :
    (∃ start body stop, p = .paren start body stop) ∧
      s.focus.Agrees (Lexeme.Mode.operand.after t.token) ∧ s.focus.Behind t.token := by
  cases p with
  | paren start body stop => exact ⟨⟨start, body, stop, rfl⟩, beginOperand_focus h⟩
  | _ => cases h

theorem closeParen_focus {stop : Nat} {r : Phrase × List Pending} {s : State}
    (h : closeParen stop r = some s) : ∃ p, s.focus = .value p := by
  unfold closeParen at h
  split at h
  case h_5 => cases h
  all_goals
    cases h
    exact ⟨_, rfl⟩

theorem nextArgument_focus {r : Phrase × List Pending} {s : State}
    (h : nextArgument r = some s) : s.focus = .operand := by
  unfold nextArgument at h
  split at h
  case h_4 => cases h
  all_goals
    cases h
    rfl

theorem continueValue_focus {stack : List Pending} {p : Phrase} {t : Lexeme} {s : State}
    (h : continueValue stack p t = some s) :
    s.focus.Agrees (Lexeme.Mode.operator.after t.token) ∧ s.focus.Behind t.token := by
  obtain ⟨token, range⟩ := t
  have cast : beginCastOperand stack p ⟨token, range⟩ = some s →
      s.focus.Agrees (Lexeme.Mode.operator.after token) ∧ s.focus.Behind token := by
    intro h
    rw [after_plain (.inr rfl)]
    exact (beginCastOperand_focus h).2
  cases token with
  | dot =>
    cases h
    exact ⟨rfl, rfl⟩
  | openSquare | op | question =>
    cases h
    exact ⟨.inl rfl, rfl, rfl, by simp⟩
  | openParen =>
    simp only [continueValue] at h
    split at h
    next =>
      cases h
      exact ⟨.inl rfl, rfl, rfl, by simp⟩
    next =>
      cases h
      exact ⟨.inl rfl, rfl, rfl, by simp⟩
    next => exact cast h
  | colon =>
    simp only [continueValue] at h
    split at h
    next =>
      cases h
      exact ⟨.inl rfl, rfl, rfl, by simp⟩
    next => cases h
  | comma =>
    rw [nextArgument_focus h]
    exact ⟨.inl rfl, rfl, rfl, by simp⟩
  | closeParen =>
    obtain ⟨q, same⟩ := closeParen_focus h
    rw [same]
    exact ⟨rfl, by simp, by simp, by simp, by simp, by simp [Token.isWord, Token.isNumber]⟩
  | closeSquare =>
    simp only [continueValue] at h
    split at h
    next =>
      cases h
      exact ⟨rfl, by simp, by simp, by simp, by simp, by simp⟩
    next => cases h
  | literal | name | self | create | bang | stray => exact cast h

/-- One step keeps the mode in agreement with the focus. -/
theorem step_focus {s next : State} {t : Lexeme} {mode : Lexeme.Mode}
    (agrees : s.focus.Agrees mode) (h : step s t = some next) :
    next.focus.Agrees (mode.after t.token) ∧ next.focus.Behind t.token := by
  obtain ⟨stack, focus⟩ := s
  obtain ⟨token, range⟩ := t
  cases focus with
  | operand =>
    rw [after_plain agrees]
    exact beginOperand_focus h
  | value p =>
    obtain rfl := agrees
    exact continueValue_focus h
  | member base =>
    obtain rfl := agrees
    cases token with
    | name | self =>
      cases h
      exact ⟨rfl, nofun, nofun, nofun, nofun, fun _ => nofun⟩
    | _ => cases h
  | typeName start words =>
    obtain rfl := agrees
    cases token with
    | name id =>
      cases h
      exact ⟨rfl, id, rfl⟩
    | _ => cases h
  | typeTail start words =>
    obtain rfl := agrees
    cases token with
    | dot =>
      cases h
      exact ⟨rfl, .inl rfl⟩
    | openParen =>
      cases h
      exact ⟨.inl rfl, rfl, rfl, nofun⟩
    | _ => cases h

theorem solid_of_glues {t u : Token} (glued : t.glues u = true) (noDot : t ≠ .dot)
    (noBang : t ≠ .bang) (noOp : ∀ o, t ≠ .op o) :
    (t.isWord || t.isNumber) = true ∧ (u.isWord || u.isNumber) = true := by
  simpa [Token.glues, noDot, noBang, noOp] using glued

/-- A token that is accepted behind another one is not glued to it, unless that is `new`. -/
theorem step_apart {s next : State} {t : Token} {u : Lexeme} (behind : s.focus.Behind t)
    (h : step s u = some next) (glued : t.glues u.token = true) : t = .create := by
  obtain ⟨stack, focus⟩ := s
  obtain ⟨token, range⟩ := u
  cases focus with
  | operand =>
    obtain ⟨noWord, noNumber, noDot⟩ := behind
    have equality : token = .op .eq := by
      have both := glued
      simp only [Token.glues, noWord, noNumber, noDot, Bool.or_false, Bool.false_and,
        decide_false, Bool.false_or, Bool.and_eq_true, decide_eq_true_eq] at both
      exact both.2
    subst equality
    cases h
  | value p =>
    obtain ⟨noDot, noBang, -, noOp, noParen⟩ := behind
    obtain ⟨solid, solidNext⟩ := solid_of_glues glued noDot noBang noOp
    have noCast : beginCastOperand stack p ⟨token, range⟩ ≠ some next := by
      intro found
      obtain ⟨⟨start, body, stop, same⟩, -⟩ := beginCastOperand_focus found
      exact noParen solid start body stop same
    cases token with
    | literal | name | self | create => exact (noCast h).elim
    | _ => cases solidNext
  | member base =>
    obtain rfl := behind
    cases token with
    | literal => cases h
    | _ => cases glued
  | typeName start words =>
    rcases behind with rfl | rfl
    · cases token with
      | literal => cases h
      | _ => cases glued
    · rfl
  | typeTail start words =>
    obtain ⟨id, rfl⟩ := behind
    cases token with
    | literal | name | self | create => cases h
    | _ => cases glued

theorem step_new {s next : State} {u : Lexeme} (behind : s.focus.Behind .create)
    (h : step s u = some next) : u.token.isWord = true := by
  obtain ⟨stack, focus⟩ := s
  obtain ⟨token, range⟩ := u
  cases focus with
  | operand => cases behind.1
  | value p => exact (behind.2.2.1 rfl).elim
  | member base => cases behind
  | typeName start words =>
    cases token with
    | name id => rfl
    | _ => cases h
  | typeTail start words => cases behind.choose_spec

/-- Behind `new` there is a word; no other token goes on into the next one. -/
def Meets (t u : Token) : Prop :=
  (t.glues u = true → t = .create) ∧ (t = .create → u.isWord = true)

/-- A run keeps the mode in agreement with the focus. -/
theorem run_agrees {s final : State} {ts : List Lexeme} {mode : Lexeme.Mode}
    (agrees : s.focus.Agrees mode) (h : run s ts = .ok final) :
    final.focus.Agrees (mode.afterAll (ts.map Lexeme.token)) := by
  induction ts generalizing s mode with
  | nil =>
    cases h
    exact agrees
  | cons t ts ih =>
    rw [run] at h
    split at h
    next next stepped => exact ih (step_focus agrees stepped).1 h
    next => cases h

theorem run_meets {s final : State} {ts : List Lexeme} {mode : Lexeme.Mode}
    (agrees : s.focus.Agrees mode) (h : run s ts = .ok final) :
    (ts.map Lexeme.token).IsChain Meets := by
  induction ts generalizing s mode with
  | nil => exact .nil
  | cons t ts ih =>
    rw [run] at h
    split at h
    next next stepped =>
      obtain ⟨agreesNext, behind⟩ := step_focus agrees stepped
      refine List.isChain_cons.mpr ⟨?_, ih agreesNext h⟩
      intro u head
      cases ts with
      | nil => cases head
      | cons u' us =>
        obtain rfl : u'.token = u := Option.some.inj head
        rw [run] at h
        split at h
        next again steppedAgain =>
          refine ⟨step_apart behind steppedAgain, ?_⟩
          intro create
          rw [create] at behind
          exact step_new behind steppedAgain
        next => cases h
    next => cases h

theorem not_stray {s next : State} {t : Lexeme} (h : step s t = some next) :
    t.token.isStray = false := by
  obtain ⟨stack, focus⟩ := s
  obtain ⟨token, range⟩ := t
  cases token with
  | stray c =>
    cases focus with
    | operand | member | typeName | typeTail => cases h
    | value p =>
      obtain ⟨⟨start, body, stop, rfl⟩, _⟩ := beginCastOperand_focus h
      cases h
  | _ => rfl

theorem run_known {s final : State} {ts : List Lexeme} (h : run s ts = .ok final) :
    ∀ t ∈ ts, t.token.isStray = false := by
  induction ts generalizing s with
  | nil => nofun
  | cons t ts ih =>
    rw [run] at h
    split at h
    next next stepped => exact List.forall_mem_cons.mpr ⟨not_stray stepped, ih h⟩
    next => cases h

theorem run_of_parse {ts : List Lexeme} {p : Phrase} (h : parse ts = .ok p) :
    ∃ s q, run State.start ts = .ok s ∧ s.focus = .value q := by
  unfold parse at h
  split at h
  next => cases h
  next s ran =>
    split at h
    next q result =>
      unfold State.result? at result
      split at result
      next p' focus => exact ⟨s, p', ran, focus⟩
      next => cases result
    next => cases h

end Parser

section
variable {placed : Option Span → List Lexeme → Prop} {e : Expr} {ts : List Lexeme}

theorem Spelled.runs (h : Spelled placed e ts) :
    ∃ s p, Parser.run Parser.State.start ts = .ok s ∧ s.focus = .value p := by
  obtain ⟨p, _, reads, _⟩ := Phrase.found_of_spelled h
  exact Parser.run_of_parse (Parser.parse_of_reads reads)

/-- Behind an expression an operator may stand. -/
theorem Spelled.after {mode : Lexeme.Mode} (h : Spelled placed e ts)
    (plain : mode.Plain) :
    mode.afterAll (ts.map Lexeme.token) = .operator := by
  obtain ⟨s, p, ran, focus⟩ := h.runs
  have start : Parser.State.start.focus.Agrees mode := plain
  have agrees := Parser.run_agrees start ran
  rwa [focus] at agrees

theorem Spelled.meets (h : Spelled placed e ts) :
    (ts.map Lexeme.token).IsChain Parser.Meets := by
  obtain ⟨s, p, ran, focus⟩ := h.runs
  have start : Parser.State.start.focus.Agrees .operand := .inl rfl
  exact Parser.run_meets start ran

theorem Spelled.known (h : Spelled placed e ts) : ∀ t ∈ ts, t.token.isStray = false := by
  obtain ⟨s, p, ran, focus⟩ := h.runs
  exact Parser.run_known ran

end

end NullSafeEq
