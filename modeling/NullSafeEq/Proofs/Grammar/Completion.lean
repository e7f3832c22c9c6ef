import NullSafeEq.Proofs.Grammar.Completeness

/-!
# Completing an expression

Whatever the machine has taken can be completed to an expression: an operand, if one is expected,
and what closes the constructs that have been opened. So a token at which it stops is the first one
that no expression goes on with.
-/
namespace NullSafeEq.Parser

/-- The tokens that close the constructs on a stack behind a phrase that has ended. -/
def closers : List Pending → List Token
  | [] => []
  | .paren _ :: rest | .call .. :: rest | .invoke .. :: rest | .create .. :: rest =>
    .closeParen :: closers rest
  | .index _ :: rest => .closeSquare :: closers rest
  | .yesPart _ :: rest => .colon :: .name "a" :: closers rest
  | .binary .. :: rest | .prefixed .. :: rest | .cast .. :: rest | .noPart .. :: rest =>
    closers rest

/-- Tokens that complete an expression from a state on. -/
def State.completion (s : State) : List Token :=
  match s.focus with
  | .value _ => closers s.stack
  | .operand | .member _ => .name "a" :: closers s.stack
  | .typeName .. => .name "a" :: .openParen :: .closeParen :: closers s.stack
  | .typeTail .. => .openParen :: .closeParen :: closers s.stack

/-- With these tokens an expression ends. -/
def Finishes (s : State) (ts : List Lexeme) : Prop :=
  ∃ final p, run s ts = .ok final ∧ final.result? = some p

theorem Finishes.cons {s next : State} {t : Lexeme} {ts : List Lexeme} (h : step s t = some next)
    (rest : Finishes next ts) : Finishes s (t :: ts) := by
  obtain ⟨final, p, ran, result⟩ := rest
  exact ⟨final, p, (run_cons h).trans ran, result⟩

/-- A token that closes something. -/
def Closes (t : Token) : Prop := t = .closeParen ∨ t = .closeSquare ∨ t = .colon

theorem closes_of_closers (stack : List Pending) : ∀ t ∈ (closers stack).head?, Closes t := by
  induction stack with
  | nil => nofun
  | cons pending rest ih =>
    cases pending with
    | paren | call | invoke | create =>
      rintro _ ⟨⟩
      exact .inl rfl
    | index =>
      rintro _ ⟨⟩
      exact .inr (.inl rfl)
    | yesPart =>
      rintro _ ⟨⟩
      exact .inr (.inr rfl)
    | binary | prefixed | cast | noPart => exact ih

theorem closes_of_head {stack : List Pending} {ts : List Lexeme}
    (same : ts.map Lexeme.token = closers stack) : ∀ t ∈ ts.head?, Closes t.token := by
  intro t head
  refine closes_of_closers stack t.token ?_
  rw [← same, List.head?_map, Option.mem_def.mp head]
  rfl

/-- At a closing token only the settled phrase counts. -/
theorem step_of_settled {stack stack' : List Pending} {p p' : Phrase}
    (same : settle 0 p stack = settle 0 p' stack') {t : Lexeme} (closes : Closes t.token) :
    step ⟨stack, .value p⟩ t = step ⟨stack', .value p'⟩ t := by
  rcases closes with is | is | is <;> simp only [step, continueValue, is, same]

theorem Finishes.of_settled {stack stack' : List Pending} {p p' : Phrase} {ts : List Lexeme}
    (same : settle 0 p stack = settle 0 p' stack') (closes : ∀ t ∈ ts.head?, Closes t.token)
    (h : Finishes ⟨stack', .value p'⟩ ts) : Finishes ⟨stack, .value p⟩ ts := by
  obtain ⟨final, q, ran, result⟩ := h
  cases ts with
  | nil =>
    cases ran
    refine ⟨_, q, rfl, ?_⟩
    simp only [State.result?, same]
    exact result
  | cons t ts =>
    refine ⟨final, q, ?_, result⟩
    rw [run, step_of_settled same (closes t rfl)]
    exact ran

/-- Behind a phrase that has ended the closing tokens finish the expression. -/
theorem finishes_value {stack : List Pending} {ts : List Lexeme}
    (same : ts.map Lexeme.token = closers stack) (p : Phrase) : Finishes ⟨stack, .value p⟩ ts := by
  induction stack generalizing p ts with
  | nil =>
    obtain rfl := List.map_eq_nil_iff.mp same
    exact ⟨_, p, rfl, rfl⟩
  | cons pending rest ih =>
    cases pending with
    | binary op left =>
      exact .of_settled (by simp [settle]) (closes_of_head same) (ih same (.binary op left p))
    | prefixed start op =>
      exact .of_settled (by simp only [settle]) (closes_of_head same) (ih same (.prefixed start op p))
    | cast start type =>
      exact .of_settled (by simp only [settle]) (closes_of_head same) (ih same (.cast start type p))
    | noPart test yes =>
      exact .of_settled (by simp [settle]) (closes_of_head same) (ih same (.conditional test yes p))
    | paren | call | invoke | create =>
      obtain ⟨t, ts, rfl, isClose, same⟩ := List.map_eq_cons_iff.mp same
      exact .cons (by simp only [step, continueValue, isClose, settle, closeParen]; rfl) (ih same _)
    | index base =>
      obtain ⟨t, ts, rfl, isClose, same⟩ := List.map_eq_cons_iff.mp same
      exact .cons (by simp only [step, continueValue, isClose, settle]; rfl) (ih same _)
    | yesPart test =>
      -- the ternary goes on with `: a`, behind which it ends with what it stands in
      obtain ⟨t, ts, rfl, isColon, same⟩ := List.map_eq_cons_iff.mp same
      obtain ⟨u, ts, rfl, isName, same⟩ := List.map_eq_cons_iff.mp same
      have no := ih same (.conditional test p (.name "a" u.span))
      refine .cons (by simp only [step, continueValue, isColon, settle]; rfl) ?_
      refine .cons (by simp only [step, beginOperand, isName]; rfl) ?_
      exact .of_settled (by simp [settle]) (closes_of_head same) no

/-- Every state can be completed. -/
theorem State.finishes {s : State} {ts : List Lexeme}
    (same : ts.map Lexeme.token = s.completion) : Finishes s ts := by
  obtain ⟨stack, focus⟩ := s
  cases focus with
  | value p => exact finishes_value same p
  | operand =>
    obtain ⟨t, ts, rfl, isName, same⟩ := List.map_eq_cons_iff.mp same
    exact .cons (by simp only [step, beginOperand, isName]; rfl) (finishes_value same _)
  | member base =>
    obtain ⟨t, ts, rfl, isName, same⟩ := List.map_eq_cons_iff.mp same
    exact .cons (by simp only [step, isName]; rfl) (finishes_value same _)
  | typeName start words =>
    obtain ⟨t, ts, rfl, isName, same⟩ := List.map_eq_cons_iff.mp same
    obtain ⟨l, ts, rfl, isOpen, same⟩ := List.map_eq_cons_iff.mp same
    obtain ⟨r, ts, rfl, isClose, same⟩ := List.map_eq_cons_iff.mp same
    refine .cons (by simp only [step, isName]; rfl) (.cons (by simp only [step, isOpen]; rfl) ?_)
    exact .cons (by simp only [step, beginOperand, isClose]; rfl) (finishes_value same _)
  | typeTail start words =>
    obtain ⟨l, ts, rfl, isOpen, same⟩ := List.map_eq_cons_iff.mp same
    obtain ⟨r, ts, rfl, isClose, same⟩ := List.map_eq_cons_iff.mp same
    refine .cons (by simp only [step, isOpen]; rfl) ?_
    exact .cons (by simp only [step, beginOperand, isClose]; rfl) (finishes_value same _)

/-- The tokens that completions are made of. -/
def fillers : List Token := [.name "a", .colon, .openParen, .closeParen, .closeSquare]

theorem closers_subset (stack : List Pending) : closers stack ⊆ fillers := by
  induction stack with
  | nil => exact List.nil_subset _
  | cons pending rest ih =>
    cases pending with
    | binary | prefixed | cast | noPart => exact ih
    | paren | call | invoke | create | index => exact List.cons_subset.mpr ⟨by decide, ih⟩
    | yesPart => exact List.cons_subset.mpr ⟨by decide, List.cons_subset.mpr ⟨by decide, ih⟩⟩

theorem State.completion_subset (s : State) : s.completion ⊆ fillers := by
  obtain ⟨stack, focus⟩ := s
  have rest := closers_subset stack
  cases focus <;> simp only [completion, List.cons_subset, rest, and_true] <;> decide

/-! ## Where the reading of tokens fails -/

theorem run_front {s final : State} {ts us : List Lexeme} (h : run s (ts ++ us) = .ok final) :
    ∃ next, run s ts = .ok next := by
  induction ts generalizing s with
  | nil => exact ⟨s, rfl⟩
  | cons t ts ih =>
    rw [List.cons_append, run] at h
    rw [run]
    split at h
    next next stepped => exact ih h
    next => cases h

theorem run_error {s : State} {ts : List Lexeme} {t : Lexeme} (h : run s ts = .error t) :
    ∃ front rest next, ts = front ++ t :: rest ∧ run s front = .ok next ∧ step next t = none := by
  induction ts generalizing s with
  | nil => cases h
  | cons u ts ih =>
    rw [run] at h
    split at h
    next next stepped =>
      obtain ⟨front, rest, final, rfl, ran, stuck⟩ := ih h
      exact ⟨u :: front, rest, final, rfl, (run_cons stepped).trans ran, stuck⟩
    next stuck =>
      cases h
      exact ⟨[], ts, s, rfl, rfl, stuck⟩

/-- When tokens form no expression the error is at a token up to which some expression goes, while
none goes beyond it. It is the last token when all of them are taken, and without any token it is
at the start. -/
theorem parse_error {ts : List Lexeme} {offset : Nat} (h : parse ts = .error offset) :
    (ts = [] ∧ offset = 0) ∨ ∃ front t rest s, ts = front ++ t :: rest ∧
      run State.start front = .ok s ∧ offset = t.span.start ∧
      ∀ us next, us <+: ts → run State.start us = .ok next → us <+: front ++ [t] := by
  unfold parse at h
  split at h
  next t failed =>
    cases h
    obtain ⟨front, rest, s, rfl, ran, stuck⟩ := run_error failed
    refine .inr ⟨front, t, rest, s, rfl, ran, rfl, fun us next within taken => ?_⟩
    have whole : front ++ [t] <+: front ++ t :: rest := ⟨rest, by simp⟩
    refine (List.prefix_or_prefix_of_prefix within whole).resolve_right ?_
    rintro ⟨more, rfl⟩
    rw [List.append_assoc, run_append ran, List.singleton_append, run, stuck] at taken
    cases taken
  next final ran =>
    split at h
    next => cases h
    next =>
      cases h
      rcases List.eq_nil_or_concat ts with rfl | ⟨front, t, rfl⟩
      · exact .inl ⟨rfl, rfl⟩
      · rw [List.concat_eq_append] at ran ⊢
        obtain ⟨s, ranFront⟩ := run_front ran
        exact .inr ⟨front, t, [], s, rfl, ranFront, by simp, fun us _ within _ => within⟩

end NullSafeEq.Parser
