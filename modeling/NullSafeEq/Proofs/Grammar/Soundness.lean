import NullSafeEq.Proofs.Grammar.Derivation

/-!
# What the stack machine reads

Each pending construct holds the lexemes of what has been read of it, and a phrase may begin on a
stack only with a level that the innermost construct admits. One step keeps this, so a phrase that
the machine ends with is derived from all lexemes.
-/
namespace NullSafeEq

theorem BinaryOp.level_le (op : BinaryOp) : op.level ≤ 6 := by
  cases op <;> decide

theorem BinaryOp.level_pos (op : BinaryOp) : 1 ≤ op.level := by
  cases op <;> decide

namespace Lexeme

theorem Words.snoc {ws : List String} {w : String} {ts : List Lexeme} {d t : Lexeme}
    (h : Words ws ts) (dot : d.token = .dot) (word : t.token = .name w) :
    Words (ws ++ [w]) (ts ++ [d, t]) := by
  induction h with
  | one first => exact .more first dot (.one word)
  | more first dot' _ ih => exact .more first dot' ih

end Lexeme

namespace Parser

open Phrase (ReadsDone ReadsArgs ReadsFurther)

/-- The level of the construct that a pending one becomes. -/
def Pending.level : Pending → Nat
  | binary op _ => op.level
  | prefixed _ .not | cast .. => 8
  | prefixed .. => 7
  | yesPart _ | noPart .. => 0
  | _ => 9

/-- A phrase of some level may begin on top of the stack. -/
def Admits (level : Nat) : List Pending → Prop
  | .binary op _ :: _ => op.level < level
  | .prefixed .. :: _ => 7 ≤ level
  | .cast .. :: _ => 8 ≤ level
  | _ => True

/-- The lexemes of what has been read of a pending construct. -/
def Pending.Holds : Pending → List Lexeme → Prop
  | binary op left, ts => ∃ us o, ts = us ++ [o] ∧ o.token = .op op ∧ op.level ≤ left.level ∧
      left.Reads us
  | prefixed start op, ts => ∃ o, ts = [o] ∧ o.token = op.token ∧ o.span.start = start
  | cast start type, ts => ∃ l us r, ts = l :: (us ++ [r]) ∧ l.token = .openParen ∧
      l.span.start = start ∧ r.token = .closeParen ∧ type.Reads us
  | paren start, ts => ∃ l, ts = [l] ∧ l.token = .openParen ∧ l.span.start = start
  | call id start done, ts => ∃ f l us, ts = f :: l :: us ∧ f.token = .name id ∧
      f.span.start = start ∧ l.token = .openParen ∧ ReadsDone done us
  | invoke base id done, ts => ∃ bs d f l us, ts = bs ++ d :: f :: l :: us ∧ d.token = .dot ∧
      f.token = .name id ∧ l.token = .openParen ∧ ReadsDone done us ∧ 9 ≤ base.level ∧
      base.Reads bs
  | create start type done, ts => ∃ ns l us, ts = ns ++ l :: us ∧ Lexeme.NewType type ns ∧
      ns.head?.map (·.span.start) = some start ∧ l.token = .openParen ∧ ReadsDone done us
  | index base, ts => ∃ bs l, ts = bs ++ [l] ∧ l.token = .openSquare ∧ 9 ≤ base.level ∧
      base.Reads bs
  | yesPart test, ts => ∃ us q, ts = us ++ [q] ∧ q.token = .question ∧ 1 ≤ test.level ∧
      test.Reads us
  | noPart test yes, ts => ∃ us q vs c, ts = us ++ q :: (vs ++ [c]) ∧ q.token = .question ∧
      c.token = .colon ∧ 1 ≤ test.level ∧ test.Reads us ∧ yes.Reads vs

/-- The lexemes of all pending constructs, each of which may stand where it stands. -/
def StackReads : List Pending → List Lexeme → Prop
  | [], ts => ts = []
  | x :: rest, ts => ∃ us vs, ts = us ++ vs ∧ StackReads rest us ∧ x.Holds vs ∧
      Admits x.level rest

/-- The lexemes of a phrase that has ended on top of a stack. -/
def Ended (ts : List Lexeme) (r : Phrase × List Pending) : Prop :=
  ∃ us vs, ts = us ++ vs ∧ StackReads r.2 us ∧ r.1.Reads vs ∧ Admits r.1.level r.2

/-- No construct on top of the stack ends at a level. -/
def Stops (level : Nat) : List Pending → Prop
  | .prefixed .. :: _ | .cast .. :: _ => False
  | .binary op _ :: _ => op.level < level
  | .noPart .. :: _ => level ≠ 0
  | _ => True

theorem admits_of_le {level : Nat} (stack : List Pending) (h : 8 ≤ level) :
    Admits level stack := by
  match stack with
  | .binary op _ :: _ =>
    have := op.level_le
    simp only [Admits]
    omega
  | .prefixed .. :: _ => simp only [Admits]; omega
  | .cast .. :: _ => exact h
  | .paren _ :: _ | .call .. :: _ | .invoke .. :: _ | .create .. :: _ | .index _ :: _
  | .yesPart _ :: _ | .noPart .. :: _ | [] => trivial

theorem Stops.admits {level k : Nat} {stack : List Pending} (h : Stops level stack)
    (le : level ≤ k) : Admits k stack := by
  match stack with
  | .binary op _ :: _ => exact Nat.lt_of_lt_of_le h le
  | .prefixed .. :: _ | .cast .. :: _ => exact h.elim
  | .paren _ :: _ | .call .. :: _ | .invoke .. :: _ | .create .. :: _ | .index _ :: _
  | .yesPart _ :: _ | .noPart .. :: _ | [] => trivial

/-- Every operator binds at level one or more, so none is left on top. -/
theorem Stops.admits_zero {stack : List Pending} (h : Stops 1 stack) : Admits 0 stack := by
  match stack with
  | .binary op _ :: _ =>
    have := op.level_pos
    simp only [Stops] at h
    omega
  | .prefixed .. :: _ | .cast .. :: _ => exact h.elim
  | .paren _ :: _ | .call .. :: _ | .invoke .. :: _ | .create .. :: _ | .index _ :: _
  | .yesPart _ :: _ | .noPart .. :: _ | [] => trivial

/-! ## Settling -/

theorem settle_stops (level : Nat) (p : Phrase) (stack : List Pending) :
    Stops level (settle level p stack).2 := by
  fun_induction settle level p stack with
  | case1 | case2 | case3 | case5 => assumption
  | case4 => simp only [Stops]; omega
  | case6 => simp only [Stops]; omega
  | case7 p stack noPrefix noCast noBinary noTernary =>
    cases stack with
    | nil => trivial
    | cons pending rest =>
      cases pending with
      | prefixed start op => exact (noPrefix start op rest rfl).elim
      | cast start type => exact (noCast start type rest rfl).elim
      | binary op left => exact (noBinary op left rest rfl).elim
      | noPart test yes => exact (noTernary test yes rest rfl).elim
      | _ => trivial

theorem settle_level (level : Nat) {p : Phrase} (stack : List Pending) (bound : level ≤ 7)
    (h : level ≤ p.level) : level ≤ (settle level p stack).1.level := by
  fun_induction settle level p stack with
  | case1 p start op rest ih =>
    apply ih
    cases op <;> simp only [Phrase.level] <;> omega
  | case2 p start type rest ih =>
    apply ih
    simp only [Phrase.level]
    omega
  | case3 p op left rest le ih => exact ih le
  | case5 p test yes rest zero ih =>
    apply ih
    omega
  | case4 | case6 | case7 => exact h

/-- Settling moves lexemes from the stack into the phrase and loses none. -/
theorem settle_ended {ts : List Lexeme} (level : Nat) {p : Phrase} {stack : List Pending}
    (h : Ended ts (p, stack)) : Ended ts (settle level p stack) := by
  fun_induction settle level p stack with
  | case1 p start op rest ih =>
    obtain ⟨us, vs, rfl, ⟨us', ws, rfl, stack, ⟨o, rfl, same, starts⟩, below⟩, reads, le⟩ := h
    refine ih ⟨us', o :: vs, by simp, stack, ⟨o, vs, rfl, same, starts, le, reads⟩, ?_⟩
    cases op <;> exact below
  | case2 p start type rest ih =>
    obtain ⟨us, vs, rfl, ⟨us', ws, rfl, stack, ⟨l, xs, r, rfl, opens, starts, closes, typed⟩,
      below⟩, reads, le⟩ := h
    exact ih ⟨us', l :: (xs ++ r :: vs), by simp, stack,
      ⟨l, xs, r, vs, rfl, opens, starts, closes, typed, le, reads⟩, below⟩
  | case3 p op left rest _ ih =>
    obtain ⟨us, vs, rfl, ⟨us', ws, rfl, stack, ⟨xs, o, rfl, same, tight, leftReads⟩, below⟩,
      reads, lt⟩ := h
    exact ih ⟨us', xs ++ o :: vs, by simp, stack,
      ⟨xs, o, vs, rfl, same, tight, leftReads, lt, reads⟩, below⟩
  | case5 p test yes rest _ ih =>
    obtain ⟨us, vs, rfl, ⟨us', ws, rfl, stack, ⟨xs, q, ys, c, rfl, asks, colon, tight, testReads,
      yesReads⟩, below⟩, reads, _⟩ := h
    exact ih ⟨us', xs ++ q :: (ys ++ c :: vs), by simp, stack,
      ⟨xs, q, ys, c, vs, rfl, asks, colon, tight, testReads, yesReads, reads⟩, below⟩
  | case4 | case6 | case7 => exact h

/-! ## States -/

/-- The lexemes that have been read in a state. -/
def State.Reads (s : State) (ts : List Lexeme) : Prop :=
  match s.focus with
  | .operand => StackReads s.stack ts ∧ Admits 7 s.stack
  | .value p => 9 ≤ p.level ∧ Ended ts (p, s.stack)
  | .member base => ∃ us d, ts = us ++ [d] ∧ d.token = .dot ∧ 9 ≤ base.level ∧
      Ended us (base, s.stack)
  | .typeName start words => ∃ us n vs, ts = us ++ n :: vs ∧ StackReads s.stack us ∧
      n.token = .create ∧ n.span.start = start ∧
      (words = [] ∧ vs = [] ∨ ∃ ws d, vs = ws ++ [d] ∧ d.token = .dot ∧ Lexeme.Words words ws)
  | .typeTail start words => ∃ us n vs, ts = us ++ n :: vs ∧ StackReads s.stack us ∧
      n.token = .create ∧ n.span.start = start ∧ Lexeme.Words words vs

theorem State.start_reads : State.start.Reads [] := ⟨rfl, trivial⟩

/-- A phrase that binds most tightly has ended. -/
theorem State.value_reads {stack : List Pending} {p : Phrase} {us vs : List Lexeme}
    (below : StackReads stack us) (reads : p.Reads vs) (tight : 9 ≤ p.level) :
    State.Reads ⟨stack, .value p⟩ (us ++ vs) :=
  ⟨tight, us, vs, rfl, below, reads, admits_of_le stack (Nat.le_trans (by decide) tight)⟩

/-- A construct has been opened and waits for an operand. -/
theorem State.operand_reads {stack : List Pending} {x : Pending} {us vs : List Lexeme}
    (below : StackReads stack us) (holds : x.Holds vs) (fits : Admits x.level stack)
    (opens : Admits 7 (x :: stack)) : State.Reads ⟨x :: stack, .operand⟩ (us ++ vs) :=
  ⟨⟨us, vs, rfl, below, holds, fits⟩, opens⟩

/-! ## Constructs that collect arguments -/

/-- A pending construct whose lexemes are some that open it and those of the arguments so far. With
further arguments, and with a closing parenthesis, they go on in the same way. -/
structure Gathers (frame : List Phrase → Pending) (finish : List Phrase → Nat → Phrase) :
    Prop where
  level : ∀ done, (frame done).level = 9
  admits : ∀ done rest, Admits 7 (frame done :: rest)
  tight : ∀ args stop, 9 ≤ (finish args stop).level
  split : ∀ done ts, (frame done).Holds ts → ∃ front us, ts = front ++ us ∧ ReadsDone done us ∧
    (∀ done vs, ReadsDone done vs → (frame done).Holds (front ++ vs)) ∧
    ∀ args vs r, ReadsArgs args vs → r.token = .closeParen →
      (finish args r.span.stop).Reads (front ++ (vs ++ [r]))

theorem gathers_call (id : String) (start : Nat) : Gathers (.call id start) (.call id start) where
  level _ := rfl
  admits _ _ := trivial
  tight _ _ := Nat.le_refl 9
  split done ts holds := by
    obtain ⟨f, l, us, rfl, named, starts, opens, args⟩ := holds
    refine ⟨[f, l], us, rfl, args, fun done vs more => ?_, fun args vs r reads closes => ?_⟩
    · exact ⟨f, l, vs, rfl, named, starts, opens, more⟩
    · exact ⟨f, l, vs, r, rfl, named, starts, opens, reads, closes, rfl⟩

theorem gathers_invoke (base : Phrase) (id : String) :
    Gathers (.invoke base id) (.invoke base id) where
  level _ := rfl
  admits _ _ := trivial
  tight _ _ := Nat.le_refl 9
  split done ts holds := by
    obtain ⟨bs, d, f, l, us, rfl, dot, named, opens, args, tight, baseReads⟩ := holds
    refine ⟨bs ++ [d, f, l], us, by simp, args, fun done vs more => ?_,
      fun args vs r reads closes => ?_⟩
    · exact ⟨bs, d, f, l, vs, by simp, dot, named, opens, more, tight, baseReads⟩
    · exact ⟨bs, d, f, l, vs, r, by simp, dot, named, opens, reads, closes, rfl, tight, baseReads⟩

theorem gathers_create (start : Nat) (type : String) :
    Gathers (.create start type) (.create start type) where
  level _ := rfl
  admits _ _ := trivial
  tight _ _ := Nat.le_refl 9
  split done ts holds := by
    obtain ⟨ns, l, us, rfl, typed, starts, opens, args⟩ := holds
    refine ⟨ns ++ [l], us, by simp, args, fun done vs more => ?_, fun args vs r reads closes => ?_⟩
    · exact ⟨ns, l, vs, by simp, typed, starts, opens, more⟩
    · exact ⟨ns, l, vs, r, by simp, typed, starts, opens, reads, closes, rfl⟩

namespace Gathers
variable {frame : List Phrase → Pending} {finish : List Phrase → Nat → Phrase} {p : Phrase}
  {done : List Phrase} {rest : List Pending} {ts : List Lexeme} {t : Lexeme}

/-- There are no arguments. -/
theorem none_reads (gathers : Gathers frame finish) (below : StackReads (frame [] :: rest) ts)
    (closes : t.token = .closeParen) :
    State.Reads ⟨rest, .value (finish [] t.span.stop)⟩ (ts ++ [t]) := by
  obtain ⟨us, _, rfl, below, holds, -⟩ := below
  obtain ⟨front, _, rfl, none, -, finished⟩ := gathers.split _ _ holds
  cases none
  simpa using State.value_reads below (finished [] [] t rfl closes) (gathers.tight _ _)

/-- The last argument has ended. -/
theorem close_reads (gathers : Gathers frame finish) (ended : Ended ts (p, frame done :: rest))
    (closes : t.token = .closeParen) :
    State.Reads ⟨rest, .value (finish (p :: done).reverse t.span.stop)⟩ (ts ++ [t]) := by
  obtain ⟨_, vs, rfl, ⟨us, _, rfl, below, holds, -⟩, reads, -⟩ := ended
  obtain ⟨front, ys, rfl, args, -, finished⟩ := gathers.split _ _ holds
  have whole := finished _ _ t (args.close reads) closes
  simpa using State.value_reads below whole (gathers.tight _ _)

/-- An argument has ended and another one follows. -/
theorem next_reads (gathers : Gathers frame finish) (ended : Ended ts (p, frame done :: rest))
    (comma : t.token = .comma) :
    State.Reads ⟨frame (p :: done) :: rest, .operand⟩ (ts ++ [t]) := by
  obtain ⟨_, vs, rfl, ⟨us, _, rfl, below, holds, fits⟩, reads, -⟩ := ended
  obtain ⟨front, ys, rfl, args, further, -⟩ := gathers.split _ _ holds
  have more := further (p :: done) (ys ++ (vs ++ [t])) ⟨ys, vs, t, rfl, args, reads, comma⟩
  rw [gathers.level, ← gathers.level (p :: done)] at fits
  simpa using State.operand_reads below more fits (gathers.admits _ _)

end Gathers

/-! ## One step -/

theorem beginOperand_reads {stack : List Pending} {ts : List Lexeme} {t : Lexeme} {s : State}
    (below : StackReads stack ts)
    (sign : t.token = .op .sub ∨ t.token = .op .add → Admits 7 stack)
    (h : beginOperand stack t = some s) : s.Reads (ts ++ [t]) := by
  obtain ⟨token, span⟩ := t
  unfold beginOperand at h
  split at h
  next kind text same =>
    cases h
    exact State.value_reads below (by simp [Phrase.Reads, ← same]) (Nat.le_refl _)
  next id same =>
    cases h
    exact State.value_reads below (by simp [Phrase.Reads, ← same]) (Nat.le_refl _)
  next word same =>
    cases h
    exact State.value_reads below (by simp [Phrase.Reads, ← same]) (Nat.le_refl _)
  next same =>
    cases h
    exact ⟨ts, ⟨token, span⟩, [], rfl, below, same, rfl, .inl ⟨rfl, rfl⟩⟩
  next same =>
    cases h
    exact State.operand_reads below ⟨_, rfl, same, rfl⟩ (admits_of_le stack (Nat.le_succ 8)) trivial
  next same =>
    cases h
    exact State.operand_reads below ⟨_, rfl, same, rfl⟩ (admits_of_le stack (Nat.le_refl 8))
      (Nat.le_refl 7)
  next same =>
    cases h
    exact State.operand_reads below ⟨_, rfl, same, rfl⟩ (sign (.inl same)) (Nat.le_refl 7)
  next same =>
    cases h
    exact State.operand_reads below ⟨_, rfl, same, rfl⟩ (sign (.inr same)) (Nat.le_refl 7)
  next same =>
    split at h
    next id start rest =>
      cases h
      exact (gathers_call id start).none_reads below same
    next base id rest =>
      cases h
      exact (gathers_invoke base id).none_reads below same
    next start type rest =>
      cases h
      exact (gathers_create start type).none_reads below same
    next => cases h
  next => cases h

theorem beginCastOperand_reads {stack : List Pending} {p : Phrase} {ts : List Lexeme}
    {t : Lexeme} {s : State} (ended : Ended ts (p, stack))
    (noSign : t.token ≠ .op .sub ∧ t.token ≠ .op .add)
    (h : beginCastOperand stack p t = some s) : s.Reads (ts ++ [t]) := by
  unfold beginCastOperand at h
  split at h
  next start type stop =>
    obtain ⟨us, vs, rfl, below, ⟨l, xs, r, rfl, opens, starts, closes, _, reads⟩, _⟩ := ended
    refine beginOperand_reads ?_ ?_ h
    · exact ⟨us, _, rfl, below, ⟨l, xs, r, rfl, opens, starts, closes, reads⟩,
        admits_of_le stack (Nat.le_refl 8)⟩
    · rintro (sub | add)
      · exact (noSign.1 sub).elim
      · exact (noSign.2 add).elim
  next => cases h

theorem closeParen_reads {r : Phrase × List Pending} {ts : List Lexeme} {t : Lexeme} {s : State}
    (ended : Ended ts r) (closes : t.token = .closeParen)
    (h : closeParen t.span.stop r = some s) : s.Reads (ts ++ [t]) := by
  obtain ⟨p, _ | ⟨x, rest⟩⟩ := r
  · cases h
  cases x with
  | paren start =>
    cases h
    obtain ⟨_, vs, rfl, ⟨us, _, rfl, below, ⟨l, rfl, opens, starts⟩, -⟩, reads, -⟩ := ended
    have whole : (Phrase.paren start p t.span.stop).Reads (l :: (vs ++ [t])) :=
      ⟨l, vs, t, rfl, opens, starts, closes, rfl, reads⟩
    simpa using State.value_reads below whole (Nat.le_refl _)
  | call id start done =>
    cases h
    exact (gathers_call id start).close_reads ended closes
  | invoke base id done =>
    cases h
    exact (gathers_invoke base id).close_reads ended closes
  | create start type done =>
    cases h
    exact (gathers_create start type).close_reads ended closes
  | _ => cases h

theorem nextArgument_reads {r : Phrase × List Pending} {ts : List Lexeme} {t : Lexeme} {s : State}
    (ended : Ended ts r) (comma : t.token = .comma) (h : nextArgument r = some s) :
    s.Reads (ts ++ [t]) := by
  obtain ⟨p, _ | ⟨x, rest⟩⟩ := r
  · cases h
  cases x with
  | call id start done =>
    cases h
    exact (gathers_call id start).next_reads ended comma
  | invoke base id done =>
    cases h
    exact (gathers_invoke base id).next_reads ended comma
  | create start type done =>
    cases h
    exact (gathers_create start type).next_reads ended comma
  | _ => cases h

/-- A name or a member in front of a parenthesis is called. -/
theorem openParen_reads {stack : List Pending} {p : Phrase} {ts : List Lexeme} {t : Lexeme}
    {x : Pending} (ended : Ended ts (p, stack)) (opens : t.token = .openParen)
    (called : (∃ id range, p = .name id range ∧ x = .call id range.start []) ∨
      ∃ base id range, p = .member base id range ∧ x = .invoke base id []) :
    State.Reads ⟨x :: stack, .operand⟩ (ts ++ [t]) := by
  obtain ⟨us, vs, rfl, below, reads, -⟩ := ended
  rw [List.append_assoc]
  rcases called with ⟨id, range, rfl, rfl⟩ | ⟨base, id, range, rfl, rfl⟩
  · cases reads
    exact State.operand_reads below ⟨_, t, [], rfl, rfl, rfl, opens, rfl⟩
      (admits_of_le stack (Nat.le_succ 8)) trivial
  · obtain ⟨bs, d, rfl, dot, tight, baseReads⟩ := reads
    exact State.operand_reads below
      ⟨bs, d, ⟨.name id, range⟩, t, [], by simp, dot, rfl, opens, rfl, tight, baseReads⟩
      (admits_of_le stack (Nat.le_succ 8)) trivial

/-- The middle part of a ternary has ended. -/
theorem colon_reads {yes test : Phrase} {rest : List Pending} {ts : List Lexeme} {t : Lexeme}
    (ended : Ended ts (yes, .yesPart test :: rest)) (colon : t.token = .colon) :
    State.Reads ⟨.noPart test yes :: rest, .operand⟩ (ts ++ [t]) := by
  obtain ⟨_, vs, rfl, ⟨us, _, rfl, below, ⟨ys, q, rfl, asks, tight, testReads⟩, fits⟩,
    reads, -⟩ := ended
  have held : (Pending.noPart test yes).Holds (ys ++ q :: (vs ++ [t])) :=
    ⟨ys, q, vs, t, rfl, asks, colon, tight, testReads, reads⟩
  simpa using State.operand_reads below held fits trivial

/-- The position in an array has ended. -/
theorem closeSquare_reads {position base : Phrase} {rest : List Pending} {ts : List Lexeme}
    {t : Lexeme} (ended : Ended ts (position, .index base :: rest))
    (closes : t.token = .closeSquare) :
    State.Reads ⟨rest, .value (.index base position t.span.stop)⟩ (ts ++ [t]) := by
  obtain ⟨_, vs, rfl, ⟨us, _, rfl, below, ⟨bs, l, rfl, opens, tight, baseReads⟩, -⟩,
    reads, -⟩ := ended
  have whole : (Phrase.index base position t.span.stop).Reads (bs ++ l :: (vs ++ [t])) :=
    ⟨bs, l, vs, t, rfl, opens, closes, rfl, tight, baseReads, reads⟩
  simpa using State.value_reads below whole (Nat.le_refl _)

theorem continueValue_reads {stack : List Pending} {p : Phrase} {ts : List Lexeme} {t : Lexeme}
    {s : State} (tight : 9 ≤ p.level) (ended : Ended ts (p, stack))
    (h : continueValue stack p t = some s) : s.Reads (ts ++ [t]) := by
  have settled : ∀ level, Ended ts (settle level p stack) := fun level => settle_ended level ended
  unfold continueValue at h
  split at h
  next dot =>
    cases h
    exact ⟨ts, t, rfl, dot, tight, ended⟩
  next opens =>
    cases h
    obtain ⟨us, vs, rfl, below, reads, -⟩ := ended
    rw [List.append_assoc]
    exact State.operand_reads below ⟨vs, t, rfl, opens, tight, reads⟩
      (admits_of_le stack (Nat.le_succ 8)) trivial
  next opens =>
    split at h
    next id range =>
      cases h
      exact openParen_reads ended opens (.inl ⟨id, range, rfl, rfl⟩)
    next base id range =>
      cases h
      exact openParen_reads ended opens (.inr ⟨base, id, range, rfl, rfl⟩)
    next => exact beginCastOperand_reads ended (by simp [opens]) h
  next op same =>
    cases h
    have low := op.level_le
    have left := settle_level op.level stack (by omega) (by omega : _ ≤ p.level)
    have stops := (settle_stops op.level p stack).admits (Nat.le_refl _)
    obtain ⟨us, vs, rfl, below, reads, -⟩ := settled op.level
    rw [List.append_assoc]
    exact State.operand_reads below ⟨vs, t, rfl, same, left, reads⟩ stops
      (Nat.lt_of_le_of_lt low (by decide))
  next asks =>
    cases h
    have left := settle_level 1 stack (by decide) (by omega : _ ≤ p.level)
    have stops := (settle_stops 1 p stack).admits_zero
    obtain ⟨us, vs, rfl, below, reads, -⟩ := settled 1
    rw [List.append_assoc]
    exact State.operand_reads below ⟨vs, t, rfl, asks, left, reads⟩ stops trivial
  next colon =>
    split at h
    next yes test rest same =>
      cases h
      exact colon_reads (same ▸ settled 0) colon
    next => cases h
  next comma => exact nextArgument_reads (settled 0) comma h
  next closes => exact closeParen_reads (settled 0) closes h
  next closes =>
    split at h
    next position base rest same =>
      cases h
      exact closeSquare_reads (same ▸ settled 0) closes
    next => cases h
  next noOp _ _ _ _ _ =>
    exact beginCastOperand_reads ended ⟨noOp .sub, noOp .add⟩ h

/-- One step adds the lexeme to those that have been read. -/
theorem step_reads {s next : State} {ts : List Lexeme} {t : Lexeme} (reads : s.Reads ts)
    (h : step s t = some next) : next.Reads (ts ++ [t]) := by
  obtain ⟨stack, focus⟩ := s
  unfold step at h
  cases focus with
  | operand => exact beginOperand_reads reads.1 (fun _ => reads.2) h
  | value p => exact continueValue_reads reads.1 reads.2 h
  | member base =>
    obtain ⟨us, d, rfl, dot, tight, vs, bs, rfl, below, baseReads, _⟩ := reads
    obtain ⟨token, span⟩ := t
    cases token with
    | name id =>
      cases h
      have whole : (Phrase.member base id span).Reads (bs ++ [d, ⟨.name id, span⟩]) :=
        ⟨bs, d, rfl, dot, tight, baseReads⟩
      simpa using State.value_reads below whole (Nat.le_refl _)
    | self word =>
      cases h
      have whole : (Phrase.selfOf base word span).Reads (bs ++ [d, ⟨.self word, span⟩]) :=
        ⟨bs, d, rfl, dot, tight, baseReads⟩
      simpa using State.value_reads below whole (Nat.le_refl _)
    | _ => cases h
  | typeName start words =>
    obtain ⟨us, n, vs, rfl, below, create, starts, front⟩ := reads
    simp only at h
    split at h
    next id same =>
      cases h
      refine ⟨us, n, vs ++ [t], by simp, below, create, starts, ?_⟩
      rcases front with ⟨rfl, rfl⟩ | ⟨ws, d, rfl, dot, words⟩
      · exact .one same
      · simpa using words.snoc dot same
    next => cases h
  | typeTail start words =>
    obtain ⟨us, n, vs, rfl, below, create, starts, front⟩ := reads
    simp only at h
    split at h
    next same =>
      cases h
      exact ⟨us, n, vs ++ [t], by simp, below, create, starts, .inr ⟨vs, t, rfl, same, front⟩⟩
    next same =>
      cases h
      have typed : Lexeme.NewType (String.intercalate "." words) (n :: vs) :=
        ⟨n, words, vs, rfl, create, front, rfl⟩
      exact ⟨⟨us, _, by simp, below, ⟨n :: vs, t, [], rfl, typed, by simp [starts], same, rfl⟩,
        admits_of_le stack (Nat.le_succ 8)⟩, trivial⟩
    next => cases h

theorem run_reads {s final : State} {ts us : List Lexeme} (reads : s.Reads ts)
    (h : run s us = .ok final) : final.Reads (ts ++ us) := by
  induction us generalizing s ts with
  | nil =>
    cases h
    simpa using reads
  | cons t us ih =>
    unfold run at h
    split at h
    next next moved => simpa using ih (step_reads reads moved) h
    next => cases h

/-- A phrase that the machine ends with reads all the lexemes. -/
theorem parse_reads {ts : List Lexeme} {p : Phrase} (h : parse ts = .ok p) : p.Reads ts := by
  unfold parse at h
  split at h
  next => cases h
  next s ran =>
    split at h
    next whole found =>
      cases h
      have reads := run_reads State.start_reads ran
      obtain ⟨stack, focus⟩ := s
      unfold State.result? at found
      split at found
      next q focused =>
        simp only at focused
        subst focused
        split at found
        next whole settled =>
          cases found
          have ended := settle_ended 0 reads.2
          rw [settled] at ended
          obtain ⟨us, vs, same, rfl, whole, _⟩ := ended
          simp only [List.nil_append] at same
          rwa [same]
        next => cases found
      next => cases found
    next => cases h

end Parser

end NullSafeEq
