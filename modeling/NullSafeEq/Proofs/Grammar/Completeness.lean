import NullSafeEq.Proofs.Grammar.Soundness

/-!
# Every derivation is found

From an expected operand, the lexemes of a phrase lead the machine to a state in which the phrase
comes out at every level that it admits, whatever is pending below. Together with soundness: the
machine accepts exactly the lexemes that some phrase reads, and answers with that phrase.
-/
namespace NullSafeEq

/-- May begin the operand of a cast: no sign. -/
def Token.BeginsTight : Token → Prop
  | .literal .. | .name _ | .self _ | .create | .openParen | .bang => True
  | _ => False

namespace Phrase

theorem Reads.head {p : Phrase} {ts : List Lexeme} (h : p.Reads ts) (tight : 8 ≤ p.level) :
    ∃ t us, ts = t :: us ∧ t.token.BeginsTight := by
  match p with
  | literal .. | name .. | self .. =>
    cases h
    exact ⟨_, _, rfl, trivial⟩
  | member base id range | selfOf base word range =>
    obtain ⟨us, d, rfl, _, baseTight, reads⟩ := h
    obtain ⟨t, vs, rfl, begins⟩ := reads.head (Nat.le_of_succ_le baseTight)
    exact ⟨t, _, rfl, begins⟩
  | invoke base id args stop =>
    obtain ⟨bs, d, f, l, us, r, rfl, _, _, _, _, _, _, baseTight, reads⟩ := h
    obtain ⟨t, vs, rfl, begins⟩ := reads.head (Nat.le_of_succ_le baseTight)
    exact ⟨t, _, rfl, begins⟩
  | index base position stop =>
    obtain ⟨bs, l, us, r, rfl, _, _, _, baseTight, reads, _⟩ := h
    obtain ⟨t, vs, rfl, begins⟩ := reads.head (Nat.le_of_succ_le baseTight)
    exact ⟨t, _, rfl, begins⟩
  | call id start args stop =>
    obtain ⟨f, l, us, r, rfl, named, _⟩ := h
    exact ⟨f, _, rfl, by rw [named]; trivial⟩
  | create start type args stop =>
    obtain ⟨ns, l, us, r, rfl, ⟨t, words, vs, rfl, create, _⟩, _⟩ := h
    exact ⟨t, _, rfl, by rw [create]; trivial⟩
  | paren start body stop =>
    obtain ⟨l, us, r, rfl, opens, _⟩ := h
    exact ⟨l, _, rfl, by rw [opens]; trivial⟩
  | cast start type body =>
    obtain ⟨l, us, r, bs, rfl, opens, _⟩ := h
    exact ⟨l, _, rfl, by rw [opens]; trivial⟩
  | prefixed start .not operand =>
    obtain ⟨o, us, rfl, same, _⟩ := h
    exact ⟨o, _, rfl, by rw [same]; trivial⟩
  | prefixed start .negate operand | prefixed start .plus operand | conditional .. =>
    simp only [level] at tight
    omega
  | binary op left right =>
    have := op.level_le
    simp only [level] at tight
    omega

end Phrase

namespace Parser

open Phrase (ReadsArgs ReadsFurther)

theorem run_append {s next : State} {ts us : List Lexeme} (h : run s ts = .ok next) :
    run s (ts ++ us) = run next us := by
  induction ts generalizing s with
  | nil =>
    cases h
    rfl
  | cons t ts ih =>
    simp only [run, List.cons_append] at h ⊢
    split at h
    next => exact ih h
    next => cases h

theorem run_cons {s next : State} {t : Lexeme} {ts : List Lexeme} (h : step s t = some next) :
    run s (t :: ts) = run next ts := by
  simp only [run, h]

theorem run_one {s next : State} {t : Lexeme} (h : step s t = some next) :
    run s [t] = .ok next := run_cons h

theorem Admits.mono {level k : Nat} {stack : List Pending} (h : Admits level stack)
    (le : level ≤ k) : Admits k stack := by
  match stack with
  | .binary op _ :: _ => exact Nat.lt_of_lt_of_le h le
  | .prefixed .. :: _ | .cast .. :: _ => exact Nat.le_trans h le
  | .paren _ :: _ | .call .. :: _ | .invoke .. :: _ | .create .. :: _ | .index _ :: _
  | .yesPart _ :: _ | .noPart .. :: _ | [] => trivial

/-- Where a phrase of an operator's level may begin, nothing ends at that level. -/
theorem settle_of_admits {level : Nat} (p : Phrase) {stack : List Pending} (pos : 1 ≤ level)
    (low : level ≤ 6) (h : Admits level stack) : settle level p stack = (p, stack) := by
  match stack with
  | .binary op _ :: _ =>
    have lt : ¬ level ≤ op.level := Nat.not_le.mpr h
    simp only [settle, if_neg lt]
  | .prefixed .. :: _ | .cast .. :: _ =>
    simp only [Admits] at h
    omega
  | .noPart .. :: _ =>
    have : level ≠ 0 := by omega
    simp only [settle, if_neg this]
  | .paren _ :: _ | .call .. :: _ | .invoke .. :: _ | .create .. :: _ | .index _ :: _
  | .yesPart _ :: _ | [] => simp only [settle]

/-- After a parenthesis, a lexeme that begins a tight operand makes it a cast. -/
theorem step_cast (stack : List Pending) (start stop : Nat) (type : Phrase) {t : Lexeme}
    (h : t.token.BeginsTight) :
    step ⟨stack, .value (.paren start type stop)⟩ t =
      step ⟨.cast start type :: stack, .operand⟩ t := by
  obtain ⟨token, span⟩ := t
  cases token <;> first | exact h.elim | rfl

/-- From an expected operand on a stack, the lexemes lead to where the phrase has ended. -/
def Reaches (stack : List Pending) (ts : List Lexeme) (p : Phrase) : Prop :=
  ∃ above q, run ⟨stack, .operand⟩ ts = .ok ⟨above, .value q⟩ ∧
    (9 ≤ p.level → above = stack ∧ q = p) ∧
    ∀ level, level ≤ 7 → level ≤ p.level → settle level q above = settle level p stack

theorem Reaches.exact {stack : List Pending} {ts : List Lexeme} {p : Phrase}
    (h : run ⟨stack, .operand⟩ ts = .ok ⟨stack, .value p⟩) : Reaches stack ts p :=
  ⟨stack, p, h, fun _ => ⟨rfl, rfl⟩, fun _ _ _ => rfl⟩

theorem Reaches.tight {stack : List Pending} {ts : List Lexeme} {p : Phrase}
    (h : Reaches stack ts p) (tight : 9 ≤ p.level) :
    run ⟨stack, .operand⟩ ts = .ok ⟨stack, .value p⟩ := by
  obtain ⟨above, q, ran, same, _⟩ := h
  obtain ⟨rfl, rfl⟩ := same tight
  exact ran

theorem Reaches.settled {stack : List Pending} {ts : List Lexeme} {p : Phrase}
    (h : Reaches stack ts p) : ∃ above q, run ⟨stack, .operand⟩ ts = .ok ⟨above, .value q⟩ ∧
      settle 0 q above = settle 0 p stack := by
  obtain ⟨above, q, ran, -, settled⟩ := h
  exact ⟨above, q, ran, settled 0 (Nat.zero_le _) (Nat.zero_le _)⟩

/-- A construct in round brackets that collects arguments. -/
structure Collects (frame : List Phrase → Pending) (finish : List Phrase → Nat → Phrase) :
    Prop where
  admits : ∀ level done rest, Admits level (frame done :: rest)
  settles : ∀ p done rest, settle 0 p (frame done :: rest) = (p, frame done :: rest)
  none : ∀ rest t, t.token = .closeParen →
    beginOperand (frame [] :: rest) t = some ⟨rest, .value (finish [] t.span.stop)⟩
  next : ∀ p done rest,
    nextArgument (p, frame done :: rest) = some ⟨frame (p :: done) :: rest, .operand⟩
  close : ∀ p done rest stop, closeParen stop (p, frame done :: rest) =
    some ⟨rest, .value (finish (p :: done).reverse stop)⟩

theorem collects_call (id : String) (start : Nat) :
    Collects (.call id start) (.call id start) where
  admits _ _ _ := trivial
  settles _ _ _ := by simp only [settle]
  none rest t h := by simp only [beginOperand, h]
  next _ _ _ := rfl
  close _ _ _ _ := rfl

theorem collects_invoke (base : Phrase) (id : String) :
    Collects (.invoke base id) (.invoke base id) where
  admits _ _ _ := trivial
  settles _ _ _ := by simp only [settle]
  none rest t h := by simp only [beginOperand, h]
  next _ _ _ := rfl
  close _ _ _ _ := rfl

theorem collects_create (start : Nat) (type : String) :
    Collects (.create start type) (.create start type) where
  admits _ _ _ := trivial
  settles _ _ _ := by simp only [settle]
  none rest t h := by simp only [beginOperand, h]
  next _ _ _ := rfl
  close _ _ _ _ := rfl

theorem run_words {ws : List String} {ts : List Lexeme} (h : Lexeme.Words ws ts)
    (stack : List Pending) (start : Nat) (front : List String) :
    run ⟨stack, .typeName start front⟩ ts = .ok ⟨stack, .typeTail start (front ++ ws)⟩ := by
  induction h generalizing front with
  | one word => exact run_one (by simp only [step, word])
  | @more w ws ts t d word dot _ ih =>
    have first : step ⟨stack, .typeName start front⟩ t =
        some ⟨stack, .typeTail start (front ++ [w])⟩ := by
      simp only [step, word]
    have second : step ⟨stack, .typeTail start (front ++ [w])⟩ d =
        some ⟨stack, .typeName start (front ++ [w])⟩ := by
      simp only [step, dot]
    rw [run_cons first, run_cons second, ih]
    simp

section
variable {stack : List Pending}

/-! ## Single lexemes -/

theorem step_dot {p : Phrase} {d : Lexeme} (dot : d.token = .dot) :
    step ⟨stack, .value p⟩ d = some ⟨stack, .member p⟩ := by
  simp only [step, continueValue, dot]

theorem step_op {above : List Pending} {q left : Phrase} {o : Lexeme} {op : BinaryOp}
    (same : o.token = .op op) (settled : settle op.level q above = (left, stack)) :
    step ⟨above, .value q⟩ o = some ⟨.binary op left :: stack, .operand⟩ := by
  simp only [step, continueValue, same, settled]

theorem step_close {above : List Pending} {q : Phrase} {r : Lexeme} {t : Phrase × List Pending}
    {s : State} (closes : r.token = .closeParen) (settled : settle 0 q above = t)
    (h : closeParen r.span.stop t = some s) : step ⟨above, .value q⟩ r = some s := by
  simp only [step, continueValue, closes, settled, h]

/-! ## One level of a phrase

Where its constituents are reached, each on top of what the machine has pushed in front of it, the
phrase is reached. -/

/-- The lexemes that open a construct which collects arguments. -/
def Opens (stack : List Pending) (ts : List Lexeme) (x : Pending) : Prop :=
  run ⟨stack, .operand⟩ ts = .ok ⟨x :: stack, .operand⟩

theorem opens_call {f l : Lexeme} {id : String} (named : f.token = .name id)
    (opens : l.token = .openParen) : Opens stack [f, l] (.call id f.span.start []) := by
  have first : step ⟨stack, .operand⟩ f = some ⟨stack, .value (.name id f.span)⟩ := by
    simp only [step, beginOperand, named]
  have second : step ⟨stack, .value (.name id f.span)⟩ l =
      some ⟨.call id f.span.start [] :: stack, .operand⟩ := by
    simp only [step, continueValue, opens]
  rw [Opens, run_cons first, run_one second]

theorem opens_create {n l : Lexeme} {words : List String} {vs : List Lexeme}
    (create : n.token = .create) (read : Lexeme.Words words vs) (opens : l.token = .openParen) :
    Opens stack (n :: (vs ++ [l]))
      (.create n.span.start (String.intercalate "." words) []) := by
  have first : step ⟨stack, .operand⟩ n = some ⟨stack, .typeName n.span.start []⟩ := by
    simp only [step, beginOperand, create]
  have last : step ⟨stack, .typeTail n.span.start ([] ++ words)⟩ l =
      some ⟨.create n.span.start (String.intercalate "." words) [] :: stack, .operand⟩ := by
    simp only [step, opens, List.nil_append]
  rw [Opens, run_cons first, run_append (run_words read stack n.span.start []), run_one last]

namespace Reaches
variable {us vs ws : List Lexeme} {p q r : Phrase} {d l t : Lexeme}

theorem member {id : String} {range : Span} (base : Reaches stack us p) (tight : 9 ≤ p.level)
    (dot : d.token = .dot) : Reaches stack (us ++ [d, ⟨.name id, range⟩]) (.member p id range) := by
  refine .exact ?_
  rw [run_append (base.tight tight), run_cons (step_dot dot)]
  rfl

theorem selfOf {word : SelfWord} {range : Span} (base : Reaches stack us p)
    (tight : 9 ≤ p.level) (dot : d.token = .dot) :
    Reaches stack (us ++ [d, ⟨.self word, range⟩]) (.selfOf p word range) := by
  refine .exact ?_
  rw [run_append (base.tight tight), run_cons (step_dot dot)]
  rfl

theorem opens_invoke {f : Lexeme} {id : String} (base : Reaches stack us p) (tight : 9 ≤ p.level)
    (dot : d.token = .dot) (named : f.token = .name id) (opens : l.token = .openParen) :
    Opens stack (us ++ [d, f, l]) (.invoke p id []) := by
  have second : step ⟨stack, .member p⟩ f = some ⟨stack, .value (.member p id f.span)⟩ := by
    simp only [step, named]
  have third : step ⟨stack, .value (.member p id f.span)⟩ l =
      some ⟨.invoke p id [] :: stack, .operand⟩ := by
    simp only [step, continueValue, opens]
  rw [Opens, run_append (base.tight tight), run_cons (step_dot dot), run_cons second,
    run_one third]

theorem index (base : Reaches stack us p) (tight : 9 ≤ p.level) (opens : l.token = .openSquare)
    (position : Reaches (.index p :: stack) vs q) (closes : t.token = .closeSquare) :
    Reaches stack (us ++ l :: (vs ++ [t])) (.index p q t.span.stop) := by
  obtain ⟨above, inner, ran, settled⟩ := position.settled
  have first : step ⟨stack, .value p⟩ l = some ⟨.index p :: stack, .operand⟩ := by
    simp only [step, continueValue, opens]
  have last : step ⟨above, .value inner⟩ t = some ⟨stack, .value (.index p q t.span.stop)⟩ := by
    simp only [step, continueValue, closes, settled, settle]
  refine .exact ?_
  rw [run_append (base.tight tight), run_cons first, run_append ran, run_one last]

/-- A parenthesis that has been closed, be it the type of a cast or not. -/
theorem closed (body : Reaches (.paren l.span.start :: stack) us p)
    (opens : l.token = .openParen) (closes : t.token = .closeParen) :
    run ⟨stack, .operand⟩ (l :: (us ++ [t])) =
      .ok ⟨stack, .value (.paren l.span.start p t.span.stop)⟩ := by
  obtain ⟨above, inner, ran, settled⟩ := body.settled
  have first : step ⟨stack, .operand⟩ l = some ⟨.paren l.span.start :: stack, .operand⟩ := by
    simp only [step, beginOperand, opens]
  have last : step ⟨above, .value inner⟩ t =
      some ⟨stack, .value (.paren l.span.start p t.span.stop)⟩ :=
    step_close closes settled (by simp only [settle, closeParen])
  rw [run_cons first, run_append ran, run_one last]

theorem cast (type : Reaches (.paren l.span.start :: stack) us p) (opens : l.token = .openParen)
    (closes : t.token = .closeParen) (body : Reaches (.cast l.span.start p :: stack) vs q)
    (reads : q.Reads vs) (tight : 8 ≤ q.level) :
    Reaches stack (l :: (us ++ t :: vs)) (.cast l.span.start p q) := by
  obtain ⟨above, inner, ran, -, settled⟩ := body
  obtain ⟨first, rest, rfl, begins⟩ := reads.head tight
  have turned : run ⟨stack, .value (.paren l.span.start p t.span.stop)⟩ (first :: rest) =
      .ok ⟨above, .value inner⟩ := by
    rw [← ran]
    simp only [run, step_cast stack l.span.start t.span.stop p begins]
  refine ⟨above, inner, ?_, fun tight => ?_, fun level le _ => ?_⟩
  · rw [List.append_cons, ← List.cons_append, run_append (type.closed opens closes), turned]
  · exact absurd tight (by simp [Phrase.level])
  · rw [settled level le (by omega)]
    simp only [settle]

theorem prefixed {op : PrefixOp} (sign : l.token = op.token)
    (operand : Reaches (.prefixed l.span.start op :: stack) us p) (tight : 7 ≤ p.level) :
    Reaches stack (l :: us) (.prefixed l.span.start op p) := by
  obtain ⟨above, inner, ran, -, settled⟩ := operand
  have first : step ⟨stack, .operand⟩ l = some ⟨.prefixed l.span.start op :: stack, .operand⟩ := by
    cases op <;> simp only [step, beginOperand, sign, PrefixOp.token]
  refine ⟨above, inner, ?_, fun tight => ?_, fun level le _ => ?_⟩
  · rw [run_cons first, ran]
  · exact absurd tight (by cases op <;> simp [Phrase.level])
  · rw [settled level le (by omega)]
    simp only [settle]

theorem binary {op : BinaryOp} (left : Reaches stack us p) (le : op.level ≤ p.level)
    (same : l.token = .op op) (right : Reaches (.binary op p :: stack) vs q)
    (lt : op.level < q.level) (admits : Admits op.level stack) :
    Reaches stack (us ++ l :: vs) (.binary op p q) := by
  have low := op.level_le
  obtain ⟨above, inner, leftRan, -, leftSettled⟩ := left
  obtain ⟨above', inner', rightRan, -, rightSettled⟩ := right
  have settled : settle op.level inner above = (p, stack) := by
    rw [leftSettled op.level (by omega) le, settle_of_admits p op.level_pos low admits]
  refine ⟨above', inner', ?_, fun tight => ?_, fun level le atMost => ?_⟩
  · rw [run_append leftRan, run_cons (step_op same settled), rightRan]
  · simp only [Phrase.level] at tight
    omega
  · simp only [Phrase.level] at atMost
    rw [rightSettled level le (by omega)]
    simp only [settle, if_pos atMost]

theorem conditional (test : Reaches stack us p) (tight : 1 ≤ p.level)
    (asks : l.token = .question) (yes : Reaches (.yesPart p :: stack) vs q)
    (colon : t.token = .colon) (no : Reaches (.noPart p q :: stack) ws r)
    (admits : Admits 1 stack) :
    Reaches stack (us ++ l :: (vs ++ t :: ws)) (.conditional p q r) := by
  obtain ⟨above, inner, testRan, -, testSettled⟩ := test
  obtain ⟨above', inner', yesRan, yesSettled⟩ := yes.settled
  obtain ⟨above'', inner'', noRan, noSettled⟩ := no.settled
  have first : step ⟨above, .value inner⟩ l = some ⟨.yesPart p :: stack, .operand⟩ := by
    simp only [step, continueValue, asks, testSettled 1 (by decide) tight,
      settle_of_admits p (Nat.le_refl 1) (by decide) admits]
  have second : step ⟨above', .value inner'⟩ t = some ⟨.noPart p q :: stack, .operand⟩ := by
    simp only [step, continueValue, colon, yesSettled, settle]
  refine ⟨above'', inner'', ?_, fun tight => ?_, fun level _ atMost => ?_⟩
  · rw [run_append testRan, run_cons first, run_append yesRan, run_cons second, noRan]
  · exact absurd tight (by simp [Phrase.level])
  · have zero : level = 0 := Nat.le_zero.mp atMost
    subst zero
    rw [noSettled]
    simp only [settle, ↓reduceIte]

end Reaches

/-! ## Every level of a phrase -/

mutual

/-- The lexemes of a phrase lead to it wherever it may begin. -/
theorem reaches (p : Phrase) {ts : List Lexeme} (stack : List Pending) (h : p.Reads ts)
    (admits : Admits p.level stack) : Reaches stack ts p := by
  match p with
  | .literal kind text range | .name id range | .self word range =>
    cases h
    exact .exact rfl
  | .member base id range =>
    obtain ⟨us, d, rfl, dot, tight, reads⟩ := h
    exact (reaches base stack reads (admits_of_le stack (by omega))).member tight dot
  | .selfOf base word range =>
    obtain ⟨us, d, rfl, dot, tight, reads⟩ := h
    exact (reaches base stack reads (admits_of_le stack (by omega))).selfOf tight dot
  | .call id start args stop =>
    obtain ⟨f, l, us, r, rfl, named, rfl, opens, argReads, closes, rfl⟩ := h
    exact run_args args (collects_call id f.span.start) (opens_call named opens) argReads closes
  | .invoke base id args stop =>
    obtain ⟨bs, d, f, l, us, r, rfl, dot, named, opens, argReads, closes, rfl, tight, reads⟩ := h
    have qualifier := reaches base stack reads (admits_of_le stack (by omega))
    have opened := qualifier.opens_invoke tight dot named opens
    simpa using run_args args (collects_invoke base id) opened argReads closes
  | .index base position stop =>
    obtain ⟨bs, l, us, r, rfl, opens, closes, rfl, tight, reads, positionReads⟩ := h
    have array := reaches base stack reads (admits_of_le stack (by omega))
    exact array.index tight opens (reaches position _ positionReads trivial) closes
  | .create start type args stop =>
    obtain ⟨ns, l, us, r, rfl, ⟨n, words, vs, rfl, create, wordsRead, rfl⟩, starts, opens,
      argReads, closes, rfl⟩ := h
    cases starts
    have opened : Opens stack (n :: (vs ++ [l])) _ := opens_create create wordsRead opens
    simpa using run_args args (collects_create n.span.start _) opened argReads closes
  | .paren start body stop =>
    obtain ⟨l, us, r, rfl, opens, rfl, closes, rfl, reads⟩ := h
    have inner := reaches body (.paren l.span.start :: stack) reads trivial
    exact .exact (inner.closed opens closes)
  | .cast start type body =>
    obtain ⟨l, us, r, bs, rfl, opens, rfl, closes, typeReads, tight, reads⟩ := h
    have inner := reaches type (.paren l.span.start :: stack) typeReads trivial
    exact inner.cast opens closes (reaches body _ reads tight) reads tight
  | .prefixed start op operand =>
    obtain ⟨o, us, rfl, same, rfl, tight, reads⟩ := h
    exact .prefixed same (reaches operand _ reads tight) tight
  | .binary op left right =>
    obtain ⟨ls, o, rs, rfl, same, le, leftReads, lt, rightReads⟩ := h
    have leftReached := reaches left stack leftReads (admits.mono le)
    exact leftReached.binary le same (reaches right _ rightReads lt) lt admits
  | .conditional test yes no =>
    obtain ⟨us, a, vs, c, ws, rfl, asks, colon, tight, testReads, yesReads, noReads⟩ := h
    have one : Admits 1 stack := admits.mono (Nat.zero_le 1)
    have testReached := reaches test stack testReads (one.mono tight)
    exact testReached.conditional tight asks (reaches yes _ yesReads trivial) colon
      (reaches no _ noReads trivial) one

/-- The lexemes of arguments and a closing parenthesis lead to the finished construct. -/
theorem run_args (args : List Phrase) {frame : List Phrase → Pending}
    {finish : List Phrase → Nat → Phrase} (collects : Collects frame finish)
    {fs us : List Lexeme} {r : Lexeme} {stack : List Pending} (opens : Opens stack fs (frame []))
    (h : ReadsArgs args us) (closes : r.token = .closeParen) :
    Reaches stack (fs ++ (us ++ [r])) (finish args r.span.stop) := by
  refine .exact ?_
  rw [run_append opens]
  match args with
  | [] =>
    cases h
    exact run_one (collects.none stack r closes)
  | p :: ps =>
    obtain ⟨us, vs, rfl, reads, further⟩ := h
    obtain ⟨above, q, ran, settled⟩ :=
      (reaches p _ reads (collects.admits p.level [] stack)).settled
    rw [List.append_assoc, run_append ran]
    exact run_further ps collects further closes (settled.trans (collects.settles p [] stack))

theorem run_further (ps : List Phrase) {frame : List Phrase → Pending}
    {finish : List Phrase → Nat → Phrase} (collects : Collects frame finish) {vs : List Lexeme}
    {r : Lexeme} {stack above : List Pending} {p q : Phrase} {done : List Phrase}
    (h : ReadsFurther ps vs) (closes : r.token = .closeParen)
    (ended : settle 0 q above = (p, frame done :: stack)) :
    run ⟨above, .value q⟩ (vs ++ [r]) =
      .ok ⟨stack, .value (finish (done.reverse ++ p :: ps) r.span.stop)⟩ := by
  match ps with
  | [] =>
    cases h
    have last := step_close closes ended (collects.close p done stack r.span.stop)
    simpa using run_one last
  | p' :: ps =>
    obtain ⟨c, us, vs, rfl, comma, reads, further⟩ := h
    have first : step ⟨above, .value q⟩ c = some ⟨frame (p :: done) :: stack, .operand⟩ := by
      simp only [step, continueValue, comma, ended, collects.next]
    obtain ⟨above', q', ran, settled⟩ :=
      (reaches p' _ reads (collects.admits p'.level (p :: done) stack)).settled
    have ended' := settled.trans (collects.settles p' (p :: done) stack)
    rw [List.cons_append, run_cons first, List.append_assoc, run_append ran]
    simpa using run_further ps collects further closes ended'

end

end

/-- The machine accepts the lexemes of every phrase and answers with it. -/
theorem parse_of_reads {ts : List Lexeme} {p : Phrase} (h : p.Reads ts) : parse ts = .ok p := by
  obtain ⟨above, q, ran, _, settled⟩ := reaches p [] h trivial
  have whole : settle 0 q above = (p, []) := by
    rw [settled 0 (Nat.zero_le _) (Nat.zero_le _)]
    simp only [settle]
  simp only [parse, State.start, ran, State.result?, whole]

/-- The stack machine decides the grammar. -/
theorem parse_eq_ok_iff {ts : List Lexeme} {p : Phrase} : parse ts = .ok p ↔ p.Reads ts :=
  ⟨parse_reads, parse_of_reads⟩

end Parser

end NullSafeEq
