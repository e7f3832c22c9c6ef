import NullSafeEq.Proofs.Grammar.Production

/-!
# Tokens and their texts

Every token but a stray one is found where its text stands, provided that what follows does not
go on with it, and what is found is spelled by the characters that it covers. What a mode can
find is a condition on the token alone.
-/
namespace NullSafeEq

/-- The text of a token. -/
def Token.text : Token → String
  | literal _ text => text
  | name id => id
  | self word => word.text
  | create => "new"
  | bang => "!"
  | op o => o.text
  | question => "?"
  | colon => ":"
  | comma => ","
  | dot => "."
  | openParen => "("
  | closeParen => ")"
  | openSquare => "["
  | closeSquare => "]"
  | stray c => String.singleton c

/-- A name or a keyword. -/
def Token.isWord : Token → Bool
  | literal .null _ | literal .boolean _ | name _ | self _ | create => true
  | _ => false

/-- A character with which no token starts. -/
def Token.isStray : Token → Bool
  | stray _ => true
  | _ => false

namespace Lexeme

/-- The token can be found in a mode. -/
def Mode.Takes (mode : Mode) : Token → Prop
  | .literal .number text => LiteralKind.number.Accepts text
  | .literal .string text => LiteralKind.string.Accepts text
  | .literal .char text => LiteralKind.char.Accepts text
  | .stray _ => False
  | .op .ne => mode ≠ .operand
  | t => t.isWord = true → IsIdentifier t.text ∧ mode.word t.text = t

/-- No token that a text ends with goes on with these characters: after a word. -/
def WordEnds (rest : List Char) : Prop := ∀ c ∈ rest.head?, isNameChar c = false

/-- A token does not go on with the characters behind it. -/
def EndsBefore (rest : List Char) : Token → Prop
  | .literal .number _ =>
    WordEnds rest ∧ (∀ c ∈ rest.head?, Text.isDecimalDigit c = false) ∧ fractionLength rest = 0
  | .bang | .op .lt | .op .gt => rest.head? ≠ some '='
  | t => t.isWord = true → WordEnds rest

/-! ## Characters -/

/-- Below the second script's digits only the ASCII digits count. -/
theorem not_digit_of_code {c : Char} (out : c.toNat < 0x30 ∨ 0x39 < c.toNat)
    (high : c.toNat < 0x660) : Text.isDecimalDigit c = false := by
  simp only [Text.isDecimalDigit, Text.digitValue?, Text.digitBounds]
  rw [Text.digitIn]
  split
  · rfl
  · rw [if_neg (by omega), Text.digitIn, if_pos high]
    rfl

theorem isNameStart_iff {c : Char} : isNameStart c = true ↔
    (65 ≤ c.toNat ∧ c.toNat ≤ 90) ∨ (97 ≤ c.toNat ∧ c.toNat ≤ 122) ∨ c = '_' ∨ c = '$' := by
  simp only [isNameStart, Bool.or_eq_true, Bool.and_eq_true, decide_eq_true_eq, Char.le_def,
    UInt32.le_iff_toNat_le, or_assoc]
  rfl

theorem not_digit_of_nameStart {c : Char} (h : isNameStart c = true) :
    Text.isDecimalDigit c = false := by
  rcases isNameStart_iff.mp h with upper | lower | rfl | rfl
  · exact not_digit_of_code (by omega) (by omega)
  · exact not_digit_of_code (by omega) (by omega)
  · exact not_digit_of_code (by decide) (by decide)
  · exact not_digit_of_code (by decide) (by decide)

theorem isNameChar_of_start {c : Char} (h : isNameStart c = true) : isNameChar c = true := by
  simp [isNameChar, h]

theorem not_nameStart_of_digit {c : Char} (h : Text.isDecimalDigit c = true) :
    isNameStart c = false := by
  by_contra start
  have := not_digit_of_nameStart (by simpa using start)
  simp [this] at h

theorem isSpace_iff {c : Char} :
    isSpace c = true ↔ c = ' ' ∨ c = '\t' ∨ c = '\n' ∨ c = '\r' ∨ c = '\x0c' := by
  simp [isSpace, or_assoc]

/-- Where white space stands no token goes on. -/
theorem space_ends {c : Char} (h : isSpace c = true) :
    isNameChar c = false ∧ Text.isDecimalDigit c = false ∧ c ≠ '=' ∧ c ≠ '.' := by
  rcases isSpace_iff.mp h with rfl | rfl | rfl | rfl | rfl <;>
    exact ⟨by decide, not_digit_of_code (by decide) (by decide), by decide, by decide⟩

theorem not_space_of_nameStart {c : Char} (h : isNameStart c = true) : isSpace c = false := by
  by_contra space
  have := (space_ends (by simpa using space)).1
  simp [isNameChar_of_start h] at this

theorem not_space_of_digit {c : Char} (h : Text.isDecimalDigit c = true) :
    isSpace c = false := by
  by_contra space
  have := (space_ends (by simpa using space)).2.1
  simp [h] at this

/-! ## Words -/

theorem takeWhile_append_ends {p : Char → Bool} {body rest : List Char}
    (inside : ∀ c ∈ body, p c = true) (ends : ∀ c ∈ rest.head?, p c = false) :
    (body ++ rest).takeWhile p = body := by
  rw [List.takeWhile_append_of_pos inside]
  cases rest with
  | nil => simp
  | cons c cs => simp [ends c rfl]

theorem keywordOrName_cases (word : String) :
    (word = "null" ∧ keywordOrName word = .literal .null word) ∨
    ((word = "true" ∨ word = "false") ∧ keywordOrName word = .literal .boolean word) ∨
    (word = "this" ∧ keywordOrName word = .self .this) ∨
    (word = "super" ∧ keywordOrName word = .self .super) ∨
    (word = "new" ∧ keywordOrName word = .create) ∨
    (word ∉ keywords ∧ keywordOrName word = .name word) := by
  by_cases listed : word ∈ keywords
  · simp only [keywords, List.mem_cons, List.not_mem_nil, or_false] at listed
    rcases listed with rfl | rfl | rfl | rfl | rfl | rfl <;> decide
  · have others := listed
    simp only [keywords, List.mem_cons, List.not_mem_nil, or_false, not_or] at others
    obtain ⟨null, yes, no, this, super, new⟩ := others
    simp [listed, keywordOrName, null, yes, no, this, super, new]

theorem selfOrName_cases (word : String) :
    (word = "this" ∧ selfOrName word = .self .this) ∨
    (word = "super" ∧ selfOrName word = .self .super) ∨
    ((word ≠ "this" ∧ word ≠ "super") ∧ selfOrName word = .name word) := by
  unfold selfOrName
  split
  next this => exact .inl ⟨this, rfl⟩
  next this =>
    split
    next super => exact .inr (.inl ⟨super, rfl⟩)
    next super => exact .inr (.inr ⟨⟨this, super⟩, rfl⟩)

theorem keywordOrName_spec (word : String) :
    (keywordOrName word).text = word ∧ (keywordOrName word).isWord = true := by
  rcases keywordOrName_cases word with
    ⟨-, same⟩ | ⟨-, same⟩ | ⟨rfl, -⟩ | ⟨rfl, -⟩ | ⟨rfl, -⟩ | ⟨-, same⟩
  · rw [same]
    exact ⟨rfl, rfl⟩
  · rw [same]
    exact ⟨rfl, rfl⟩
  · decide
  · decide
  · decide
  · rw [same]
    exact ⟨rfl, rfl⟩

theorem selfOrName_spec (word : String) :
    (selfOrName word).text = word ∧ (selfOrName word).isWord = true := by
  rcases selfOrName_cases word with ⟨rfl, -⟩ | ⟨rfl, -⟩ | ⟨-, same⟩
  · decide
  · decide
  · rw [same]
    exact ⟨rfl, rfl⟩

theorem Mode.word_spec (mode : Mode) (word : String) :
    (mode.word word).text = word ∧ (mode.word word).isWord = true := by
  cases mode with
  | typeName => exact ⟨rfl, rfl⟩
  | member => exact selfOrName_spec word
  | operand | operator | typeTail => exact keywordOrName_spec word

theorem Mode.takes_word {mode : Mode} {t : Token} (word : t.isWord = true) :
    mode.Takes t ↔ IsIdentifier t.text ∧ mode.word t.text = t := by
  cases t with
  | literal kind text =>
    cases kind with
    | null | boolean => exact ⟨fun h => h rfl, fun h _ => h⟩
    | number | string | char => cases word
  | name | self | create => exact ⟨fun h => h rfl, fun h _ => h⟩
  | _ => cases word

theorem endsBefore_word {t : Token} {rest : List Char} (word : t.isWord = true) :
    EndsBefore rest t ↔ WordEnds rest := by
  cases t with
  | literal kind text =>
    cases kind with
    | null | boolean => exact ⟨fun h => h rfl, fun h _ => h⟩
    | number | string | char => cases word
  | name | self | create => exact ⟨fun h => h rfl, fun h _ => h⟩
  | _ => cases word

theorem first_word {mode : Mode} {c : Char} (cs : List Char) (start : isNameStart c = true) :
    first mode c cs = (mode.word (String.ofList (c :: cs.takeWhile isNameChar)),
      (cs.takeWhile isNameChar).length + 1) := by
  simp [first, start]

/-! ## Numbers -/

theorem suffix_letter {c : Char} (h : c ∈ "lLfFdD".toList) :
    isNameChar c = true ∧ Text.isDecimalDigit c = false ∧ c ≠ '.' := by
  have cases : c = 'l' ∨ c = 'L' ∨ c = 'f' ∨ c = 'F' ∨ c = 'd' ∨ c = 'D' := by simpa using h
  rcases cases with rfl | rfl | rfl | rfl | rfl | rfl <;>
    exact ⟨by decide, not_digit_of_code (by decide) (by decide), by decide⟩

theorem digitCount_append {digits rest : List Char}
    (inside : ∀ c ∈ digits, Text.isDecimalDigit c = true)
    (ends : ∀ c ∈ rest.head?, Text.isDecimalDigit c = false) :
    digitCount (digits ++ rest) = digits.length := by
  rw [digitCount, takeWhile_append_ends inside ends]

theorem numberLength_of_isNumber {cs rest : List Char} (h : IsNumber cs) (word : WordEnds rest)
    (digit : ∀ c ∈ rest.head?, Text.isDecimalDigit c = false) (point : fractionLength rest = 0) :
    numberLength (cs ++ rest) = cs.length := by
  obtain ⟨whole, fraction, suffix, rfl, _, wholeDigits, fractional, suffixed⟩ := h
  have afterDigits : ∀ c ∈ (suffix ++ rest).head?, Text.isDecimalDigit c = false := by
    rcases suffixed with rfl | ⟨l, letter, rfl⟩
    · exact digit
    · simpa using (suffix_letter letter).2.1
  have afterWhole : ∀ c ∈ (fraction ++ (suffix ++ rest)).head?, Text.isDecimalDigit c = false := by
    rcases fractional with rfl | ⟨digits, rfl, _, _⟩
    · exact afterDigits
    · have noDigit : Text.isDecimalDigit '.' = false :=
        not_digit_of_code (by decide) (by decide)
      simpa using noDigit
  have fractionSize : fractionLength (fraction ++ (suffix ++ rest)) = fraction.length := by
    rcases fractional with rfl | ⟨digits, rfl, some, all⟩
    · rcases suffixed with rfl | ⟨l, letter, rfl⟩
      · exact point
      · have noPoint := (suffix_letter letter).2.2
        simp only [List.nil_append, List.cons_append, List.length_nil]
        unfold fractionLength
        split
        next same => exact (noPoint (List.cons.inj same).1).elim
        next => rfl
    · have count := digitCount_append all afterDigits
      have pos : digits.length ≠ 0 := by simpa using some
      simp only [List.cons_append, fractionLength, count, if_neg pos, List.length_cons]
  have suffixSize : suffixLength (suffix ++ rest) = suffix.length := by
    rcases suffixed with rfl | ⟨l, letter, rfl⟩
    · cases rest with
      | nil => rfl
      | cons c cs =>
        have noName := word c rfl
        have none : "lLfFdD".toList.contains c = false := by
          rw [← Bool.not_eq_true, List.contains_iff_mem]
          intro letter
          simp [(suffix_letter letter).1] at noName
        simp only [List.nil_append, suffixLength, none, List.length_nil]
        rfl
    · simp only [List.cons_append, suffixLength, List.contains_iff_mem.mpr letter, if_true]
      rfl
  have count := digitCount_append wholeDigits afterWhole
  simp only [numberLength, List.append_assoc, count, List.drop_left]
  rw [fractionSize, ← List.drop_drop, List.drop_left, List.drop_left, suffixSize]
  simp [Nat.add_assoc]

theorem digitCount_le (cs : List Char) : digitCount cs ≤ cs.length :=
  (List.takeWhile_sublist _).length_le

theorem take_digitCount (cs : List Char) :
    ∀ c ∈ cs.take (digitCount cs), Text.isDecimalDigit c = true := by
  rw [digitCount, ← List.prefix_iff_eq_take.mp (List.takeWhile_prefix _)]
  exact fun c member => List.mem_takeWhile_imp member

theorem fraction_of_length (cs : List Char) : fractionLength cs ≤ cs.length ∧
    (cs.take (fractionLength cs) = [] ∨ ∃ digits, cs.take (fractionLength cs) = '.' :: digits ∧
      digits ≠ [] ∧ ∀ c ∈ digits, Text.isDecimalDigit c = true) := by
  unfold fractionLength
  split
  next cs =>
    have le := digitCount_le cs
    split
    next => simp
    next pos =>
      refine ⟨by simp only [List.length_cons]; omega, .inr ⟨cs.take (digitCount cs), ?_, ?_, ?_⟩⟩
      · simp
      · intro none
        have size := congrArg List.length none
        simp only [List.length_take, List.length_nil] at size
        omega
      · exact take_digitCount cs
  next => simp

theorem suffix_of_length (cs : List Char) : suffixLength cs ≤ cs.length ∧
    (cs.take (suffixLength cs) = [] ∨ ∃ c ∈ "lLfFdD".toList, cs.take (suffixLength cs) = [c]) := by
  unfold suffixLength
  split
  next c cs =>
    split
    next letter => exact ⟨by simp, .inr ⟨c, List.contains_iff_mem.mp letter, by simp⟩⟩
    next => simp
  next => simp

/-- What is found as a number is one. -/
theorem isNumber_take {c : Char} (cs : List Char) (digit : Text.isDecimalDigit c = true) :
    IsNumber ((c :: cs).take (numberLength (c :: cs))) ∧
      0 < numberLength (c :: cs) ∧ numberLength (c :: cs) ≤ cs.length + 1 := by
  have pos : 0 < digitCount (c :: cs) := by simp [digitCount, digit]
  have wholeLe := digitCount_le (c :: cs)
  have digits := take_digitCount (c :: cs)
  simp only [List.length_cons] at wholeLe
  simp only [numberLength]
  generalize digitCount (c :: cs) = whole at pos wholeLe digits
  obtain ⟨fractionLe, fractional⟩ := fraction_of_length ((c :: cs).drop whole)
  generalize fractionLength ((c :: cs).drop whole) = fraction at fractionLe fractional
  obtain ⟨suffixLe, suffixed⟩ := suffix_of_length ((c :: cs).drop (whole + fraction))
  generalize suffixLength ((c :: cs).drop (whole + fraction)) = suffix at suffixLe suffixed
  simp only [List.length_drop, List.length_cons] at fractionLe suffixLe
  refine ⟨⟨_, _, _, ?_, ?_, digits, fractional, suffixed⟩, by omega, by omega⟩
  · rw [List.take_add, List.take_add]
  · intro none
    have size := congrArg List.length none
    simp only [List.length_take, List.length_cons, List.length_nil] at size
    omega

theorem first_number (mode : Mode) {c : Char} (cs : List Char)
    (digit : Text.isDecimalDigit c = true) : first mode c cs =
      (.literal .number (String.ofList ((c :: cs).take (numberLength (c :: cs)))),
        numberLength (c :: cs)) := by
  simp [first, not_nameStart_of_digit digit, digit]

/-! ## Quoted texts -/

theorem quotedLength_of_body {mark : Char} {body : List Char} (rest : List Char)
    (noEscape : mark ≠ '\\') (h : QuotedBody mark body) :
    quotedLength? mark (body ++ mark :: rest) = some (body.length + 1) := by
  induction h with
  | nil =>
    rw [List.nil_append, quotedLength?]
    · simp
    · rintro c cs same -
      exact noEscape same
  | @plain c cs differs plain _ ih =>
    rw [List.cons_append, quotedLength?]
    · simp [differs, plain, ih]
    · rintro c cs same -
      exact plain same
  | escaped sameLine _ ih => simp [quotedLength?, sameLine, ih]

theorem body_of_quotedLength {mark : Char} {cs : List Char} {n : Nat}
    (h : quotedLength? mark cs = some n) : n ≤ cs.length ∧
      ∃ body, cs.take n = body ++ [mark] ∧ QuotedBody mark body ∧ n = body.length + 1 := by
  fun_induction quotedLength? mark cs generalizing n with
  | case1 => cases h
  | case2 => cases h
  | case3 c cs sameLine ih =>
    obtain ⟨k, found, rfl⟩ := Option.map_eq_some_iff.mp h
    obtain ⟨le, body, taken, quoted, size⟩ := ih found
    refine ⟨by simp only [List.length_cons]; omega, '\\' :: c :: body, ?_, .escaped sameLine quoted,
      by simp only [List.length_cons]; omega⟩
    simp [taken]
  | case4 cs _ =>
    cases h
    exact ⟨by simp, [], by simp, .nil, rfl⟩
  | case5 => cases h
  | case6 c cs _ differs plain ih =>
    obtain ⟨k, found, rfl⟩ := Option.map_eq_some_iff.mp h
    obtain ⟨le, body, taken, quoted, size⟩ := ih found
    refine ⟨by simp only [List.length_cons]; omega, c :: body, ?_, .plain differs plain quoted,
      by simp only [List.length_cons]; omega⟩
    simp [taken]

theorem first_string (mode : Mode) (cs : List Char) : first mode '"' cs =
    match quotedLength? '"' cs with
    | some length => (.literal .string (String.ofList ('"' :: cs.take length)), length + 1)
    | none => (.stray '"', 1) := by
  have noStart : isNameStart '"' = false := by decide
  have noDigit : Text.isDecimalDigit '"' = false := not_digit_of_code (by decide) (by decide)
  rw [first, noStart, noDigit, if_neg Bool.false_ne_true, if_neg Bool.false_ne_true]
  exact if_pos rfl

theorem first_char (mode : Mode) (cs : List Char) : first mode '\'' cs =
    match quotedLength? '\'' cs with
    | some length =>
      if length = 1 then (.stray '\'', 1)
      else (.literal .char (String.ofList ('\'' :: cs.take length)), length + 1)
    | none => (.stray '\'', 1) := by
  have noStart : isNameStart '\'' = false := by decide
  have noDigit : Text.isDecimalDigit '\'' = false := not_digit_of_code (by decide) (by decide)
  rw [first, noStart, noDigit, if_neg Bool.false_ne_true, if_neg Bool.false_ne_true,
    if_neg (by decide)]
  exact if_pos rfl

/-! ## Symbols -/

theorem symbol_spec {mode : Mode} {cs : List Char} {t : Token} {n : Nat}
    (h : symbol mode cs = (t, n)) (known : t.isStray = false) :
    mode.Takes t ∧ t.text.toList = cs.take n ∧ 0 < n ∧ n ≤ cs.length := by
  unfold symbol at h
  split at h
  next =>
    cases h
    exact ⟨nofun, rfl, by simp, by simp⟩
  next =>
    cases h
    exact ⟨nofun, rfl, by simp, by simp⟩
  next =>
    cases h
    exact ⟨nofun, rfl, by simp, by simp⟩
  next =>
    split at h
    next =>
      cases h
      exact ⟨nofun, rfl, by simp, by simp⟩
    next notOperand =>
      cases h
      exact ⟨notOperand, rfl, by simp, by simp⟩
  case h_24 | h_23 =>
    cases h
    cases known
  all_goals
    cases h
    exact ⟨nofun, rfl, by simp, by simp⟩

/-- What an equality sign would continue stands alone before anything else. -/
theorem symbol_alone {mode : Mode} {rest : List Char} (t : Token × Char)
    (listed : t = (.bang, '!') ∨ t = (.op .lt, '<') ∨ t = (.op .gt, '>'))
    (ends : rest.head? ≠ some '=') : symbol mode (t.2 :: rest) = (t.1, 1) := by
  cases rest with
  | nil => rcases listed with rfl | rfl | rfl <;> rfl
  | cons c cs =>
    have differs : c ≠ '=' := fun same => ends (congrArg some same)
    rcases listed with rfl | rfl | rfl
    all_goals
      simp only
      rw [symbol]
      intro _ same
      exact differs (List.cons.inj same).1

/-- A character that starts neither a word nor a number nor a quoted text. -/
def IsSymbolic (c : Char) : Prop :=
  isNameStart c = false ∧ (c.toNat < 0x30 ∨ 0x39 < c.toNat) ∧ c.toNat < 0x660 ∧ c ≠ '"' ∧ c ≠ '\''

instance (c : Char) : Decidable (IsSymbolic c) := by
  unfold IsSymbolic
  infer_instance

theorem first_symbolic {c : Char} (mode : Mode) (cs : List Char) (h : IsSymbolic c) :
    first mode c cs = symbol mode (c :: cs) := by
  obtain ⟨noStart, out, high, noQuote, noMark⟩ := h
  simp [first, noStart, not_digit_of_code out high, noQuote, noMark]

/-! ## Any token -/

/-- What is found is spelled by the characters that it covers. -/
theorem first_spec {mode : Mode} {c : Char} {cs : List Char} {t : Token} {n : Nat}
    (h : first mode c cs = (t, n)) (known : t.isStray = false) :
    mode.Takes t ∧ t.text.toList = (c :: cs).take n ∧ 0 < n ∧ n ≤ cs.length + 1 := by
  by_cases start : isNameStart c = true
  · rw [first_word cs start] at h
    cases h
    have spelled := (mode.word_spec (String.ofList (c :: cs.takeWhile isNameChar))).1
    refine ⟨?_, ?_, Nat.succ_pos _, Nat.succ_le_succ (List.takeWhile_sublist _).length_le⟩
    · rw [Mode.takes_word (mode.word_spec _).2, spelled]
      refine ⟨⟨c, _, String.toList_ofList, start, ?_⟩, rfl⟩
      exact List.all_eq_true.mpr fun x member => List.mem_takeWhile_imp member
    · rw [spelled, String.toList_ofList, List.take_succ_cons,
        ← List.prefix_iff_eq_take.mp (List.takeWhile_prefix _)]
  rw [Bool.not_eq_true] at start
  by_cases digit : Text.isDecimalDigit c = true
  · rw [first_number mode cs digit] at h
    cases h
    obtain ⟨number, pos, le⟩ := isNumber_take cs digit
    refine ⟨?_, String.toList_ofList, pos, le⟩
    rw [← String.toList_ofList (l := List.take _ (c :: cs))] at number
    exact number
  rw [Bool.not_eq_true] at digit
  by_cases double : c = '"'
  · subst double
    rw [first_string] at h
    split at h
    next k found =>
      cases h
      obtain ⟨le, body, taken, quoted, _⟩ := body_of_quotedLength found
      refine ⟨⟨body, ?_, quoted⟩, by simp [Token.text], Nat.succ_pos _, Nat.succ_le_succ le⟩
      rw [String.toList_ofList, taken]
    next =>
      cases h
      cases known
  by_cases single : c = '\''
  · subst single
    rw [first_char] at h
    split at h
    next k found =>
      split at h
      next =>
        cases h
        cases known
      next some =>
        cases h
        obtain ⟨le, body, taken, quoted, size⟩ := body_of_quotedLength found
        refine ⟨⟨body, ?_, quoted, ?_⟩, by simp [Token.text], Nat.succ_pos _, Nat.succ_le_succ le⟩
        · rw [String.toList_ofList, taken]
        · rintro rfl
          exact some size
    next =>
      cases h
      cases known
  · rw [first, start, digit, if_neg Bool.false_ne_true, if_neg Bool.false_ne_true,
      if_neg double, if_neg single] at h
    exact symbol_spec h known

/-- The token is found where its text stands in front of the rest. -/
def IsFirst (mode : Mode) (t : Token) (rest : List Char) : Prop :=
  ∃ c cs, t.text.toList = c :: cs ∧ isSpace c = false ∧
    first mode c (cs ++ rest) = (t, cs.length + 1)

section
variable {mode : Mode} {rest : List Char}

theorem isFirst_word {t : Token} (word : t.isWord = true) (takes : mode.Takes t)
    (ends : EndsBefore rest t) : IsFirst mode t rest := by
  obtain ⟨⟨c, cs, spelled, start, chars⟩, same⟩ := (Mode.takes_word word).mp takes
  refine ⟨c, cs, spelled, not_space_of_nameStart start, ?_⟩
  rw [first_word _ start, takeWhile_append_ends (List.all_eq_true.mp chars)
    ((endsBefore_word word).mp ends), ← spelled, String.ofList_toList, same]

theorem isFirst_number {text : String} (takes : IsNumber text.toList)
    (ends : EndsBefore rest (.literal .number text)) :
    IsFirst mode (.literal .number text) rest := by
  obtain ⟨wordEnds, digitEnds, pointEnds⟩ := ends
  have size := numberLength_of_isNumber takes wordEnds digitEnds pointEnds
  obtain ⟨whole, fraction, suffix, same, some, digits, _⟩ := takes
  obtain ⟨c, cs, rfl⟩ := List.exists_cons_of_ne_nil some
  have digit := digits c List.mem_cons_self
  have spelled : text.toList = c :: (cs ++ fraction ++ suffix) := by simpa using same
  refine ⟨c, cs ++ fraction ++ suffix, spelled, not_space_of_digit digit, ?_⟩
  rw [spelled] at size
  rw [first_number _ _ digit, ← List.cons_append, size, List.take_left, ← spelled,
    String.ofList_toList, spelled]
  rfl

theorem take_body (body rest : List Char) (mark : Char) :
    (body ++ mark :: rest).take (body.length + 1) = body ++ [mark] := by
  rw [List.take_length_add_append]
  rfl

theorem isFirst_string {text : String} (takes : LiteralKind.string.Accepts text) :
    IsFirst mode (.literal .string text) rest := by
  obtain ⟨body, spelled, quoted⟩ := takes
  refine ⟨'"', body ++ ['"'], spelled, by decide, ?_⟩
  have found := quotedLength_of_body rest (by decide) quoted
  rw [first_string, List.append_assoc, List.cons_append, List.nil_append, found]
  simp only [take_body]
  rw [← spelled, String.ofList_toList, List.length_append]
  rfl

theorem isFirst_char {text : String} (takes : LiteralKind.char.Accepts text) :
    IsFirst mode (.literal .char text) rest := by
  obtain ⟨body, spelled, quoted, some⟩ := takes
  refine ⟨'\'', body ++ ['\''], spelled, by decide, ?_⟩
  have found := quotedLength_of_body rest (by decide) quoted
  have more : ¬ body.length + 1 = 1 := by simpa using some
  rw [first_char, List.append_assoc, List.cons_append, List.nil_append, found]
  simp only [take_body, if_neg more]
  rw [← spelled, String.ofList_toList, List.length_append]
  rfl

theorem isFirst_symbol {t : Token} (c : Char) (cs : List Char) (spelled : t.text.toList = c :: cs)
    (noSpace : isSpace c = false) (symbolic : IsSymbolic c)
    (same : symbol mode (c :: (cs ++ rest)) = (t, cs.length + 1)) : IsFirst mode t rest := by
  refine ⟨c, cs, spelled, noSpace, ?_⟩
  rw [first_symbolic mode _ symbolic, same]

/-- A token that a mode takes is found where its text stands, when the rest does not go on with
it. -/
theorem first_of_takes {t : Token} (takes : mode.Takes t) (ends : EndsBefore rest t) :
    IsFirst mode t rest := by
  by_cases word : t.isWord = true
  · exact isFirst_word word takes ends
  match t with
  | .literal .null _ | .literal .boolean _ | .name _ | .self _ | .create => exact (word rfl).elim
  | .literal .number text => exact isFirst_number takes ends
  | .literal .string text => exact isFirst_string takes
  | .literal .char text => exact isFirst_char takes
  | .stray c => exact takes.elim
  | .bang =>
    exact isFirst_symbol '!' [] rfl (by decide) (by decide)
      (symbol_alone (.bang, '!') (.inl rfl) ends)
  | .op .lt =>
    exact isFirst_symbol '<' [] rfl (by decide) (by decide)
      (symbol_alone (.op .lt, '<') (.inr (.inl rfl)) ends)
  | .op .gt =>
    exact isFirst_symbol '>' [] rfl (by decide) (by decide)
      (symbol_alone (.op .gt, '>') (.inr (.inr rfl)) ends)
  | .op .ne => exact isFirst_symbol '!' ['='] rfl (by decide) (by decide) (if_neg takes)
  | .op .or => exact isFirst_symbol '|' ['|'] rfl (by decide) (by decide) rfl
  | .op .and => exact isFirst_symbol '&' ['&'] rfl (by decide) (by decide) rfl
  | .op .eq => exact isFirst_symbol '=' ['='] rfl (by decide) (by decide) rfl
  | .op .le => exact isFirst_symbol '<' ['='] rfl (by decide) (by decide) rfl
  | .op .ge => exact isFirst_symbol '>' ['='] rfl (by decide) (by decide) rfl
  | .op .add => exact isFirst_symbol '+' [] rfl (by decide) (by decide) rfl
  | .op .sub => exact isFirst_symbol '-' [] rfl (by decide) (by decide) rfl
  | .op .mul => exact isFirst_symbol '*' [] rfl (by decide) (by decide) rfl
  | .op .div => exact isFirst_symbol '/' [] rfl (by decide) (by decide) rfl
  | .op .rem => exact isFirst_symbol '%' [] rfl (by decide) (by decide) rfl
  | .question => exact isFirst_symbol '?' [] rfl (by decide) (by decide) rfl
  | .colon => exact isFirst_symbol ':' [] rfl (by decide) (by decide) rfl
  | .comma => exact isFirst_symbol ',' [] rfl (by decide) (by decide) rfl
  | .dot => exact isFirst_symbol '.' [] rfl (by decide) (by decide) rfl
  | .openParen => exact isFirst_symbol '(' [] rfl (by decide) (by decide) rfl
  | .closeParen => exact isFirst_symbol ')' [] rfl (by decide) (by decide) rfl
  | .openSquare => exact isFirst_symbol '[' [] rfl (by decide) (by decide) rfl
  | .closeSquare => exact isFirst_symbol ']' [] rfl (by decide) (by decide) rfl

end

end Lexeme

end NullSafeEq
