import NullSafeEq.Value.Json

/-!
# Strings and numerals in JSON

What is written for a text or a whole number is read as that text or number, whatever follows.
-/
namespace NullSafeEq.Json
variable {ascii : Bool} {opening n : Nat} {soFar : List Text.CodePoint} {rest : List Char}

/-! ## Escapes -/

theorem hexValue_hexDigit : ∀ n < 16, hexValue? (Text.hexDigit n) = some n := by decide

theorem hexDigits_four (n : Nat) : Text.hexDigits 4 n =
    [Text.hexDigit (n / 4096 % 16), Text.hexDigit (n / 256 % 16), Text.hexDigit (n / 16 % 16),
      Text.hexDigit (n % 16)] := by
  simp [Text.hexDigits, Nat.div_div_eq_div_mul]

theorem hex4_hexDigits (unit : n < 0x10000) :
    hex4? (Text.hexDigit (n / 4096 % 16)) (Text.hexDigit (n / 256 % 16))
      (Text.hexDigit (n / 16 % 16)) (Text.hexDigit (n % 16)) = some n := by
  have digit (m : Nat) : hexValue? (Text.hexDigit (m % 16)) = some (m % 16) :=
    hexValue_hexDigit _ (Nat.mod_lt _ (by decide))
  simp only [hex4?, digit, Option.some.injEq]
  omega

theorem isHighSurrogate_iff : isHighSurrogate n = true ↔ 0xd800 ≤ n ∧ n ≤ 0xdbff := by
  rw [isHighSurrogate, Bool.and_eq_true, decide_eq_true_eq, decide_eq_true_eq]

theorem isLowSurrogate_iff : isLowSurrogate n = true ↔ 0xdc00 ≤ n ∧ n ≤ 0xdfff := by
  rw [isLowSurrogate, Bool.and_eq_true, decide_eq_true_eq, decide_eq_true_eq]

/-- A unit of sixteen bits that starts no pair is read by itself. -/
theorem codeEscape_alone (unit : n < 0x10000) (single : isHighSurrogate n = false)
    (more : rest ≠ []) : codeEscape (Text.hexDigits 4 n ++ rest) = .ok (codePoint n, 4) := by
  obtain ⟨e, rest, rfl⟩ := List.exists_cons_of_ne_nil more
  simp only [hexDigits_four, List.cons_append, List.nil_append, codeEscape, hex4_hexDigits unit,
    single, Bool.false_eq_true, if_false]
  split <;> rfl

/-- A pair of units is read as one character. -/
theorem codeEscape_pair {low : Nat} (units : n < 0x10000 ∧ low < 0x10000)
    (first : isHighSurrogate n = true) (second : isLowSurrogate low = true) (more : rest ≠ []) :
    codeEscape (Text.hexDigits 4 n ++ (unitEscape low ++ rest)) =
      .ok (.char (Char.ofNat (0x10000 + (n - 0xd800) * 0x400 + (low - 0xdc00))), 10) := by
  obtain ⟨f, rest, rfl⟩ := List.exists_cons_of_ne_nil more
  simp only [hexDigits_four, unitEscape, List.cons_append, List.nil_append, codeEscape,
    hex4_hexDigits units.1, hex4_hexDigits units.2, first, second, if_true]

/-! ## Strings -/

theorem stringRest_skip (cs : List Char) :
    stringRest opening soFar cs.length (cs ++ rest) = stringRest opening soFar 0 rest := by
  induction cs with
  | nil => rfl
  | cons c cs ih => exact ih

/-- An escape that is read takes its characters with it. -/
theorem stringRest_escape {escape : List Char} {p : Text.CodePoint}
    (read : escaped opening (escape ++ rest) = .ok (p, escape.length)) :
    stringRest opening soFar 0 ('\\' :: (escape ++ rest)) =
      stringRest opening (p :: soFar) 0 rest := by
  refine Eq.trans ?_ (stringRest_skip escape)
  simp only [stringRest, read, Char.reduceEq, if_false, if_true]

theorem stringRest_unit {c : Char} (unit : c.toNat < 0x10000) (more : rest ≠ []) :
    stringRest opening soFar 0 (unitEscape c.toNat ++ rest) =
      stringRest opening (.char c :: soFar) 0 rest := by
  have valid : c.toNat < 0xd800 ∨ 0xdfff < c.toNat ∧ c.toNat < 0x110000 := c.valid
  have high : isHighSurrogate c.toNat = false := by
    rw [← Bool.not_eq_true, isHighSurrogate_iff]
    omega
  have low : isLowSurrogate c.toNat = false := by
    rw [← Bool.not_eq_true, isLowSurrogate_iff]
    omega
  have read : escaped opening ('u' :: Text.hexDigits 4 c.toNat ++ rest) =
      .ok (.char c, ('u' :: Text.hexDigits 4 c.toNat).length) := by
    rw [List.cons_append, escaped, codeEscape_alone unit high more, codePoint, high, low]
    simp [Except.map, hexDigits_four]
  exact stringRest_escape read

theorem stringRest_pair {c : Char} (beyond : 0x10000 ≤ c.toNat) (more : rest ≠ []) :
    stringRest opening soFar 0 (unitEscape (0xd800 + (c.toNat - 0x10000) / 0x400) ++
      unitEscape (0xdc00 + (c.toNat - 0x10000) % 0x400) ++ rest) =
      stringRest opening (.char c :: soFar) 0 rest := by
  have valid : c.toNat < 0xd800 ∨ 0xdfff < c.toNat ∧ c.toNat < 0x110000 := c.valid
  generalize first : 0xd800 + (c.toNat - 0x10000) / 0x400 = high
  generalize second : 0xdc00 + (c.toNat - 0x10000) % 0x400 = low
  have isHigh : isHighSurrogate high = true := isHighSurrogate_iff.mpr (by omega)
  have isLow : isLowSurrogate low = true := isLowSurrogate_iff.mpr (by omega)
  have whole : 0x10000 + (high - 0xd800) * 0x400 + (low - 0xdc00) = c.toNat := by omega
  have read : escaped opening ('u' :: Text.hexDigits 4 high ++ unitEscape low ++ rest) =
      .ok (.char c, ('u' :: Text.hexDigits 4 high ++ unitEscape low).length) := by
    rw [List.append_assoc, List.cons_append, escaped,
      codeEscape_pair (by omega) isHigh isLow more, whole, Char.ofNat_toNat]
    simp [Except.map, unitEscape, hexDigits_four]
  exact stringRest_escape read

/-- A character is read from what is written for it. -/
theorem stringRest_escapeChar (c : Char) (more : rest ≠ []) :
    stringRest opening soFar 0 (escapeChar ascii c ++ rest) =
      stringRest opening (.char c :: soFar) 0 rest := by
  have letter {e : Char} (read : escaped opening (e :: rest) = .ok (.char c, 1)) :
      stringRest opening soFar 0 (['\\', e] ++ rest) =
        stringRest opening (.char c :: soFar) 0 rest :=
    @stringRest_escape opening soFar rest [e] (.char c) read
  by_cases named : c ∈ ['"', '\\', '\n', '\r', '\t', '\x08', '\x0c']
  · simp only [List.mem_cons, List.not_mem_nil, or_false] at named
    rcases named with rfl | rfl | rfl | rfl | rfl | rfl | rfl <;> exact letter rfl
  · simp only [List.mem_cons, List.not_mem_nil, or_false, not_or] at named
    simp only [escapeChar, named, if_false]
    by_cases control : c.toNat < 0x20
    · rw [if_pos control]
      exact stringRest_unit (by omega) more
    · rw [if_neg control]
      split
      · split
        next unit => exact stringRest_unit unit more
        next beyond => exact stringRest_pair (Nat.not_lt.mp beyond) more
      · rw [List.singleton_append, stringRest]
        simp only [named, control, if_false]

/-- A text is read from what is written between the quotes. -/
theorem stringRest_escapeChars (opening : Nat) (soFar : List Text.CodePoint)
    (cs rest : List Char) :
    stringRest opening soFar 0 (cs.flatMap (escapeChar ascii) ++ '"' :: rest) =
      .ok (soFar.reverse ++ cs.map .char, rest) := by
  induction cs generalizing soFar with
  | nil => simp [stringRest]
  | cons c cs ih =>
    rw [List.flatMap_cons, List.append_assoc, stringRest_escapeChar c (by simp), ih]
    simp

theorem toList_quote (ascii : Bool) (s : String) :
    (quote ascii s).toList = '"' :: (s.toList.flatMap (escapeChar ascii) ++ ['"']) := by
  simp [quote]

/-! ## Numerals -/

/-- What follows a value in a document: nothing, a comma or a new line. -/
def EndsValue (rest : List Char) : Prop := ∀ c ∈ rest.head?, c = ',' ∨ c = '\n'

theorem EndsValue.cases (h : EndsValue rest) :
    rest = [] ∨ (∃ cs, rest = ',' :: cs) ∨ ∃ cs, rest = '\n' :: cs := by
  cases rest with
  | nil => exact .inl rfl
  | cons c cs =>
    rcases h c rfl with rfl | rfl
    · exact .inr (.inl ⟨cs, rfl⟩)
    · exact .inr (.inr ⟨cs, rfl⟩)

theorem EndsValue.digitsOf (h : EndsValue rest) : digitsOf rest = [] := by
  rcases h.cases with rfl | ⟨cs, rfl⟩ | ⟨cs, rfl⟩ <;> rfl

/-- No fraction and no exponent is read in what follows a value. -/
theorem EndsValue.whole (h : EndsValue rest) :
    fractionPart rest = ([], rest) ∧ exponentPart rest = (none, rest) := by
  rcases h.cases with rfl | ⟨cs, rfl⟩ | ⟨cs, rfl⟩ <;> exact ⟨rfl, rfl⟩

theorem isDigit_range {c : Char} (digit : c.isDigit = true) : ('0' ≤ c && c ≤ '9') = true := by
  simpa [Char.isDigit, Char.le_def] using digit

theorem digitsOf_append {digits : List Char} (all : ∀ c ∈ digits, c.isDigit = true)
    (ends : EndsValue rest) : digitsOf (digits ++ rest) = digits := by
  unfold digitsOf
  rw [List.takeWhile_append_of_pos fun c member => isDigit_range (all c member)]
  have none := ends.digitsOf
  unfold digitsOf at none
  rw [none, List.append_nil]

theorem toList_ofNat (n : Nat) : (toString (Int.ofNat n)).toList = Nat.toDigits 10 n :=
  Nat.toList_repr

theorem toList_negSucc (n : Nat) :
    (toString (Int.negSucc n)).toList = '-' :: Nat.toDigits 10 (n + 1) := by
  have minus : toString (Int.negSucc n) = "-" ++ Nat.repr (n + 1) := rfl
  rw [minus, String.toList_append, Nat.toList_repr]
  rfl

theorem exists_digit (n : Nat) : ∃ d ds, Nat.toDigits 10 n = d :: ds ∧ d.isDigit = true := by
  obtain ⟨d, ds, same⟩ := List.exists_cons_of_ne_nil (@Nat.toDigits_ne_nil n 10)
  exact ⟨d, ds, same, Nat.isDigit_of_mem_toDigits (by decide) (by decide)
    (show d ∈ Nat.toDigits 10 n by simp [same])⟩

theorem natOf_toDigits (n : Nat) : natOf (Nat.toDigits 10 n) = n := by
  have folded := Nat.ofDigitChars_ten_toDigits (n := n)
  rwa [Nat.ofDigitChars_eq_foldl] at folded

/-- Only the numeral of zero starts with a zero. -/
theorem head_toDigits {n : Nat} (positive : 0 < n) : ∀ c ∈ (Nat.toDigits 10 n).head?, c ≠ '0' := by
  have digit : ∀ d < 10, 0 < d → Nat.digitChar d ≠ '0' := by decide
  induction n using Nat.strongRecOn with
  | ind n ih =>
    rw [Nat.toDigits_eq_if (by decide)]
    split
    next small =>
      rintro c ⟨⟩
      exact digit n small positive
    next large =>
      have front := ih (n / 10) (by omega) (by omega)
      obtain ⟨d, ds, digits⟩ := List.exists_cons_of_ne_nil (@Nat.toDigits_ne_nil (n / 10) 10)
      rw [digits] at front ⊢
      exact front

theorem number_toDigits (negative : Bool) (n : Nat) (ends : EndsValue rest) :
    number? negative (Nat.toDigits 10 n ++ rest) =
      some (.int (if negative then -(n : Int) else n), rest) := by
  have all : ∀ c ∈ Nat.toDigits 10 n, c.isDigit = true :=
    fun c member => Nat.isDigit_of_mem_toDigits (by decide) (by decide) member
  have digits := digitsOf_append all ends
  by_cases positive : 0 < n
  · obtain ⟨d, ds, same⟩ := List.exists_cons_of_ne_nil (@Nat.toDigits_ne_nil n 10)
    have first : d ≠ '0' := head_toDigits positive d (by rw [same]; rfl)
    have value := natOf_toDigits n
    rw [same] at digits value ⊢
    rw [List.cons_append] at digits ⊢
    unfold number?
    split
    next zero => exact absurd (List.cons.inj zero).1 first
    next =>
      simp only [digits, List.length_cons, List.drop_succ_cons, List.drop_left, ends.whole, value]
      rfl
  · obtain rfl : n = 0 := by omega
    simp only [number?, Nat.toDigits_zero, List.singleton_append, List.length_singleton,
      List.drop_succ_cons, List.drop_zero, ends.whole]
    rfl

/-- A numeral starts with a digit or a minus. -/
theorem head_numeral (n : Int) : ∃ c cs, (toString n).toList = c :: cs ∧
    (c.isDigit = true ∨ c = '-') := by
  cases n with
  | ofNat m =>
    obtain ⟨d, ds, same, digit⟩ := exists_digit m
    exact ⟨d, ds, (toList_ofNat m).trans same, .inl digit⟩
  | negSucc m => exact ⟨'-', _, toList_negSucc m, .inr rfl⟩

/-! ## Words -/

/-- No constant starts like a numeral. -/
theorem constants_digit {d : Char} (digit : d.isDigit = true) (cs : List Char) :
    (constants.findSome? fun (word, v) =>
      (after? word (d :: cs)).map fun rest => (v, rest)) = none ∧
    (constants.findSome? fun (word, v) =>
      (after? word ('-' :: d :: cs)).map fun rest => (v, rest)) = none := by
  have others : d ≠ 'n' ∧ d ≠ 't' ∧ d ≠ 'f' ∧ d ≠ 'N' ∧ d ≠ 'I' ∧ d ≠ '-' := by
    refine ⟨?_, ?_, ?_, ?_, ?_, ?_⟩ <;> rintro rfl <;> cases digit
  simp [constants, after?, Ne.symm, others]

/-- A numeral is read as its number. -/
theorem atom_int (n : Int) (ends : EndsValue rest) :
    atom? ((toString n).toList ++ rest) = some (.int n, rest) := by
  cases n with
  | ofNat m =>
    obtain ⟨d, ds, same, digit⟩ := exists_digit m
    have read := number_toDigits false m ends
    rw [toList_ofNat]
    rw [same, List.cons_append] at read ⊢
    simp only [atom?, (constants_digit digit _).1]
    split
    next minus =>
      cases minus
      cases digit
    next => exact read
  | negSucc m =>
    obtain ⟨d, ds, same, digit⟩ := exists_digit (m + 1)
    have read := number_toDigits true (m + 1) ends
    rw [toList_negSucc]
    rw [same, List.cons_append] at read
    rw [same, List.cons_append, List.cons_append]
    simp only [atom?, (constants_digit digit _).2]
    exact read

theorem atom_null (rest : List Char) : atom? ("null".toList ++ rest) = some (.null, rest) := rfl

theorem atom_bool (b : Bool) (rest : List Char) :
    atom? ((if b then "true" else "false").toList ++ rest) = some (.bool b, rest) := by
  cases b <;> rfl

end NullSafeEq.Json
