import NullSafeEq.Text.Utf8

/-!
# Decoding what was encoded

The octets of a character take the decoder from between two characters to behind it. So a text comes
back from its octets.
-/
namespace NullSafeEq.Text.Utf8
variable {offset b : Nat} {p : Partial} {soFar : List Char} {rest : List UInt8}

/-! ## Single octets -/

theorem decodeFrom_single (ascii : b < 0x80) :
    decodeFrom offset none soFar (UInt8.ofNat b :: rest) =
      decodeFrom (offset + 1) none (Char.ofNat b :: soFar) rest := by
  have value : (UInt8.ofNat b).toNat = b :=
    UInt8.toNat_ofNat_of_lt' (Nat.lt_trans ascii (by decide))
  simp only [decodeFrom, value, if_pos ascii]

theorem decodeFrom_lead (bounds : 0x80 ≤ b ∧ b < 0x100) (begins : begin? offset b = some p) :
    decodeFrom offset none soFar (UInt8.ofNat b :: rest) =
      decodeFrom (offset + 1) (some p) soFar rest := by
  have value : (UInt8.ofNat b).toNat = b := UInt8.toNat_ofNat_of_lt' bounds.2
  simp only [decodeFrom, value, begins, if_neg (Nat.not_lt.mpr bounds.1)]

/-- An octet that is owed and not the last one of its character. -/
theorem decodeFrom_further (bounds : p.least ≤ b ∧ b ≤ p.greatest) (octet : b < 0x100)
    (owed : p.owed ≠ 1) : decodeFrom offset (some p) soFar (UInt8.ofNat b :: rest) =
      decodeFrom (offset + 1)
        (some ⟨p.start, p.lead, p.code * 64 + (b - 0x80), p.owed - 1, 0x80, 0xbf⟩) soFar rest := by
  have value : (UInt8.ofNat b).toNat = b := UInt8.toNat_ofNat_of_lt' octet
  have fits : ¬ (b < p.least || p.greatest < b) = true := by
    simp
    omega
  simp only [decodeFrom, value, if_neg fits, if_neg owed]

theorem decodeFrom_last (bounds : p.least ≤ b ∧ b ≤ p.greatest) (octet : b < 0x100)
    (owed : p.owed = 1) : decodeFrom offset (some p) soFar (UInt8.ofNat b :: rest) =
      decodeFrom (offset + 1) none (Char.ofNat (p.code * 64 + (b - 0x80)) :: soFar) rest := by
  have value : (UInt8.ofNat b).toNat = b := UInt8.toNat_ofNat_of_lt' octet
  have fits : ¬ (b < p.least || p.greatest < b) = true := by
    simp
    omega
  simp only [decodeFrom, value, if_neg fits, if_pos owed]

/-! ## First octets -/

theorem begin_two {high : Nat} (bounds : 2 ≤ high ∧ high < 32) :
    begin? offset (high + 0xc0) = some ⟨offset, high + 0xc0, high, 1, 0x80, 0xbf⟩ := by
  have range : (0xc2 ≤ high + 0xc0 && high + 0xc0 ≤ 0xdf) = true := by
    simp
    omega
  simp only [begin?, if_pos range, Nat.add_sub_cancel]

/-- The second of three octets is bounded so that no shorter form and no surrogate fits. -/
theorem begin_three {high middle : Nat} (bounds : high < 16 ∧ middle < 64)
    (long : 0x20 ≤ high * 64 + middle) (valid : high = 0xd → middle < 0x20) : ∃ p,
      begin? offset (high + 0xe0) = some p ∧ p.code = high ∧ p.owed = 2 ∧
      p.least ≤ middle + 0x80 ∧ middle + 0x80 ≤ p.greatest := by
  simp only [begin?, Bool.and_eq_true, decide_eq_true_eq]
  repeat' split
  all_goals first
    | exfalso
      omega
    | refine ⟨_, rfl, ?_, ?_, ?_, ?_⟩ <;> dsimp only <;> omega

/-- The second of four octets is bounded so that no shorter form and nothing above the last code
point fits. -/
theorem begin_four {high middle : Nat} (bounds : high < 8 ∧ middle < 64)
    (long : 0x10 ≤ high * 64 + middle) (valid : high * 64 + middle < 0x110) : ∃ p,
      begin? offset (high + 0xf0) = some p ∧ p.code = high ∧ p.owed = 3 ∧
      p.least ≤ middle + 0x80 ∧ middle + 0x80 ≤ p.greatest := by
  simp only [begin?, Bool.and_eq_true, decide_eq_true_eq]
  repeat' split
  all_goals first
    | exfalso
      omega
    | refine ⟨_, rfl, ?_, ?_, ?_, ?_⟩ <;> dsimp only <;> omega

/-! ## Characters and texts -/

theorem encodeChar_eq (c : Char) : String.utf8EncodeChar c =
    let n := c.toNat
    if n ≤ 0x7f then [UInt8.ofNat n]
    else if n ≤ 0x7ff then [UInt8.ofNat (n / 64 % 32 + 0xc0), UInt8.ofNat (n % 64 + 0x80)]
    else if n ≤ 0xffff then
      [UInt8.ofNat (n / 4096 % 16 + 0xe0), UInt8.ofNat (n / 64 % 64 + 0x80),
        UInt8.ofNat (n % 64 + 0x80)]
    else
      [UInt8.ofNat (n / 262144 % 8 + 0xf0), UInt8.ofNat (n / 4096 % 64 + 0x80),
        UInt8.ofNat (n / 64 % 64 + 0x80), UInt8.ofNat (n % 64 + 0x80)] := rfl

/-- The octets of a character are read as the character. -/
theorem decodeFrom_encodeChar (offset : Nat) (soFar : List Char) (c : Char) (rest : List UInt8) :
    ∃ offset', decodeFrom offset none soFar (String.utf8EncodeChar c ++ rest) =
      decodeFrom offset' none (c :: soFar) rest := by
  have valid : c.toNat < 0xd800 ∨ 0xdfff < c.toNat ∧ c.toNat < 0x110000 := c.valid
  have same {n : Nat} (h : n = c.toNat) : Char.ofNat n = c := by
    rw [h, Char.ofNat_toNat]
  rw [encodeChar_eq]
  simp only
  generalize c.toNat = n at valid same
  split
  · refine ⟨offset + 1, (decodeFrom_single (by omega)).trans ?_⟩
    rw [same rfl]
    rfl
  split
  · refine ⟨offset + 1 + 1, (decodeFrom_lead (by omega) (begin_two (by omega))).trans <|
      (decodeFrom_last (by dsimp only; omega) (by omega) rfl).trans ?_⟩
    rw [same (by dsimp only; omega)]
    rfl
  split
  · obtain ⟨p, begins, code, owed, bounds⟩ := @begin_three offset (n / 4096 % 16)
      (n / 64 % 64) (by omega) (by omega) (by omega)
    refine ⟨offset + 1 + 1 + 1, (decodeFrom_lead (by omega) begins).trans <|
      (decodeFrom_further bounds (by omega) (by omega)).trans <|
      (decodeFrom_last (by dsimp only; omega) (by omega) (by dsimp only; omega)).trans ?_⟩
    rw [same (by dsimp only; omega)]
    rfl
  · obtain ⟨p, begins, code, owed, bounds⟩ := @begin_four offset (n / 262144 % 8)
      (n / 4096 % 64) (by omega) (by omega) (by omega)
    refine ⟨offset + 1 + 1 + 1 + 1, (decodeFrom_lead (by omega) begins).trans <|
      (decodeFrom_further bounds (by omega) (by omega)).trans <|
      (decodeFrom_further (by dsimp only; omega) (by omega) (by dsimp only; omega)).trans <|
      (decodeFrom_last (by dsimp only; omega) (by omega) (by dsimp only; omega)).trans ?_⟩
    rw [same (by dsimp only; omega)]
    rfl

theorem decodeFrom_encode (offset : Nat) (soFar cs : List Char) :
    decodeFrom offset none soFar (cs.flatMap String.utf8EncodeChar) =
      .ok (soFar.reverse ++ cs) := by
  induction cs generalizing offset soFar with
  | nil => simp [decodeFrom]
  | cons c cs ih =>
    obtain ⟨offset', read⟩ :=
      decodeFrom_encodeChar offset soFar c (cs.flatMap String.utf8EncodeChar)
    rw [List.flatMap_cons, read, ih]
    simp

/-- Every text comes back from its octets. -/
theorem decode_encode (s : String) : decode (encode s) = .ok s := by
  rw [decode, encode, decodeFrom_encode]
  simp [Except.map]

end NullSafeEq.Text.Utf8
