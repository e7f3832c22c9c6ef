import NullSafeEq.Proofs.Lexing.Layout
import NullSafeEq.Text.Classes

/-!
# The edges of tokens

The lexemes of a layout cover something each and stand one behind the other. A token that can be
found begins and ends with characters that are no white space of any script.
-/
namespace NullSafeEq

/-- A token between quotes. -/
def Token.isQuoted : Token → Bool
  | literal .string _ | literal .char _ => true
  | _ => false

namespace Lexeme

/-- Each lexeme covers something, and each stands behind the ones before it. -/
structure Ordered (ts : List Lexeme) : Prop where
  solid : ∀ t ∈ ts, t.span.start < t.span.stop
  apart : ts.Pairwise fun t u => t.span.stop ≤ u.span.start

namespace Ordered
variable {ts us vs ws : List Lexeme} {first last t u : Lexeme} {x y : Span}

theorem left (h : Ordered (us ++ vs)) : Ordered us :=
  ⟨fun t member => h.solid t (List.mem_append_left _ member), (List.pairwise_append.mp h.apart).1⟩

theorem right (h : Ordered (us ++ vs)) : Ordered vs :=
  ⟨fun t member => h.solid t (List.mem_append_right _ member),
    (List.pairwise_append.mp h.apart).2.1⟩

theorem before (h : Ordered (us ++ vs)) (front : t ∈ us) (back : u ∈ vs) :
    t.span.stop ≤ u.span.start :=
  (List.pairwise_append.mp h.apart).2.2 t front u back

theorem start_le (h : Ordered ts) (head : first ∈ ts.head?) (member : t ∈ ts) :
    first.span.start ≤ t.span.start := by
  obtain ⟨rest, rfl⟩ := List.head?_eq_some_iff.mp head
  rcases List.mem_cons.mp member with rfl | later
  · exact Nat.le_refl _
  · have solid := h.solid first List.mem_cons_self
    have behind := (List.pairwise_cons.mp h.apart).1 t later
    omega

theorem le_stop (h : Ordered ts) (atEnd : last ∈ ts.getLast?) (member : t ∈ ts) :
    t.span.stop ≤ last.span.stop := by
  obtain ⟨front, rfl⟩ := List.getLast?_eq_some_iff.mp atEnd
  rcases List.mem_append.mp member with earlier | same
  · have solid := h.solid last (List.mem_append_right _ List.mem_cons_self)
    have behind := h.before earlier List.mem_cons_self
    omega
  · rw [List.mem_singleton.mp same]

/-- The range of some lexemes among others, with a lexeme on either side. -/
theorem within (h : Ordered (us ++ (vs ++ ws))) (outer : Located (some x) (us ++ (vs ++ ws)))
    (inner : Located (some y) vs) : x.start ≤ y.start ∧ y.stop ≤ x.stop ∧
      (us ≠ [] → x.start < y.start) ∧ (ws ≠ [] → y.stop < x.stop) := by
  obtain ⟨first, atHead, last, atEnd, range⟩ := outer
  obtain ⟨f, innerHead, l, innerEnd, innerRange⟩ := inner
  obtain rfl := Option.some.inj range
  obtain rfl := Option.some.inj innerRange
  have fMember : f ∈ vs := List.mem_of_mem_head? innerHead
  have lMember : l ∈ vs := List.mem_of_getLast? innerEnd
  refine ⟨h.start_le atHead (by simp [fMember]), h.le_stop atEnd (by simp [lMember]), ?_, ?_⟩
  · intro some
    obtain ⟨t, us, rfl⟩ := List.exists_cons_of_ne_nil some
    obtain rfl : t = first := Option.some.inj atHead
    have solid := h.solid t (by simp)
    have behind := h.before (t := t) (u := f) (by simp) (by simp [fMember])
    show t.span.start < f.span.start
    omega
  · intro some
    obtain ⟨ws, t, rfl⟩ := List.eq_nil_or_concat ws |>.resolve_left some
    rw [List.concat_eq_append, ← List.append_assoc, ← List.append_assoc,
      List.getLast?_append_of_ne_nil _ (List.cons_ne_nil _ _)] at atEnd
    obtain rfl : t = last := Option.some.inj atEnd
    have solid := h.solid t (by simp)
    have behind := h.right.before (t := l) (u := t) lMember (by simp)
    show l.span.stop < t.span.stop
    omega

end Ordered

/-- The lexemes of a layout are in order. -/
theorem ordered_place {items : List Item} {mode : Mode} (fits : Fits mode (tokens items)) (o : Nat) :
    Ordered (place o items) ∧ ∀ t ∈ place o items, o ≤ t.span.start := by
  induction items generalizing mode o with
  | nil => exact ⟨⟨nofun, .nil⟩, nofun⟩
  | cons i is ih =>
    obtain ⟨takes, rest⟩ := fits_cons.mp fits
    obtain ⟨ordered, behind⟩ := ih rest (o + i.chars.length)
    have some : 0 < i.token.text.toList.length := List.length_pos_iff.mpr (text_ne_nil takes)
    have size := i.length_chars
    refine ⟨⟨List.forall_mem_cons.mpr ⟨?_, ordered.solid⟩,
      List.pairwise_cons.mpr ⟨behind, ordered.apart⟩⟩, List.forall_mem_cons.mpr ⟨?_, ?_⟩⟩
    · show o + i.gap.length < o + i.chars.length
      omega
    · exact Nat.le_add_right o i.gap.length
    · intro t member
      have := behind t member
      omega

/-! ## Characters that are not blank -/

theorem not_blank_of_code {c : Char} (low : 0x20 < c.toNat) (high : c.toNat < 0x85) :
    Text.isBlank c = false := by
  have : ¬ c.toNat < 0x9 := by omega
  have : ¬ c.toNat < 0x1c := by omega
  simp [Text.isBlank, Text.blankRuns, Text.solid, Text.onRuns, Text.Run.holds]
  omega

/-- The blank characters above the second script's digits. -/
def farBlanks : List Nat :=
  [0x1680, 0x2000, 0x2001, 0x2002, 0x2003, 0x2004, 0x2005, 0x2006, 0x2007, 0x2008, 0x2009, 0x200a,
   0x2028, 0x2029, 0x202f, 0x205f, 0x3000]

theorem code_of_blank {c : Char} (blank : Text.isBlank c = true) :
    ((c.toNat < 0x30 ∨ 0x39 < c.toNat) ∧ c.toNat < 0x660) ∨ c.toNat ∈ farBlanks := by
  simp [Text.isBlank, Text.blankRuns, Text.solid, Text.onRuns, Text.Run.holds] at blank
  simp only [farBlanks, List.mem_cons, List.not_mem_nil, or_false]
  omega

theorem not_digit_of_farBlank : ∀ n ∈ farBlanks, Text.digitIn n Text.digitBounds = none := by
  decide

theorem not_blank_of_digit {c : Char} (digit : Text.isDecimalDigit c = true) :
    Text.isBlank c = false := by
  by_contra blank
  rcases code_of_blank (by simpa using blank) with ⟨out, high⟩ | far
  · rw [not_digit_of_code out high] at digit
    cases digit
  · rw [Text.isDecimalDigit, Text.digitValue?, not_digit_of_farBlank _ far] at digit
    cases digit

theorem not_blank_of_nameStart {c : Char} (start : isNameStart c = true) :
    Text.isBlank c = false := by
  rcases isNameStart_iff.mp start with upper | lower | rfl | rfl
  · exact not_blank_of_code (by omega) (by omega)
  · exact not_blank_of_code (by omega) (by omega)
  · exact not_blank_of_code (by decide) (by decide)
  · exact not_blank_of_code (by decide) (by decide)

theorem not_blank_of_nameChar {c : Char} (inside : isNameChar c = true) :
    Text.isBlank c = false := by
  rcases Bool.or_eq_true_iff.mp inside with start | digit
  · exact not_blank_of_nameStart start
  · obtain ⟨low, high⟩ := Bool.and_eq_true_iff.mp digit
    have low : 0x30 ≤ c.toNat := of_decide_eq_true low
    have high : c.toNat ≤ 0x39 := of_decide_eq_true high
    exact not_blank_of_code (by omega) (by omega)

theorem not_blank_of_number {cs : List Char} (number : IsNumber cs) :
    ∀ c ∈ cs, Text.isBlank c = false := by
  obtain ⟨whole, fraction, suffix, rfl, -, digits, fractional, suffixed⟩ := number
  have wholes : ∀ c ∈ whole, Text.isBlank c = false :=
    fun c member => not_blank_of_digit (digits c member)
  have fractions : ∀ c ∈ fraction, Text.isBlank c = false := by
    rcases fractional with rfl | ⟨places, rfl, -, digits⟩
    · nofun
    · exact List.forall_mem_cons.mpr ⟨not_blank_of_code (by decide) (by decide),
        fun c member => not_blank_of_digit (digits c member)⟩
  have suffixes : ∀ c ∈ suffix, Text.isBlank c = false := by
    rcases suffixed with rfl | ⟨letter, listed, rfl⟩
    · nofun
    · exact List.forall_mem_singleton.mpr (not_blank_of_nameChar (suffix_letter listed).1)
  exact List.forall_mem_append.mpr ⟨List.forall_mem_append.mpr ⟨wholes, fractions⟩, suffixes⟩

/-! ## Both ends of a token -/

/-- Characters that begin and end with ones that are not blank. -/
structure Edged (cs : List Char) : Prop where
  head : ∀ c ∈ cs.head?, Text.isBlank c = false
  last : ∀ c ∈ cs.getLast?, Text.isBlank c = false

theorem Edged.of_all {cs : List Char} (h : ∀ c ∈ cs, Text.isBlank c = false) : Edged cs :=
  ⟨fun c head => h c (List.mem_of_mem_head? head), fun c last => h c (List.mem_of_getLast? last)⟩

theorem not_blank_of_codes {cs : List Char} (h : ∀ c ∈ cs, 0x20 < c.toNat ∧ c.toNat < 0x85) :
    ∀ c ∈ cs, Text.isBlank c = false :=
  fun c member => not_blank_of_code (h c member).1 (h c member).2

theorem Edged.quoted {mark : Char} (plain : Text.isBlank mark = false) (body : List Char) :
    Edged (mark :: (body ++ [mark])) := by
  refine ⟨fun c head => ?_, fun c last => ?_⟩
  · cases head
    exact plain
  · rw [← List.cons_append, List.getLast?_concat] at last
    cases last
    exact plain

/-- Only between quotes there can be blank characters. -/
theorem not_blank_of_takes {mode : Mode} {t : Token} (takes : mode.Takes t)
    (plain : t.isQuoted = false) : ∀ c ∈ t.text.toList, Text.isBlank c = false := by
  have word (isWord : t.isWord = true) : ∀ c ∈ t.text.toList, Text.isBlank c = false := by
    obtain ⟨⟨c, cs, spelled, start, chars⟩, -⟩ := (Mode.takes_word isWord).mp takes
    rw [spelled]
    exact List.forall_mem_cons.mpr ⟨not_blank_of_nameStart start,
      fun d member => not_blank_of_nameChar (List.all_eq_true.mp chars d member)⟩
  match t with
  | .literal .null _ | .literal .boolean _ | .name _ | .self _ | .create => exact word rfl
  | .literal .number _ => exact not_blank_of_number takes
  | .literal .string _ | .literal .char _ => cases plain
  | .stray _ => exact takes.elim
  | .op o => cases o <;> exact not_blank_of_codes (by simp [Token.text, BinaryOp.text])
  | .bang | .question | .colon | .comma | .dot | .openParen | .closeParen | .openSquare
  | .closeSquare => exact not_blank_of_codes (by simp [Token.text])

theorem edged_of_takes {mode : Mode} {t : Token} (takes : mode.Takes t) : Edged t.text.toList := by
  cases quoted : t.isQuoted with
  | false => exact .of_all (not_blank_of_takes takes quoted)
  | true =>
    match t with
    | .literal .string _ | .literal .char _ =>
      obtain ⟨body, spelled, -⟩ := takes
      rw [Token.text, spelled]
      exact .quoted (not_blank_of_code (by decide) (by decide)) body

end Lexeme

end NullSafeEq
