import NullSafeEq.Proofs.Lexing.Edges

/-!
# Cutting a text at white space

Where white space stands that is part of no token, the tokens in front of it do not depend on what
follows.
-/
namespace NullSafeEq.Lexeme

/-- The last character is white space. -/
def EndsBlank (cs : List Char) : Prop := ∃ c ∈ cs.getLast?, Text.isBlank c = true

theorem EndsBlank.ne_nil {cs : List Char} (h : EndsBlank cs) : cs ≠ [] := by
  rintro rfl
  obtain ⟨c, last, -⟩ := h
  cases last

theorem EndsBlank.right {cs ds : List Char} (h : EndsBlank (cs ++ ds)) (some : ds ≠ []) :
    EndsBlank ds := by
  obtain ⟨c, last, blank⟩ := h
  rw [List.getLast?_append_of_ne_nil cs some] at last
  exact ⟨c, last, blank⟩

theorem Edged.not_endsBlank {cs : List Char} (h : Edged cs) : ¬ EndsBlank cs := by
  rintro ⟨c, last, blank⟩
  rw [h.last c last] at blank
  cases blank

/-- White space in front of a cut in the text of a token is between quotes. -/
theorem quoted_of_cut {mode : Mode} {t : Token} {front rest : List Char} (takes : mode.Takes t)
    (cut : t.text.toList = front ++ rest) (ends : EndsBlank front) :
    t.isQuoted = true ∧ rest ≠ [] := by
  constructor
  · cases quoted : t.isQuoted with
    | true => rfl
    | false =>
      obtain ⟨c, last, blank⟩ := ends
      have plain := not_blank_of_takes takes quoted c
        (by rw [cut]; exact List.mem_append_left _ (List.mem_of_getLast? last))
      rw [plain] at blank
      cases blank
  · rintro rfl
    rw [List.append_nil] at cut
    exact (edged_of_takes takes).not_endsBlank (cut ▸ ends)

/-- The place lies inside a token between quotes. -/
def InsideQuotes (ts : List Lexeme) (offset : Nat) : Prop :=
  ∃ t ∈ ts, t.token.isQuoted = true ∧ t.span.start < offset ∧ offset < t.span.stop

/-- A layout is cut by white space between two of its tokens, unless that is inside quotes. -/
theorem cut_of_endsBlank {items : List Item} {tail front rest : List Char} {mode : Mode} {o : Nat}
    (fits : Fits mode (tokens items)) (spaced : Spaced items) (blank : Blank tail)
    (same : typeset items ++ tail = front ++ rest) (ends : EndsBlank front)
    (outside : ¬ InsideQuotes (place o items) (o + front.length)) :
    ∃ is js gap, items = is ++ js ∧ front = typeset is ++ gap ∧ Blank gap ∧ gap ≠ [] := by
  induction items generalizing mode o front with
  | nil =>
    obtain rfl : tail = front ++ rest := same
    exact ⟨[], [], front, rfl, rfl, fun c member => blank c (List.mem_append_left _ member),
      ends.ne_nil⟩
  | cons i is ih =>
    obtain ⟨takes, fits⟩ := fits_cons.mp fits
    obtain ⟨gap, spaced⟩ := spaced_cons.mp spaced
    rw [typeset_cons, List.append_assoc] at same
    rcases List.append_eq_append_iff.mp same with ⟨covered, rfl, behind⟩ | ⟨more, gapSame, -⟩
    · by_cases none : covered = []
      · subst none
        rw [List.append_nil] at ends ⊢
        exact ⟨[], i :: is, i.gap, rfl, rfl, gap, ends.ne_nil⟩
      have endsCovered := ends.right none
      rw [List.append_assoc] at behind
      rcases List.append_eq_append_iff.mp behind with ⟨beyond, rfl, further⟩ | ⟨more, textSame, -⟩
      · by_cases none : beyond = []
        · subst none
          rw [List.append_nil] at endsCovered
          exact ((quoted_of_cut takes (List.append_nil _).symm endsCovered).2 rfl).elim
        obtain ⟨before, after, inner, rfl, rfl, space⟩ := ih (o := o + i.chars.length) fits spaced
          further (endsCovered.right none) (by
            rintro ⟨t, member, quoted, low, high⟩
            refine outside ⟨t, List.mem_cons_of_mem _ member, quoted, ?_, ?_⟩
            · simp only [List.length_append, Item.length_chars] at low ⊢
              omega
            · simp only [List.length_append, Item.length_chars] at high ⊢
              omega)
        exact ⟨i :: before, after, inner, rfl, by simp, space⟩
      · -- the cut lies in the text of the token or at its end
        obtain ⟨quoted, inner⟩ := quoted_of_cut takes textSame endsCovered
        refine (outside ⟨i.lexeme o, List.mem_cons_self, quoted, ?_, ?_⟩).elim
        · have := List.length_pos_iff.mpr none
          simp only [Item.lexeme, List.length_append]
          omega
        · have := List.length_pos_iff.mpr inner
          have size := congrArg List.length textSame
          simp only [Item.lexeme, Item.length_chars, List.length_append] at size ⊢
          omega
    · refine ⟨[], i :: is, front, rfl, rfl, fun c member => gap c ?_, ends.ne_nil⟩
      rw [gapSame]
      exact List.mem_append_left _ member

/-- The tokens of a text stand one behind the other and start in it. -/
theorem scan_ascending (mode : Mode) (skip o : Nat) (cs : List Char) :
    (scan mode skip o cs).Pairwise (fun t u => t.span.start < u.span.start) ∧
      ∀ t ∈ scan mode skip o cs, o ≤ t.span.start ∧ t.span.start < o + cs.length := by
  induction cs generalizing mode skip o with
  | nil =>
    rw [scan]
    exact ⟨.nil, List.forall_mem_nil _⟩
  | cons c cs ih =>
    have later (mode : Mode) (skip : Nat) := ih mode skip (o + 1)
    have shift {mode : Mode} {skip : Nat} {t : Lexeme} (member : t ∈ scan mode skip (o + 1) cs) :
        o < t.span.start ∧ t.span.start < o + (c :: cs).length := by
      have := (later mode skip).2 t member
      rw [List.length_cons]
      omega
    have tail {mode : Mode} {skip : Nat} {t : Lexeme} (member : t ∈ scan mode skip (o + 1) cs) :
        o ≤ t.span.start ∧ t.span.start < o + (c :: cs).length :=
      ⟨(shift member).1.le, (shift member).2⟩
    cases skip with
    | succ skip => exact ⟨(later mode skip).1, fun _ => tail⟩
    | zero =>
      cases space : isSpace c with
      | true =>
        rw [scan_space o cs space]
        exact ⟨(later mode 0).1, fun _ => tail⟩
      | false =>
        rw [scan]
        simp only [space, Bool.false_eq_true, if_false]
        exact ⟨List.pairwise_cons.mpr ⟨fun t member => (shift member).1, (later _ _).1⟩,
          List.forall_mem_cons.mpr ⟨⟨Nat.le_refl o, by simp⟩, fun _ => tail⟩⟩

end NullSafeEq.Lexeme
