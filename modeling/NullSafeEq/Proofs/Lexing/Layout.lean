import NullSafeEq.Proofs.Lexing.Spelling

/-!
# Layout

A text without stray characters is a sequence of tokens with white space in front of each of them
and behind the last one. Reading such a layout back gives the tokens at their places, provided
that no token goes on into its neighbour.
-/
namespace NullSafeEq

/-- White space only. -/
def Blank (cs : List Char) : Prop := ∀ c ∈ cs, Lexeme.isSpace c = true

theorem blank_nil : Blank [] := nofun

theorem blank_one : Blank [' '] := List.forall_mem_singleton.mpr (by decide)

/-- A token with the white space in front of it. -/
structure Item where
  gap : List Char
  token : Token

namespace Item

def chars (i : Item) : List Char := i.gap ++ i.token.text.toList

/-- The token of an item that stands at an offset. -/
def lexeme (offset : Nat) (i : Item) : Lexeme :=
  ⟨i.token, ⟨offset + i.gap.length, offset + i.chars.length⟩⟩

end Item

/-- The tokens of a layout. -/
def tokens (items : List Item) : List Token := items.map Item.token

/-- The characters of a layout. -/
def typeset (items : List Item) : List Char := items.flatMap Item.chars

/-- The lexemes of a layout that stands at an offset. -/
def place (offset : Nat) : List Item → List Lexeme
  | [] => []
  | i :: is => i.lexeme offset :: place (offset + i.chars.length) is

/-- All gaps are white space. -/
def Spaced (items : List Item) : Prop := ∀ i ∈ items, Blank i.gap

@[simp] theorem tokens_nil : tokens [] = [] := rfl

@[simp] theorem tokens_cons (i : Item) (is : List Item) :
    tokens (i :: is) = i.token :: tokens is := rfl

@[simp] theorem tokens_append (is js : List Item) : tokens (is ++ js) = tokens is ++ tokens js :=
  List.map_append

@[simp] theorem typeset_nil : typeset [] = [] := rfl

@[simp] theorem typeset_cons (i : Item) (is : List Item) :
    typeset (i :: is) = i.gap ++ (i.token.text.toList ++ typeset is) := by
  simp [typeset, Item.chars]

@[simp] theorem typeset_append (is js : List Item) :
    typeset (is ++ js) = typeset is ++ typeset js := List.flatMap_append

theorem Item.length_chars (i : Item) :
    i.chars.length = i.gap.length + i.token.text.toList.length := List.length_append

@[simp] theorem place_append (o : Nat) (is js : List Item) :
    place o (is ++ js) = place o is ++ place (o + (typeset is).length) js := by
  induction is generalizing o with
  | nil => rfl
  | cons i is ih =>
    rw [List.cons_append, place, ih, place, List.cons_append]
    simp [Item.length_chars, Nat.add_assoc]

@[simp] theorem place_tokens (o : Nat) (items : List Item) :
    (place o items).map Lexeme.token = tokens items := by
  induction items generalizing o with
  | nil => rfl
  | cons i is ih => simp [place, Item.lexeme, ih]

@[simp] theorem spaced_nil : Spaced [] := nofun

@[simp] theorem spaced_cons {i : Item} {is : List Item} :
    Spaced (i :: is) ↔ Blank i.gap ∧ Spaced is := List.forall_mem_cons

@[simp] theorem spaced_append {is js : List Item} : Spaced (is ++ js) ↔ Spaced is ∧ Spaced js :=
  List.forall_mem_append

namespace Lexeme

/-! ## Modes along a list of tokens -/

/-- An expression may start here. -/
abbrev Mode.Plain (mode : Mode) : Prop := mode = .operand ∨ mode = .operator

/-- The mode after several tokens. -/
def Mode.afterAll (mode : Mode) (ts : List Token) : Mode := ts.foldl Mode.after mode

/-- Every token is one that its mode takes. -/
def Fits (mode : Mode) : List Token → Prop
  | [] => True
  | t :: ts => mode.Takes t ∧ Fits (mode.after t) ts

@[simp] theorem afterAll_nil (mode : Mode) : mode.afterAll [] = mode := rfl

@[simp] theorem afterAll_cons (mode : Mode) (t : Token) (ts : List Token) :
    mode.afterAll (t :: ts) = (mode.after t).afterAll ts := rfl

@[simp] theorem afterAll_append (mode : Mode) (ts us : List Token) :
    mode.afterAll (ts ++ us) = (mode.afterAll ts).afterAll us := List.foldl_append

@[simp] theorem fits_nil (mode : Mode) : Fits mode [] := trivial

@[simp] theorem fits_cons {mode : Mode} {t : Token} {ts : List Token} :
    Fits mode (t :: ts) ↔ mode.Takes t ∧ Fits (mode.after t) ts := Iff.rfl

@[simp] theorem fits_append {mode : Mode} {ts us : List Token} :
    Fits mode (ts ++ us) ↔ Fits mode ts ∧ Fits (mode.afterAll ts) us := by
  induction ts generalizing mode with
  | nil => simp
  | cons t ts ih => simp [ih, and_assoc]

end Lexeme

/-! ## Neighbours -/

namespace Token

def isNumber : Token → Bool
  | literal .number _ => true
  | _ => false

/-- The first token would go on into the second one if nothing stood between them. -/
def glues (t u : Token) : Bool :=
  (t.isWord || t.isNumber) && (u.isWord || u.isNumber) || t = dot && u.isNumber ||
    (t = bang || t = op .lt || t = op .gt) && u = op .eq

end Token

theorem Token.glues_eq_false {t u : Token} : t.glues u = false ↔
    ((t.isWord || t.isNumber) = true → (u.isWord || u.isNumber) = false) ∧
      (t = dot → u.isNumber = false) ∧ (t = bang ∨ t = op .lt ∨ t = op .gt → u ≠ op .eq) := by
  simp only [glues, Bool.or_eq_false_iff, Bool.and_eq_false_imp, decide_eq_true_eq,
    Bool.or_eq_true, decide_eq_false_iff_not, and_assoc, or_assoc, ne_eq]

/-- Where tokens would go on into each other there is white space between them. -/
def Apart (items : List Item) : Prop :=
  items.IsChain fun i j => j.gap = [] → i.token.glues j.token = false

namespace Lexeme

/-- What the first character of a token says about the token. -/
theorem head_of_takes {mode : Mode} {t : Token} {c : Char} {cs : List Char}
    (takes : mode.Takes t) (spelled : t.text.toList = c :: cs) :
    ((t.isWord || t.isNumber) = false → isNameChar c = false) ∧
      (t.isNumber = false → Text.isDecimalDigit c = false) ∧
      (c = '=' → t = .op .eq) ∧ (c = '.' → t = .dot) := by
  by_cases word : t.isWord = true
  · obtain ⟨⟨d, ds, same, start, _⟩, _⟩ := (Mode.takes_word word).mp takes
    obtain ⟨rfl, rfl⟩ := List.cons.inj (spelled.symm.trans same)
    refine ⟨fun no => by simp [word] at no, fun _ => not_digit_of_nameStart start, ?_, ?_⟩
    · rintro rfl
      cases start
    · rintro rfl
      cases start
  by_cases number : t.isNumber = true
  · refine ⟨fun no => by simp [number] at no, fun no => by simp [number] at no, ?_⟩
    match t with
    | .literal .number text =>
      obtain ⟨whole, fraction, suffix, same, some, digits, _⟩ := takes
      obtain ⟨d, ds, rfl⟩ := List.exists_cons_of_ne_nil some
      have digit := digits d List.mem_cons_self
      have head : d = c := by
        have := same.symm.trans spelled
        simp only [List.cons_append] at this
        exact (List.cons.inj this).1
      subst head
      refine ⟨?_, ?_⟩
      · rintro rfl
        rw [not_digit_of_code (by decide) (by decide)] at digit
        cases digit
      · rintro rfl
        rw [not_digit_of_code (by decide) (by decide)] at digit
        cases digit
  have symbolic : c = '"' ∨ c = '\'' ∨ IsSymbolic c ∧ isNameChar c = false ∧
      (c = '=' → t = .op .eq) ∧ (c = '.' → t = .dot) := by
    match t with
    | .literal .null _ | .literal .boolean _ | .name _ | .self _ | .create => exact (word rfl).elim
    | .literal .number _ => exact (number rfl).elim
    | .literal .string text =>
      obtain ⟨body, same, _⟩ := takes
      exact .inl (List.cons.inj (spelled.symm.trans same)).1
    | .literal .char text =>
      obtain ⟨body, same, _⟩ := takes
      exact .inr (.inl (List.cons.inj (spelled.symm.trans same)).1)
    | .stray _ => exact takes.elim
    | .op o =>
      cases o <;>
      · obtain ⟨rfl, -⟩ := List.cons.inj spelled
        exact .inr (.inr (by decide))
    | .bang | .question | .colon | .comma | .dot | .openParen | .closeParen | .openSquare
    | .closeSquare =>
      obtain ⟨rfl, -⟩ := List.cons.inj spelled
      exact .inr (.inr (by decide))
  rcases symbolic with rfl | rfl | ⟨⟨_, out, high, _⟩, noName, eq, dot⟩
  · exact ⟨fun _ => by decide, fun _ => not_digit_of_code (by decide) (by decide), nofun, nofun⟩
  · exact ⟨fun _ => by decide, fun _ => not_digit_of_code (by decide) (by decide), nofun, nofun⟩
  · exact ⟨fun _ => noName, fun _ => not_digit_of_code out high, eq, dot⟩

/-- Where a character stands that no word and no number contains, every token ends. -/
theorem ends_of_head {t : Token} {rest : List Char}
    (solid : (t.isWord || t.isNumber) = true → ∀ c ∈ rest.head?, isNameChar c = false)
    (digit : t.isNumber = true → (∀ c ∈ rest.head?, Text.isDecimalDigit c = false) ∧
      fractionLength rest = 0)
    (open' : t = .bang ∨ t = .op .lt ∨ t = .op .gt → rest.head? ≠ some '=') :
    EndsBefore rest t := by
  match t with
  | .literal .null _ | .literal .boolean _ | .name _ | .self _ | .create => exact fun _ => solid rfl
  | .literal .number _ => exact ⟨solid rfl, digit rfl⟩
  | .bang => exact open' (.inl rfl)
  | .op .lt => exact open' (.inr (.inl rfl))
  | .op .gt => exact open' (.inr (.inr rfl))
  | .literal .string _ | .literal .char _ | .question | .colon | .comma | .dot | .openParen
  | .closeParen | .openSquare | .closeSquare | .stray _ => exact nofun
  | .op .or | .op .and | .op .eq | .op .ne | .op .le | .op .ge | .op .add | .op .sub | .op .mul
  | .op .div | .op .rem => exact nofun

theorem ends_of_blank {rest : List Char} (blank : ∀ c ∈ rest.head?, isSpace c = true) (t : Token) :
    EndsBefore rest t := by
  apply ends_of_head
  · exact fun _ c head => (space_ends (blank c head)).1
  · refine fun _ => ⟨fun c head => (space_ends (blank c head)).2.1, ?_⟩
    unfold fractionLength
    split
    next => exact ((space_ends (blank '.' rfl)).2.2.2 rfl).elim
    next => rfl
  · exact fun _ head => (space_ends (blank '=' head)).2.2.1 rfl

theorem ends_of_nil (t : Token) : EndsBefore [] t := by
  apply ends_of_blank
  nofun

theorem blank_head {gap : List Char} (rest : List Char) (blank : Blank gap) (some : gap ≠ []) :
    ∀ c ∈ (gap ++ rest).head?, isSpace c = true := by
  obtain ⟨c, cs, rfl⟩ := List.exists_cons_of_ne_nil some
  rintro _ ⟨⟩
  exact blank c List.mem_cons_self

theorem text_ne_nil {mode : Mode} {t : Token} (takes : mode.Takes t) : t.text.toList ≠ [] := by
  obtain ⟨c, cs, spelled, _⟩ := first_of_takes takes (ends_of_nil _)
  rw [spelled]
  exact List.cons_ne_nil c cs

/-- White space stands here, or nothing. -/
def StartsBlank (cs : List Char) : Prop := ∀ c ∈ cs.head?, isSpace c = true

theorem startsBlank_of_blank {cs : List Char} (blank : Blank cs) : StartsBlank cs :=
  fun c head => blank c (List.mem_of_mem_head? head)

/-- A layout starts with white space or with the first character of its first token. -/
theorem head_cases {items : List Item} {tail : List Char} {mode : Mode} {c : Char}
    (fits : Fits mode (tokens items)) (spaced : Spaced items) (blank : StartsBlank tail)
    (head : c ∈ (typeset items ++ tail).head?) : isSpace c = true ∨
      ∃ i ∈ items.head?, i.gap = [] ∧ mode.Takes i.token ∧ ∃ cs, i.token.text.toList = c :: cs := by
  cases items with
  | nil => exact .inl (blank c head)
  | cons i is =>
    by_cases gap : i.gap = []
    · obtain ⟨takes, -⟩ := fits_cons.mp fits
      obtain ⟨d, ds, spelled, _⟩ := first_of_takes takes (ends_of_nil _)
      rw [typeset_cons, gap, spelled] at head
      obtain rfl : d = c := Option.some.inj head
      exact .inr ⟨i, rfl, gap, takes, ds, spelled⟩
    · rw [typeset_cons, List.append_assoc] at head
      exact .inl (blank_head _ (spaced i List.mem_cons_self) gap c head)

theorem digit_head {items : List Item} {tail : List Char} {mode : Mode}
    (fits : Fits mode (tokens items)) (spaced : Spaced items) (blank : StartsBlank tail)
    (first : ∀ i ∈ items.head?, i.gap = [] → i.token.isNumber = false) :
    ∀ c ∈ (typeset items ++ tail).head?, Text.isDecimalDigit c = false := by
  intro c head
  rcases head_cases fits spaced blank head with space | ⟨i, atHead, gap, takes, cs, spelled⟩
  · exact (space_ends space).2.1
  · exact (head_of_takes takes spelled).2.1 (first i atHead gap)

theorem digitCount_eq_zero {rest : List Char}
    (ends : ∀ c ∈ rest.head?, Text.isDecimalDigit c = false) : digitCount rest = 0 := by
  cases rest with
  | nil => rfl
  | cons c cs => simp [digitCount, ends c rfl]

theorem fractionLength_eq_zero {rest : List Char}
    (ends : ∀ cs, rest = '.' :: cs → digitCount cs = 0) : fractionLength rest = 0 := by
  unfold fractionLength
  split
  next cs => rw [if_pos (ends cs rfl)]
  next => rfl

/-- No digits stand behind a point at the start of a layout. -/
theorem fraction_head {items : List Item} {tail : List Char} {mode : Mode}
    (fits : Fits mode (tokens items)) (spaced : Spaced items) (blank : StartsBlank tail)
    (apart : Apart items) (first : ∀ i ∈ items.head?, i.gap = [] → i.token.isNumber = false) :
    fractionLength (typeset items ++ tail) = 0 := by
  apply fractionLength_eq_zero
  intro cs same
  cases items with
  | nil =>
    have := blank '.' (by rw [typeset_nil, List.nil_append] at same; simp [same])
    exact ((space_ends this).2.2.2 rfl).elim
  | cons i is =>
    by_cases gap : i.gap = []
    · obtain ⟨takes, fits⟩ := fits_cons.mp fits
      obtain ⟨d, ds, spelled, _⟩ := first_of_takes takes (ends_of_nil _)
      rw [typeset_cons, gap, spelled] at same
      obtain ⟨rfl, behind⟩ := List.cons.inj same
      have isDot : i.token = .dot := (head_of_takes takes spelled).2.2.2 rfl
      rw [isDot] at spelled
      obtain ⟨-, rfl⟩ := List.cons.inj spelled
      subst behind
      apply digitCount_eq_zero
      refine digit_head fits (spaced_cons.mp spaced).2 blank ?_
      intro j head noGap
      exact (Token.glues_eq_false.mp (apart.rel_head? head noGap)).2.1 isDot
    · have space := blank_head (i.token.text.toList ++ typeset is ++ tail)
        (spaced i List.mem_cons_self) gap
      rw [typeset_cons, List.append_assoc] at same
      rw [same] at space
      exact ((space_ends (space '.' rfl)).2.2.2 rfl).elim

/-- A token ends before a layout that it does not go on into. -/
theorem ends_before {t : Token} {items : List Item} {tail : List Char} {mode : Mode}
    (fits : Fits mode (tokens items)) (spaced : Spaced items) (blank : StartsBlank tail)
    (apart : Apart items) (first : ∀ i ∈ items.head?, i.gap = [] → t.glues i.token = false) :
    EndsBefore (typeset items ++ tail) t := by
  have free := fun i head noGap => Token.glues_eq_false.mp (first i head noGap)
  apply ends_of_head
  · intro solid c head
    rcases head_cases fits spaced blank head with space | ⟨i, atHead, gap, takes, cs, spelled⟩
    · exact (space_ends space).1
    · exact (head_of_takes takes spelled).1 ((free i atHead gap).1 solid)
  · intro number
    have next : ∀ i ∈ items.head?, i.gap = [] → i.token.isNumber = false := by
      intro i head noGap
      have := (free i head noGap).1 (by simp [number])
      exact (Bool.or_eq_false_iff.mp this).2
    exact ⟨digit_head fits spaced blank next, fraction_head fits spaced blank apart next⟩
  · intro listed head
    rcases head_cases fits spaced blank head with space | ⟨i, atHead, gap, takes, cs, spelled⟩
    · exact (space_ends space).2.2.1 rfl
    · exact (free i atHead gap).2.2 listed ((head_of_takes takes spelled).2.2.1 rfl)

/-! ## Reading a layout -/

theorem scan_skip (mode : Mode) (n o : Nat) (cs : List Char) :
    scan mode n o cs = scan mode 0 (o + n) (cs.drop n) := by
  induction cs generalizing n o with
  | nil => simp [scan]
  | cons c cs ih =>
    cases n with
    | zero => rfl
    | succ n => rw [scan, ih, List.drop_succ_cons, Nat.add_assoc, Nat.add_comm 1 n]

theorem scan_gap {gap : List Char} (mode : Mode) (o : Nat) (cs : List Char) (blank : Blank gap) :
    scan mode 0 o (gap ++ cs) = scan mode 0 (o + gap.length) cs := by
  induction gap generalizing o with
  | nil => rfl
  | cons c gap ih =>
    rw [List.cons_append, scan]
    simp only [blank c List.mem_cons_self, if_true]
    rw [ih _ fun d member => blank d (List.mem_cons_of_mem _ member), List.length_cons,
      Nat.add_assoc, Nat.add_comm 1]

theorem scan_first {mode : Mode} {c : Char} {cs : List Char} {t : Token} {n : Nat} (o : Nat)
    (solid : isSpace c = false) (found : first mode c cs = (t, n + 1)) :
    scan mode 0 o (c :: cs) =
      ⟨t, ⟨o, o + (n + 1)⟩⟩ :: scan (mode.after t) 0 (o + (n + 1)) (cs.drop n) := by
  rw [scan]
  simp only [solid, found, Nat.add_sub_cancel, scan_skip _ n, Bool.false_eq_true, if_false]
  rw [Nat.add_assoc, Nat.add_comm 1 n]

/-- The tokens of a layout are found where they stand, and those behind it in the mode that its
last token leaves. -/
theorem scan_typeset_append {items : List Item} {rest : List Char} {mode : Mode} (o : Nat)
    (fits : Fits mode (tokens items)) (spaced : Spaced items) (blank : StartsBlank rest)
    (apart : Apart items) : scan mode 0 o (typeset items ++ rest) =
      place o items ++ scan (mode.afterAll (tokens items)) 0 (o + (typeset items).length) rest := by
  induction items generalizing mode o with
  | nil => rfl
  | cons i is ih =>
    obtain ⟨takes, fits⟩ := fits_cons.mp fits
    obtain ⟨gap, spaced⟩ := spaced_cons.mp spaced
    have ends := ends_before fits spaced blank apart.tail fun j head => apart.rel_head? head
    obtain ⟨c, cs, spelled, solid, found⟩ := first_of_takes takes ends
    rw [typeset_cons, List.append_assoc, scan_gap _ _ _ gap, spelled, List.append_assoc,
      List.cons_append, scan_first _ solid found, List.drop_left, ih _ fits spaced apart.tail, place]
    simp [Item.lexeme, Item.length_chars, spelled, Nat.add_assoc, Nat.add_comm 1]

theorem scan_blank {tail : List Char} (mode : Mode) (o : Nat) (blank : Blank tail) :
    scan mode 0 o tail = [] := by
  have skipped := scan_gap mode o [] blank
  rw [List.append_nil] at skipped
  exact skipped.trans (by rw [scan])

/-- In a layout with white space behind it there are no other tokens. -/
theorem scan_typeset {items : List Item} {tail : List Char} {mode : Mode} (o : Nat)
    (fits : Fits mode (tokens items)) (spaced : Spaced items) (blank : Blank tail)
    (apart : Apart items) : scan mode 0 o (typeset items ++ tail) = place o items := by
  rw [scan_typeset_append o fits spaced (startsBlank_of_blank blank) apart, scan_blank _ _ blank,
    List.append_nil]

/-- White space stands between neighbouring words. -/
def WordsApart (items : List Item) : Prop :=
  items.IsChain fun i j => i.token.isWord = true → j.token.isWord = true → j.gap ≠ []

/-- A word that is found ends where the next character belongs to no word. -/
theorem word_ends {mode : Mode} {c : Char} {cs : List Char} {t : Token} {n : Nat}
    (found : first mode c cs = (t, n)) (word : t.isWord = true) :
    WordEnds ((c :: cs).drop n) := by
  have known : t.isStray = false := by
    cases t with
    | stray c => cases word
    | _ => rfl
  obtain ⟨takes, spelled, pos, _⟩ := first_spec found known
  obtain ⟨d, ds, same, start, _⟩ := ((Mode.takes_word word).mp takes).1
  obtain ⟨n, rfl⟩ := Nat.exists_eq_succ_of_ne_zero (Nat.ne_of_gt pos)
  rw [same, List.take_succ_cons] at spelled
  obtain ⟨rfl, -⟩ := List.cons.inj spelled
  rw [first_word cs start, Prod.mk.injEq, Nat.succ_inj] at found
  rw [List.drop_succ_cons, ← found.2]
  nth_rewrite 2 [← List.takeWhile_append_dropWhile (p := isNameChar) (l := cs)]
  rw [List.drop_left]
  intro e head
  have := List.head?_dropWhile_not isNameChar cs
  rw [Option.mem_def.mp head] at this
  exact this

theorem scan_space {mode : Mode} {c : Char} (o : Nat) (cs : List Char) (space : isSpace c = true) :
    scan mode 0 o (c :: cs) = scan mode 0 (o + 1) cs := by
  rw [scan]
  simp only [space, if_true]

/-- The first token stands behind white space. -/
theorem scan_cons {mode : Mode} {o : Nat} {cs : List Char} {t : Lexeme} {ts : List Lexeme}
    (h : scan mode 0 o cs = t :: ts) : ∃ gap c rest n, cs = gap ++ c :: rest ∧ Blank gap ∧
      isSpace c = false ∧ first mode c rest = (t.token, n) ∧
      t.span = ⟨o + gap.length, o + gap.length + n⟩ ∧
      ts = scan (mode.after t.token) (n - 1) (o + gap.length + 1) rest := by
  induction cs generalizing o with
  | nil => cases h
  | cons c cs ih =>
    cases space : isSpace c with
    | true =>
      rw [scan_space o cs space] at h
      obtain ⟨gap, d, rest, n, rfl, blank, solid, found, span, behind⟩ := ih h
      have shift : o + (c :: gap).length = o + 1 + gap.length := by
        rw [List.length_cons, Nat.add_assoc, Nat.add_comm 1]
      refine ⟨c :: gap, d, rest, n, rfl, List.forall_mem_cons.mpr ⟨space, blank⟩, solid, found, ?_⟩
      rw [shift]
      exact ⟨span, behind⟩
    | false =>
      rw [scan] at h
      simp only [space, Bool.false_eq_true, if_false, List.cons.injEq] at h
      obtain ⟨rfl, rfl⟩ := h
      exact ⟨[], c, cs, (first mode c cs).2, rfl, blank_nil, space, rfl, rfl, rfl⟩

theorem blank_of_scan {mode : Mode} {o : Nat} {cs : List Char} (h : scan mode 0 o cs = []) :
    Blank cs := by
  induction cs generalizing o with
  | nil => exact blank_nil
  | cons c cs ih =>
    cases space : isSpace c with
    | true => exact List.forall_mem_cons.mpr ⟨space, ih (scan_space o cs space ▸ h)⟩
    | false =>
      rw [scan] at h
      simp [space] at h

/-- The tokens at the start of a text, up to some place before the first stray one, form a layout
that the rest of the text is behind. -/
theorem layout_of_scan_append {front back : List Lexeme} {cs : List Char} {mode : Mode} {o : Nat}
    (found : scan mode 0 o cs = front ++ back) (known : ∀ t ∈ front, t.token.isStray = false) :
    ∃ items rest, cs = typeset items ++ rest ∧ front = place o items ∧
      Fits mode (tokens items) ∧ Spaced items ∧ WordsApart items ∧
      scan (mode.afterAll (tokens items)) 0 (o + (typeset items).length) rest = back := by
  induction front generalizing cs mode o with
  | nil => exact ⟨[], cs, rfl, rfl, trivial, nofun, .nil, found⟩
  | cons t front ih =>
    obtain ⟨gap, c, behind, n, rfl, blank, solid, first, span, others⟩ := scan_cons found
    obtain ⟨knownHere, known⟩ := List.forall_mem_cons.mp known
    obtain ⟨takes, spelled, pos, le⟩ := first_spec first knownHere
    obtain ⟨n, rfl⟩ := Nat.exists_eq_succ_of_ne_zero (Nat.ne_of_gt pos)
    rw [Nat.succ_sub_one, scan_skip] at others
    have size : t.token.text.toList.length = n + 1 := by
      rw [spelled, List.length_take, List.length_cons]
      omega
    obtain ⟨items, rest, same, placed, fits, spaced, apart, scanned⟩ := ih others.symm known
    refine ⟨⟨gap, t.token⟩ :: items, rest, ?_, ?_, ⟨takes, fits⟩, spaced_cons.mpr ⟨blank, spaced⟩,
      List.isChain_cons.mpr ⟨?_, apart⟩, ?_⟩
    · rw [typeset_cons, List.append_assoc, List.append_assoc, ← same, spelled,
        ← List.drop_succ_cons (a := c), List.take_append_drop]
    · rw [place, placed]
      refine congrArg₂ List.cons ?_ ?_
      · rw [Item.lexeme, Item.length_chars, size, ← Nat.add_assoc, ← span]
      · rw [Item.length_chars, size, Nat.add_assoc, Nat.add_assoc, Nat.add_comm 1]
    · intro j head word wordNext noGap
      have ends := word_ends first word
      rw [List.drop_succ_cons, same] at ends
      obtain ⟨is, rfl⟩ : ∃ is, items = j :: is := List.head?_eq_some_iff.mp head
      obtain ⟨d, ds, start, isStart, _⟩ := ((Mode.takes_word wordNext).mp fits.1).1
      have := ends d (by rw [typeset_cons, noGap, start]; rfl)
      rw [isNameChar_of_start isStart] at this
      cases this
    · have length : o + (typeset (⟨gap, t.token⟩ :: items)).length =
          o + gap.length + 1 + n + (typeset items).length := by
        simp only [typeset_cons, List.length_append, size]
        omega
      rw [length]
      exact scanned

/-- A text in which only known characters stand is a layout. -/
theorem layout_of_scan {cs : List Char} {mode : Mode} {o : Nat}
    (known : ∀ t ∈ scan mode 0 o cs, t.token.isStray = false) :
    ∃ items tail, cs = typeset items ++ tail ∧ scan mode 0 o cs = place o items ∧
      Fits mode (tokens items) ∧ Spaced items ∧ Blank tail ∧ WordsApart items := by
  obtain ⟨items, tail, same, placed, fits, spaced, apart, behind⟩ :=
    layout_of_scan_append (List.append_nil _).symm known
  exact ⟨items, tail, same, placed, fits, spaced, blank_of_scan behind, apart⟩

end Lexeme

end NullSafeEq
