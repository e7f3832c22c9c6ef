import NullSafeEq.Proofs.Reading.Typeset

/-!
# White space between tokens

More white space in front of a token, or behind the last one, does not change what a text is read
as: the tokens are the same and only their places move.
-/
namespace NullSafeEq

/-- The characters from an offset on with a run of others in front of each of them; `runs` has the
run for every offset. -/
def pushed (runs : Nat → List Char) (o : Nat) : List Char → List Char
  | [] => []
  | c :: cs => runs o ++ c :: pushed runs (o + 1) cs

/-- The text with a run of characters at every offset, that of its end included. -/
def loosened (runs : Nat → List Char) (text : String) : String :=
  String.ofList (pushed runs 0 text.toList ++ runs text.toList.length)

/-- The runs leave the inside of lexemes alone. -/
def Spares (runs : Nat → List Char) (ts : List Lexeme) : Prop :=
  ∀ t ∈ ts, ∀ o, t.span.start < o → o < t.span.stop → runs o = []

section
variable {runs : Nat → List Char}

theorem pushed_append (o : Nat) (cs ds : List Char) :
    pushed runs o (cs ++ ds) = pushed runs o cs ++ pushed runs (o + cs.length) ds := by
  induction cs generalizing o with
  | nil => rfl
  | cons c cs ih =>
    rw [List.cons_append, pushed, ih, pushed, List.length_cons, List.append_assoc, List.cons_append,
      Nat.add_assoc, Nat.add_comm 1]

theorem pushed_of_nil {o : Nat} {cs : List Char}
    (none : ∀ x, o ≤ x → x < o + cs.length → runs x = []) : pushed runs o cs = cs := by
  induction cs generalizing o with
  | nil => rfl
  | cons c cs ih =>
    rw [List.length_cons] at none
    have here : runs o = [] := none o (by omega) (by omega)
    have later : pushed runs (o + 1) cs = cs := ih fun x low high => none x (by omega) (by omega)
    rw [pushed, here, later, List.nil_append]

/-- Characters that are spared move as a whole. -/
theorem pushed_solid {o : Nat} {cs : List Char} (some : cs ≠ [])
    (spared : ∀ x, o < x → x < o + cs.length → runs x = []) :
    pushed runs o cs = runs o ++ cs := by
  obtain ⟨c, cs, rfl⟩ := List.exists_cons_of_ne_nil some
  rw [List.length_cons] at spared
  rw [pushed, pushed_of_nil fun x low high => spared x (by omega) (by omega)]

theorem blank_append {gap more : List Char} (blank : Blank gap) (blank' : Blank more) :
    Blank (gap ++ more) := List.forall_mem_append.mpr ⟨blank, blank'⟩

theorem blank_pushed (blanks : ∀ o, Blank (runs o)) {gap : List Char} (blank : Blank gap)
    (o : Nat) : Blank (pushed runs o gap) := by
  induction gap generalizing o with
  | nil => exact blank_nil
  | cons c gap ih =>
    obtain ⟨here, later⟩ := List.forall_mem_cons.mp blank
    exact blank_append (blanks o) (List.forall_mem_cons.mpr ⟨here, ih later (o + 1)⟩)

/-! ## Layouts -/

/-- The layout from an offset on with the runs added to the white space in front of its tokens. -/
def loosenedItems (runs : Nat → List Char) (o : Nat) : List Item → List Item
  | [] => []
  | i :: is => ⟨pushed runs o i.gap ++ runs (o + i.gap.length), i.token⟩ ::
      loosenedItems runs (o + i.chars.length) is

@[simp] theorem tokens_loosened (o : Nat) (items : List Item) :
    tokens (loosenedItems runs o items) = tokens items := by
  induction items generalizing o with
  | nil => rfl
  | cons i is ih => rw [loosenedItems, tokens_cons, tokens_cons, ih]

theorem spaced_loosened (blanks : ∀ o, Blank (runs o)) {items : List Item} (spaced : Spaced items)
    (o : Nat) : Spaced (loosenedItems runs o items) := by
  induction items generalizing o with
  | nil => exact spaced_nil
  | cons i is ih =>
    obtain ⟨gap, later⟩ := spaced_cons.mp spaced
    exact spaced_cons.mpr ⟨blank_append (blank_pushed blanks gap o) (blanks _), ih later _⟩

/-- A token with white space in front of it keeps some. -/
theorem gap_loosened {o : Nat} {i j : Item} {items : List Item} (head : i ∈ items.head?)
    (head' : j ∈ (loosenedItems runs o items).head?) (some : i.gap ≠ []) : j.gap ≠ [] := by
  obtain ⟨is, rfl⟩ := List.head?_eq_some_iff.mp head
  obtain rfl := Option.some.inj head'
  obtain ⟨c, gap, same⟩ := List.exists_cons_of_ne_nil some
  simp [same, pushed]

theorem newApart_loosened {items : List Item} (apart : NewApart items) (o : Nat) :
    NewApart (loosenedItems runs o items) := by
  induction items generalizing o with
  | nil => exact .nil
  | cons i is ih =>
    refine List.isChain_cons.mpr ⟨fun j head create => ?_, ih apart.tail _⟩
    cases is with
    | nil => cases head
    | cons k is => exact gap_loosened (i := k) rfl head (apart.rel_head? rfl create)

/-- The layout with more white space is the text with more white space. -/
theorem typeset_loosened {items : List Item} {mode : Lexeme.Mode}
    (fits : Lexeme.Fits mode (tokens items)) {o : Nat} (spares : Spares runs (place o items)) :
    typeset (loosenedItems runs o items) = pushed runs o (typeset items) := by
  induction items generalizing mode o with
  | nil => rfl
  | cons i is ih =>
    obtain ⟨takes, fits⟩ := Lexeme.fits_cons.mp fits
    obtain ⟨here, later⟩ := List.forall_mem_cons.mp spares
    have token : pushed runs (o + i.gap.length) i.token.text.toList =
        runs (o + i.gap.length) ++ i.token.text.toList := by
      refine pushed_solid (Lexeme.text_ne_nil takes) fun x low high => here x low ?_
      show x < o + i.chars.length
      rw [Item.length_chars]
      omega
    rw [loosenedItems, typeset_cons, typeset_cons, pushed_append, pushed_append, token,
      ih fits later, Item.length_chars]
    simp only [List.append_assoc, Nat.add_assoc]

theorem LaysOut.loosened {mode : Lexeme.Mode} {items : List Item} {e : Expr}
    (h : LaysOut mode items e) (blanks : ∀ o, Blank (runs o)) (o : Nat) :
    LaysOut mode (loosenedItems runs o items) e where
  spelled := h.spelled.relocate (by rw [place_tokens, place_tokens, tokens_loosened])
  fits := by
    rw [tokens_loosened]
    exact h.fits
  spaced := spaced_loosened blanks h.spaced o
  apart := newApart_loosened h.apart o

end

/-! ## The texts of the tokens -/

/-- The part of a text that a lexeme was read from. -/
def Lexeme.textIn (text : String) (t : Lexeme) : String :=
  Text.slice text t.span.start t.span.stop

/-- In a layout the lexemes have the texts of their tokens. -/
theorem textIn_place {text : String} {front tail : List Char} {items : List Item}
    (same : text.toList = front ++ (typeset items ++ tail)) :
    (place front.length items).map (Lexeme.textIn text) = (tokens items).map Token.text := by
  induction items generalizing front with
  | nil => rfl
  | cons i is ih =>
    have later : text.toList = (front ++ i.chars) ++ (typeset is ++ tail) := by
      simp [same, Item.chars]
    have here : (i.lexeme front.length).textIn text = i.token.text := by
      have cut : text.toList =
          (front ++ i.gap) ++ (i.token.text.toList ++ (typeset is ++ tail)) := by
        simp [same]
      have size : front.length + i.chars.length - (front.length + i.gap.length) =
          i.token.text.toList.length := by
        rw [Item.length_chars]
        omega
      rw [Lexeme.textIn, Text.slice, Item.lexeme, size, cut, List.drop_left' List.length_append,
        List.take_left, String.ofList_toList]
    rw [place, List.map_cons, here, tokens_cons, List.map_cons, ← ih later, List.length_append]

/-! ## Reading -/

/-- An accepted text is read as the same expression with more white space in front of its tokens and
behind the last one. The tokens are the same, and so are their texts. -/
theorem read_loosened {text : String} {t : Tree} (read : Tree.read text = .ok t)
    {runs : Nat → List Char} (blanks : ∀ o, Blank (runs o))
    (spares : Spares runs (Lexeme.ofText text)) :
    (∃ t', Tree.read (loosened runs text) = .ok t' ∧ t'.root.unspanned = t.root.unspanned) ∧
    (Lexeme.ofText (loosened runs text)).map Lexeme.token =
      (Lexeme.ofText text).map Lexeme.token ∧
    (Lexeme.ofText (loosened runs text)).map (Lexeme.textIn (loosened runs text)) =
      (Lexeme.ofText text).map (Lexeme.textIn text) := by
  obtain ⟨-, items, tail, same, blank, -, lays⟩ := layout_of_read read
  have scanned := lays.scanned blank
  rw [← same, String.ofList_toList] at scanned
  rw [scanned] at spares ⊢
  let tail' := pushed runs (typeset items).length tail ++ runs text.toList.length
  have blank' : Blank tail' := blank_append (blank_pushed blanks blank _) (blanks _)
  have lays' := lays.loosened blanks 0
  have text' : loosened runs text =
      String.ofList (typeset (loosenedItems runs 0 items) ++ tail') := by
    rw [loosened, typeset_loosened lays.fits spares, ← List.append_assoc]
    rw [← Nat.zero_add (typeset items).length, ← pushed_append, ← same]
  have scanned' := lays'.scanned blank'
  rw [← text'] at scanned'
  refine ⟨?_, ?_, ?_⟩
  · rw [text']
    exact lays'.read blank'
  · rw [scanned', place_tokens, place_tokens, tokens_loosened]
  · have texts := @textIn_place text [] tail items same
    have same' : (loosened runs text).toList = typeset (loosenedItems runs 0 items) ++ tail' := by
      rw [text', String.toList_ofList]
    have texts' := @textIn_place (loosened runs text) [] tail' (loosenedItems runs 0 items) same'
    rw [scanned']
    exact texts'.trans ((congrArg _ (tokens_loosened 0 items)).trans texts.symm)

/-- Three runs in `a!=1.b`, one of them between a number and a dot and one at the end. -/
theorem read_loosened_number :
    let runs : Nat → List Char := fun o =>
      if o = 1 then [' ', '\t'] else if o = 4 then ['\n'] else if o = 6 then ['\x0c'] else []
    loosened runs "a!=1.b" = "a \t!=1\n.b\x0c" ∧
      ∃ t t', Tree.read "a!=1.b" = .ok t ∧ Tree.read "a \t!=1\n.b\x0c" = .ok t' ∧
        t'.root.unspanned = t.root.unspanned := by
  intro runs
  have text : loosened runs "a!=1.b" = "a \t!=1\n.b\x0c" := by decide
  have blanks (o : Nat) : Blank (runs o) := by
    simp only [runs]
    split_ifs <;> simp [Blank, Lexeme.isSpace]
  have lexemes : Lexeme.ofText "a!=1.b" = [⟨.name "a", ⟨0, 1⟩⟩, ⟨.op .ne, ⟨1, 3⟩⟩,
      ⟨.literal .number "1", ⟨3, 4⟩⟩, ⟨.dot, ⟨4, 5⟩⟩, ⟨.name "b", ⟨5, 6⟩⟩] := rfl
  have spares : Spares runs (Lexeme.ofText "a!=1.b") := by
    intro t member o low high
    -- only `!=` has an inside, the offset 2
    have inside : o = 2 := by
      simp only [lexemes, List.mem_cons, List.not_mem_nil, or_false] at member
      rcases member with rfl | rfl | rfl | rfl | rfl <;> simp only at low high <;> omega
    rw [inside]
    rfl
  have read : ∃ t, Tree.read "a!=1.b" = .ok t := ⟨_, rfl⟩
  obtain ⟨t, read⟩ := read
  obtain ⟨⟨t', read', same⟩, -⟩ := read_loosened read blanks spares
  rw [text] at read'
  exact ⟨text, t, t', read, read', same⟩

end NullSafeEq
