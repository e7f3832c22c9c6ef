import NullSafeEq.Grammar.Reading
import NullSafeEq.Proofs.Grammar.Neighbours

/-!
# Layouts of expressions

An accepted text is a layout of its expression, and whatever lays out an expression is read as
this expression: only the tokens matter, not the white space around them, as long as some stands
behind `new`.
-/
namespace NullSafeEq

/-! ## Spelling depends on the tokens alone -/

theorem Lexeme.Names.relocate {id : String} {ts us : List Lexeme} (h : Names id ts)
    (same : ts.map token = us.map token) : Names id us := by
  induction h generalizing us with
  | name word =>
    obtain ⟨u, rfl, sameWord⟩ := List.map_eq_singleton_iff.mp same.symm
    exact .name (sameWord.trans word)
  | member front dot word ih =>
    rw [List.map_append] at same
    obtain ⟨fs, rest, rfl, sameFront, sameRest⟩ := List.map_eq_append_iff.mp same.symm
    obtain ⟨d, ds, rfl, sameDot, sameLast⟩ := List.map_eq_cons_iff.mp sameRest
    obtain ⟨u, rfl, sameWord⟩ := List.map_eq_singleton_iff.mp sameLast
    exact .member (ih sameFront.symm) (sameDot.trans dot) (sameWord.trans word)
  | paren opens body closes ih =>
    obtain ⟨l, ls, rfl, sameOpen, sameRest⟩ := List.map_eq_cons_iff.mp same.symm
    rw [List.map_append] at sameRest
    obtain ⟨bs, rest, rfl, sameBody, sameLast⟩ := List.map_eq_append_iff.mp sameRest
    obtain ⟨r, rfl, sameClose⟩ := List.map_eq_singleton_iff.mp sameLast
    exact .paren (sameOpen.trans opens) (ih sameBody.symm) (sameClose.trans closes)

theorem Lexeme.Words.relocate {ws : List String} {ts us : List Lexeme} (h : Words ws ts)
    (same : ts.map token = us.map token) : Words ws us := by
  induction h generalizing us with
  | one word =>
    obtain ⟨u, rfl, sameWord⟩ := List.map_eq_singleton_iff.mp same.symm
    exact .one (sameWord.trans word)
  | more word dot rest ih =>
    obtain ⟨u, us, rfl, sameWord, same⟩ := List.map_eq_cons_iff.mp same.symm
    obtain ⟨d, ds, rfl, sameDot, same⟩ := List.map_eq_cons_iff.mp same
    exact .more (sameWord.trans word) (sameDot.trans dot) (ih same.symm)

theorem Lexeme.NewType.relocate {type : String} {ts us : List Lexeme} (h : NewType type ts)
    (same : ts.map token = us.map token) : NewType type us := by
  obtain ⟨t, words, vs, rfl, create, spelled, rfl⟩ := h
  obtain ⟨u, us, rfl, sameWord, same⟩ := List.map_eq_cons_iff.mp same.symm
  exact ⟨u, words, us, rfl, sameWord.trans create, spelled.relocate same.symm, rfl⟩

section
variable {placed : Option Span → List Lexeme → Prop}

mutual

/-- The same tokens at other places spell the same expression. -/
theorem Spelled.relocate {e : Expr} {ts us : List Lexeme} (h : Spelled placed e ts)
    (same : ts.map Lexeme.token = us.map Lexeme.token) : Spelled Lexeme.Anywhere e us := by
  match h with
  | .node leveled _ parts => exact .node leveled trivial (parts.relocate same)

theorem SpelledParts.relocate {ps : List Part} {ts us : List Lexeme}
    (h : SpelledParts placed ps ts) (same : ts.map Lexeme.token = us.map Lexeme.token) :
    SpelledParts Lexeme.Anywhere ps us := by
  match h with
  | .nil =>
    obtain rfl := List.map_eq_nil_iff.mp same.symm
    exact .nil
  | .token sameToken rest =>
    obtain ⟨u, us, rfl, sameWord, same⟩ := List.map_eq_cons_iff.mp same.symm
    exact .token (sameWord.trans sameToken) (rest.relocate same.symm)
  | .className names rest =>
    rw [List.map_append] at same
    obtain ⟨fs, ls, rfl, sameFront, same⟩ := List.map_eq_append_iff.mp same.symm
    exact .className (names.relocate sameFront.symm) (rest.relocate same.symm)
  | .newType words rest =>
    rw [List.map_append] at same
    obtain ⟨fs, ls, rfl, sameFront, same⟩ := List.map_eq_append_iff.mp same.symm
    exact .newType (words.relocate sameFront.symm) (rest.relocate same.symm)
  | .sub body rest =>
    rw [List.map_append] at same
    obtain ⟨fs, ls, rfl, sameFront, same⟩ := List.map_eq_append_iff.mp same.symm
    exact .sub (body.relocate sameFront.symm) (rest.relocate same.symm)

end

end

/-! ## Reading -/

/-- White space stands behind every `new`. -/
def NewApart (items : List Item) : Prop :=
  items.IsChain fun i j => i.token = .create → j.gap ≠ []

/-- The items lay out an expression, starting in a mode. -/
structure LaysOut (mode : Lexeme.Mode) (items : List Item) (e : Expr) : Prop where
  spelled : Spelled Lexeme.Anywhere e (place 0 items)
  fits : Lexeme.Fits mode (tokens items)
  spaced : Spaced items
  apart : NewApart items

theorem isChain_and {α : Type} {R S : α → α → Prop} {l : List α} (first : l.IsChain R)
    (second : l.IsChain S) : l.IsChain fun a b => R a b ∧ S a b := by
  induction l with
  | nil => exact .nil
  | cons a l ih =>
    refine List.isChain_cons.mpr ⟨?_, ih first.tail second.tail⟩
    exact fun b head => ⟨first.rel_head? head, second.rel_head? head⟩

namespace LaysOut
variable {mode : Lexeme.Mode} {items : List Item} {tail : List Char} {e : Expr}

theorem meets (h : LaysOut mode items e) :
    items.IsChain fun i j => Parser.Meets i.token j.token := by
  have chain := h.spelled.meets
  rw [place_tokens] at chain
  exact List.isChain_of_isChain_map Item.token (fun _ _ => id) chain

theorem unglued (h : LaysOut mode items e) : Apart items := by
  refine (isChain_and h.meets h.apart).imp ?_
  intro i j both noGap
  by_contra glued
  exact both.2 (both.1.1 (by simpa using glued)) noGap

/-- In a text that lays out an expression the tokens are found where they stand. -/
theorem scanned (h : LaysOut .operand items e) (blank : Blank tail) :
    Lexeme.ofText (String.ofList (typeset items ++ tail)) = place 0 items := by
  rw [Lexeme.ofText, String.toList_ofList]
  exact Lexeme.scan_typeset 0 h.fits h.spaced blank h.unglued

/-- A text that lays out an expression is read as this expression. -/
theorem read (h : LaysOut .operand items e) (blank : Blank tail) :
    ∃ t, Tree.read (String.ofList (typeset items ++ tail)) = .ok t ∧
      t.root.unspanned = e.unspanned := by
  obtain ⟨p, e', reads, made, same⟩ := Phrase.found_of_spelled h.spelled
  refine ⟨⟨e', some (String.ofList (typeset items ++ tail))⟩, ?_, same⟩
  rw [Tree.read, h.scanned blank, Parser.parse_of_reads reads]
  simp only [made]

/-- A text with no more white space behind it. -/
theorem read_text {text : String} (h : LaysOut .operand items e)
    (same : typeset items = text.toList) :
    ∃ t, Tree.read text = .ok t ∧ t.root.unspanned = e.unspanned := by
  have read := h.read blank_nil
  rwa [List.append_nil, same, String.ofList_toList] at read

end LaysOut

/-- An accepted text is a layout of its expression with exact spans, and white space behind it. -/
theorem layout_of_read {text : String} {t : Tree} (h : Tree.read text = .ok t) :
    t.source = some text ∧ ∃ items tail, text.toList = typeset items ++ tail ∧ Blank tail ∧
      Written t.root (place 0 items) ∧ LaysOut .operand items t.root := by
  unfold Tree.read at h
  simp only at h
  split at h
  next => cases h
  next p parsed =>
    split at h
    next => cases h
    next => cases h
    next root made =>
      cases h
      refine ⟨rfl, ?_⟩
      have written := Phrase.written_of_reads (Parser.parse_eq_ok_iff.mp parsed) made
      obtain ⟨items, tail, same, placed, fits, spaced, blank, apart⟩ :=
        Lexeme.layout_of_scan written.known
      rw [Lexeme.ofText, placed] at written
      refine ⟨items, tail, same, blank, written,
        ⟨written.relocate rfl, fits, spaced, ?_⟩⟩
      have chain := written.meets
      rw [place_tokens] at chain
      have pairs := List.isChain_of_isChain_map Item.token (fun _ _ => id) chain
      refine (isChain_and pairs apart).imp ?_
      intro i j both create
      exact both.2 (by rw [create]; rfl) (both.1.2 create)

end NullSafeEq
