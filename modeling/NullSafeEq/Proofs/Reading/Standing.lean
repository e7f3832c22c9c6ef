import NullSafeEq.Proofs.Reading.Assembly
import NullSafeEq.Proofs.Tree.Sites

/-!
# Subexpressions in a layout

The items of an expression that has been read stand at the places that its spans say, and so do
those of each of its subexpressions. The text of a node is its layout without the white space in
front.
-/
namespace NullSafeEq

open Lexeme (Mode)

/-- The items stand at an offset and lay out the expression with exact spans. -/
structure Stands (o : Nat) (mode : Mode) (items : List Item) (e : Expr) : Prop where
  written : Written e (place o items)
  lays : LaysOut mode items e
  plain : mode.Plain

/-- The layout without the white space in front. -/
def flush : List Item → List Item
  | [] => []
  | i :: is => ⟨[], i.token⟩ :: is

theorem place_eq_append {o : Nat} {items : List Item} {us vs : List Lexeme}
    (h : place o items = us ++ vs) : ∃ is js, items = is ++ js ∧ place o is = us ∧
      place (o + (typeset is).length) js = vs := by
  induction items generalizing o us with
  | nil =>
    obtain ⟨rfl, rfl⟩ := List.append_eq_nil_iff.mp h.symm
    exact ⟨[], [], rfl, rfl, rfl⟩
  | cons i items ih =>
    cases us with
    | nil => exact ⟨[], i :: items, rfl, rfl, h⟩
    | cons u us =>
      obtain ⟨rfl, rest⟩ := List.cons.inj h
      obtain ⟨is, js, rfl, rfl, rfl⟩ := ih rest
      refine ⟨i :: is, js, rfl, rfl, ?_⟩
      simp [Item.length_chars, Nat.add_assoc]

theorem place_getLast {o : Nat} {items : List Item} (some : items ≠ []) :
    ∃ last ∈ (place o items).getLast?, last.span.stop = o + (typeset items).length := by
  obtain ⟨is, i, rfl⟩ := List.eq_nil_or_concat items |>.resolve_left some
  refine ⟨i.lexeme (o + (typeset is).length), ?_, ?_⟩
  · simp [place]
  · simp [Item.lexeme, Item.length_chars, Nat.add_assoc]

theorem Spelled.span {placed : Option Span → List Lexeme → Prop} {e : Expr} {ts : List Lexeme}
    (h : Spelled placed e ts) : placed e.span ts := by
  cases h with
  | node _ span _ => exact span

namespace Stands
variable {o : Nat} {mode : Mode} {items : List Item} {e c : Expr}

/-- The span of an expression reaches from its first token to its last one. -/
theorem span {i : Item} {is : List Item} (h : Stands o mode (i :: is) e) :
    e.span = some ⟨o + i.gap.length, o + (typeset (i :: is)).length⟩ := by
  obtain ⟨first, atHead, last, atEnd, same⟩ := h.written.span
  obtain ⟨last', atEnd', stop⟩ := place_getLast (o := o) (List.cons_ne_nil i is)
  obtain rfl : last = last' := Option.some.inj (atEnd.symm.trans atEnd')
  obtain rfl : i.lexeme o = first := Option.some.inj atHead
  rw [same, stop]
  rfl

theorem child {i : Nat} (h : Stands o mode items e) (found : e.children[i]? = some c) :
    ∃ before is after mode', items = before ++ (is ++ after) ∧
      Stands (o + (typeset before).length) mode' is c := by
  obtain ⟨us, vs, ws, same, body, plain⟩ := h.written.child h.plain found
  obtain ⟨before, rest, rfl, rfl, sameRest⟩ := place_eq_append same
  obtain ⟨is, after, rfl, rfl, rfl⟩ := place_eq_append sameRest
  have fits := h.lays.fits
  have spaced := h.lays.spaced
  simp only [tokens_append, Lexeme.fits_append, spaced_append] at fits spaced
  rw [place_tokens] at plain
  refine ⟨before, is, after, _, rfl, body, ⟨?_, fits.2.1, spaced.2.1, ?_⟩, plain⟩
  · exact body.relocate (by rw [place_tokens, place_tokens])
  · exact (List.IsChain.right_of_append h.lays.apart).left_of_append

/-- The items of the subexpression at a path. -/
theorem at_path {path : Path} {node : Expr} (h : Stands o mode items e)
    (found : e.at? path = some node) : ∃ before is after mode', items = before ++ (is ++ after) ∧
      Stands (o + (typeset before).length) mode' is node := by
  induction path generalizing o mode items e with
  | nil =>
    cases found
    exact ⟨[], items, [], mode, by simp, h⟩
  | cons i path ih =>
    obtain ⟨c, child, found⟩ := Option.bind_eq_some_iff.mp found
    obtain ⟨before, is, after, mode', rfl, stands⟩ := h.child child
    obtain ⟨before', is', after', mode'', rfl, inner⟩ := ih stands found
    refine ⟨before ++ before', is', after' ++ after, mode'', by simp, ?_⟩
    rwa [typeset_append, List.length_append, ← Nat.add_assoc]

end Stands

/-! ## The text of a node -/

theorem LaysOut.flush {mode : Mode} {items : List Item} {e : Expr} (h : LaysOut mode items e) :
    LaysOut mode (flush items) e := by
  have spelled := h.spelled
  obtain ⟨-, fits, spaced, apart⟩ := h
  cases items with
  | nil => exact ⟨spelled, fits, spaced, apart⟩
  | cons i is =>
    refine ⟨?_, fits, spaced_cons.mpr ⟨blank_nil, (spaced_cons.mp spaced).2⟩, ?_⟩
    · apply spelled.relocate
      rw [place_tokens, place_tokens]
      rfl
    · exact List.isChain_cons.mpr ⟨apart.rel_head?, apart.tail⟩

/-- The text of an expression is its layout without the white space in front. -/
theorem Stands.textOf {t : Tree} {text : String} {front rest : List Char} {mode : Mode}
    {items : List Item} {e : Expr} (h : Stands front.length mode items e)
    (source : t.source = some text) (split : text.toList = front ++ (typeset items ++ rest)) :
    (t.textOf e).toList = typeset (flush items) := by
  cases items with
  | nil => exact (h.lays.ne_nil rfl).elim
  | cons i is =>
    have flushed : text.toList = (front ++ i.gap) ++ (typeset (flush (i :: is)) ++ rest) := by
      simp [split, flush]
    have start : (front ++ i.gap).length = front.length + i.gap.length := List.length_append
    have size : (typeset (flush (i :: is))).length =
        front.length + (typeset (i :: is)).length - (front.length + i.gap.length) := by
      simp only [flush, typeset_cons, List.length_append, List.length_nil]
      omega
    rw [Tree.textOf, source, h.span]
    simp only [Text.slice, String.toList_ofList]
    rw [flushed, List.drop_left' start, List.take_left' size]

/-- The text of a subexpression lays it out. -/
theorem textOf_eq {t : Tree} {text : String} {items : List Item} {tail : List Char} {mode : Mode}
    {path : Path} {node : Expr} (source : t.source = some text)
    (same : text.toList = typeset items ++ tail) (stands : Stands 0 mode items t.root)
    (found : t.root.at? path = some node) :
    ∃ is, LaysOut .operand is node ∧ (t.textOf node).toList = typeset is := by
  obtain ⟨before, is, after, mode', rfl, inner⟩ := stands.at_path found
  rw [Nat.zero_add] at inner
  have split : text.toList = typeset before ++ (typeset is ++ (typeset after ++ tail)) := by
    rw [same, typeset_append, typeset_append, List.append_assoc, List.append_assoc]
  exact ⟨flush is, (inner.lays.plain inner.plain (.inl rfl)).flush, inner.textOf source split⟩

end NullSafeEq
