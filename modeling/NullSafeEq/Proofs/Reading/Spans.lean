import NullSafeEq.Proofs.Lexing.Edges
import NullSafeEq.Proofs.Reading.Standing
import NullSafeEq.Proofs.Tree.Walk

/-!
# Spans of what has been read

The span of a node reaches from the first to the last of its tokens, and what is read from there
is the node again. A child has a token of its parent in front of it or behind it, and the children
of a node stand one behind the other, so the spans are nested just as the nodes are.
-/
namespace NullSafeEq

namespace Expr

/-- The span of the first expression ends no later than that of the second one starts. -/
def Precedes (a b : Expr) : Prop :=
  ∃ x y, a.span = some x ∧ b.span = some y ∧ x.stop ≤ y.start

/-- The span of the second expression lies properly inside that of the first one. -/
def Encloses (a b : Expr) : Prop :=
  ∃ x y, a.span = some x ∧ b.span = some y ∧ x.start ≤ y.start ∧ y.stop ≤ x.stop ∧ y ≠ x

theorem Encloses.trans {a b c : Expr} (h : a.Encloses b) (h' : b.Encloses c) : a.Encloses c := by
  obtain ⟨x, y, spanX, spanY, start, stop, differs⟩ := h
  obtain ⟨y', z, spanY', spanZ, start', stop', differs'⟩ := h'
  obtain rfl := Option.some.inj (spanY.symm.trans spanY')
  refine ⟨x, z, spanX, spanZ, start.trans start', stop'.trans stop, ?_⟩
  rintro rfl
  obtain ⟨first, last⟩ := y
  obtain ⟨first', last'⟩ := z
  simp only [ne_eq, Span.mk.injEq, not_and] at differs start stop start' stop'
  omega

end Expr

/-! ## The pieces of a production -/

/-- The subexpression that a piece is. -/
def Part.sub? : Part → Option Expr
  | .sub _ e => some e
  | _ => none

namespace Expr

theorem subs_furtherArgs (slot : Nat) (es : List Expr) :
    (furtherArgs slot es).filterMap Part.sub? = es := by
  induction es generalizing slot with
  | nil => rfl
  | cons e es ih => exact congrArg (e :: ·) (ih (slot + 1))

theorem subs_bracketed (slot : Nat) (es : List Expr) :
    (bracketed slot es).filterMap Part.sub? = es := by
  rw [bracketed, List.filterMap_cons_none rfl, List.filterMap_append]
  cases es with
  | nil => rfl
  | cons e es =>
    show e :: ((furtherArgs (slot + 1) es).filterMap Part.sub? ++ []) = e :: es
    rw [subs_furtherArgs, List.append_nil]

/-- The subexpressions in the production of a node are its children, in their order. -/
theorem subs_production (e : Expr) : e.production.filterMap Part.sub? = e.children := by
  cases e with
  | self word outer => cases outer <;> rfl
  | call id args | create id args => exact subs_bracketed 0 args
  | invoke q id args => exact congrArg (q :: ·) (subs_bracketed 1 args)
  | _ => rfl

/-- A subexpression is not all that a node is written as. -/
theorem production_ne_singleton (e c : Expr) (slot : Nat) : e.production ≠ [.sub slot c] := by
  cases e with
  | self word outer => cases outer <;> simp [production]
  | _ => simp [production, bracketed]

end Expr

section
variable {placed : Option Span → List Lexeme → Prop} {ps : List Part} {ts us : List Lexeme}

/-- The lexemes of a subexpression among those of the pieces, of which there are more unless it is
the only piece. -/
theorem SpelledParts.sub_inside {c : Expr} (h : SpelledParts placed ps ts)
    (member : c ∈ ps.filterMap Part.sub?) : ∃ us vs ws, ts = us ++ (vs ++ ws) ∧
      Spelled placed c vs ∧ (us ≠ [] ∨ ws ≠ [] ∨ ∃ slot, ps = [.sub slot c]) := by
  induction ps generalizing ts with
  | nil => cases member
  | cons p ps ih =>
    -- whatever stands in front of the piece with the subexpression is not empty
    have later {front back : List Lexeme} (rest : SpelledParts placed ps back)
        (some : front ≠ []) (inside : c ∈ ps.filterMap Part.sub?) :
        ∃ us vs ws, front ++ back = us ++ (vs ++ ws) ∧ Spelled placed c vs ∧
          (us ≠ [] ∨ ws ≠ [] ∨ ∃ slot, p :: ps = [.sub slot c]) := by
      obtain ⟨us, vs, ws, rfl, body, -⟩ := ih rest inside
      exact ⟨front ++ us, vs, ws, (List.append_assoc ..).symm, body,
        .inl (List.append_ne_nil_of_left_ne_nil some _)⟩
    cases h with
    | @token _ l _ _ _ rest => exact later rest (List.cons_ne_nil l []) member
    | className names rest => exact later rest names.ne_nil member
    | newType words rest =>
      obtain ⟨t, _, us, rfl, -⟩ := words
      exact later rest (List.cons_ne_nil t us) member
    | @sub slot e _ us ts body rest =>
      rcases List.mem_cons.mp member with rfl | inside
      · refine ⟨[], us, ts, rfl, body, ?_⟩
        by_cases only : ps = []
        · exact .inr (.inr ⟨slot, by rw [only]⟩)
        · exact .inr (.inl (rest.ne_nil only))
      · exact later rest body.ne_nil inside

/-- Subexpressions that are written one behind the other have spans one behind the other. -/
theorem SpelledParts.precedes (h : SpelledParts Lexeme.Located ps ts) (ordered : Lexeme.Ordered ts) :
    (ps.filterMap Part.sub?).Pairwise Expr.Precedes := by
  induction ps generalizing ts with
  | nil => exact .nil
  | cons p ps ih =>
    cases h with
    | @token _ l _ ts _ rest =>
      have behind : Lexeme.Ordered ([l] ++ ts) := ordered
      exact ih rest behind.right
    | className names rest => exact ih rest ordered.right
    | newType words rest => exact ih rest ordered.right
    | @sub slot e _ us ts body rest =>
      refine List.pairwise_cons.mpr ⟨fun c member => ?_, ih rest ordered.right⟩
      obtain ⟨us', vs, ws, rfl, inner, -⟩ := rest.sub_inside member
      obtain ⟨_, -, last, atEnd, span⟩ := body.span
      obtain ⟨first, atHead, _, -, span'⟩ := inner.span
      refine ⟨_, _, span, span', ordered.before (List.mem_of_getLast? atEnd) ?_⟩
      simp [List.mem_of_mem_head? atHead]

end

/-! ## Nodes that are written in order -/

/-- Lexemes in order spell the expression, and every node has the span of its lexemes. -/
structure WrittenOut (e : Expr) (ts : List Lexeme) : Prop where
  written : Written e ts
  ordered : Lexeme.Ordered ts

namespace WrittenOut
variable {e c a b : Expr} {ts : List Lexeme} {p q : Path}

theorem child (h : WrittenOut e ts) (member : c ∈ e.children) :
    e.Encloses c ∧ ∃ vs, WrittenOut c vs := by
  rw [← e.subs_production] at member
  obtain ⟨us, vs, ws, rfl, body, more⟩ := h.written.parts.sub_inside member
  obtain ⟨x, outer⟩ : ∃ x, e.span = some x := by
    obtain ⟨_, -, _, -, span⟩ := h.written.span
    exact ⟨_, span⟩
  obtain ⟨y, inner⟩ : ∃ y, c.span = some y := by
    obtain ⟨_, -, _, -, span⟩ := body.span
    exact ⟨_, span⟩
  obtain ⟨start, stop, properStart, properStop⟩ :=
    h.ordered.within (outer ▸ h.written.span) (inner ▸ body.span)
  refine ⟨⟨x, y, outer, inner, start, stop, ?_⟩, vs, body, h.ordered.right.left⟩
  rintro rfl
  rcases more with front | back | ⟨slot, only⟩
  · exact Nat.lt_irrefl _ (properStart front)
  · exact Nat.lt_irrefl _ (properStop back)
  · exact e.production_ne_singleton c slot only

theorem children (h : WrittenOut e ts) : e.children.Pairwise Expr.Precedes := by
  rw [← e.subs_production]
  exact h.written.parts.precedes h.ordered

/-- What lies below an expression lies properly inside its span. -/
theorem below (h : WrittenOut e ts) (found : e.at? p = some c) :
    (p = [] ∧ c = e ∨ e.Encloses c) ∧ ∃ vs, WrittenOut c vs := by
  induction p generalizing e ts with
  | nil =>
    cases found
    exact ⟨.inl ⟨rfl, rfl⟩, ts, h⟩
  | cons i p ih =>
    obtain ⟨child, atIndex, found⟩ := Option.bind_eq_some_iff.mp found
    obtain ⟨outer, vs, inside⟩ := h.child (List.mem_of_getElem? atIndex)
    obtain ⟨⟨-, rfl⟩ | inner, rest⟩ := ih inside found
    · exact ⟨.inr outer, rest⟩
    · exact ⟨.inr (outer.trans inner), rest⟩

/-- What lies in two expressions one behind the other lies one behind the other. -/
theorem precedes_below {vs : List Lexeme} {x y : Expr} (h : WrittenOut a ts) (h' : WrittenOut b vs)
    (order : a.Precedes b) (left : a.at? p = some x) (right : b.at? q = some y) :
    x.Precedes y := by
  obtain ⟨r, s, spanA, spanB, le⟩ := order
  have inner : ∃ u, x.span = some u ∧ u.stop ≤ r.stop := by
    obtain ⟨⟨-, rfl⟩ | ⟨r', u, span, spanX, -, stop, -⟩, -⟩ := h.below left
    · exact ⟨r, spanA, Nat.le_refl _⟩
    · cases spanA.symm.trans span
      exact ⟨u, spanX, stop⟩
  have inner' : ∃ u, y.span = some u ∧ s.start ≤ u.start := by
    obtain ⟨⟨-, rfl⟩ | ⟨s', u, span, spanY, start, -, -⟩, -⟩ := h'.below right
    · exact ⟨s, spanB, Nat.le_refl _⟩
    · cases spanB.symm.trans span
      exact ⟨u, spanY, start⟩
  obtain ⟨u, spanX, stop⟩ := inner
  obtain ⟨v, spanY, start⟩ := inner'
  exact ⟨u, v, spanX, spanY, by omega⟩

/-- Of two nodes neither of which lies in the other one precedes the other. -/
theorem apart (h : WrittenOut e ts) (left : e.at? p = some a) (right : e.at? q = some b)
    (noPrefix : ¬ p <+: q) (noPrefix' : ¬ q <+: p) : a.Precedes b ∨ b.Precedes a := by
  induction p generalizing e ts q with
  | nil => exact (noPrefix List.nil_prefix).elim
  | cons i p ih =>
    cases q with
    | nil => exact (noPrefix' List.nil_prefix).elim
    | cons j q =>
    obtain ⟨x, atLeft, left⟩ := Option.bind_eq_some_iff.mp left
    obtain ⟨y, atRight, right⟩ := Option.bind_eq_some_iff.mp right
    obtain ⟨-, us, insideX⟩ := h.child (List.mem_of_getElem? atLeft)
    obtain ⟨-, vs, insideY⟩ := h.child (List.mem_of_getElem? atRight)
    obtain ⟨boundX, sameX⟩ := List.getElem?_eq_some_iff.mp atLeft
    obtain ⟨boundY, sameY⟩ := List.getElem?_eq_some_iff.mp atRight
    have siblings := List.pairwise_iff_getElem.mp h.children
    rcases Nat.lt_trichotomy i j with before | rfl | behind
    · have order := siblings i j boundX boundY before
      rw [sameX, sameY] at order
      exact .inl (insideX.precedes_below insideY order left right)
    · cases atLeft.symm.trans atRight
      exact ih insideX left right
        (fun inside => noPrefix (List.cons_prefix_cons.mpr ⟨rfl, inside⟩))
        (fun inside => noPrefix' (List.cons_prefix_cons.mpr ⟨rfl, inside⟩))
    · have order := siblings j i boundY boundX behind
      rw [sameX, sameY] at order
      exact .inr (insideY.precedes_below insideX order right left)

theorem span (h : WrittenOut e ts) : ∃ x, e.span = some x ∧ x.start < x.stop := by
  obtain ⟨first, atHead, last, atEnd, span⟩ := h.written.span
  refine ⟨_, span, ?_⟩
  have solid := h.ordered.solid first (List.mem_of_mem_head? atHead)
  have stop := h.ordered.le_stop atEnd (List.mem_of_mem_head? atHead)
  exact Nat.lt_of_lt_of_le solid stop

end WrittenOut

/-! ## All nodes of a text -/

/-- An expression in a tree that was read from a text covers a part of the text: this begins and
ends with characters of its first and its last token, which are not blank, and is read as the
expression. -/
structure Tree.Covers (t : Tree) (text : String) (e : Expr) (span : Span) : Prop where
  spans : e.span = some span
  solid : span.start < span.stop
  bounded : span.stop ≤ text.length
  edges : ∃ ts, ts <:+: Lexeme.ofText text ∧ Written e ts ∧
    (∃ first ∈ ts.head?, ∃ c ∈ first.token.text.toList.head?,
      c ∈ (t.textOf e).toList.head? ∧ Text.isBlank c = false) ∧
    ∃ last ∈ ts.getLast?, ∃ c ∈ last.token.text.toList.getLast?,
      c ∈ (t.textOf e).toList.getLast? ∧ Text.isBlank c = false
  again : ∃ t', Tree.read (t.textOf e) = .ok t' ∧ t'.root.unspanned = e.unspanned

/-- A layout without white space in front begins with the first character of its first token. -/
theorem head_flush {items : List Item} {mode : Lexeme.Mode}
    (fits : Lexeme.Fits mode (tokens items)) (o : Nat) (some : items ≠ []) :
    ∃ first ∈ (place o items).head?,
      ∃ c ∈ first.token.text.toList.head?, c ∈ (typeset (flush items)).head? ∧
        Text.isBlank c = false := by
  obtain ⟨i, is, rfl⟩ := List.exists_cons_of_ne_nil some
  obtain ⟨c, cs, spelled⟩ := List.exists_cons_of_ne_nil (Lexeme.text_ne_nil fits.1)
  refine ⟨i.lexeme o, rfl, c, ?_, ?_, (Lexeme.edged_of_takes fits.1).head c ?_⟩
  · exact congrArg List.head? spelled
  · rw [flush, typeset_cons, spelled]
    rfl
  · rw [spelled]
    rfl

/-- A layout ends with the last character of its last token. -/
theorem last_flush {items : List Item} {mode : Lexeme.Mode}
    (fits : Lexeme.Fits mode (tokens items)) (o : Nat) (some : items ≠ []) :
    ∃ last ∈ (place o items).getLast?,
      ∃ c ∈ last.token.text.toList.getLast?, c ∈ (typeset (flush items)).getLast? ∧
        Text.isBlank c = false := by
  obtain ⟨front, j, rfl⟩ := List.eq_nil_or_concat items |>.resolve_left some
  rw [List.concat_eq_append] at fits ⊢
  rw [tokens_append, Lexeme.fits_append] at fits
  have takes := fits.2.1
  have spelled := Lexeme.text_ne_nil takes
  have typed : ∃ before, typeset (flush (front ++ [j])) = before ++ j.token.text.toList := by
    cases front with
    | nil => exact ⟨[], by simp [flush]⟩
    | cons i is => exact ⟨typeset (flush (i :: is)) ++ j.gap, by simp [flush]⟩
  obtain ⟨before, typed⟩ := typed
  have last := List.getLast?_eq_some_getLast spelled
  refine ⟨j.lexeme (o + (typeset front).length), by simp [place], _, last, ?_,
    (Lexeme.edged_of_takes takes).last _ last⟩
  rw [typed, List.getLast?_append_of_ne_nil _ spelled]
  exact last

section
variable {text : String} {t : Tree} {a b s : Site}

theorem covers_of_read (read : Tree.read text = .ok t) (top : s.top = t.root) :
    ∃ span, t.Covers text s.node span := by
  obtain ⟨source, items, tail, same, blank, written, lays⟩ := layout_of_read read
  have stands : Stands 0 .operand items t.root := ⟨written, lays, .inl rfl⟩
  obtain ⟨before, is, after, mode', rfl, inner⟩ := stands.at_path (top ▸ s.at?_path)
  rw [Nat.zero_add] at inner
  have split : text.toList = typeset before ++ (typeset is ++ (typeset after ++ tail)) := by
    rw [same, typeset_append, typeset_append, List.append_assoc, List.append_assoc]
  have shown := inner.textOf source split
  have scanned := lays.scanned blank
  rw [← same, String.ofList_toList] at scanned
  have some := inner.lays.ne_nil
  obtain ⟨i, rest, same'⟩ := List.exists_cons_of_ne_nil some
  refine ⟨_, by rw [same'] at inner; exact inner.span, ?_, ?_, ?_, ?_⟩
  · have solid := Lexeme.text_ne_nil (same' ▸ inner.lays.fits).1
    have size := List.length_pos_iff.mpr solid
    simp only [typeset_cons, List.length_append]
    omega
  · have size := congrArg List.length split
    rw [String.length_toList, same'] at size
    simp only [List.length_append] at size ⊢
    omega
  · refine ⟨place (typeset before).length is, ?_, inner.written, ?_, ?_⟩
    · rw [scanned, place_append, place_append, Nat.zero_add, ← List.append_assoc]
      exact List.infix_append _ _ _
    · rw [shown]
      exact head_flush inner.lays.fits _ some
    · rw [shown]
      exact last_flush inner.lays.fits _ some
  · exact (inner.lays.plain inner.plain (.inl rfl)).flush.read_text shown.symm

theorem writtenOut_of_read (read : Tree.read text = .ok t) : ∃ ts, WrittenOut t.root ts := by
  obtain ⟨-, items, -, -, -, written, lays⟩ := layout_of_read read
  exact ⟨_, written, (Lexeme.ordered_place lays.fits 0).1⟩

/-- A node that lies above another one encloses it. -/
theorem encloses_of_isAbove (read : Tree.read text = .ok t) (topA : a.top = t.root)
    (topB : b.top = t.root) (above : a.isAbove b = true) : a.node.Encloses b.node := by
  obtain ⟨ts, whole⟩ := writtenOut_of_read read
  obtain ⟨⟨rest, path⟩, differs⟩ := isAbove_iff.mp above
  obtain ⟨-, us, insideA⟩ := whole.below (topA ▸ a.at?_path)
  have found : a.node.at? rest = some b.node := by
    have := b.at?_path
    rw [topB, ← path, Expr.at?_append, ← topA, a.at?_path] at this
    exact this
  obtain ⟨⟨rfl, -⟩ | encloses, -⟩ := insideA.below found
  · rw [List.append_nil] at path
    exact (differs path).elim
  · exact encloses

theorem Text.infix_slice {start stop start' stop' : Nat} (after : start ≤ start')
    (before : stop' ≤ stop) :
    (Text.slice text start' stop').toList <:+: (Text.slice text start stop).toList := by
  have inner : (Text.slice text start' stop').toList =
      ((Text.slice text start stop).toList.drop (start' - start)).take (stop' - start') := by
    simp only [Text.slice, String.toList_ofList, List.drop_take, List.drop_drop, List.take_take]
    congr 1
    · omega
    · rw [Nat.add_sub_cancel' after]
  rw [inner]
  exact (List.take_prefix _ _).isInfix.trans (List.drop_suffix _ _).isInfix

/-- The text of what lies below a node is a part of the text of the node. -/
theorem infix_textOf (read : Tree.read text = .ok t) (top : a.top = t.root) (within : b.Within a) :
    (t.textOf b.node).toList <:+: (t.textOf a.node).toList := by
  by_cases same : a = b
  · rw [same]
  · obtain ⟨x, y, spanX, spanY, start, stop, -⟩ :=
      encloses_of_isAbove read top (within.1.trans top) (within.isAbove same)
    obtain ⟨source, -⟩ := layout_of_read read
    simp only [Tree.textOf, source, spanX, spanY]
    exact Text.infix_slice start stop

/-- Of two nodes neither of which lies above the other one precedes the other. -/
theorem precedes_of_apart (read : Tree.read text = .ok t) (topA : a.top = t.root)
    (topB : b.top = t.root) (differs : a ≠ b) (notAbove : a.isAbove b = false)
    (notBelow : b.isAbove a = false) : a.node.Precedes b.node ∨ b.node.Precedes a.node := by
  obtain ⟨ts, whole⟩ := writtenOut_of_read read
  have paths : a.path ≠ b.path := fun same => differs (Site.eq_of_path (topA.trans topB.symm) same)
  refine whole.apart (topA ▸ a.at?_path) (topB ▸ b.at?_path) (fun inside => ?_) fun inside => ?_
  · rw [isAbove_iff.mpr ⟨inside, paths⟩] at notAbove
    cases notAbove
  · rw [isAbove_iff.mpr ⟨inside, paths.symm⟩] at notBelow
    cases notBelow

/-- A node encloses only what it lies above. -/
theorem isAbove_of_encloses (read : Tree.read text = .ok t) (topA : a.top = t.root)
    (topB : b.top = t.root) (encloses : a.node.Encloses b.node) : a.isAbove b = true := by
  obtain ⟨ts, whole⟩ := writtenOut_of_read read
  obtain ⟨-, us, insideA⟩ := whole.below (topA ▸ a.at?_path)
  obtain ⟨-, vs, insideB⟩ := whole.below (topB ▸ b.at?_path)
  obtain ⟨x, spanA, solidA⟩ := insideA.span
  obtain ⟨y, spanB, solidB⟩ := insideB.span
  obtain ⟨x', y', spanA', spanB', start, stop, differs⟩ := encloses
  cases spanA.symm.trans spanA'
  cases spanB.symm.trans spanB'
  by_contra notAbove
  rw [Bool.not_eq_true] at notAbove
  by_cases same : a = b
  · subst same
    exact differs (Option.some.inj (spanB.symm.trans spanA))
  cases below : b.isAbove a with
  | true =>
    obtain ⟨y', x', spanB', spanA', start', stop', -⟩ := encloses_of_isAbove read topB topA below
    cases spanA.symm.trans spanA'
    cases spanB.symm.trans spanB'
    obtain ⟨first, last⟩ := x
    obtain ⟨first', last'⟩ := y
    simp only [ne_eq, Span.mk.injEq, not_and] at differs start stop start' stop'
    omega
  | false =>
    rcases precedes_of_apart read topA topB same notAbove below with
      ⟨x', y', spanA', spanB', le⟩ | ⟨y', x', spanB', spanA', le⟩
    · cases spanA.symm.trans spanA'
      cases spanB.symm.trans spanB'
      omega
    · cases spanA.symm.trans spanA'
      cases spanB.symm.trans spanB'
      omega

/-- In a tree that has been read every node covers a part of the text, from which it is read again.
A node encloses its children, which stand one behind the other. Of any two nodes one lies above the
other just when it encloses the other, and unless one does one of them precedes the other. -/
theorem spans_of_read (read : Tree.read text = .ok t) :
    (∀ s ∈ t.sites, ∃ span, t.Covers text s.node span) ∧
    (∀ s ∈ t.sites, (∀ c ∈ s.children, s.node.Encloses c.node) ∧
      s.children.Pairwise fun a b => a.node.Precedes b.node) ∧
    ∀ a ∈ t.sites, ∀ b ∈ t.sites, (a.isAbove b = true ↔ a.node.Encloses b.node) ∧
      (a ≠ b → a.isAbove b = false → b.isAbove a = false →
        a.node.Precedes b.node ∨ b.node.Precedes a.node) := by
  refine ⟨fun s member => ?_, fun s member => ?_, fun a memberA b memberB => ⟨⟨?_, ?_⟩, ?_⟩⟩
  · exact covers_of_read read (Expr.top_of_mem_sites member)
  · obtain ⟨ts, whole⟩ := writtenOut_of_read read
    obtain ⟨-, us, inside⟩ := whole.below (Expr.top_of_mem_sites member ▸ s.at?_path)
    refine ⟨fun c child => ?_, ?_⟩
    · obtain ⟨⟨f, e⟩, opening, rfl⟩ := List.mem_map.mp child
      exact (inside.child (Expr.mem_children_of_mem_openings opening)).1
    · have siblings := inside.children
      rw [← Expr.openings_snd, List.pairwise_map] at siblings
      exact List.pairwise_map.mpr siblings
  · exact encloses_of_isAbove read (Expr.top_of_mem_sites memberA) (Expr.top_of_mem_sites memberB)
  · exact isAbove_of_encloses read (Expr.top_of_mem_sites memberA) (Expr.top_of_mem_sites memberB)
  · exact precedes_of_apart read (Expr.top_of_mem_sites memberA) (Expr.top_of_mem_sites memberB)

end

/-- The argument of `f( (a), b )` has the text `(a)`. -/
theorem spans_of_read_argument : ∃ t s, Tree.read "f( (a), b )" = .ok t ∧ s ∈ t.sites ∧
    s.node.unspanned = .paren (.name "a" none) none ∧ t.textOf s.node = "(a)" ∧
    (∃ span, t.Covers "f( (a), b )" s.node span) ∧ t.root.Encloses s.node := by
  let argument := Expr.paren (.name "a" (some ⟨4, 5⟩)) (some ⟨3, 6⟩)
  let other := Expr.name "b" (some ⟨8, 9⟩)
  have read : Tree.read "f( (a), b )" =
    .ok ⟨.call "f" [argument, other] (some ⟨0, 11⟩), some "f( (a), b )"⟩ := rfl
  let site : Site := ⟨argument, [.argOfCall "f" [] [other] (some ⟨0, 11⟩)]⟩
  obtain ⟨covered, -, nested⟩ := spans_of_read read
  have inside := Expr.mem_sites_iff.mpr
    (show site.top = .call "f" [argument, other] (some ⟨0, 11⟩) from rfl)
  have root := Expr.mem_sites_iff.mpr (Site.top_root (.call "f" [argument, other] (some ⟨0, 11⟩)))
  exact ⟨_, site, read, inside, rfl, rfl, covered site inside,
    (nested _ root site inside).1.mp rfl⟩

end NullSafeEq
