import NullSafeEq.Proofs.Reading.Standing
import NullSafeEq.Proofs.Rewriting.Rendering
import NullSafeEq.Proofs.Rewriting.Splice

/-!
# A spliced text lays out the grafted expression

Replacing the ranges of some nodes by texts that lay out other expressions gives a layout of the
expression in which these have been grafted. The white space outside the ranges stays.
-/
namespace NullSafeEq

open Lexeme (Mode)

/-- The cut replaces an outermost patched node. -/
def CutAt (patch : Patch) (e : Expr) (c : Cut) : Prop :=
  ∃ node, e.at? c.path = some node ∧ node.span = some c.span ∧ patch c.path = some c.text ∧
    ∀ p, p <+: c.path → p ≠ c.path → patch p = none

/-- The cut seen from the parent of the node with index `i` in which it was found. -/
def Cut.push (i : Nat) (c : Cut) : Cut := { c with path := i :: c.path }

theorem Spliced.map_push {o : Nat} {old new : List Char} {cuts : List Cut} (i : Nat)
    (h : Spliced o old new cuts) : Spliced o old new (cuts.map (Cut.push i)) := by
  induction h with
  | keep o kept => exact .keep o kept
  | @swap o kept cut old new c cuts range some rest ih =>
    exact .swap (c := c.push i) range some ih

theorem cutAt_root {patch : Patch} {e : Expr} {text : String} {span : Span} {c : Cut}
    (patched : patch [] = some text) (spanned : e.span = some span) :
    CutAt patch e c ↔ c = ⟨[], span, text⟩ := by
  obtain ⟨path, range, replacement⟩ := c
  constructor
  · rintro ⟨node, found, located, replaced, outer⟩
    cases path with
    | nil =>
      cases found
      cases spanned.symm.trans located
      cases patched.symm.trans replaced
      rfl
    | cons i path =>
      have := outer [] (List.nil_prefix) (List.cons_ne_nil i path).symm
      cases patched.symm.trans this
  · rintro ⟨⟩
    exact ⟨e, rfl, spanned, patched, fun p below differs => (differs (List.prefix_nil.mp below)).elim⟩

theorem cutAt_child {patch : Patch} {e : Expr} {c : Cut} (unpatched : patch [] = none) :
    CutAt patch e c ↔ ∃ i child inner, e.children[i]? = some child ∧
      CutAt (patch.under i) child inner ∧ c = inner.push i := by
  constructor
  · rintro ⟨node, found, located, replaced, outer⟩
    obtain ⟨path, range, text⟩ := c
    cases path with
    | nil => cases unpatched.symm.trans replaced
    | cons i path =>
      obtain ⟨child, step, found⟩ := Option.bind_eq_some_iff.mp found
      refine ⟨i, child, ⟨path, range, text⟩, step, ⟨node, found, located, replaced, ?_⟩, rfl⟩
      intro p below differs
      exact outer (i :: p) (List.cons_prefix_cons.mpr ⟨rfl, below⟩)
        fun same => differs (List.cons.inj same).2
  · rintro ⟨i, child, inner, step, ⟨node, found, located, replaced, outer⟩, rfl⟩
    refine ⟨node, ?_, located, replaced, ?_⟩
    · simp only [Cut.push, Expr.at?, step, Option.bind_some, found]
    · intro p below differs
      cases p with
      | nil => exact unpatched
      | cons j p =>
        obtain ⟨rfl, inside⟩ := List.cons_prefix_cons.mp below
        exact outer p inside fun same => differs (by rw [same]; rfl)

/-- The text of the expression spliced at its patched nodes lays out the grafted expression. -/
def Regrows (patch : Patch) (g : Grafts) (e : Expr) : Prop :=
  ∀ o mode items, Stands o mode items e → ∃ items' cuts, LaysOut mode items' (e.graft g) ∧
    Spliced o (typeset items) (typeset items') cuts ∧ ∀ c, c ∈ cuts ↔ CutAt patch e c

/-- The same for pieces of a production that leave the next token to the mode `next`. -/
def RegrowsParts (patch : Patch) (g : Grafts) (o : Nat) (mode : Mode) (items : List Item)
    (ps : List Part) (next : Mode) : Prop :=
  ∃ items' cuts, LaysParts mode items' (ps.map (Part.mapSub fun i c => c.graft (g.under i))) next ∧
    Spliced o (typeset items) (typeset items') cuts ∧
    ∀ c, c ∈ cuts ↔ ∃ i child inner, .sub i child ∈ ps ∧
      CutAt (patch.under i) child inner ∧ c = inner.push i

section
variable {placed : Option Span → List Lexeme → Prop} {ts : List Lexeme} {mode : Mode}

theorem SpelledParts.token_eq {t : Token} (h : SpelledParts placed [.token t] ts) :
    ts.map Lexeme.token = [t] := by
  obtain ⟨l, rfl, same⟩ := h.last_token
  simp [same]

theorem SpelledParts.className_after {text : String} (h : SpelledParts placed [.className text] ts)
    (plain : mode.Plain) : mode.afterAll (ts.map Lexeme.token) = .operator := by
  obtain ⟨us, _, rfl, names, none⟩ := h.className_inv
  cases none
  rw [List.append_nil]
  exact names.after plain

theorem SpelledParts.newType_after {type : String} (h : SpelledParts placed [.newType type] ts) :
    mode.afterAll (ts.map Lexeme.token) = .typeTail := by
  obtain ⟨_, _, rfl, ⟨t, _, us, rfl, create, spelled, -⟩, none⟩ := h.newType_inv
  cases none
  rw [List.append_nil, List.map_cons, Lexeme.afterAll_cons, create]
  exact after_words spelled

end

section
variable {patch : Patch} {g : Grafts} {ps : List Part} {o : Nat} {mode next last : Mode}
  {items js : List Item}

/-- A piece that is no subexpression stays. -/
theorem RegrowsParts.keep {p : Part} (kept : LaysParts mode items [p] next)
    (ends : ∀ i ∈ items.getLast?, i.token ≠ .create) (noSub : ∀ i c, p ≠ .sub i c)
    (rest : RegrowsParts patch g (o + (typeset items).length) next js ps last) :
    RegrowsParts patch g o mode (items ++ js) (p :: ps) last := by
  obtain ⟨items', cuts, lays, spliced, listed⟩ := rest
  have same : p.mapSub (fun i c => c.graft (g.under i)) = p := by
    cases p with
    | sub i c => exact (noSub i c rfl).elim
    | _ => rfl
  refine ⟨items ++ items', cuts, ?_, ?_, ?_⟩
  · rw [List.map_cons, same]
    exact kept.join lays ends
  · rw [typeset_append, typeset_append]
    exact spliced.keep_append (typeset items)
  · intro c
    rw [listed]
    simp only [List.mem_cons, (noSub _ _).symm, false_or]

/-- A subexpression is spliced by itself. -/
theorem RegrowsParts.sub {i : Nat} {e : Expr} (stands : Stands o mode items e)
    (body : Regrows (patch.under i) (g.under i) e)
    (rest : RegrowsParts patch g (o + (typeset items).length) .operator js ps last) :
    RegrowsParts patch g o mode (items ++ js) (.sub i e :: ps) last := by
  obtain ⟨items', cuts, lays, spliced, listed⟩ := rest
  obtain ⟨front, frontCuts, frontLays, frontSpliced, frontListed⟩ := body o mode items stands
  refine ⟨front ++ items', frontCuts.map (Cut.push i) ++ cuts, ?_, ?_, ?_⟩
  · exact (frontLays.sub stands.plain i).append lays nofun
  · rw [typeset_append, typeset_append]
    exact (frontSpliced.map_push i).append spliced
  · intro c
    rw [List.mem_append, List.mem_map, listed]
    constructor
    · rintro (⟨inner, member, rfl⟩ | ⟨j, child, inner, member, cut, rfl⟩)
      · exact ⟨i, e, inner, List.mem_cons_self, (frontListed inner).mp member, rfl⟩
      · exact ⟨j, child, inner, List.mem_cons_of_mem _ member, cut, rfl⟩
    · rintro ⟨j, child, inner, member, cut, rfl⟩
      rcases List.mem_cons.mp member with same | member
      · cases same
        exact .inl ⟨inner, (frontListed inner).mpr cut, rfl⟩
      · exact .inr ⟨j, child, inner, member, cut, rfl⟩

theorem regrows_parts {front : Prop}
    (parts : SpelledParts Lexeme.Located ps (place o items)) (lays : LaysParts mode items ps next)
    (led : Led front ps) (start : front → mode.Plain)
    (each : ∀ i c, .sub i c ∈ ps → Regrows (patch.under i) (g.under i) c) :
    RegrowsParts patch g o mode items ps next := by
  induction ps generalizing front o mode items with
  | nil =>
    cases items with
    | nil => exact ⟨[], [], lays, .keep _ _, by simp⟩
    | cons i is => cases parts
  | cons p ps ih =>
    have each' := fun i c member => each i c (List.mem_cons_of_mem p member)
    obtain ⟨-, fits, spaced, apart, leads⟩ := lays
    have parts' : SpelledParts Lexeme.Located ([p] ++ ps) (place o items) := parts
    obtain ⟨us, vs, same, first, rest⟩ := parts'.split
    obtain ⟨is, js, rfl, rfl, rfl⟩ := place_eq_append same
    rw [tokens_append, Lexeme.fits_append] at fits
    rw [tokens_append, Lexeme.afterAll_append] at leads
    rw [spaced_append] at spaced
    have back : LaysParts (mode.afterAll (tokens is)) js ps next :=
      ⟨rest.relocate (by rw [place_tokens, place_tokens]), fits.2, spaced.2,
        apart.right_of_append, leads⟩
    have kept : LaysParts mode is [p] (mode.afterAll (tokens is)) :=
      ⟨first.relocate (by rw [place_tokens, place_tokens]), fits.1, spaced.1,
        apart.left_of_append, rfl⟩
    cases p with
    | token t =>
      have alone : tokens is = [t] := by
        rw [← place_tokens o, first.token_eq]
      refine .keep kept ?_ nofun (ih rest back led.2 ?_ each')
      · intro i last create
        have member : i.token ∈ tokens is := List.mem_map_of_mem (List.mem_of_getLast? last)
        rw [alone, create] at member
        exact led.1 (List.mem_singleton.mp member).symm
      · intro leads
        rw [alone]
        exact leads mode
    | className text =>
      have after : mode.afterAll (tokens is) = .operator := by
        rw [← place_tokens o]
        exact first.className_after (start led.1)
      exact .keep kept (kept.ends (by rw [after]; nofun)) nofun (ih rest back led.2 False.elim each')
    | newType type =>
      have after : mode.afterAll (tokens is) = .typeTail := by
        rw [← place_tokens o]
        exact first.newType_after
      exact .keep kept (kept.ends (by rw [after]; nofun)) nofun (ih rest back led False.elim each')
    | sub i e =>
      have written := first.of_sub
      have stands : Stands o mode is e :=
        ⟨written, ⟨written.relocate (by rw [place_tokens, place_tokens]), fits.1, spaced.1,
          apart.left_of_append⟩, start led.1⟩
      rw [stands.lays.leads stands.plain] at back
      exact .sub stands (each i e List.mem_cons_self) (ih rest back led.2 False.elim each')

end

/-- Splicing texts into the place of nodes grafts the expressions that they lay out. -/
theorem regrows {e : Expr} {patch : Patch} {g : Grafts} (agree : Agree patch g e) :
    Regrows patch g e := by
  induction e using Expr.induct_children generalizing patch g with
  | step e ih =>
  intro o mode items stands
  rcases agree [] e rfl with ⟨noText, noGraft⟩ | ⟨text, new, items', patched, grafted, -, lays, same⟩
  · have each : ∀ i c, .sub i c ∈ e.production → Regrows (patch.under i) (g.under i) c := by
      intro i c member
      have child := Expr.sub_mem_production.mp member
      exact ih c (List.mem_of_getElem? child) (agree.under child)
    obtain ⟨items', cuts, layParts, spliced, listed⟩ := regrows_parts stands.written.parts
      stands.lays.parts (led_production e) (fun _ => stands.plain) each
    refine ⟨items', cuts, ?_, spliced, ?_⟩
    · rw [← Expr.production_mapChildren, ← Expr.graft_of_none noGraft] at layParts
      exact .ofParts (agree.leveled stands.written.leveled noGraft) layParts
    · intro c
      rw [listed, cutAt_child noText]
      simp only [Expr.sub_mem_production]
  · rw [Expr.graft_of_some grafted]
    cases items with
    | nil => exact (stands.lays.ne_nil rfl).elim
    | cons i is =>
      have gap : Blank i.gap := stands.lays.spaced i List.mem_cons_self
      have plain := lays.plain (.inl rfl) stands.plain
      have some : i.token.text.toList ++ typeset is ≠ [] :=
        List.append_ne_nil_of_left_ne_nil (Lexeme.text_ne_nil stands.lays.fits.1) _
      have range : (⟨o + i.gap.length, o + (typeset (i :: is)).length⟩ : Span) =
          ⟨o + i.gap.length, o + i.gap.length + (i.token.text.toList ++ typeset is).length⟩ := by
        simp [Nat.add_assoc]
      have swapped := Spliced.one ⟨[], _, text⟩ some range
      rw [← same, ← typeset_indent _ lays.ne_nil, ← typeset_cons] at swapped
      refine ⟨indent i.gap items', _, plain.indent gap, swapped, fun c => ?_⟩
      rw [List.mem_singleton, cutAt_root patched stands.span]

end NullSafeEq
