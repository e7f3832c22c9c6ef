import NullSafeEq.Proofs.Reading.Typeset

/-!
# What is read is well formed

The words that a mode takes are the words that a well-formed node may hold at this place, so an
expression that fitting tokens spell is well formed.
-/
namespace NullSafeEq

namespace Lexeme

variable {mode : Mode}

/-! ## Words in each mode -/

theorem keywordOrName_eq_name {id : String} : keywordOrName id = .name id ↔ id ∉ keywords := by
  rcases keywordOrName_cases id with
    ⟨rfl, -⟩ | ⟨rfl | rfl, -⟩ | ⟨rfl, -⟩ | ⟨rfl, -⟩ | ⟨rfl, -⟩ | ⟨free, same⟩
  · decide
  · decide
  · decide
  · decide
  · decide
  · decide
  · simp [free, same]

theorem selfOrName_eq_name {id : String} :
    selfOrName id = .name id ↔ id ≠ "this" ∧ id ≠ "super" := by
  rcases selfOrName_cases id with ⟨rfl, -⟩ | ⟨rfl, -⟩ | ⟨free, same⟩
  · decide
  · decide
  · simp [free, same]

theorem word_plain (plain : mode.Plain) (word : String) :
    mode.word word = keywordOrName word := by
  rcases plain with rfl | rfl <;> rfl

theorem takes_name_plain {id : String} (plain : mode.Plain) :
    mode.Takes (.name id) ↔ IsPlainName id := by
  rw [Mode.takes_word rfl, word_plain plain]
  exact and_congr_right' keywordOrName_eq_name

theorem takes_name_member {id : String} : Mode.member.Takes (.name id) ↔ IsMemberName id := by
  rw [Mode.takes_word rfl]
  exact and_congr_right' selfOrName_eq_name

theorem takes_name_type {id : String} : Mode.typeName.Takes (.name id) ↔ IsIdentifier id := by
  rw [Mode.takes_word rfl]
  exact and_iff_left rfl

theorem takes_literal {kind : LiteralKind} {text : String}
    (plain : mode.Plain) :
    mode.Takes (.literal kind text) ↔ kind.Accepts text := by
  cases kind with
  | number | string | char => exact Iff.rfl
  | null =>
    rw [Mode.takes_word rfl, word_plain plain]
    constructor
    · rintro ⟨_, same⟩
      rcases keywordOrName_cases text with
        ⟨null, -⟩ | ⟨-, other⟩ | ⟨-, other⟩ | ⟨-, other⟩ | ⟨-, other⟩ | ⟨-, other⟩
      · exact null
      all_goals cases other.symm.trans same
    · rintro rfl
      exact ⟨⟨'n', "ull".toList, rfl, by decide, by decide⟩, by decide⟩
  | boolean =>
    rw [Mode.takes_word rfl, word_plain plain]
    constructor
    · rintro ⟨_, same⟩
      rcases keywordOrName_cases text with
        ⟨-, other⟩ | ⟨boolean, -⟩ | ⟨-, other⟩ | ⟨-, other⟩ | ⟨-, other⟩ | ⟨-, other⟩
      case inr.inl => exact boolean
      all_goals cases other.symm.trans same
    · rintro (rfl | rfl)
      · exact ⟨⟨'t', "rue".toList, rfl, by decide, by decide⟩, by decide⟩
      · exact ⟨⟨'f', "alse".toList, rfl, by decide, by decide⟩, by decide⟩

/-- A chain of names leaves the mode behind it in which an operator may stand. -/
theorem Names.after {id : String} {ts : List Lexeme} (h : Names id ts)
    (plain : mode.Plain) :
    mode.afterAll (ts.map token) = .operator := by
  induction h generalizing mode with
  | name word => rcases plain with rfl | rfl <;> simp [word, Mode.after]
  | member front dot word ih => simp [ih plain, dot, word, Mode.after]
  | paren opens body closes ih =>
    have inner : Mode.operand.afterAll _ = .operator := ih (.inl rfl)
    simp [opens, closes, Mode.after, inner]

/-- The names of a chain that fits form a class name. -/
theorem Names.isClassName {id : String} {ts : List Lexeme} (h : Names id ts)
    (plain : mode.Plain) (fits : Fits mode (ts.map token)) :
    IsClassName id := by
  induction h generalizing mode with
  | name word =>
    simp only [List.map_cons, List.map_nil, word, fits_cons, fits_nil, and_true] at fits
    exact ⟨.plain _, (takes_name_plain plain).mp fits, rfl⟩
  | member front dot word ih =>
    simp only [List.map_append, List.map_cons, List.map_nil, fits_append, front.after plain, dot,
      word, fits_cons] at fits
    obtain ⟨fitsFront, -, fitsName, -⟩ := fits
    obtain ⟨n, valid, rfl⟩ := ih plain fitsFront
    exact ⟨.member n _, ⟨valid, takes_name_member.mp fitsName⟩, rfl⟩
  | paren opens body closes ih =>
    simp only [List.map_cons, List.map_append, List.map_nil, opens, fits_cons, fits_append] at fits
    exact ih (.inl rfl) fits.2.1

theorem Words.identifiers {ws : List String} {ts : List Lexeme} (h : Words ws ts)
    (fits : Fits .typeName (ts.map token)) : ∀ w ∈ ws, IsIdentifier w := by
  induction h with
  | one word =>
    simp only [List.map_cons, List.map_nil, word, fits_cons] at fits
    exact List.forall_mem_singleton.mpr (takes_name_type.mp fits.1)
  | more word dot rest ih =>
    simp only [List.map_cons, word, dot, fits_cons] at fits
    exact List.forall_mem_cons.mpr ⟨takes_name_type.mp fits.1, ih fits.2.2⟩

theorem NewType.isNewType {type : String} {ts : List Lexeme} (h : NewType type ts)
    (fits : Fits mode (ts.map token)) : IsNewType type := by
  obtain ⟨t, words, us, rfl, create, spelled, rfl⟩ := h
  simp only [List.map_cons, create, fits_cons] at fits
  refine ⟨words, ?_, spelled.identifiers fits.2, rfl⟩
  rintro rfl
  cases spelled

end Lexeme

/-! ## Where subexpressions start -/

/-- Every subexpression and every class name stands at the start, where `front` holds, or behind a
token after which an expression may start; `new` stands in front of types only. -/
def Led (front : Prop) : List Part → Prop
  | [] => True
  | .token t :: ps => t ≠ .create ∧ Led (∀ mode : Lexeme.Mode, (mode.after t).Plain) ps
  | .className _ :: ps | .sub _ _ :: ps => front ∧ Led False ps
  | .newType _ :: ps => Led False ps

theorem led_further (slot : Nat) (es : List Expr) :
    Led False (Expr.furtherArgs slot es ++ [.token .closeParen]) := by
  induction es generalizing slot with
  | nil => exact ⟨nofun, trivial⟩
  | cons e es ih => exact ⟨nofun, fun _ => .inl rfl, ih (slot + 1)⟩

theorem led_bracketed (slot : Nat) (es : List Expr) : Led False (Expr.bracketed slot es) := by
  cases es with
  | nil => exact ⟨nofun, nofun, trivial⟩
  | cons e es => exact ⟨nofun, fun _ => .inl rfl, led_further (slot + 1) es⟩

theorem led_production (e : Expr) : Led True e.production := by
  cases e with
  | literal | name => exact ⟨nofun, trivial⟩
  | self word outer =>
    cases outer with
    | none => exact ⟨nofun, trivial⟩
    | some outer => exact ⟨trivial, nofun, nofun, trivial⟩
  | member => exact ⟨trivial, nofun, nofun, trivial⟩
  | call id args => exact ⟨nofun, led_bracketed 0 args⟩
  | invoke q id args => exact ⟨trivial, nofun, nofun, led_bracketed 1 args⟩
  | binary => exact ⟨trivial, nofun, fun _ => .inl rfl, trivial⟩
  | prefixed op =>
    cases op with
    | not | negate | plus => exact ⟨nofun, fun _ => .inl rfl, trivial⟩
  | conditional =>
    exact ⟨trivial, nofun, fun _ => .inl rfl, nofun, fun _ => .inl rfl, trivial⟩
  | paren => exact ⟨nofun, fun _ => .inl rfl, nofun, trivial⟩
  | cast => exact ⟨nofun, fun _ => .inl rfl, nofun, fun _ => .inr rfl, trivial⟩
  | index => exact ⟨trivial, nofun, fun _ => .inl rfl, nofun, trivial⟩
  | create type args => exact led_bracketed 0 args

section
variable {placed : Option Span → List Lexeme → Prop} {mode : Lexeme.Mode} {ts : List Lexeme}

/-- The lexemes of a subexpression among those of the pieces, with the mode in front of them. -/
theorem SpelledParts.sub_mem {ps : List Part} {front : Prop} {slot : Nat} {c : Expr}
    (h : SpelledParts placed ps ts) (led : Led front ps) (start : front → mode.Plain)
    (member : .sub slot c ∈ ps) : ∃ us vs ws, ts = us ++ (vs ++ ws) ∧ Spelled placed c vs ∧
      (mode.afterAll (us.map Lexeme.token)).Plain := by
  induction ps generalizing front mode ts with
  | nil => cases member
  | cons p ps ih =>
    cases h with
    | @token t l _ ts same rest =>
      obtain ⟨us, vs, ws, rfl, body, plain⟩ := ih rest led.2 (fun leads => leads mode)
        ((List.mem_cons.mp member).resolve_left nofun)
      exact ⟨l :: us, vs, ws, rfl, body, by rwa [List.map_cons, same]⟩
    | @className _ _ ns ts names rest =>
      obtain ⟨us, vs, ws, rfl, body, plain⟩ := ih rest led.2 False.elim
        ((List.mem_cons.mp member).resolve_left nofun)
      exact ⟨ns ++ us, vs, ws, by simp, body, by rwa [List.map_append, Lexeme.afterAll_append]⟩
    | @newType _ _ ns ts words rest =>
      obtain ⟨us, vs, ws, rfl, body, plain⟩ := ih rest led False.elim
        ((List.mem_cons.mp member).resolve_left nofun)
      exact ⟨ns ++ us, vs, ws, by simp, body, by rwa [List.map_append, Lexeme.afterAll_append]⟩
    | @sub _ _ _ ns ts body rest =>
      rcases List.mem_cons.mp member with same | member
      · cases same
        exact ⟨[], ns, ts, rfl, body, start led.1⟩
      · obtain ⟨us, vs, ws, rfl, inner, plain⟩ := ih rest led.2 False.elim member
        exact ⟨ns ++ us, vs, ws, by simp, inner, by rwa [List.map_append, Lexeme.afterAll_append]⟩

theorem Spelled.leveled {e : Expr} (h : Spelled placed e ts) : e.Leveled := by
  cases h with
  | node leveled _ _ => exact leveled

theorem Spelled.parts {e : Expr} (h : Spelled placed e ts) :
    SpelledParts placed e.production ts := by
  cases h with
  | node _ _ parts => exact parts

/-- The lexemes of a child. -/
theorem Spelled.child {e c : Expr} {i : Nat} (h : Spelled placed e ts) (plain : mode.Plain)
    (found : e.children[i]? = some c) : ∃ us vs ws, ts = us ++ (vs ++ ws) ∧ Spelled placed c vs ∧
      (mode.afterAll (us.map Lexeme.token)).Plain := by
  exact h.parts.sub_mem (led_production e) (fun _ => plain) (Expr.sub_mem_production.mpr found)

/-- The words of a node are such that they can be read back, if fitting tokens spell it. -/
theorem Spelled.worded {e : Expr} (h : Spelled placed e ts) (plain : mode.Plain)
    (fits : Lexeme.Fits mode (ts.map Lexeme.token)) : e.Worded := by
  obtain ⟨-, -, parts⟩ := h
  match e with
  | .literal kind text sp =>
    obtain ⟨t, _, rfl, same, -⟩ := parts.token_inv
    simp only [List.map_cons, same, Lexeme.fits_cons] at fits
    exact (Lexeme.takes_literal plain).mp fits.1
  | .name id sp | .call id args sp =>
    obtain ⟨t, _, rfl, same, -⟩ := parts.token_inv
    simp only [List.map_cons, same, Lexeme.fits_cons] at fits
    exact (Lexeme.takes_name_plain plain).mp fits.1
  | .self word (some outer) sp =>
    obtain ⟨us, _, rfl, names, -⟩ := parts.className_inv
    simp only [List.map_append, Lexeme.fits_append] at fits
    exact names.isClassName plain fits.1
  | .member q id sp | .invoke q id args sp =>
    obtain ⟨us, _, rfl, front, rest⟩ := parts.sub_inv
    obtain ⟨d, _, rfl, dot, rest⟩ := rest.token_inv
    obtain ⟨t, _, rfl, same, -⟩ := rest.token_inv
    simp only [List.map_append, List.map_cons, dot, same, Lexeme.fits_append, front.after plain,
      Lexeme.fits_cons] at fits
    obtain ⟨-, -, fitsName, -⟩ := fits
    exact Lexeme.takes_name_member.mp fitsName
  | .cast type e sp =>
    obtain ⟨l, _, rfl, opens, rest⟩ := parts.token_inv
    obtain ⟨us, _, rfl, names, -⟩ := rest.className_inv
    simp only [List.map_cons, List.map_append, opens, Lexeme.fits_cons, Lexeme.fits_append] at fits
    exact names.isClassName (.inl rfl) fits.2.1
  | .create type args sp =>
    obtain ⟨us, _, rfl, typed, -⟩ := parts.newType_inv
    simp only [List.map_append, Lexeme.fits_append] at fits
    exact typed.isNewType fits.1
  | .self _ none _ | .binary .. | .prefixed .. | .conditional .. | .paren .. | .index .. =>
    trivial

/-- An expression that fitting tokens spell is well formed. -/
theorem Spelled.wellFormed {e : Expr} (h : Spelled placed e ts) (plain : mode.Plain)
    (fits : Lexeme.Fits mode (ts.map Lexeme.token)) : e.WellFormed := by
  induction e using Expr.induct_children generalizing ts mode with
  | step e ih =>
  refine .node h.leveled (h.worded plain fits) ?_
  intro c member
  obtain ⟨i, found⟩ := List.mem_iff_getElem?.mp member
  obtain ⟨us, vs, ws, rfl, body, plainChild⟩ := h.child plain found
  simp only [List.map_append, Lexeme.fits_append] at fits
  exact ih c member body plainChild fits.2.1

end

/-- Whatever is read is well formed. -/
theorem wellFormed_of_read {text : String} {t : Tree} (h : Tree.read text = .ok t) :
    t.root.WellFormed := by
  obtain ⟨-, items, tail, -, -, -, laid⟩ := layout_of_read h
  refine laid.spelled.wellFormed (.inl rfl) ?_
  rw [place_tokens]
  exact laid.fits

end NullSafeEq
