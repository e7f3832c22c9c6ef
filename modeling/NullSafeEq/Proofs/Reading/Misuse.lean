import NullSafeEq.Proofs.Grammar.Postorder
import NullSafeEq.Proofs.Reading.ErrorPlace
import NullSafeEq.Proofs.Reading.Spacing

/-!
# Texts rejected for a class name

Whether the type of a cast and the qualifier of `this` and `super` are class names is asked of
grammatical texts only. The error is about the first phrase in post-order that fails, and it has
the place of the parenthesis that opens the cast or of the word behind the qualifier.
-/
namespace NullSafeEq

/-- The line and the column of an offset, counted from one. -/
structure Text.Place.IsAt (place : Text.Place) (text : String) (offset : Nat) : Prop where
  line : place.line = 1 + (text.toList.take offset).count '\n'
  column : place.column = 1 + ((text.toList.take offset).reverse.takeWhile (· ≠ '\n')).length

theorem Text.Place.isAt_ofOffset (text : String) (offset : Nat) :
    (Text.Place.ofOffset text.toList offset).IsAt text offset := by
  have place := Text.Place.advance_start (text.toList.take offset)
  exact ⟨congrArg Text.Place.line place, congrArg Text.Place.column place⟩

/-- The error is about a phrase of the text, and its place is that of the parenthesis that opens the
cast, or of the word behind the qualifier. -/
inductive ReadError.Blames (text : String) : ReadError → Phrase → Prop
  | castType {place : Text.Place} {l : Lexeme} {ts : List Lexeme} {type body : Phrase}
    (within : l :: ts <:+: Lexeme.ofText text)
    (reads : (Phrase.cast l.span.start type body).Reads (l :: ts))
    (opens : l.textIn text = "(") (here : place.IsAt text l.span.start) :
    Blames text (.castType place) (.cast l.span.start type body)
  | selfQualifier {place : Text.Place} {l : Lexeme} {ts : List Lexeme} {base : Phrase}
    {word : SelfWord} (within : ts ++ [l] <:+: Lexeme.ofText text)
    (reads : (Phrase.selfOf base word l.span).Reads (ts ++ [l]))
    (keyword : l.textIn text = word.text) (here : place.IsAt text l.span.start) :
    Blames text (.selfQualifier word place) (.selfOf base word l.span)

/-- The error that a misuse is reported as. -/
def Misuse.inText (text : String) : Misuse → ReadError
  | castType offset => .castType (Text.Place.ofOffset text.toList offset)
  | selfQualifier word offset => .selfQualifier word (Text.Place.ofOffset text.toList offset)

section
variable {text : String} {p : Phrase}

theorem read_of_toExpr {root : Expr} (parsed : Parser.parse (Lexeme.ofText text) = .ok p)
    (made : p.toExpr = .ok root) : Tree.read text = .ok ⟨root, some text⟩ := by
  unfold Tree.read
  rw [parsed]
  simp only [made]

theorem read_of_misuse {m : Misuse} (parsed : Parser.parse (Lexeme.ofText text) = .ok p)
    (made : p.toExpr = .error m) : Tree.read text = .error (m.inText text) := by
  unfold Tree.read
  rw [parsed]
  cases m <;> simp only [made, Misuse.inText]

theorem read_ok_iff (parsed : Parser.parse (Lexeme.ofText text) = .ok p) :
    (∃ t, Tree.read text = .ok t) ↔ ∃ root, p.toExpr = .ok root := by
  cases made : p.toExpr with
  | ok root => exact iff_of_true ⟨_, read_of_toExpr parsed made⟩ ⟨root, rfl⟩
  | error m =>
    rw [read_of_misuse parsed made]
    exact iff_of_false nofun nofun

/-- In a text that a phrase reads the lexemes have the texts of their tokens. -/
theorem textIn_of_reads (h : p.Reads (Lexeme.ofText text)) :
    ∀ l ∈ Lexeme.ofText text, l.textIn text = l.token.text := by
  obtain ⟨s, -, ran, -⟩ := Parser.run_of_parse (Parser.parse_of_reads h)
  obtain ⟨items, tail, same, placed, -⟩ := Lexeme.layout_of_scan (Parser.run_known ran)
  have texts : (place 0 items).map (Lexeme.textIn text) = (tokens items).map Token.text :=
    @textIn_place text [] tail items same
  rw [← place_tokens 0, List.map_map, List.map_inj_left] at texts
  rw [Lexeme.ofText, placed]
  exact texts

theorem blames_of_misuse {q : Phrase} {us : List Lexeme} {m : Misuse}
    (whole : p.Reads (Lexeme.ofText text)) (within : us <:+: Lexeme.ofText text)
    (reads : q.Reads us) (misuse : q.misuse? = some m) : (m.inText text).Blames text q := by
  cases q with
  | cast start type body =>
    obtain ⟨l, vs, r, bs, rfl, opens, rfl, -⟩ := id reads
    have isOpen : l.textIn text = "(" := by
      rw [textIn_of_reads whole l (within.subset List.mem_cons_self), opens]
      rfl
    simp only [Phrase.misuse?] at misuse
    split at misuse <;> cases misuse
    exact .castType within reads isOpen (Text.Place.isAt_ofOffset ..)
  | selfOf base word range =>
    obtain ⟨vs, d, rfl, -⟩ := id reads
    have isWord : Lexeme.textIn text ⟨.self word, range⟩ = word.text := by
      rw [textIn_of_reads whole ⟨.self word, range⟩ (within.subset (by simp))]
      rfl
    simp only [Phrase.misuse?] at misuse
    split at misuse <;> cases misuse
    rw [List.append_cons] at within reads
    exact .selfQualifier (l := ⟨.self word, range⟩) within reads isWord
      (Text.Place.isAt_ofOffset ..)
  | _ => cases misuse

end

/-- A text that no phrase reads is rejected as no expression. A text that a phrase reads is rejected
exactly if a cast type or a qualifier in it is no chain of names, for the first such phrase in
post-order. -/
theorem read_first_misuse (text : String) :
    ((∀ p : Phrase, ¬ p.Reads (Lexeme.ofText text)) →
      ∃ place, Tree.read text = .error (.invalid place (Text.trim text))) ∧
    ∀ p : Phrase, p.Reads (Lexeme.ofText text) →
      ((∃ t, Tree.read text = .ok t) ↔ ∀ q ∈ p.postorder, q.Proper) ∧
      ∀ front q back, p.postorder = front ++ q :: back → (∀ x ∈ front, x.Proper) → ¬ q.Proper →
        ∃ e, Tree.read text = .error e ∧ e.Blames text q := by
  refine ⟨fun unread => ?_, fun p reads => ?_⟩
  · cases parsed : Parser.parse (Lexeme.ofText text) with
    | ok p => exact (unread p (Parser.parse_reads parsed)).elim
    | error offset => exact ⟨_, read_of_parse_error parsed⟩
  have parsed := Parser.parse_of_reads reads
  refine ⟨(read_ok_iff parsed).trans Phrase.toExpr_ok_iff, ?_⟩
  intro front q back order before improper
  obtain ⟨m, misuse⟩ := Option.ne_none_iff_exists'.mp (mt Phrase.misuse_eq_none_iff.mp improper)
  have made : p.toExpr = .error m := Phrase.toExpr_error order before misuse
  have member : q ∈ p.postorder := by simp [order]
  obtain ⟨us, within, readsPart⟩ := reads.of_mem_postorder member
  exact ⟨_, read_of_misuse parsed made, blames_of_misuse reads within readsPart misuse⟩

/-- The type of a cast holds a cast to no class name, which is reported for it. -/
theorem read_first_misuse_nested :
    let inner : Phrase := .cast 2 (.binary .add (.name "a" ⟨3, 4⟩) (.name "b" ⟨7, 8⟩))
      (.name "c" ⟨10, 11⟩)
    let outer : Phrase := .cast 0 inner (.name "d" ⟨13, 14⟩)
    outer.Reads (Lexeme.ofText "(\n(a + b) c) d") ∧ ¬ outer.Proper ∧
      Tree.read "(\n(a + b) c) d" = .error (.castType ⟨2, 1⟩) ∧
      (ReadError.castType ⟨2, 1⟩).Blames "(\n(a + b) c) d" inner := by
  intro inner outer
  have parsed : Parser.parse (Lexeme.ofText "(\n(a + b) c) d") = .ok outer := rfl
  have reads := Parser.parse_reads parsed
  let sum : Phrase := .binary .add (.name "a" ⟨3, 4⟩) (.name "b" ⟨7, 8⟩)
  have order : outer.postorder =
      [.name "a" ⟨3, 4⟩, .name "b" ⟨7, 8⟩, sum, .name "c" ⟨10, 11⟩] ++
        inner :: [.name "d" ⟨13, 14⟩, outer] := by
    simp [outer, inner, sum, Phrase.postorder_eq, Phrase.parts]
  have before : ∀ x ∈ [.name "a" ⟨3, 4⟩, .name "b" ⟨7, 8⟩, sum, .name "c" ⟨10, 11⟩], x.Proper := by
    simp [sum, Phrase.Proper]
  have improper : ¬ inner.Proper := mt Phrase.misuse_eq_none_iff.mpr (Option.some_ne_none _)
  have improper' : ¬ outer.Proper := mt Phrase.misuse_eq_none_iff.mpr (Option.some_ne_none _)
  have read : Tree.read "(\n(a + b) c) d" = .error (.castType ⟨2, 1⟩) := rfl
  obtain ⟨-, first⟩ := (read_first_misuse "(\n(a + b) c) d").2 outer reads
  obtain ⟨e, read', blames⟩ := first _ inner _ order before improper
  rw [read] at read'
  cases read'
  exact ⟨reads, improper', read, blames⟩

end NullSafeEq
