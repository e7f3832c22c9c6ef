import NullSafeEq.Proofs.Grammar.Completion
import NullSafeEq.Proofs.Lexing.Cutting
import NullSafeEq.Proofs.Reading.Typeset

/-!
# Where a text is rejected

The place that is reported for a text that is no expression is the first at which this shows: up to
it the text can be continued to an expression, and it does not lie in front of tokens that some
expression starts with.
-/
namespace NullSafeEq

/-! ## Lines and columns -/

namespace Text.Place

theorem advance_append (p : Place) (cs ds : List Char) :
    advance p (cs ++ ds) = advance (advance p cs) ds := by
  induction cs generalizing p with
  | nil => rfl
  | cons c cs ih => exact ih _

/-- A line for each line feed, and a column for each character behind the last one. -/
theorem advance_start (cs : List Char) : advance ⟨1, 1⟩ cs =
    ⟨1 + cs.count '\n', 1 + (cs.reverse.takeWhile (· ≠ '\n')).length⟩ := by
  induction cs using List.reverseRecOn with
  | nil => rfl
  | append_singleton cs c ih =>
    rw [advance_append, ih]
    by_cases feed : c = '\n'
    · subst feed
      simp [advance, Nat.add_assoc]
    · simp [advance, feed, Nat.add_assoc, Nat.add_comm 1]

end Text.Place

/-! ## Grammatical texts -/

/-- The text is not rejected as no expression. It may still be rejected for the type of a cast or
for the qualifier of `this` or `super`. -/
def Grammatical (text : String) : Prop :=
  ∀ place kept, Tree.read text ≠ .error (.invalid place kept)

theorem read_of_parse_error {text : String} {offset : Nat}
    (h : Parser.parse (Lexeme.ofText text) = .error offset) : Tree.read text =
      .error (.invalid (Text.Place.ofOffset text.toList offset) (Text.trim text)) := by
  unfold Tree.read
  rw [h]

theorem grammatical_iff {text : String} :
    Grammatical text ↔ ∃ p, Parser.parse (Lexeme.ofText text) = .ok p := by
  constructor
  · intro grammatical
    cases parsed : Parser.parse (Lexeme.ofText text) with
    | ok p => exact ⟨p, rfl⟩
    | error offset => exact (grammatical _ _ (read_of_parse_error parsed)).elim
  · rintro ⟨p, parsed⟩ place kept rejected
    unfold Tree.read at rejected
    rw [parsed] at rejected
    simp only at rejected
    split at rejected <;> cases rejected

theorem grammatical_of_finishes {text : String}
    (h : Parser.Finishes Parser.State.start (Lexeme.ofText text)) : Grammatical text := by
  obtain ⟨final, p, ran, result⟩ := h
  refine grammatical_iff.mpr ⟨p, ?_⟩
  rw [Parser.parse, ran]
  simp only [result]

theorem run_of_grammatical {text : String} (h : Grammatical text) :
    ∃ s, Parser.run Parser.State.start (Lexeme.ofText text) = .ok s := by
  obtain ⟨p, parsed⟩ := grammatical_iff.mp h
  obtain ⟨s, -, ran, -⟩ := Parser.run_of_parse parsed
  exact ⟨s, ran⟩

/-! ## Tokens that an expression starts with -/

/-- A layout of tokens that an expression can start with. -/
structure Leads (items : List Item) : Prop where
  fits : Lexeme.Fits .operand (tokens items)
  spaced : Spaced items
  apart : Apart items
  taken : ∃ s, Parser.run Parser.State.start (place 0 items) = .ok s

theorem leads_nil : Leads [] := ⟨trivial, nofun, .nil, _, rfl⟩

theorem Leads.left {is js : List Item} (h : Leads (is ++ js)) : Leads is := by
  obtain ⟨s, ran⟩ := h.taken
  rw [place_append] at ran
  have fits := h.fits
  rw [tokens_append, Lexeme.fits_append] at fits
  exact ⟨fits.1, (spaced_append.mp h.spaced).1, h.apart.left_of_append, Parser.run_front ran⟩

/-- Behind white space the tokens of the layout do not change. -/
theorem Leads.scanned {items : List Item} {rest : List Char} (h : Leads items)
    (blank : Lexeme.StartsBlank rest) : Lexeme.ofText (String.ofList (typeset items ++ rest)) =
      place 0 items ++ Lexeme.scan (Lexeme.Mode.operand.afterAll (tokens items)) 0
        (typeset items).length rest := by
  rw [Lexeme.ofText, String.toList_ofList,
    Lexeme.scan_typeset_append 0 h.fits h.spaced blank h.apart, Nat.zero_add]

/-- The tokens that the machine takes first are laid out at the start of the text. -/
theorem leads_of_run {text : String} {front back : List Lexeme} {s : Parser.State}
    (found : Lexeme.ofText text = front ++ back)
    (ran : Parser.run Parser.State.start front = .ok s) :
    ∃ items rest, text.toList = typeset items ++ rest ∧ front = place 0 items ∧ Leads items ∧
      Lexeme.scan (Lexeme.Mode.operand.afterAll (tokens items)) 0 (typeset items).length rest =
        back := by
  obtain ⟨items, rest, same, rfl, fits, spaced, apart, behind⟩ :=
    Lexeme.layout_of_scan_append found (Parser.run_known ran)
  rw [Nat.zero_add] at behind
  refine ⟨items, rest, same, rfl, ⟨fits, spaced, ?_, s, ran⟩, behind⟩
  have agrees : Parser.State.start.focus.Agrees .operand := .inl rfl
  have chain := Parser.run_meets agrees ran
  rw [place_tokens] at chain
  have meets := List.isChain_of_isChain_map Item.token (fun _ _ => id) chain
  refine (isChain_and meets apart).imp ?_
  intro i j ⟨meets, apart⟩ noGap
  -- only `new` goes on into the token behind it, and that is a word, too
  by_contra glued
  have isNew := meets.1 (by simpa using glued)
  exact apart (by rw [isNew]; rfl) (meets.2 isNew) noGap

/-! ## Continuing a text -/

theorem takes_filler (mode : Lexeme.Mode) : ∀ t ∈ Parser.fillers, mode.Takes t := by
  have word : IsIdentifier "a" := ⟨'a', [], rfl, by decide, by decide⟩
  simp only [Parser.fillers, List.forall_mem_cons, List.not_mem_nil, false_implies, implies_true,
    and_true]
  refine ⟨fun _ => ⟨word, ?_⟩, nofun, nofun, nofun, nofun⟩
  cases mode <;> rfl

theorem fits_fillers {ts : List Token} (fillers : ts ⊆ Parser.fillers) (mode : Lexeme.Mode) :
    Lexeme.Fits mode ts := by
  induction ts generalizing mode with
  | nil => trivial
  | cons t ts ih =>
    obtain ⟨here, later⟩ := List.cons_subset.mp fillers
    exact ⟨takes_filler mode t here, ih later _⟩

/-- Each token behind a blank. -/
def spread (ts : List Token) : List Item := ts.map fun t => ⟨[' '], t⟩

theorem tokens_spread (ts : List Token) : tokens (spread ts) = ts := by
  simp [tokens, spread, Function.comp_def]

theorem gap_of_mem_spread {ts : List Token} : ∀ i ∈ spread ts, i.gap = [' '] := by
  intro i member
  obtain ⟨t, -, rfl⟩ := List.mem_map.mp member
  rfl

theorem apart_spread (ts : List Token) : Apart (spread ts) := by
  induction ts with
  | nil => exact .nil
  | cons t ts ih =>
    refine List.isChain_cons.mpr ⟨fun i head noGap => ?_, ih⟩
    rw [gap_of_mem_spread i (List.mem_of_mem_head? head)] at noGap
    cases noGap

theorem spaced_spread (ts : List Token) : Spaced (spread ts) := by
  intro i member
  rw [gap_of_mem_spread i member]
  exact blank_one

/-- With white space behind them the tokens can be continued to a grammatical text. -/
theorem Leads.continued {items : List Item} (h : Leads items) {gap : List Char}
    (blank : Blank gap) : ∃ rest, Grammatical (String.ofList (typeset items ++ gap ++ rest)) := by
  obtain ⟨s, ran⟩ := h.taken
  have fits := fits_fillers s.completion_subset (Lexeme.Mode.operand.afterAll (tokens items))
  rw [← tokens_spread s.completion] at fits
  have starts : Lexeme.StartsBlank (gap ++ typeset (spread s.completion)) := by
    intro c head
    cases gap with
    | cons d ds => exact blank c (List.mem_of_mem_head? head)
    | nil =>
      cases completion : s.completion with
      | nil =>
        rw [completion] at head
        cases head
      | cons t ts =>
        rw [completion] at head
        cases head
        rfl
  refine ⟨typeset (spread s.completion), grammatical_of_finishes ?_⟩
  have behind := Lexeme.scan_typeset ((typeset items).length + gap.length) fits (spaced_spread _)
    blank_nil (apart_spread _)
  rw [List.append_nil] at behind
  rw [List.append_assoc, h.scanned starts, Lexeme.scan_gap _ _ _ blank, behind]
  have completes : (place ((typeset items).length + gap.length) (spread s.completion)).map
      Lexeme.token = s.completion := by
    rw [place_tokens, tokens_spread]
  obtain ⟨final, p, finished, result⟩ := Parser.State.finishes completes
  exact ⟨final, p, (Parser.run_append ran).trans finished, result⟩

/-- What a grammatical text starts with, up to white space outside quotes, is a layout of tokens. -/
theorem leads_of_grammatical {front rest : List Char}
    (grammatical : Grammatical (String.ofList (front ++ rest))) (ends : Lexeme.EndsBlank front)
    (outside : ¬ Lexeme.InsideQuotes (Lexeme.ofText (String.ofList (front ++ rest))) front.length) :
    ∃ items gap, front = typeset items ++ gap ∧ Blank gap ∧ gap ≠ [] ∧ Leads items := by
  obtain ⟨s, ran⟩ := run_of_grammatical grammatical
  obtain ⟨items, tail, same, placed, leads, behind⟩ := leads_of_run (List.append_nil _).symm ran
  rw [String.toList_ofList] at same
  rw [placed] at outside
  obtain ⟨is, js, gap, rfl, cut, blank, some⟩ := Lexeme.cut_of_endsBlank (o := 0) leads.fits
    leads.spaced (Lexeme.blank_of_scan behind) same.symm ends (by rwa [Nat.zero_add])
  exact ⟨is, gap, cut, blank, some, leads.left⟩

/-! ## The place -/

/-- The place lies behind all tokens that some expression starts with. -/
theorem start_le_of_error {text : String} {offset : Nat}
    (h : Parser.parse (Lexeme.ofText text) = .error offset) {items : List Item} {gap : List Char}
    (leads : Leads items) (blank : Blank gap) (some : gap ≠ [])
    (within : typeset items ++ gap <+: text.toList) : ∀ t ∈ place 0 items, t.span.start ≤ offset := by
  obtain ⟨more, whole⟩ := within
  have starts : Lexeme.StartsBlank (gap ++ more) := Lexeme.blank_head more blank some
  have scanned := leads.scanned starts
  rw [← List.append_assoc, whole, String.ofList_toList] at scanned
  have first : place 0 items <+: Lexeme.ofText text := ⟨_, scanned.symm⟩
  obtain ⟨s, ran⟩ := leads.taken
  intro t member
  rcases Parser.parse_error h with ⟨empty, -⟩ | ⟨front, u, rest, _, found, -, rfl, furthest⟩
  · rw [empty, List.prefix_nil] at first
    rw [first] at member
    cases member
  · obtain ⟨ascending, -⟩ := Lexeme.scan_ascending .operand 0 0 text.toList
    rw [← Lexeme.ofText, found] at ascending
    rcases List.mem_append.mp ((furthest _ s first ran).subset member) with earlier | same
    · exact ((List.pairwise_append.mp ascending).2.2 t earlier u List.mem_cons_self).le
    · rw [List.mem_singleton.mp same]

/-- Up to the place the text can be continued. -/
theorem continued_of_error {text : String} {offset : Nat}
    (h : Parser.parse (Lexeme.ofText text) = .error offset) : offset ≤ text.toList.length ∧
      ∃ rest, Grammatical (String.ofList (text.toList.take offset ++ rest)) := by
  rcases Parser.parse_error h with ⟨-, rfl⟩ | ⟨front, t, rest, s, found, ran, rfl, -⟩
  · exact ⟨Nat.zero_le _, leads_nil.continued blank_nil⟩
  · obtain ⟨items, behind, same, -, leads, scanned⟩ := leads_of_run found ran
    obtain ⟨gap, c, cs, n, rfl, blank, -, -, span, -⟩ := Lexeme.scan_cons scanned
    have start : t.span.start = (typeset items ++ gap).length := by
      rw [span, List.length_append]
    rw [same, start, ← List.append_assoc, List.take_left]
    exact ⟨by simp only [List.length_append]; omega, leads.continued blank⟩

/-- A text that is not grammatical is rejected with the line and the column of an offset up to which
it can be continued to a grammatical text. Where a grammatical text starts in the same way up to
some white space outside quotes, the offset is not in front of the last token up to there. -/
theorem place_of_not_grammatical {text : String} (h : ¬ Grammatical text) :
    ∃ place offset, Tree.read text = .error (.invalid place (Text.trim text)) ∧
      offset ≤ text.toList.length ∧
      place.line = 1 + (text.toList.take offset).count '\n' ∧
      place.column = 1 + ((text.toList.take offset).reverse.takeWhile (· ≠ '\n')).length ∧
      (∃ rest, Grammatical (String.ofList (text.toList.take offset ++ rest))) ∧
      ∀ front, front <+: text.toList → Lexeme.EndsBlank front →
        ∀ rest, Grammatical (String.ofList (front ++ rest)) →
        ¬ Lexeme.InsideQuotes (Lexeme.ofText (String.ofList (front ++ rest))) front.length →
        ∀ last ∈ (Lexeme.ofText (String.ofList front)).getLast?, last.span.start ≤ offset := by
  obtain ⟨offset, failed⟩ : ∃ offset, Parser.parse (Lexeme.ofText text) = .error offset := by
    cases parsed : Parser.parse (Lexeme.ofText text) with
    | ok p => exact (h (grammatical_iff.mpr ⟨p, parsed⟩)).elim
    | error offset => exact ⟨offset, rfl⟩
  obtain ⟨inside, continued⟩ := continued_of_error failed
  have place := Text.Place.advance_start (text.toList.take offset)
  refine ⟨_, offset, read_of_parse_error failed, inside, congrArg Text.Place.line place,
    congrArg Text.Place.column place, continued, ?_⟩
  intro front within ends rest grammatical outside last atEnd
  obtain ⟨items, gap, rfl, blank, some, leads⟩ := leads_of_grammatical grammatical ends outside
  rw [Lexeme.ofText, String.toList_ofList,
    Lexeme.scan_typeset 0 leads.fits leads.spaced blank leads.apart] at atEnd
  exact start_le_of_error failed leads blank some within last (List.mem_of_getLast? atEnd)

/-- The second line ends with one name too many, which is where the text is rejected. -/
theorem place_of_not_grammatical_name :
    ¬ Grammatical "a\n&& b c" ∧ ∃ offset, 5 ≤ offset ∧ offset ≤ 8 ∧
      2 = 1 + ("a\n&& b c".toList.take offset).count '\n' ∧
      6 = 1 + (("a\n&& b c".toList.take offset).reverse.takeWhile (· ≠ '\n')).length ∧
      ∃ rest, Grammatical (String.ofList ("a\n&& b c".toList.take offset ++ rest)) := by
  have rejected : Tree.read "a\n&& b c" =
      .error (.invalid ⟨2, 6⟩ (Text.trim "a\n&& b c")) := rfl
  have broken : ¬ Grammatical "a\n&& b c" := fun grammatical => grammatical _ _ rejected
  obtain ⟨place, offset, read, inside, line, column, continued, behind⟩ :=
    place_of_not_grammatical broken
  rw [rejected] at read
  cases read
  have lexemes : Lexeme.ofText "a\n&& b " =
      [⟨.name "a", ⟨0, 1⟩⟩, ⟨.op .and, ⟨2, 4⟩⟩, ⟨.name "b", ⟨5, 6⟩⟩] := rfl
  have grammatical : Grammatical "a\n&& b " := grammatical_iff.mpr ⟨_, rfl⟩
  have ends : Lexeme.EndsBlank "a\n&& b ".toList := ⟨' ', rfl, by decide⟩
  have outside : ¬ Lexeme.InsideQuotes (Lexeme.ofText "a\n&& b ") 7 := by
    rw [lexemes]
    simp [Lexeme.InsideQuotes, Token.isQuoted]
  refine ⟨broken, offset, ?_, inside, line, column, continued⟩
  exact behind "a\n&& b ".toList ⟨['c'], rfl⟩ ends [] grammatical outside ⟨.name "b", ⟨5, 6⟩⟩
    (by rw [String.ofList_toList, lexemes]; rfl)

end NullSafeEq
