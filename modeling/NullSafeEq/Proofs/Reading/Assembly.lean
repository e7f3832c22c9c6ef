import NullSafeEq.Proofs.Reading.WellFormed

/-!
# Putting layouts together

The layout of an expression is made of layouts of the pieces of its production. Each piece says
in which mode it leaves the next one.
-/
namespace NullSafeEq

open Lexeme (Mode)

/-- Add white space in front of a layout. -/
def indent (gap : List Char) : List Item → List Item
  | [] => []
  | i :: is => ⟨gap ++ i.gap, i.token⟩ :: is

@[simp] theorem tokens_indent (gap : List Char) (items : List Item) :
    tokens (indent gap items) = tokens items := by
  cases items with
  | nil => rfl
  | cons i is => rfl

theorem typeset_indent (gap : List Char) {items : List Item} (some : items ≠ []) :
    typeset (indent gap items) = gap ++ typeset items := by
  cases items with
  | nil => exact (some rfl).elim
  | cons i is => simp [indent]

theorem spaced_indent {gap : List Char} {items : List Item} (blank : Blank gap)
    (spaced : Spaced items) : Spaced (indent gap items) := by
  cases items with
  | nil => exact spaced
  | cons i is =>
    obtain ⟨inner, rest⟩ := spaced_cons.mp spaced
    exact spaced_cons.mpr ⟨List.forall_mem_append.mpr ⟨blank, inner⟩, rest⟩

theorem newApart_indent (gap : List Char) {items : List Item} (apart : NewApart items) :
    NewApart (indent gap items) := by
  cases items with
  | nil => exact apart
  | cons i is => exact List.isChain_cons.mpr ⟨apart.rel_head?, apart.tail⟩

theorem NewApart.append {is js : List Item} (front : NewApart is) (back : NewApart js)
    (ends : ∀ i ∈ is.getLast?, i.token ≠ .create) : NewApart (is ++ js) :=
  List.IsChain.append front back fun i last _ _ create => (ends i last create).elim

/-- The items lay out the pieces of a production; after them the next token is found in the mode
`next`. -/
structure LaysParts (mode : Mode) (items : List Item) (ps : List Part) (next : Mode) : Prop where
  spelled : SpelledParts Lexeme.Anywhere ps (place 0 items)
  fits : Lexeme.Fits mode (tokens items)
  spaced : Spaced items
  apart : NewApart items
  leads : mode.afterAll (tokens items) = next

namespace LaysParts
variable {mode next last : Mode} {items js : List Item} {ps qs : List Part}

theorem nil : LaysParts mode [] [] mode := ⟨.nil, trivial, nofun, .nil, rfl⟩

theorem relocate (h : LaysParts mode items ps next) (o : Nat) :
    SpelledParts Lexeme.Anywhere ps (place o items) :=
  h.spelled.relocate (by rw [place_tokens, place_tokens])

theorem ends (h : LaysParts mode items ps next) (noName : next ≠ .typeName) :
    ∀ i ∈ items.getLast?, i.token ≠ .create := by
  intro i atEnd create
  obtain ⟨is, rfl⟩ := List.getLast?_eq_some_iff.mp atEnd
  apply noName
  rw [← h.leads, tokens_append, Lexeme.afterAll_append, tokens_cons, create]
  rfl

theorem join (front : LaysParts mode items ps next) (back : LaysParts next js qs last)
    (ends : ∀ i ∈ items.getLast?, i.token ≠ .create) :
    LaysParts mode (items ++ js) (ps ++ qs) last where
  spelled := by
    rw [place_append]
    exact front.spelled.append (back.relocate _)
  fits := by
    rw [tokens_append, Lexeme.fits_append, front.leads]
    exact ⟨front.fits, back.fits⟩
  spaced := spaced_append.mpr ⟨front.spaced, back.spaced⟩
  apart := front.apart.append back.apart ends
  leads := by rw [tokens_append, Lexeme.afterAll_append, front.leads, back.leads]

theorem append (front : LaysParts mode items ps next) (back : LaysParts next js qs last)
    (noName : next ≠ .typeName) : LaysParts mode (items ++ js) (ps ++ qs) last :=
  front.join back (front.ends noName)

/-- A token with white space in front of it. -/
theorem token {t : Token} {gap : List Char} (takes : mode.Takes t) (blank : Blank gap) :
    LaysParts mode [⟨gap, t⟩] [.token t] (mode.after t) where
  spelled := .token rfl .nil
  fits := ⟨takes, trivial⟩
  spaced := spaced_cons.mpr ⟨blank, nofun⟩
  apart := List.isChain_singleton _
  leads := rfl

theorem indent {gap : List Char} (h : LaysParts mode items ps next) (blank : Blank gap) :
    LaysParts mode (indent gap items) ps next where
  spelled := h.spelled.relocate (by rw [place_tokens, place_tokens, tokens_indent])
  fits := by
    rw [tokens_indent]
    exact h.fits
  spaced := spaced_indent blank h.spaced
  apart := newApart_indent gap h.apart
  leads := by
    rw [tokens_indent]
    exact h.leads

end LaysParts

/-! ## Expressions -/

theorem Spelled.ne_nil {placed : Option Span → List Lexeme → Prop} {e : Expr} {ts : List Lexeme}
    (h : Spelled placed e ts) : ts ≠ [] := by
  rintro rfl
  cases h.after (show Mode.operand.Plain from .inl rfl)

theorem Lexeme.Names.ne_nil {id : String} {ts : List Lexeme} (h : Names id ts) : ts ≠ [] := by
  cases h <;> simp

theorem SpelledParts.ne_nil {placed : Option Span → List Lexeme → Prop} {ps : List Part}
    {ts : List Lexeme} (h : SpelledParts placed ps ts) (some : ps ≠ []) : ts ≠ [] := by
  cases h with
  | nil => exact (some rfl).elim
  | token => exact List.cons_ne_nil _ _
  | className names rest => exact List.append_ne_nil_of_left_ne_nil names.ne_nil _
  | newType words rest =>
    obtain ⟨t, _, us, rfl, -⟩ := words
    exact List.cons_ne_nil _ _
  | sub body rest => exact List.append_ne_nil_of_left_ne_nil body.ne_nil _

theorem LaysParts.ne_nil {mode next : Mode} {items : List Item} {ps : List Part}
    (h : LaysParts mode items ps next) (some : ps ≠ []) : items ≠ [] := by
  rintro rfl
  exact h.spelled.ne_nil some rfl

/-- No expression starts with `!=`. -/
theorem Spelled.head_ne {placed : Option Span → List Lexeme → Prop} {e : Expr} {t : Lexeme}
    {ts : List Lexeme} (h : Spelled placed e (t :: ts)) : t.token ≠ .op .ne := by
  obtain ⟨s, p, ran, -⟩ := h.runs
  obtain ⟨token, range⟩ := t
  rintro rfl
  cases ran

theorem Lexeme.takes_plain {mode mode' : Mode} {t : Token} (noNe : t ≠ .op .ne)
    (first : mode.Plain) (second : mode'.Plain)
    (h : mode.Takes t) : mode'.Takes t := by
  by_cases word : t.isWord = true
  · rw [Mode.takes_word word, word_plain first] at h
    rwa [Mode.takes_word word, word_plain second]
  match t with
  | .literal .number _ | .literal .string _ | .literal .char _ => exact h
  | .op .ne => exact (noNe rfl).elim
  | .stray _ => exact h
  | .literal .null _ | .literal .boolean _ | .name _ | .self _ | .create => exact (word rfl).elim
  | .bang | .question | .colon | .comma | .dot | .openParen | .closeParen | .openSquare
  | .closeSquare => exact nofun
  | .op .or | .op .and | .op .eq | .op .lt | .op .gt | .op .le | .op .ge | .op .add | .op .sub
  | .op .mul | .op .div | .op .rem => exact nofun

namespace LaysOut
variable {mode next : Mode} {items : List Item} {e : Expr}

theorem ne_nil (h : LaysOut mode items e) : items ≠ [] := by
  rintro rfl
  exact h.spelled.ne_nil rfl

theorem leads (h : LaysOut mode items e) (plain : mode.Plain) :
    mode.afterAll (tokens items) = .operator := by
  have := h.spelled.after plain
  rwa [place_tokens] at this

/-- Both plain modes take the same layouts of expressions, since none starts with `!=`. -/
theorem plain {mode' : Mode} (h : LaysOut mode items e)
    (first : mode.Plain) (second : mode'.Plain) :
    LaysOut mode' items e := by
  refine ⟨h.spelled, ?_, h.spaced, h.apart⟩
  have spelled := h.spelled
  have fits := h.fits
  cases items with
  | nil => trivial
  | cons i is =>
    have noNe := spelled.head_ne
    obtain ⟨takes, rest⟩ := Lexeme.fits_cons.mp fits
    rw [Parser.after_plain first] at rest
    rw [← Parser.after_plain second] at rest
    exact Lexeme.fits_cons.mpr ⟨Lexeme.takes_plain noNe first second takes, rest⟩

/-- The layout of a subexpression. -/
theorem sub (h : LaysOut mode items e) (plain : mode.Plain)
    (slot : Nat) : LaysParts mode items [.sub slot e] .operator where
  spelled := .single h.spelled
  fits := h.fits
  spaced := h.spaced
  apart := h.apart
  leads := h.leads plain

theorem parts (h : LaysOut mode items e) :
    LaysParts mode items e.production (mode.afterAll (tokens items)) :=
  ⟨h.spelled.parts, h.fits, h.spaced, h.apart, rfl⟩

/-- What lays out the production of an expression lays out the expression. -/
theorem ofParts (leveled : e.Leveled) (h : LaysParts mode items e.production next) :
    LaysOut mode items e :=
  ⟨.node leveled trivial h.spelled, h.fits, h.spaced, h.apart⟩

theorem indent {gap : List Char} (h : LaysOut mode items e) (blank : Blank gap) :
    LaysOut mode (indent gap items) e :=
  .ofParts h.spelled.leveled (h.parts.indent blank)

end LaysOut

/-! ## Arguments -/

/-- Arguments with a comma and a blank between them. -/
def argItems : List (List Item) → List Item
  | [] => []
  | is :: iss => is ++ iss.flatMap fun js => ⟨[], .comma⟩ :: indent [' '] js

/-- Arguments in parentheses. -/
def bracketItems (iss : List (List Item)) : List Item :=
  ⟨[], .openParen⟩ :: (argItems iss ++ [⟨[], .closeParen⟩])

theorem laysParts_further {iss : List (List Item)} {es : List Expr} (slot : Nat)
    (h : List.Forall₂ (LaysOut .operand) iss es) :
    LaysParts .operator (iss.flatMap fun js => ⟨[], .comma⟩ :: indent [' '] js)
      (Expr.furtherArgs slot es) .operator := by
  induction h generalizing slot with
  | nil => exact .nil
  | cons lays rest ih =>
    have comma : LaysParts .operator [⟨[], .comma⟩] [.token .comma] .operand := .token nofun blank_nil
    have body := (lays.sub (.inl rfl) slot).indent blank_one
    exact (comma.append body nofun).append (ih _) nofun

theorem laysParts_bracketed {mode : Mode} {iss : List (List Item)} {es : List Expr} (slot : Nat)
    (h : List.Forall₂ (LaysOut .operand) iss es) :
    LaysParts mode (bracketItems iss) (Expr.bracketed slot es) .operator := by
  have opens : LaysParts mode [⟨[], .openParen⟩] [.token .openParen] .operand :=
    .token nofun blank_nil
  cases h with
  | nil =>
    have closes : LaysParts .operand [⟨[], .closeParen⟩] [.token .closeParen] .operator :=
      .token nofun blank_nil
    exact opens.append closes nofun
  | cons lays rest =>
    have closes : LaysParts .operator [⟨[], .closeParen⟩] [.token .closeParen] .operator :=
      .token nofun blank_nil
    have args := (lays.sub (.inl rfl) slot).append (laysParts_further (slot + 1) rest) nofun
    exact opens.append (args.append closes nofun) nofun

theorem typeset_further {iss : List (List Item)} (some : ∀ is ∈ iss, is ≠ []) :
    typeset (iss.flatMap fun js => ⟨[], .comma⟩ :: indent [' '] js) =
      iss.flatMap fun is => ',' :: ' ' :: typeset is := by
  induction iss with
  | nil => rfl
  | cons is iss ih =>
    obtain ⟨first, rest⟩ := List.forall_mem_cons.mp some
    rw [List.flatMap_cons, List.flatMap_cons, typeset_append, ih rest, typeset_cons,
      typeset_indent _ first]
    rfl

theorem toList_intercalate (mark first : String) (rest : List String) :
    (String.intercalate mark (first :: rest)).toList =
      first.toList ++ rest.flatMap fun t => mark.toList ++ t.toList := by
  induction rest generalizing first with
  | nil => simp
  | cons t rest ih =>
    rw [String.intercalate_cons_cons, String.toList_append, String.toList_append, ih,
      List.flatMap_cons, List.append_assoc, List.append_assoc]

theorem typeset_bracketItems {iss : List (List Item)} (some : ∀ is ∈ iss, is ≠ []) :
    typeset (bracketItems iss) =
      (Expr.argumentList (iss.map fun is => String.ofList (typeset is))).toList := by
  have joined : typeset (argItems iss) =
      (String.intercalate ", " (iss.map fun is => String.ofList (typeset is))).toList := by
    cases iss with
    | nil => rfl
    | cons is iss =>
      obtain ⟨-, rest⟩ := List.forall_mem_cons.mp some
      rw [argItems, typeset_append, typeset_further rest, List.map_cons, toList_intercalate,
        String.toList_ofList, List.flatMap_map]
      simp only [String.toList_ofList]
      rfl
  rw [bracketItems, typeset_cons, typeset_append, joined]
  simp [Expr.argumentList, Token.text]

/-! ## Chains of names -/

namespace DottedName

/-- The layout of a chain without any white space. -/
def items : DottedName → List Item
  | plain id => [⟨[], .name id⟩]
  | member outer id => outer.items ++ [⟨[], .dot⟩, ⟨[], .name id⟩]

theorem typeset_items (n : DottedName) : typeset n.items = n.text.toList := by
  induction n with
  | plain id => simp [items, text, Token.text]
  | member outer id ih => simp [items, text, Token.text, ih]

theorem names (n : DottedName) (o : Nat) : Lexeme.Names n.text (place o n.items) := by
  induction n with
  | plain id => exact .name rfl
  | member outer id ih =>
    rw [items, place_append]
    exact .member ih rfl rfl

variable {mode : Mode} {n : DottedName}

theorem laysOut (valid : n.Valid) (plain : mode.Plain) :
    LaysOut mode n.items n.toExpr := by
  induction n with
  | plain id =>
    have takes : mode.Takes (.name id) := (Lexeme.takes_name_plain plain).mpr valid
    exact .ofParts trivial (.token takes blank_nil)
  | member outer id ih =>
    have front := (ih valid.1).sub plain 0
    have dot : LaysParts .operator [⟨[], .dot⟩] [.token .dot] .member := .token nofun blank_nil
    have name : LaysParts .member [⟨[], .name id⟩] [.token (.name id)] .operator :=
      .token (Lexeme.takes_name_member.mpr valid.2) blank_nil
    have tight : 9 ≤ outer.toExpr.level := by cases outer <;> exact Nat.le_refl 9
    exact .ofParts tight (front.append (dot.append name nofun) nofun)

/-- A chain as a class name. -/
theorem laysClassName (valid : n.Valid) (plain : mode.Plain) :
    LaysParts mode n.items [.className n.text] .operator where
  spelled := by simpa using SpelledParts.className (n.names 0) .nil
  fits := (laysOut valid plain).fits
  spaced := (laysOut valid plain).spaced
  apart := (laysOut valid plain).apart
  leads := (laysOut valid plain).leads plain

/-- A chain that is called. -/
theorem laysCall {iss : List (List Item)} {args : List Expr} (valid : n.Valid)
    (plain : mode.Plain) (h : List.Forall₂ (LaysOut .operand) iss args) :
    LaysOut mode (n.items ++ bracketItems iss) (n.call args) := by
  cases n with
  | plain id =>
    have name : LaysParts mode [⟨[], .name id⟩] [.token (.name id)] (mode.after (.name id)) :=
      .token ((Lexeme.takes_name_plain plain).mpr valid) blank_nil
    refine .ofParts trivial (name.append (laysParts_bracketed 0 h) ?_)
    rcases plain with rfl | rfl <;> nofun
  | member outer id =>
    have front := (laysOut valid.1 plain).sub plain 0
    have dot : LaysParts .operator [⟨[], .dot⟩] [.token .dot] .member := .token nofun blank_nil
    have name : LaysParts .member [⟨[], .name id⟩] [.token (.name id)] .operator :=
      .token (Lexeme.takes_name_member.mpr valid.2) blank_nil
    have tight : 9 ≤ outer.toExpr.level := by cases outer <;> exact Nat.le_refl 9
    have callee := front.append (dot.append name nofun) nofun
    exact .ofParts tight (callee.append (laysParts_bracketed 1 h) nofun)

end DottedName

/-! ## Types after `new` -/

/-- The layout of words with dots between them. -/
def wordItems : List String → List Item
  | [] => []
  | w :: ws => ⟨[], .name w⟩ :: ws.flatMap fun v => [⟨[], .dot⟩, ⟨[], .name v⟩]

/-- The layout of `new` and a type. -/
def newItems (words : List String) : List Item := ⟨[], .create⟩ :: indent [' '] (wordItems words)

theorem typeset_wordItems (words : List String) :
    typeset (wordItems words) = (String.intercalate "." words).toList := by
  cases words with
  | nil => rfl
  | cons w ws =>
    rw [wordItems, typeset_cons, toList_intercalate]
    simp [typeset, Item.chars, Token.text, List.flatMap_assoc]

theorem wordItems_ne_nil {words : List String} (some : words ≠ []) : wordItems words ≠ [] := by
  cases words with
  | nil => exact (some rfl).elim
  | cons w ws => exact List.cons_ne_nil _ _

theorem typeset_newItems {words : List String} (some : words ≠ []) :
    typeset (newItems words) = ("new " ++ String.intercalate "." words).toList := by
  rw [newItems, typeset_cons, typeset_indent _ (wordItems_ne_nil some), typeset_wordItems]
  simp [Token.text]

theorem words_wordItems {words : List String} (some : words ≠ []) (o : Nat) :
    Lexeme.Words words (place o (wordItems words)) := by
  induction words generalizing o with
  | nil => exact (some rfl).elim
  | cons w ws ih =>
    cases ws with
    | nil => exact .one rfl
    | cons v ws => exact .more rfl rfl (ih (List.cons_ne_nil _ _) _)

theorem fits_wordItems {words : List String} (each : ∀ w ∈ words, IsIdentifier w) :
    Lexeme.Fits .typeName (tokens (wordItems words)) := by
  induction words with
  | nil => trivial
  | cons w ws ih =>
    obtain ⟨first, rest⟩ := List.forall_mem_cons.mp each
    cases ws with
    | nil => exact ⟨Lexeme.takes_name_type.mpr first, trivial⟩
    | cons v ws => exact ⟨Lexeme.takes_name_type.mpr first, nofun, ih rest⟩


theorem wordItems_mem {words : List String} {i : Item} (h : i ∈ wordItems words) :
    i.gap = [] ∧ i.token ≠ .create := by
  cases words with
  | nil => cases h
  | cons w ws =>
    simp only [wordItems, List.mem_cons, List.mem_flatMap, List.not_mem_nil, or_false] at h
    rcases h with rfl | ⟨v, -, rfl | rfl⟩
    · exact ⟨rfl, nofun⟩
    · exact ⟨rfl, nofun⟩
    · exact ⟨rfl, nofun⟩

theorem after_words {words : List String} {ts : List Lexeme} (h : Lexeme.Words words ts) :
    Mode.typeName.afterAll (ts.map Lexeme.token) = .typeTail := by
  induction h with
  | one word => simp [word, Mode.after]
  | more word dot _ ih =>
    simp only [List.map_cons, word, dot, Lexeme.afterAll_cons, Mode.after, if_true]
    exact ih

theorem newApart_of_noNew {items : List Item} (h : ∀ i ∈ items, i.token ≠ .create) :
    NewApart items := by
  induction items with
  | nil => exact .nil
  | cons i is ih =>
    obtain ⟨first, rest⟩ := List.forall_mem_cons.mp h
    exact List.isChain_cons.mpr ⟨fun _ _ create => (first create).elim, ih rest⟩

theorem laysNewType {mode : Mode} {words : List String} (some : words ≠ [])
    (each : ∀ w ∈ words, IsIdentifier w) (plain : mode.Plain) :
    LaysParts mode (newItems words) [.newType (String.intercalate "." words)] .typeTail where
  spelled := by
    have typed : Lexeme.NewType (String.intercalate "." words) (place 0 (newItems words)) := by
      refine ⟨_, words, place 3 (indent [' '] (wordItems words)), rfl, rfl, ?_, rfl⟩
      apply (words_wordItems some 3).relocate
      rw [place_tokens, place_tokens, tokens_indent]
    simpa using SpelledParts.newType typed .nil
  fits := by
    have new : mode.Takes .create := by
      rw [Mode.takes_word rfl, Lexeme.word_plain plain]
      exact ⟨⟨'n', "ew".toList, rfl, by decide, by decide⟩, by decide⟩
    rw [newItems, tokens_cons, tokens_indent]
    exact ⟨new, fits_wordItems each⟩
  spaced := by
    have inner : Spaced (wordItems words) := by
      intro i member
      rw [(wordItems_mem member).1]
      exact blank_nil
    exact spaced_cons.mpr ⟨blank_nil, spaced_indent blank_one inner⟩
  apart := by
    have inner : NewApart (wordItems words) :=
      newApart_of_noNew fun i member => (wordItems_mem member).2
    refine List.isChain_cons.mpr ⟨?_, newApart_indent [' '] inner⟩
    intro j head _ noGap
    cases same : wordItems words with
    | nil =>
      rw [same] at head
      cases head
    | cons i is =>
      rw [same] at head
      obtain rfl := Option.some.inj head
      cases noGap
  leads := by
    rw [newItems, tokens_cons, Lexeme.afterAll_cons, tokens_indent, ← place_tokens 0]
    exact after_words (words_wordItems some 0)

end NullSafeEq
