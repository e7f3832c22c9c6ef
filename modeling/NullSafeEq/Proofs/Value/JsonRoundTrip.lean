import NullSafeEq.Proofs.Value.JsonText

/-!
# Reading what was written as JSON

A writable value without real numbers, dates and broken texts, and with texts for keys, is read back
from the document that is written for it.
-/
namespace NullSafeEq

/-- A value that JSON holds without loss: no real number, no date and no broken text in it, and
mappings with different texts for keys. -/
inductive Value.IsPlain : Value → Prop where
  | null : IsPlain .null
  | bool (b : Bool) : IsPlain (.bool b)
  | int (n : Int) : IsPlain (.int n)
  | text (s : String) : IsPlain (.text s)
  | list {items : List Value} (plain : ∀ v ∈ items, IsPlain v) : IsPlain (.list items)
  | mapping {entries : List (Key × Value)} (texts : ∀ e ∈ entries, ∃ s, e.1 = .text s)
      (plain : ∀ e ∈ entries, IsPlain e.2) (unique : (entries.map Prod.fst).Nodup) :
      IsPlain (.mapping entries)

attribute [simp] Value.IsPlain.null Value.IsPlain.bool Value.IsPlain.int Value.IsPlain.text

@[simp] theorem Value.isPlain_list {items : List Value} :
    (Value.list items).IsPlain ↔ ∀ v ∈ items, v.IsPlain :=
  ⟨fun | .list plain => plain, .list⟩

@[simp] theorem Value.isPlain_mapping {entries : List (Key × Value)} :
    (Value.mapping entries).IsPlain ↔ (∀ e ∈ entries, ∃ s, e.1 = .text s) ∧
      (∀ e ∈ entries, e.2.IsPlain) ∧ (entries.map Prod.fst).Nodup :=
  ⟨fun | .mapping texts plain unique => ⟨texts, plain, unique⟩, fun ⟨texts, plain, unique⟩ =>
    .mapping texts plain unique⟩

namespace Json
variable {ascii : Bool} {fuel depth : Nat} {rest cs : List Char} {v : Value}

/-! ## What is written -/

/-- The characters written for a value. -/
def written (ascii : Bool) (depth : Nat) (v : Value) : List Char := (writeAt ascii depth v).toList

/-- A line break with its indentation. -/
def lineBreak (depth : Nat) : List Char := '\n' :: List.replicate (2 * depth) ' '

/-- What is written for an entry behind its line break. -/
def writtenEntry (ascii : Bool) (depth : Nat) (e : Key × Value) : List Char :=
  (quote ascii (keyText e.1)).toList ++ ':' :: ' ' :: written ascii depth e.2

/-- What is written for further items. -/
def furtherItems (ascii : Bool) (depth : Nat) (items : List Value) : List Char :=
  items.flatMap fun v => ',' :: (lineBreak depth ++ written ascii depth v)

/-- What is written for further entries. -/
def furtherEntries (ascii : Bool) (depth : Nat) (entries : List (Key × Value)) : List Char :=
  entries.flatMap fun e => ',' :: (lineBreak depth ++ writtenEntry ascii depth e)

theorem toList_newline (depth : Nat) : (newline depth).toList = lineBreak depth := by
  simp [newline, lineBreak]

theorem toList_intercalate_cons (s : String) (ss : List String) :
    (",".intercalate (s :: ss)).toList = s.toList ++ ss.flatMap fun t => ',' :: t.toList := by
  rw [String.toList_intercalate, List.map_cons]
  induction ss generalizing s with
  | nil => simp
  | cons t ss ih =>
    rw [List.map_cons, List.intercalate_cons_cons, ih t]
    simp

theorem writeItems_eq (ascii : Bool) (depth : Nat) (items : List Value) :
    writeItems ascii depth items = items.map fun v => newline depth ++ writeAt ascii depth v := by
  induction items with
  | nil => rw [writeItems, List.map_nil]
  | cons v items ih => rw [writeItems, ih, List.map_cons]

theorem writeEntries_eq (ascii : Bool) (depth : Nat) (entries : List (Key × Value)) :
    writeEntries ascii depth entries = entries.map fun e =>
      newline depth ++ quote ascii (keyText e.1) ++ ": " ++ writeAt ascii depth e.2 := by
  induction entries with
  | nil => rw [writeEntries, List.map_nil]
  | cons e entries ih => rw [writeEntries, ih, List.map_cons]

theorem written_list (v : Value) (items : List Value) :
    written ascii depth (.list (v :: items)) =
      '[' :: (lineBreak (depth + 1) ++ written ascii (depth + 1) v ++
        furtherItems ascii (depth + 1) items ++ lineBreak depth ++ [']']) := by
  simp only [written, writeAt, writeItems_eq, List.map_cons, String.toList_append,
    toList_intercalate_cons, toList_newline, List.flatMap_map, furtherItems]
  simp

theorem written_mapping (e : Key × Value) (entries : List (Key × Value)) :
    written ascii depth (.mapping (e :: entries)) =
      '\x7b' :: (lineBreak (depth + 1) ++ writtenEntry ascii (depth + 1) e ++
        furtherEntries ascii (depth + 1) entries ++ lineBreak depth ++ ['\x7d']) := by
  simp only [written, writeAt, writeEntries_eq, List.map_cons, String.toList_append,
    toList_intercalate_cons, toList_newline, List.flatMap_map, furtherEntries, writtenEntry]
  simp

/-! ## White space -/

/-- A text that starts with an ASCII character which is no white space and closes nothing. -/
def Opens (cs : List Char) : Prop :=
  ∃ c cs', cs = c :: cs' ∧ isSpace c = false ∧ c ≠ ']' ∧ c ≠ '\x7d' ∧ c.toNat < 0x80

theorem Opens.append (opens : Opens cs) (rest : List Char) : Opens (cs ++ rest) := by
  obtain ⟨c, cs, rfl, first⟩ := opens
  exact ⟨c, cs ++ rest, rfl, first⟩

theorem Opens.skipSpace (opens : Opens cs) : skipSpace cs = cs := by
  obtain ⟨c, cs, rfl, space, -⟩ := opens
  rw [Json.skipSpace, List.dropWhile_cons_of_neg (by simp [space])]

theorem skipSpace_lineBreak (depth : Nat) (cs : List Char) :
    skipSpace (lineBreak depth ++ cs) = skipSpace cs := by
  refine List.dropWhile_append_of_pos fun c member => ?_
  rcases List.mem_cons.mp member with rfl | later
  · rfl
  · rw [(List.mem_replicate.mp later).2]
    rfl

theorem opens_written (ascii : Bool) (depth : Nat) (plain : v.IsPlain) :
    Opens (written ascii depth v) := by
  have quoted (s : String) : Opens (quote ascii s).toList :=
    ⟨'"', _, toList_quote ascii s, by decide⟩
  have digits (n : Nat) : Opens (Nat.toDigits 10 n) := by
    obtain ⟨d, ds, same, digit⟩ := exists_digit n
    refine ⟨d, ds, same, ?_, ?_, ?_, ?_⟩
    · cases space : isSpace d with
      | false => rfl
      | true =>
        simp only [isSpace, Bool.or_eq_true, decide_eq_true_eq] at space
        rcases space with ((rfl | rfl) | rfl) | rfl <;> cases digit
    · rintro rfl
      cases digit
    · rintro rfl
      cases digit
    · have range := isDigit_range digit
      simp only [Bool.and_eq_true, decide_eq_true_eq] at range
      exact Nat.lt_of_le_of_lt range.2 (by decide)
  rw [written]
  cases plain with
  | null => exact ⟨'n', "ull".toList, by rw [writeAt]; rfl, by decide⟩
  | bool b =>
    cases b with
    | false => exact ⟨'f', "alse".toList, by rw [writeAt]; rfl, by decide⟩
    | true => exact ⟨'t', "rue".toList, by rw [writeAt]; rfl, by decide⟩
  | int n =>
    rw [writeAt]
    cases n with
    | ofNat m => exact toList_ofNat m ▸ digits m
    | negSucc m => exact ⟨'-', _, toList_negSucc m, by decide⟩
  | text s =>
    rw [writeAt]
    exact quoted s
  | @list items =>
    cases items with
    | nil => exact ⟨'[', [']'], by rw [writeAt]; rfl, by decide⟩
    | cons v items => exact ⟨'[', _, written_list v items, by decide⟩
  | @mapping entries =>
    cases entries with
    | nil => exact ⟨'\x7b', ['\x7d'], by rw [writeAt]; rfl, by decide⟩
    | cons e entries => exact ⟨'\x7b', _, written_mapping e entries, by decide⟩

theorem opens_writtenEntry (ascii : Bool) (depth : Nat) (e : Key × Value) :
    Opens (writtenEntry ascii depth e) :=
  ⟨'"', _, by rw [writtenEntry, toList_quote]; rfl, by decide⟩

/-! ## One step of the reader -/

theorem value_list (fuel depth : Nat) (opens : Opens cs) :
    value (fuel + 1) ('[' :: (lineBreak depth ++ cs)) =
      (elements fuel cs).map fun (items, rest) => (.list items, rest) := by
  have start : skipSpace (lineBreak depth ++ cs) = cs :=
    (skipSpace_lineBreak depth cs).trans opens.skipSpace
  obtain ⟨c, cs, rfl, -, bracket, -⟩ := opens
  simp only [value, start]
  split
  next same => exact absurd (List.cons.inj same).1 bracket
  next => rfl

theorem value_mapping (fuel depth : Nat) (opens : Opens cs) :
    value (fuel + 1) ('\x7b' :: (lineBreak depth ++ cs)) =
      (members fuel [] cs).map fun (entries, rest) => (.mapping entries, rest) := by
  have start : skipSpace (lineBreak depth ++ cs) = cs :=
    (skipSpace_lineBreak depth cs).trans opens.skipSpace
  obtain ⟨c, cs, rfl, -, -, brace, -⟩ := opens
  simp only [value, start]
  split
  next same => exact absurd (List.cons.inj same).1 brace
  next => rfl

variable {soFar : List (Key × Value)} {items : List Value}

theorem elements_last {outer : Nat} (read : value fuel (cs ++ (lineBreak outer ++ ']' :: rest)) =
    .ok (v, lineBreak outer ++ ']' :: rest)) :
    elements (fuel + 1) (cs ++ (lineBreak outer ++ ']' :: rest)) = .ok ([v], rest) := by
  have close : skipSpace (lineBreak outer ++ ']' :: rest) = ']' :: rest :=
    skipSpace_lineBreak outer _
  simp only [elements, read, bind, Except.bind, close]

theorem elements_further {more : List Char} (opens : Opens more)
    (read : value fuel (cs ++ ',' :: (lineBreak depth ++ more)) =
      .ok (v, ',' :: (lineBreak depth ++ more)))
    (others : elements fuel more = .ok (items, rest)) :
    elements (fuel + 1) (cs ++ ',' :: (lineBreak depth ++ more)) = .ok (v :: items, rest) := by
  have comma : skipSpace (',' :: (lineBreak depth ++ more)) = ',' :: (lineBreak depth ++ more) :=
    rfl
  have start : skipSpace (lineBreak depth ++ more) = more :=
    (skipSpace_lineBreak depth more).trans opens.skipSpace
  simp only [elements, read, bind, Except.bind, comma, start, others]

theorem keyOf_points (s : String) : keyOf (Text.points s) = .text s := by
  rw [keyOf, Text.ofPoints_points]

/-- What is read behind an entry: the end of the mapping or further entries. -/
def membersBehind (fuel : Nat) (soFar : List (Key × Value)) (rest : List Char) :
    Except Fault (List (Key × Value) × List Char) :=
  match skipSpace rest with
  | '\x7d' :: rest => .ok (soFar, rest)
  | ',' :: rest => members fuel soFar (skipSpace rest)
  | rest => .error ⟨.comma, rest.length⟩

/-- The key and the colon of an entry are read before its value. -/
theorem members_entry (s : String) (opens : Opens (written ascii depth v))
    (read : value fuel (written ascii depth v ++ rest) = .ok (v, rest)) :
    members (fuel + 1) soFar (writtenEntry ascii depth (.text s, v) ++ rest) =
      membersBehind fuel (Value.insert (.text s) v soFar) rest := by
  have colon : skipSpace (':' :: ' ' :: (written ascii depth v ++ rest)) =
      ':' :: ' ' :: (written ascii depth v ++ rest) := rfl
  have blank : skipSpace (' ' :: (written ascii depth v ++ rest)) = written ascii depth v ++ rest :=
    (opens.append rest).skipSpace
  have key (opening : Nat) : stringRest opening [] 0 (s.toList.flatMap (escapeChar ascii) ++
      '"' :: ':' :: ' ' :: (written ascii depth v ++ rest)) =
      .ok (Text.points s, ':' :: ' ' :: (written ascii depth v ++ rest)) := by
    rw [stringRest_escapeChars, List.reverse_nil, List.nil_append, Text.points]
  simp only [writtenEntry, keyText, toList_quote, List.cons_append, List.append_assoc,
    List.nil_append, members, key, bind, Except.bind, colon, blank, read, keyOf_points]
  rfl

theorem value_atom {found : Value × List Char}
    (first : ∀ c ∈ cs.head?, c ≠ '"' ∧ c ≠ '\x7b' ∧ c ≠ '[') (read : atom? cs = some found)
    (within : withinLimit cs.length found = .ok found) : value (fuel + 1) cs = .ok found := by
  unfold value
  split
  next => exact absurd rfl (first '"' rfl).1
  next => exact absurd rfl (first '\x7b' rfl).2.1
  next => exact absurd rfl (first '[' rfl).2.2
  next => simp only [read, within]

theorem insert_append (key : Key) (v : Value) {entries : List (Key × Value)}
    (new : ∀ e ∈ entries, e.1 ≠ key) : Value.insert key v entries = entries ++ [(key, v)] := by
  induction entries with
  | nil => rfl
  | cons e entries ih =>
    have other : e.1 ≠ key := new e List.mem_cons_self
    rw [Value.insert, if_neg other, ih fun e member => new e (List.mem_cons_of_mem _ member)]
    rfl

/-- An entry is read in front of what ends it. -/
theorem members_last {outer : Nat} (s : String) (opens : Opens (written ascii depth v))
    (new : ∀ e ∈ soFar, e.1 ≠ .text s)
    (read : value fuel (written ascii depth v ++ (lineBreak outer ++ '\x7d' :: rest)) =
      .ok (v, lineBreak outer ++ '\x7d' :: rest)) :
    members (fuel + 1) soFar (writtenEntry ascii depth (.text s, v) ++
      (lineBreak outer ++ '\x7d' :: rest)) = .ok (soFar ++ [(.text s, v)], rest) := by
  have close : skipSpace (lineBreak outer ++ '\x7d' :: rest) = '\x7d' :: rest :=
    skipSpace_lineBreak outer _
  rw [members_entry s opens read]
  simp only [membersBehind, close, insert_append _ _ new]

theorem members_further (s : String) {more : List Char} (opens : Opens (written ascii depth v))
    (new : ∀ e ∈ soFar, e.1 ≠ .text s) (opensMore : Opens more)
    (read : value fuel (written ascii depth v ++ ',' :: (lineBreak depth ++ more)) =
      .ok (v, ',' :: (lineBreak depth ++ more))) :
    members (fuel + 1) soFar (writtenEntry ascii depth (.text s, v) ++
      ',' :: (lineBreak depth ++ more)) = members fuel (soFar ++ [(.text s, v)]) more := by
  have comma : skipSpace (',' :: (lineBreak depth ++ more)) = ',' :: (lineBreak depth ++ more) :=
    rfl
  have start : skipSpace (lineBreak depth ++ more) = more :=
    (skipSpace_lineBreak depth more).trans opensMore.skipSpace
  rw [members_entry s opens read]
  simp only [membersBehind, comma, start, insert_append _ _ new]

/-! ## All of a value -/

theorem endsValue_lineBreak (depth : Nat) (cs : List Char) : EndsValue (lineBreak depth ++ cs) := by
  rintro c ⟨⟩
  exact .inr rfl

theorem endsValue_comma (cs : List Char) : EndsValue (',' :: cs) := by
  rintro c ⟨⟩
  exact .inl rfl

/-- Every text for a value is read as the value, given fuel for its length. -/
def IsRead (ascii : Bool) (v : Value) : Prop :=
  ∀ fuel depth rest, 2 * (written ascii depth v).length ≤ fuel → EndsValue rest →
    value fuel (written ascii depth v ++ rest) = .ok (v, rest)

/-- The text for a value opens with a character, so there is fuel for one step. -/
theorem IsRead.of_succ (plain : v.IsPlain)
    (step : ∀ fuel depth rest, 2 * (written ascii depth v).length ≤ fuel + 1 → EndsValue rest →
      value (fuel + 1) (written ascii depth v ++ rest) = .ok (v, rest)) : IsRead ascii v := by
  intro fuel depth rest enough ends
  obtain ⟨c, cs, same, -⟩ := opens_written ascii depth plain
  have some : 0 < (written ascii depth v).length := by
    rw [same]
    exact Nat.succ_pos _
  obtain ⟨fuel, rfl⟩ : ∃ f, fuel = f + 1 := ⟨fuel - 1, by omega⟩
  exact step fuel depth rest enough ends

theorem isRead_atom (plain : v.IsPlain)
    (first : ∀ depth, ∀ c ∈ (written ascii depth v).head?, c ≠ '"' ∧ c ≠ '\x7b' ∧ c ≠ '[')
    (read : ∀ depth rest, EndsValue rest → atom? (written ascii depth v ++ rest) = some (v, rest))
    (within : ∀ left rest, withinLimit left (v, rest) = .ok (v, rest)) : IsRead ascii v := by
  refine .of_succ plain fun fuel depth rest _ ends =>
    value_atom ?_ (read depth rest ends) (within _ rest)
  obtain ⟨c, cs, same, -⟩ := opens_written ascii depth plain
  have start := first depth
  rw [same] at start ⊢
  exact start

theorem isRead_text (ascii : Bool) (s : String) : IsRead ascii (.text s) := by
  refine .of_succ (.text s) fun fuel depth rest _ _ => ?_
  rw [written, writeAt, toList_quote]
  simp only [List.cons_append, List.append_assoc, List.nil_append, value, stringRest_escapeChars]
  rw [List.reverse_nil, List.nil_append, ← Text.points, Except.map, Value.ofPoints_points]

theorem elements_written (plain : v.IsPlain) (others : ∀ w ∈ items, w.IsPlain)
    (read : IsRead ascii v) (reads : ∀ w ∈ items, IsRead ascii w) (fuel depth outer : Nat)
    (rest : List Char)
    (enough : 2 * (written ascii depth v ++ furtherItems ascii depth items).length < fuel) :
    elements fuel (written ascii depth v ++
      (furtherItems ascii depth items ++ (lineBreak outer ++ ']' :: rest))) =
      .ok (v :: items, rest) := by
  obtain ⟨fuel, rfl⟩ : ∃ f, fuel = f + 1 := ⟨fuel - 1, by omega⟩
  induction items generalizing v fuel with
  | nil =>
    simp only [furtherItems, List.flatMap_nil, List.nil_append, List.append_nil] at enough ⊢
    exact elements_last (read fuel depth _ (by omega) (endsValue_lineBreak outer _))
  | cons w items ih =>
    simp only [furtherItems, List.flatMap_cons, List.cons_append, List.append_assoc,
      List.length_append, List.length_cons] at enough ih ⊢
    obtain ⟨fuel, rfl⟩ : ∃ f, fuel = f + 1 := ⟨fuel - 1, by omega⟩
    have further := ih (others w List.mem_cons_self) (fun x member => others x (.tail _ member))
      (reads w List.mem_cons_self) (fun x member => reads x (.tail _ member)) fuel (by omega)
    exact elements_further ((opens_written ascii depth (others w List.mem_cons_self)).append _)
      (read (fuel + 1) depth _ (by omega) (endsValue_comma _)) further

theorem new_of_nodup {key : Key} {entries : List (Key × Value)}
    (unique : ((soFar ++ (key, v) :: entries).map Prod.fst).Nodup) : ∀ e ∈ soFar, e.1 ≠ key := by
  intro e member same
  rw [List.map_append, List.nodup_append] at unique
  exact unique.2.2 e.1 (List.mem_map_of_mem member) _ List.mem_cons_self same

theorem fuel_for_entry (key : Key)
    (enough : 2 * (writtenEntry ascii depth (key, v)).length < fuel + 1) :
    2 * (written ascii depth v).length ≤ fuel := by
  simp only [writtenEntry, List.length_append, List.length_cons] at enough
  omega

theorem members_written {s : String} {entries : List (Key × Value)} (plain : v.IsPlain)
    (texts : ∀ e ∈ entries, ∃ s, e.1 = .text s) (others : ∀ e ∈ entries, e.2.IsPlain)
    (unique : ((soFar ++ (.text s, v) :: entries).map Prod.fst).Nodup)
    (read : IsRead ascii v) (reads : ∀ e ∈ entries, IsRead ascii e.2) (fuel depth outer : Nat)
    (rest : List Char)
    (enough : 2 * (writtenEntry ascii depth (.text s, v) ++
      furtherEntries ascii depth entries).length < fuel) :
    members fuel soFar (writtenEntry ascii depth (.text s, v) ++
      (furtherEntries ascii depth entries ++ (lineBreak outer ++ '\x7d' :: rest))) =
      .ok (soFar ++ (.text s, v) :: entries, rest) := by
  obtain ⟨fuel, rfl⟩ : ∃ f, fuel = f + 1 := ⟨fuel - 1, by omega⟩
  induction entries generalizing s v soFar fuel with
  | nil =>
    simp only [furtherEntries, List.flatMap_nil, List.nil_append, List.append_nil] at enough ⊢
    exact members_last s (opens_written ascii depth plain) (new_of_nodup unique)
      (read fuel depth _ (fuel_for_entry (.text s) enough) (endsValue_lineBreak outer _))
  | cons e entries ih =>
    obtain ⟨t, name⟩ := texts e List.mem_cons_self
    obtain ⟨k, w⟩ := e
    obtain rfl : k = .text t := name
    have regrouped : soFar ++ (.text s, v) :: (.text t, w) :: entries =
        soFar ++ [(.text s, v)] ++ (.text t, w) :: entries := by simp
    simp only [furtherEntries, List.flatMap_cons, List.cons_append, List.append_assoc,
      List.length_append, List.length_cons] at enough ih ⊢
    obtain ⟨fuel, rfl⟩ : ∃ f, fuel = f + 1 := ⟨fuel - 1, by omega⟩
    rw [members_further s (opens_written ascii depth plain) (new_of_nodup unique)
      ((opens_writtenEntry ascii depth (.text t, w)).append _)
      (read (fuel + 1) depth _ (fuel_for_entry (.text s) (by omega)) (endsValue_comma _)),
      regrouped]
    have plainNext : w.IsPlain := others (.text t, w) List.mem_cons_self
    have readNext : IsRead ascii w := reads (.text t, w) List.mem_cons_self
    exact ih plainNext (fun x member => texts x (.tail _ member))
      (fun x member => others x (.tail _ member)) (regrouped ▸ unique) readNext
      (fun x member => reads x (.tail _ member)) fuel (by omega)

theorem isRead_list (plain : ∀ w ∈ items, w.IsPlain) (reads : ∀ w ∈ items, IsRead ascii w) :
    IsRead ascii (.list items) := by
  refine .of_succ (.list plain) fun fuel depth rest enough _ => ?_
  cases items with
  | nil =>
    rw [written, writeAt]
    rfl
  | cons v items =>
    have opens := opens_written ascii (depth + 1) (plain v List.mem_cons_self)
    rw [written_list] at enough ⊢
    simp only [List.cons_append, List.append_assoc, List.nil_append, List.length_cons,
      List.length_append] at enough ⊢
    have read := elements_written (plain v List.mem_cons_self)
      (fun w member => plain w (.tail _ member)) (reads v List.mem_cons_self)
      (fun w member => reads w (.tail _ member)) fuel (depth + 1) depth rest
      (by rw [List.length_append]; omega)
    rw [value_list fuel (depth + 1) (opens.append _), read]
    rfl

theorem isRead_mapping {entries : List (Key × Value)} (texts : ∀ e ∈ entries, ∃ s, e.1 = .text s)
    (plain : ∀ e ∈ entries, e.2.IsPlain) (unique : (entries.map Prod.fst).Nodup)
    (reads : ∀ e ∈ entries, IsRead ascii e.2) : IsRead ascii (.mapping entries) := by
  refine .of_succ (.mapping texts plain unique) fun fuel depth rest enough _ => ?_
  cases entries with
  | nil =>
    rw [written, writeAt]
    rfl
  | cons e entries =>
    obtain ⟨s, name⟩ := texts e List.mem_cons_self
    obtain ⟨k, v⟩ := e
    obtain rfl : k = .text s := name
    rw [written_mapping] at enough ⊢
    simp only [List.cons_append, List.append_assoc, List.nil_append, List.length_cons,
      List.length_append] at enough ⊢
    have plainFirst : v.IsPlain := plain (.text s, v) List.mem_cons_self
    have readFirst : IsRead ascii v := reads (.text s, v) List.mem_cons_self
    have read := @members_written ascii v [] s entries plainFirst
      (fun e member => texts e (.tail _ member)) (fun e member => plain e (.tail _ member)) unique
      readFirst (fun e member => reads e (.tail _ member)) fuel (depth + 1) depth rest
      (by rw [List.length_append]; omega)
    have opens := opens_writtenEntry ascii (depth + 1) (.text s, v)
    rw [value_mapping fuel (depth + 1) (opens.append _), read]
    rfl

/-- The text for a plain value is read as the value, if every number in it keeps the limit. -/
theorem isRead_of_isPlain (ascii : Bool) (plain : v.IsPlain) (writable : v.isWritable = true) :
    IsRead ascii v := by
  induction plain with
  | null =>
    refine isRead_atom .null (fun depth => ?_) (fun depth rest _ => ?_) fun _ _ => rfl
    · rw [written, writeAt]
      rintro c ⟨⟩
      decide
    · rw [written, writeAt]
      exact atom_null rest
  | bool b =>
    refine isRead_atom (.bool b) (fun depth => ?_) (fun depth rest _ => ?_) fun _ _ => rfl
    · rw [written, writeAt]
      cases b <;> (rintro c ⟨⟩; decide)
    · rw [written, writeAt]
      exact atom_bool b rest
  | int n =>
    refine isRead_atom (.int n) (fun depth => ?_) (fun depth rest ends => ?_)
      fun _ _ => if_pos writable
    · rw [written, writeAt]
      obtain ⟨c, cs, same, first⟩ := head_numeral n
      rw [same]
      rintro _ ⟨⟩
      refine ⟨?_, ?_, ?_⟩ <;> rintro rfl <;> simp at first
    · rw [written, writeAt]
      exact atom_int n ends
  | text s => exact isRead_text ascii s
  | list plain reads =>
    have each := Value.areWritable_iff.mp writable
    exact isRead_list plain fun v member => reads v member (each v member)
  | mapping texts plain unique reads =>
    have each := Value.entriesWritable_iff.mp writable
    exact isRead_mapping texts plain unique fun e member => reads e member (each e member).2

/-- A document that holds a plain value and blanks behind it is read as the value. -/
theorem document_written (plain : v.IsPlain) (writable : v.isWritable = true)
    (ends : EndsValue rest) (blank : skipSpace rest = []) :
    document (written ascii 0 v ++ rest) = .ok v := by
  have opens := opens_written ascii 0 plain
  have read := isRead_of_isPlain ascii plain writable
    (2 * (written ascii 0 v ++ rest).length + 2) 0 rest (by rw [List.length_append]; omega) ends
  have start : skipSpace (written ascii 0 v ++ rest) = written ascii 0 v ++ rest :=
    (opens.append rest).skipSpace
  have noMark : ¬ (written ascii 0 v ++ rest).head?.map Char.toNat = some 0xfeff := by
    obtain ⟨c, cs, same, -, -, -, low⟩ := opens.append rest
    rw [same]
    intro mark
    have code : c.toNat = 0xfeff := Option.some.inj mark
    omega
  simp only [document, if_neg noMark, start, read, bind, Except.bind, blank]

theorem document_write (ascii : Bool) (plain : v.IsPlain) (writable : v.isWritable = true) :
    document (write ascii v).toList = .ok v := by
  have alone := @document_written ascii [] v plain writable (by rintro c ⟨⟩) rfl
  rwa [List.append_nil] at alone

/-- What is written for a plain value, with or without a line feed behind it, is one document, and
reading it gives the value. -/
theorem read_write (ascii : Bool) (plain : v.IsPlain) (writable : v.isWritable = true) :
    read (write ascii v) = .ok v ∧ read (write ascii v ++ "\n") = .ok v := by
  have closed : document (written ascii 0 v ++ "\n".toList) = .ok v :=
    document_written plain writable (endsValue_lineBreak 0 []) rfl
  constructor
  · rw [read, document_write ascii plain writable]
    rfl
  · rw [read, String.toList_append, write, ← written, closed]
    rfl

/-! ## Carriage returns -/

theorem return_notMem_escapeChar (c : Char) : '\r' ∉ escapeChar ascii c := by
  have digit (n : Nat) : '\r' ≠ Text.hexDigit (n % 16) :=
    (by decide : ∀ n < 16, '\r' ≠ Text.hexDigit n) _ (Nat.mod_lt _ (by decide))
  have unit (n : Nat) : '\r' ∉ unitEscape n := by simp [unitEscape, hexDigits_four, digit]
  unfold escapeChar
  by_cases escaped : c = '\r'
  · subst escaped
    simp
  · repeat' split
    all_goals simp [unit, Ne.symm escaped]

theorem return_notMem_quote (s : String) : '\r' ∉ (quote ascii s).toList := by
  simp [toList_quote, return_notMem_escapeChar]

theorem return_notMem_lineBreak (depth : Nat) : '\r' ∉ lineBreak depth := by
  simp [lineBreak]

/-- Inside strings carriage returns are written as escapes, and there are none elsewhere. -/
theorem return_notMem_written (plain : v.IsPlain) (depth : Nat) :
    '\r' ∉ written ascii depth v := by
  have digits (n : Nat) : '\r' ∉ Nat.toDigits 10 n := fun member =>
    absurd (Nat.isDigit_of_mem_toDigits (by decide) (by decide) member) (by decide)
  induction plain generalizing depth with
  | null => simp [written, writeAt]
  | bool b => cases b <;> simp [written, writeAt]
  | int n =>
    cases n with
    | ofNat n =>
      rw [written, writeAt, toList_ofNat]
      exact digits n
    | negSucc n =>
      rw [written, writeAt, toList_negSucc]
      simp [digits]
  | text s => simpa [written, writeAt] using return_notMem_quote s
  | @list items plain absent =>
    cases items with
    | nil => simp [written, writeAt]
    | cons v items =>
      obtain ⟨first, later⟩ := List.forall_mem_cons.mp absent
      have further : '\r' ∉ furtherItems ascii (depth + 1) items := by
        simpa [furtherItems, return_notMem_lineBreak] using fun v member => later v member _
      simp [written_list, return_notMem_lineBreak, first, further]
  | @mapping entries texts plain unique absent =>
    cases entries with
    | nil => simp [written, writeAt]
    | cons e entries =>
      obtain ⟨first, later⟩ := List.forall_mem_cons.mp absent
      have entry (e : Key × Value) (value : ∀ depth, '\r' ∉ written ascii depth e.2) :
          '\r' ∉ writtenEntry ascii (depth + 1) e := by
        simp [writtenEntry, return_notMem_quote, value]
      have further : '\r' ∉ furtherEntries ascii (depth + 1) entries := by
        simpa [furtherEntries, return_notMem_lineBreak] using
          fun k v member => entry (k, v) (later (k, v) member)
      simp [written_mapping, return_notMem_lineBreak, entry e first, further]

end Json

end NullSafeEq
