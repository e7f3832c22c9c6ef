import NullSafeEq.Proofs.Fallible
import NullSafeEq.Proofs.Value.Mappings

/-!
# Reading gives every key once

A document may write a key several times. The value that is read from it has the key once, in every
mapping of the value, so that looking up a key and going through all entries come to the same.
-/
namespace NullSafeEq

/-- A value that consists of mappings without repeated keys, of lists and of scalars. -/
inductive Value.IsKeyed : Value → Prop where
  | scalar {v : Value} (single : v.key?.isSome = true) : IsKeyed v
  | list {items : List Value} (keyed : ∀ v ∈ items, IsKeyed v) : IsKeyed (.list items)
  | mapping {entries : List (Key × Value)} (distinct : DistinctKeys entries)
      (keyed : ∀ e ∈ entries, IsKeyed e.2) : IsKeyed (.mapping entries)

namespace Value
variable {key : Key} {v : Value} {entries : List (Key × Value)}

theorem IsKeyed.distinct (keyed : (Value.mapping entries).IsKeyed) : DistinctKeys entries := by
  cases keyed with
  | scalar single => cases single
  | mapping distinct keyed => exact distinct

theorem IsKeyed.of_mem (keyed : (Value.mapping entries).IsKeyed) {e : Key × Value}
    (member : e ∈ entries) : e.2.IsKeyed := by
  cases keyed with
  | scalar single => cases single
  | mapping distinct keyed => exact keyed e member

theorem IsKeyed.empty : (Value.mapping []).IsKeyed :=
  .mapping .nil fun _ member => nomatch member

theorem IsKeyed.insert (keyed : (Value.mapping entries).IsKeyed) (key : Key) (value : v.IsKeyed) :
    (Value.mapping (Value.insert key v entries)).IsKeyed := by
  refine .mapping (keyed.distinct.insert key v) fun e member => ?_
  obtain rfl | old := mem_insert member
  · exact value
  · exact keyed.of_mem old

theorem isKeyed_ofPoints (ps : List Text.CodePoint) : (ofPoints ps).IsKeyed := by
  unfold ofPoints
  split <;> exact .scalar rfl

/-- Of several entries with one key one remains. -/
theorem isKeyed_ofEntries (keyed : ∀ e ∈ entries, e.2.IsKeyed) : (ofEntries entries).IsKeyed := by
  suffices further : ∀ soFar, (mapping soFar).IsKeyed →
      (mapping (entries.foldl (fun acc e => Value.insert e.1 e.2 acc) soFar)).IsKeyed from
    further [] .empty
  induction entries with
  | nil => exact fun soFar before => before
  | cons e rest ih =>
    exact fun soFar before => ih (fun e member => keyed e (List.mem_cons_of_mem _ member)) _
      (before.insert e.1 (keyed e List.mem_cons_self))

end Value

/-! ## JSON -/

namespace Json
variable {cs rest : List Char} {v : Value}

theorem isKeyed_number {negative : Bool} (found : number? negative cs = some (v, rest)) :
    v.IsKeyed := by
  unfold number? at found
  extract_lets whole at found
  split at found
  · cases found
  · dsimp only at found
    split at found <;> cases found <;> exact .scalar rfl

theorem isKeyed_atom (found : atom? cs = some (v, rest)) : v.IsKeyed := by
  unfold atom? at found
  split at found
  · next word =>
    cases found
    obtain ⟨⟨name, constant⟩, member, matched⟩ := List.exists_of_findSome?_eq_some word
    obtain ⟨tail, -, same⟩ := Option.map_eq_some_iff.mp matched
    cases same
    have scalars : ∀ c ∈ constants, c.2.key?.isSome = true := by simp [constants, Value.key?]
    exact .scalar (scalars _ member)
  · split at found
    · exact isKeyed_number found
    · exact isKeyed_number found

theorem gives_withinLimit (left : Nat) (keyed : v.IsKeyed) :
    Gives (fun p => p.1.IsKeyed) (withinLimit left (v, rest)) := by
  unfold withinLimit
  split
  · split
    · exact .scalar rfl
    · trivial
  · exact keyed

/-- What is read as a value, as the members of an object and as the elements of an array. -/
theorem gives_isKeyed (fuel : Nat) :
    (∀ cs, Gives (fun p => p.1.IsKeyed) (value fuel cs)) ∧
    (∀ soFar cs, (Value.mapping soFar).IsKeyed →
      Gives (fun p => (Value.mapping p.1).IsKeyed) (members fuel soFar cs)) ∧
    (∀ cs, Gives (fun p => ∀ v ∈ p.1, v.IsKeyed) (elements fuel cs)) := by
  -- members are set among those before them, so these go through the induction
  induction fuel with
  | zero =>
    refine ⟨fun cs => ?_, fun soFar cs _ => ?_, fun cs => ?_⟩
    · unfold value; trivial
    · unfold members; trivial
    · unfold elements; trivial
  | succ fuel ih =>
    obtain ⟨ofValue, ofMembers, ofElements⟩ := ih
    refine ⟨fun cs => ?_, fun soFar cs before => ?_, fun cs => ?_⟩
    · unfold value
      split
      · exact (Gives.anything _).map fun (ps, _) _ => Value.isKeyed_ofPoints ps
      · split
        · exact .empty
        · exact (ofMembers [] _ .empty).map fun _ keyed => keyed
      · split
        · exact .list fun _ member => nomatch member
        · exact (ofElements _).map fun _ keyed => .list keyed
      · split
        · next found => exact gives_withinLimit _ (isKeyed_atom found)
        · trivial
    · unfold members
      split
      · refine (Gives.anything _).bind fun (key, rest) _ => ?_
        dsimp only
        split
        · refine (ofValue _).bind fun (v, rest) keyed => ?_
          dsimp only
          split
          · exact before.insert _ keyed
          · exact ofMembers _ _ (before.insert _ keyed)
          · trivial
        · trivial
      · trivial
    · unfold elements
      refine (ofValue cs).bind fun (v, rest) keyed => ?_
      dsimp only
      split
      · exact List.forall_mem_singleton.mpr keyed
      · refine (ofElements _).bind fun (items, rest) others => ?_
        exact List.forall_mem_cons.mpr ⟨keyed, others⟩
      · trivial

/-- A document gives a value without repeated keys. -/
theorem gives_document (cs : List Char) : Gives Value.IsKeyed (document cs) := by
  unfold document
  split
  · trivial
  · refine ((gives_isKeyed _).1 _).bind fun (v, rest) keyed => ?_
    dsimp only
    split
    · exact keyed
    · trivial

end Json

/-! ## YAML -/

namespace Yaml

theorem gives_date {s : String} {r : Except Fault Value} (found : date? s = some r) :
    Gives Value.IsKeyed r := by
  obtain ⟨d, -, rfl⟩ := Option.map_eq_some_iff.mp found
  split
  · trivial
  · exact Value.IsKeyed.scalar rfl

theorem gives_whole (cs : List Char) (n : Int) : Gives Value.IsKeyed (whole cs n) := by
  unfold whole
  split
  · trivial
  · exact .scalar rfl

theorem gives_meaning (s : String) : Gives Value.IsKeyed (meaning s) := by
  unfold meaning
  split
  · exact .scalar rfl
  split
  · exact .scalar rfl
  split
  · exact .scalar rfl
  split
  · trivial
  · exact gives_whole _ _
  · exact .scalar rfl
  · exact .scalar rfl
  · next found _ _ _ _ => exact gives_date found
  · split
    · trivial
    · exact .scalar rfl

theorem gives_taggedInt (s : String) : Gives Value.IsKeyed (taggedInt s) := by
  unfold taggedInt
  split
  · exact gives_whole _ _
  · exact .scalar rfl
  · trivial

theorem gives_taggedReal (s : String) : Gives Value.IsKeyed (taggedReal s) := by
  unfold taggedReal
  dsimp only
  split
  · exact .scalar rfl
  · exact .scalar rfl
  · exact .scalar rfl
  · exact .scalar rfl
  · trivial

theorem gives_scalarValue (tag : Option String) (plain : Bool) (s : String) :
    Gives Value.IsKeyed (scalarValue tag plain s) := by
  unfold scalarValue
  split
  · split
    · exact gives_meaning s
    · exact .scalar rfl
  · exact gives_meaning s
  · split
    · exact .scalar rfl
    · exact .scalar rfl
    · dsimp only
      split
      · exact .scalar rfl
      · split
        · exact .scalar rfl
        · trivial
    · exact gives_taggedInt s
    · exact gives_taggedReal s
    · cases found : date? s with
      | none => trivial
      | some r => exact gives_date found
    · trivial

theorem gives_brokenValue (tag : Option String) (b : Text.Broken) :
    Gives Value.IsKeyed (brokenValue tag b) := by
  unfold brokenValue
  split
  · exact .scalar rfl
  · exact .scalar rfl
  · split
    · exact .scalar rfl
    · exact .scalar rfl
    · trivial
    · trivial
    · trivial

mutual

theorem gives_value : ∀ n : Node, Gives Value.IsKeyed n.value
  | .scalar tag plain s => by
    rw [Node.value]
    exact gives_scalarValue tag plain s
  | .broken tag b => by
    rw [Node.value]
    exact gives_brokenValue tag b
  | .sequence tag items => by
    rw [Node.value]
    split
    · exact (gives_itemValues items).map fun _ keyed => .list keyed
    · trivial
  | .mapping tag entries => by
    rw [Node.value]
    split
    · exact (gives_pairs entries).bind fun (merged, own) keyed => Value.isKeyed_ofEntries keyed
    · trivial

theorem gives_itemValues : ∀ items : List Node,
    Gives (fun vs => ∀ v ∈ vs, v.IsKeyed) (Node.itemValues items)
  | [] => fun _ member => nomatch member
  | item :: rest => by
    rw [Node.itemValues]
    refine (gives_value item).bind fun v keyed => ?_
    refine (gives_itemValues rest).bind fun vs others => ?_
    exact List.forall_mem_cons.mpr ⟨keyed, others⟩

theorem gives_pairs : ∀ entries : List (Node × Node),
    Gives (fun p => ∀ e ∈ p.1 ++ p.2, e.2.IsKeyed) (Node.pairs entries)
  | [] => fun _ member => nomatch member
  | (k, v) :: rest => by
    rw [Node.pairs]
    split
    · refine (gives_merged v).bind fun here keyed => ?_
      refine (gives_pairs rest).bind fun (merged, own) others => ?_
      rw [List.forall_mem_append] at others
      exact List.forall_mem_append.mpr ⟨List.forall_mem_append.mpr ⟨keyed, others.1⟩, others.2⟩
    · have further (key : Key) : Gives (fun p => ∀ e ∈ p.1 ++ p.2, e.2.IsKeyed)
          (do
            let found ← v.value
            let (merged, own) ← Node.pairs rest
            return (merged, (key, found) :: own)) := by
        refine (gives_value v).bind fun found keyed => ?_
        refine (gives_pairs rest).bind fun (merged, own) others => ?_
        rw [List.forall_mem_append] at others
        exact List.forall_mem_append.mpr
          ⟨others.1, List.forall_mem_cons.mpr ⟨keyed, others.2⟩⟩
      split
      · exact further _
      · refine (Gives.anything _).bind fun found _ => ?_
        exact (Gives.anything _).bind fun key _ => further key

theorem gives_merged : ∀ n : Node, Gives (fun es => ∀ e ∈ es, e.2.IsKeyed) n.merged
  | .scalar .. => trivial
  | .broken .. => trivial
  | .sequence tag items => gives_mergedItems items
  | .mapping tag entries => by
    rw [Node.merged]
    exact (gives_pairs entries).bind fun (merged, own) keyed => keyed

theorem gives_mergedItems : ∀ items : List Node,
    Gives (fun es => ∀ e ∈ es, e.2.IsKeyed) (Node.mergedItems items)
  | [] => fun _ member => nomatch member
  | .mapping tag entries :: rest => by
    rw [Node.mergedItems]
    refine (gives_pairs entries).bind fun (merged, own) keyed => ?_
    refine (gives_mergedItems rest).bind fun others fromOthers => ?_
    rw [List.forall_mem_append] at keyed
    exact List.forall_mem_append.mpr
      ⟨List.forall_mem_append.mpr ⟨fromOthers, keyed.1⟩, keyed.2⟩
  | .scalar .. :: rest => trivial
  | .broken .. :: rest => trivial
  | .sequence .. :: rest => trivial

end

/-- A document gives a value without repeated keys. -/
theorem gives_document (cs : List Char) : Gives Value.IsKeyed (document cs) := by
  unfold document
  split
  · trivial
  · exact Value.IsKeyed.scalar rfl
  · next n _ => exact gives_value n

end Yaml

/-! ## Files -/

namespace Settings

theorem gives_readJson (octets : List UInt8) : Gives Value.IsKeyed (readJson octets) := by
  refine (Gives.anything _).bind fun text _ => ?_
  exact (Json.gives_document _).mapError _

theorem gives_readYaml (octets : List UInt8) : Gives Value.IsKeyed (readYaml octets) := by
  refine (Gives.anything _).bind fun text _ => ?_
  have keyed := Yaml.gives_document (Text.unifyNewlines text.toList)
  split
  · trivial
  · trivial
  · next v found =>
    rw [found] at keyed
    cases v.isTrue with
    | true => exact keyed
    | false => exact Value.IsKeyed.empty

theorem gives_loadFile (files : Files) (path : String) :
    Gives (fun entries => (Value.mapping entries).IsKeyed) (loadFile files path) := by
  unfold loadFile
  extract_lets ofMapping continued
  have given (v : Value) (keyed : v.IsKeyed) :
      Gives (fun entries => (Value.mapping entries).IsKeyed) (ofMapping v) := by
    cases v with
    | mapping entries => exact keyed
    | _ => trivial
  have further : Gives (fun entries => (Value.mapping entries).IsKeyed) (continued ()) := by
    refine (Gives.anything _).bind fun octets _ => ?_
    split
    · exact (gives_readYaml octets).bind given
    · exact (gives_readJson octets).bind given
  split
  · trivial
  · exact further

/-- The configuration in a file, also in the first default file, has no key twice in any place. -/
theorem isKeyed_of_loadFileOrDefault {w : Surroundings} {path : String}
    {entries : List (Key × Value)} (read : loadFileOrDefault w path = .ok entries) :
    (Value.mapping entries).IsKeyed := by
  suffices keyed : Gives (fun entries => (Value.mapping entries).IsKeyed)
      (loadFileOrDefault w path) by
    rwa [read] at keyed
  unfold loadFileOrDefault
  split
  · split
    · exact Value.IsKeyed.empty
    · exact gives_loadFile _ _
  · exact gives_loadFile _ _

/-- No key stands twice in a section. -/
theorem distinct_entriesAt {data : List (Key × Value)} (keyed : (Value.mapping data).IsKeyed)
    (heading : String) : Value.DistinctKeys (entriesAt data heading) := by
  unfold entriesAt
  split
  · next entries found => exact (keyed.of_mem (Value.mem_of_lookup found)).distinct
  · exact .nil

end Settings

end NullSafeEq
