import NullSafeEq.Settings.Sources

/-!
# Entries of mappings

Setting an entry changes what is found under its key and nothing else, and it brings in no key for
a second time. The same goes for a mapping that is laid over another one.
-/
namespace NullSafeEq

namespace Value
variable {key : Key} {v : Value} {entries : List (Key × Value)}

/-- No two entries have the same key. -/
def DistinctKeys (entries : List (Key × Value)) : Prop := (entries.map Prod.fst).Nodup

theorem lookup_insert (key other : Key) (v : Value) (entries : List (Key × Value)) :
    lookup other (insert key v entries) = if key = other then some v else lookup other entries := by
  induction entries with
  | nil => rfl
  | cons e rest ih =>
    obtain ⟨k, old⟩ := e
    by_cases here : k = key
    · subst here
      by_cases same : k = other <;> simp [insert, lookup, same]
    · rw [insert, if_neg here, lookup, lookup, ih]
      by_cases same : k = other
      · subst same
        simp [Ne.symm here]
      · simp [same]

/-- Changing the values of entries changes what is found, and no key. -/
theorem lookup_map (f : Key → Value → Value) (key : Key) (entries : List (Key × Value)) :
    lookup key (entries.map fun e => (e.1, f e.1 e.2)) = (lookup key entries).map (f key) := by
  induction entries with
  | nil => rfl
  | cons e rest ih =>
    obtain ⟨k, v⟩ := e
    by_cases here : k = key
    · subst here
      simp [lookup]
    · simpa [lookup, here] using ih

theorem mem_insert {e : Key × Value} (member : e ∈ insert key v entries) :
    e = (key, v) ∨ e ∈ entries := by
  induction entries with
  | nil => simpa [insert] using member
  | cons head rest ih =>
    obtain ⟨k, old⟩ := head
    by_cases here : k = key
    · rw [insert, if_pos here, List.mem_cons, here] at member
      exact member.imp id (List.mem_cons_of_mem _)
    · rw [insert, if_neg here, List.mem_cons] at member
      obtain rfl | later := member
      · exact .inr List.mem_cons_self
      · exact (ih later).imp id (List.mem_cons_of_mem _)

theorem lookup_eq_none (absent : key ∉ entries.map Prod.fst) : lookup key entries = none := by
  induction entries with
  | nil => rfl
  | cons e rest ih =>
    rw [List.map_cons, List.mem_cons, not_or] at absent
    rw [lookup, if_neg (Ne.symm absent.1), ih absent.2]

theorem mem_of_lookup (found : lookup key entries = some v) : (key, v) ∈ entries := by
  induction entries with
  | nil => cases found
  | cons e rest ih =>
    obtain ⟨k, old⟩ := e
    by_cases here : k = key
    · rw [lookup, if_pos here] at found
      cases found
      exact here ▸ List.mem_cons_self
    · rw [lookup, if_neg here] at found
      exact List.mem_cons_of_mem _ (ih found)

theorem isSome_lookup (key : Key) (entries : List (Key × Value)) :
    (lookup key entries).isSome = (entries.map Prod.fst).contains key := by
  induction entries with
  | nil => rfl
  | cons e rest ih =>
    obtain ⟨k, v⟩ := e
    by_cases here : k = key
    · simp [lookup, here]
    · simp [lookup, here, Ne.symm here, ih]

/-- Lists with the same keys, none of them twice, are told apart by what is found in them. -/
theorem eq_of_lookup {others : List (Key × Value)} (distinct : DistinctKeys entries)
    (keys : entries.map Prod.fst = others.map Prod.fst)
    (same : ∀ key, lookup key entries = lookup key others) : entries = others := by
  induction entries generalizing others with
  | nil => exact (List.map_eq_nil_iff.mp keys.symm).symm
  | cons e rest ih =>
    obtain ⟨k, v⟩ := e
    cases others with
    | nil => cases keys
    | cons e' rest' =>
      obtain ⟨k', v'⟩ := e'
      obtain ⟨rfl, names⟩ : k = k' ∧ rest.map Prod.fst = rest'.map Prod.fst := by simpa using keys
      obtain rfl : v = v' := by simpa [lookup] using same k
      obtain ⟨first, later⟩ := List.nodup_cons.mp distinct
      rw [ih later names fun key => ?_]
      by_cases here : k = key
      · subst here
        rw [lookup_eq_none first, lookup_eq_none (names ▸ first)]
      · simpa [lookup, here] using same key

namespace DistinctKeys

theorem nil : DistinctKeys [] := List.nodup_nil

theorem tail {e : Key × Value} (distinct : DistinctKeys (e :: entries)) : DistinctKeys entries :=
  (List.nodup_cons.mp distinct).2

/-- The key of the first entry is not there again. -/
theorem lookup_tail (distinct : DistinctKeys ((key, v) :: entries)) : lookup key entries = none :=
  lookup_eq_none (List.nodup_cons.mp distinct).1

theorem insert (distinct : DistinctKeys entries) (key : Key) (v : Value) :
    DistinctKeys (insert key v entries) := by
  induction entries with
  | nil => exact List.nodup_cons.mpr ⟨List.not_mem_nil, List.nodup_nil⟩
  | cons e rest ih =>
    obtain ⟨k, old⟩ := e
    obtain ⟨first, later⟩ := List.nodup_cons.mp distinct
    by_cases here : k = key
    · rw [Value.insert, if_pos here]
      exact distinct
    · rw [Value.insert, if_neg here]
      refine List.nodup_cons.mpr ⟨fun again => ?_, ih later⟩
      obtain ⟨e, member, name⟩ := List.mem_map.mp again
      obtain rfl | old := mem_insert member
      · exact here name.symm
      · exact first (List.mem_map.mpr ⟨e, old, name⟩)

end DistinctKeys

end Value

namespace Settings
open Value
variable {base above : List (Key × Value)}

theorem overlay_of_not_isMapping {v : Value} (single : v.isMapping = false)
    (below : Option Value) : overlay below v = v := by
  cases v with
  | mapping entries => cases single
  | _ => rfl

/-- Under each key stands what lies on top, with what lay under it as far as both are mappings. -/
theorem lookup_overlayEntries (distinct : DistinctKeys above) (key : Key) :
    lookup key (overlayEntries base above) =
      ((lookup key above).map (overlay (lookup key base))).or (lookup key base) := by
  induction above generalizing base with
  | nil => rfl
  | cons e rest ih =>
    obtain ⟨k, v⟩ := e
    rw [overlayEntries, ih distinct.tail, lookup_insert, lookup]
    by_cases here : k = key
    · subst here
      simp [distinct.lookup_tail]
    · simp [here]

theorem overlayEntries_distinct (distinct : DistinctKeys base) :
    DistinctKeys (overlayEntries base above) := by
  induction above generalizing base with
  | nil => exact distinct
  | cons e rest ih =>
    rw [overlayEntries]
    exact ih (distinct.insert _ _)

end Settings

end NullSafeEq
