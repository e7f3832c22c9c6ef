import NullSafeEq.Guard
import NullSafeEq.Proofs.Idiom.Placement

/-!
# Fixing a text

The text that a guard writes is read as the tree of the given text with helper calls in the place
of the outermost matches. Nothing else in the tree changes, whatever stands around the places of
the matches.
-/
namespace NullSafeEq.Guard
variable {g : Guard} {live : Inspection} {text : String} {t : Tree} {n : DottedName}

/-- What a guard finds: what the detector for its method finds, if it has one. -/
theorem scan_iff {found : List Match} : g.scan live t = .ok found ↔
    ∃ applies, g.applicable live = .ok applies ∧ ((g.method = none ∧ found = []) ∨
      ∃ method, g.method = some method ∧ found = (g.detector method applies).scan t) := by
  unfold scan
  cases g.applicable live with
  | error e =>
    constructor
    · nofun
    · rintro ⟨applies, impossible, -⟩
      cases impossible
  | ok applies =>
    cases g.method with
    | none =>
      constructor
      · intro h
        cases h
        exact ⟨applies, rfl, .inl ⟨rfl, rfl⟩⟩
      · rintro ⟨-, -, ⟨-, rfl⟩ | ⟨method, impossible, -⟩⟩
        · rfl
        · cases impossible
    | some name =>
      constructor
      · intro h
        cases h
        exact ⟨applies, rfl, .inr ⟨name, rfl, rfl⟩⟩
      · rintro ⟨applies', same, ⟨impossible, -⟩ | ⟨method, named, rfl⟩⟩
        · cases impossible
        · cases same
          cases named
          rfl

theorem exists_scan {applies : Bool} (gate : g.applicable live = .ok applies) :
    ∃ found, g.scan live t = .ok found := by
  cases method : g.method with
  | none => exact ⟨_, scan_iff.mpr ⟨applies, gate, .inl ⟨method, rfl⟩⟩⟩
  | some name => exact ⟨_, scan_iff.mpr ⟨applies, gate, .inr ⟨name, method, rfl⟩⟩⟩

/-- Every match of a guard lies in the tree, and no two of them have the same place. -/
theorem scan_spec {found : List Match} (scanned : g.scan live t = .ok found) :
    (∀ m ∈ found, m.In t.root) ∧ (found.map fun m => m.span.path).Nodup := by
  obtain ⟨applies, -, ⟨-, rfl⟩ | ⟨method, -, rfl⟩⟩ := scan_iff.mp scanned
  · exact ⟨nofun, .nil⟩
  · exact ⟨fun m member => Detector.in_of_mem_scan member, Detector.scan_distinct _ t⟩

/-- The fixed text of a text that is read as a tree. -/
theorem fix_eq {found : List Match} (read : Tree.read text = .ok t)
    (scanned : g.scan live t = .ok found) :
    g.fix live text = if found.isEmpty then .ok text
      else ((helper live).mapError .kind).map fun name => t.apply name found := by
  unfold fix
  rw [read]
  show ((g.scan live t).mapError Failure.kind >>= _) = _
  rw [scanned]
  cases found with
  | nil => rfl
  | cons m rest => cases helper live <;> rfl

/-- The text with the matches of a tree applied is read as the tree with the outermost of them
replaced. -/
theorem read_fixed {found : List Match} (read : Tree.read text = .ok t)
    (scanned : g.scan live t = .ok found) (named : helper live = .ok n.text) (valid : n.Valid) :
    ∃ fixed t', g.fix live text = .ok fixed ∧ Tree.read fixed = .ok t' ∧
      t'.root.unspanned = (t.root.graft (Match.grafts n (Tree.outermost found))).unspanned := by
  have fixed := fix_eq read scanned
  cases found with
  | nil => exact ⟨text, t, fixed, read, congrArg Expr.unspanned t.root.graft_nothing.symm⟩
  | cons m rest =>
    obtain ⟨inside, distinct⟩ := scan_spec scanned
    obtain ⟨t', again, grafted⟩ := read_apply read valid inside distinct
    rw [named] at fixed
    exact ⟨_, t', fixed, again, grafted⟩

/-- Fixing a text that is read as a tree succeeds, and the fixed text is read as this tree in which
the place of every outermost match is taken by the helper call on its operands, behind a `!` when
the match is negated. -/
theorem read_fix {applies : Bool} (read : Tree.read text = .ok t)
    (gate : g.applicable live = .ok applies) (named : helper live = .ok n.text) (valid : n.Valid) :
    ∃ found fixed t', g.scan live t = .ok found ∧ g.fix live text = .ok fixed ∧
      Tree.read fixed = .ok t' ∧
      t'.root.unspanned = (t.root.graft (Match.grafts n (Tree.outermost found))).unspanned := by
  obtain ⟨found, scanned⟩ := exists_scan (t := t) gate
  obtain ⟨fixed, t', fixes, again, grafted⟩ := read_fixed read scanned named valid
  exact ⟨found, fixed, t', scanned, fixes, again, grafted⟩

/-- The standard helper as a chain of names. -/
def standardName : DottedName :=
  .member (.member (.member (.plain "java") "util") "Objects") "equals"

theorem helper_standard : helper {} = .ok standardName.text := rfl

theorem standardName_valid : standardName.Valid := by
  refine ⟨⟨⟨⟨?_, by decide⟩, ?_, by decide⟩, ?_, by decide⟩, ?_, by decide⟩
  · exact ⟨'j', "ava".toList, rfl, by decide, by decide⟩
  · exact ⟨'u', "til".toList, rfl, by decide, by decide⟩
  · exact ⟨'O', "bjects".toList, rfl, by decide, by decide⟩
  · exact ⟨'e', "quals".toList, rfl, by decide, by decide⟩

/-- In `(a == null || !a.equals(b)).f` the parentheses keep what is put between them. -/
theorem read_fix_parentheses :
    let g : Guard := ⟨.custom fun _ => .value, false, some "equals", .level⟩
    ∃ t fixed t', Tree.read "(a == null || !a.equals(b)).f" = .ok t ∧
      g.fix {} "(a == null || !a.equals(b)).f" = .ok fixed ∧ Tree.read fixed = .ok t' ∧
      t'.root.unspanned = .member (.paren (.prefixed .not
        (standardName.call [.name "a" none, .name "b" none]) none) none) "f" none := by
  intro g
  have read : Tree.read "(a == null || !a.equals(b)).f" = .ok ⟨.member (.paren (.binary .or
      (.binary .eq (.name "a" (some ⟨1, 2⟩)) (.literal .null "null" (some ⟨6, 10⟩)) (some ⟨1, 10⟩))
      (.prefixed .not (.invoke (.name "a" (some ⟨15, 16⟩)) "equals" [.name "b" (some ⟨24, 25⟩)]
        (some ⟨15, 26⟩)) (some ⟨14, 26⟩)) (some ⟨1, 26⟩)) (some ⟨0, 27⟩)) "f" (some ⟨0, 29⟩),
      some "(a == null || !a.equals(b)).f"⟩ := rfl
  have gate : g.applicable {} = .ok true := rfl
  obtain ⟨found, fixed, t', scanned, fixes, again, grafted⟩ :=
    read_fix read gate helper_standard standardName_valid
  cases scanned
  exact ⟨_, fixed, t', read, fixes, again, grafted⟩

end NullSafeEq.Guard
