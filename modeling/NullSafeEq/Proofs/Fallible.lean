/-!
# Computations that may fail

What a computation gives, put in terms of what its steps give.
-/
namespace NullSafeEq
variable {ε α β : Type}

theorem bind_eq_ok {first : Except ε α} {next : α → Except ε β} {value : β} :
    (first >>= next) = .ok value ↔ ∃ x, first = .ok x ∧ next x = .ok value := by
  cases first with
  | error e =>
    refine iff_of_false nofun ?_
    rintro ⟨x, same, -⟩
    cases same
  | ok x =>
    constructor
    · exact fun h => ⟨x, rfl, h⟩
    · rintro ⟨y, same, h⟩
      cases same
      exact h

theorem pure_eq_ok {a value : α} : (pure a : Except ε α) = .ok value ↔ value = a := by
  constructor <;>
    · rintro ⟨⟩
      rfl

theorem bind_pure_eq_ok {x : Except ε α} {f : α → β} {value : β} :
    (x >>= fun a => pure (f a)) = .ok value ↔ ∃ a, x = .ok a ∧ value = f a := by
  simp only [bind_eq_ok, pure_eq_ok]

/-- Telling errors in other words leaves successes alone. -/
theorem mapError_eq_ok {ε' : Type} {f : ε → ε'} {x : Except ε α} {a : α} :
    x.mapError f = .ok a ↔ x = .ok a := by
  cases x with
  | error e => exact iff_of_false nofun nofun
  | ok b =>
    constructor <;>
      · intro same
        cases same
        rfl

/-- A list of checks is passed when each of them is. -/
theorem forM_eq_ok {check : α → Except ε Unit} {items : List α} :
    items.forM check = .ok () ↔ ∀ a ∈ items, check a = .ok () := by
  induction items with
  | nil => exact iff_of_true rfl fun _ member => nomatch member
  | cons a rest ih =>
    change (check a >>= fun _ => rest.forM check) = .ok () ↔ _
    rw [List.forall_mem_cons, ← ih]
    cases check a with
    | error e => exact iff_of_false nofun nofun
    | ok done => exact ⟨fun passed => ⟨rfl, passed⟩, fun both => both.2⟩

/-- What a computation gives has a property, if it gives anything. -/
def Gives (P : α → Prop) : Except ε α → Prop
  | .error _ => True
  | .ok a => P a

namespace Gives
variable {P : α → Prop} {Q : β → Prop} {x : Except ε α}

theorem anything (x : Except ε α) : Gives (fun _ => True) x := by
  cases x <;> trivial

theorem bind {f : α → Except ε β} (first : Gives P x) (next : ∀ a, P a → Gives Q (f a)) :
    Gives Q (x >>= f) := by
  cases x with
  | error e => trivial
  | ok a => exact next a first

theorem map {f : α → β} (first : Gives P x) (next : ∀ a, P a → Q (f a)) : Gives Q (x.map f) := by
  cases x with
  | error e => trivial
  | ok a => exact next a first

theorem mapError {ε' : Type} (first : Gives P x) (f : ε → ε') : Gives P (x.mapError f) := by
  cases x with
  | error e => trivial
  | ok a => exact first

end Gives

end NullSafeEq
