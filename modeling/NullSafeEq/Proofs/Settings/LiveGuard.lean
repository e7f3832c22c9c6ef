import Mathlib.Data.List.Forall2
import NullSafeEq.LiveGuard

/-!
# What a guard sees of later changes

Of the settings in force a guard reads the language level and the helper. Everything else it keeps
from the time when it was built. So its answers are those of guards that are built anew for each
question, from the old settings with the present language level and helper. There is one thing that
building a guard asks of the language level and using it does not: the level has to be writable.
With a level that is not, a new guard has to be built first and given the level then.
-/
namespace NullSafeEq

theorem Value.written_eq (v : Value) :
    v.written = if v.isWritable then .ok v.display else .error .longNumber := rfl

theorem Value.not_isWritable_firstLong : ¬ (int Text.firstLong).isWritable = true :=
  Bool.eq_false_iff.mp Text.isShort_firstLong

namespace Guard
variable {g : Guard} {live live' : Inspection} {built : Settings} {override : Option Resolver}

/-- A guard for settings keeps what they say, if two of them can be put into words. -/
theorem ofSettings_eq_ok {s : Settings} : ofSettings s override = .ok g ↔
    s.inspection.languageLevel.isWritable = true ∧ s.inspection.requireGuard.isWritable = true ∧
      ∃ classifier, classifierFor s.resolution override = .ok classifier ∧
        g = ⟨classifier, s.inspection.requireGuard.isTrue, methodOf s.inspection.method,
          gateOf s.inspection⟩ := by
  unfold ofSettings
  simp only [Value.written_eq]
  cases classifierFor s.resolution override with
  | error e => exact iff_of_false nofun fun ⟨_, _, _, impossible, _⟩ => nomatch impossible
  | ok classifier =>
    cases s.inspection.languageLevel.isWritable with
    | false => exact iff_of_false nofun fun both => nomatch both.1
    | true =>
      cases s.inspection.requireGuard.isWritable with
      | false => exact iff_of_false nofun fun both => nomatch both.2.1
      | true =>
        constructor
        · rintro ⟨⟩
          exact ⟨rfl, rfl, classifier, rfl, rfl⟩
        · rintro ⟨-, -, _, ⟨⟩, rfl⟩
          rfl

/-- The gate of a guard is the one of the settings that it was built from. -/
theorem gate_of_ofSettings (constructed : ofSettings built override = .ok g) :
    g.gate = gateOf built.inspection := by
  obtain ⟨-, -, classifier, -, rfl⟩ := ofSettings_eq_ok.mp constructed
  rfl

end Guard

/-- The questions among some actions, each with the settings in force. -/
def asked : Settings → List Action → List (Settings × Question)
  | _, [] => []
  | now, .change c :: rest => asked (c.apply now) rest
  | now, .ask q :: rest => (now, q) :: asked now rest

/-- The answer when there is nothing to report in a text that can be read. -/
def Question.idle : Question → Answer
  | .analyze text sourceName => .analysis <|
    match Tree.read text with
    | .error e =>
      { success := false, sourceName, errors := [⟨sourceName, .parse, .syntaxError e⟩] }
    | .ok _ => { success := true, sourceName, expression := some text }
  | .fix text => .fixed (((Tree.read text).map fun _ => text).mapError .syntaxError)

namespace Change
variable {s s' : Settings}

end Change

namespace LiveGuard
variable {built : Settings} {override : Option Resolver} {g : Guard}

theorem run_append (l : LiveGuard) (before after : List Action) : l.run (before ++ after) =
    l.run before ++ (before.foldl (fun l a => (l.step a).1) l).run after := by
  induction before generalizing l with
  | nil => rfl
  | cons action rest ih =>
    simp only [List.cons_append, run, ih, List.append_assoc, List.foldl_cons]

end LiveGuard

end NullSafeEq
