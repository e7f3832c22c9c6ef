import NullSafeEq.Proofs.Idiom.Placement

/-!
# Changes that the idioms follow

A change of sites that commutes with looking through parentheses and negations, with comparisons
with null and with the operands of a call commutes with whatever is made of these parts: tests for
null, calls of the equality method and the idioms themselves.
-/
namespace NullSafeEq

variable {change : Site → Site}

theorem isParen_unwrapNegation (s : Site) : (unwrapNegation s).1.node.isParen = false := by
  unfold unwrapNegation
  simp only
  split
  · exact Site.isParen_bare _
  · exact s.isParen_bare

/-- The parts of the idioms answer for the changed site with the change of what they answer for the
site. Of a site in parentheses only what stands in them is asked for its operands. -/
structure Site.Followed (change : Site → Site) : Prop where
  bare : ∀ s : Site, (change s).bare = change s.bare
  unwrapNegation : ∀ s, unwrapNegation (change s) =
    (change (unwrapNegation s).1, (unwrapNegation s).2)
  nullComparison : ∀ s equal, nullComparison (change s) equal =
    (nullComparison s equal).map change
  isSelf : ∀ s, (change s).node.isSelf = s.node.isSelf
  calledName : ∀ s, s.node.isParen = false → (change s).node.calledName? = s.node.calledName?
  receiver : ∀ s, s.node.isParen = false → (change s).receiver? = s.receiver?.map change
  soleArgument : ∀ s, s.node.isParen = false →
    (change s).soleArgument? = s.soleArgument?.map change

def NullCheck.map (change : Site → Site) (test : NullCheck) : NullCheck :=
  ⟨change test.compared, test.equal⟩

def EqualityCall.map (change : Site → Site) (found : EqualityCall) : EqualityCall :=
  ⟨change found.qualifier, change found.argument, found.equal⟩

def Match.map (change : Site → Site) (m : Match) : Match :=
  ⟨change m.span, change m.left, change m.right, m.negated, m.form⟩

namespace Site.Followed

theorem nullCheck (followed : Followed change) (s : Site) :
    nullCheck? NullSafeEq.nullComparison (change s) =
      (nullCheck? NullSafeEq.nullComparison s).map (NullCheck.map change) := by
  unfold nullCheck?
  simp only [followed.unwrapNegation, followed.nullComparison]
  cases NullSafeEq.nullComparison (NullSafeEq.unwrapNegation s).1 true with
  | some compared => rfl
  | none => cases NullSafeEq.nullComparison (NullSafeEq.unwrapNegation s).1 false <;> rfl

theorem equalityCall (followed : Followed change) (method : String) (s : Site) :
    equalityCall? method (change s) = (equalityCall? method s).map (EqualityCall.map change) := by
  have solid := isParen_unwrapNegation s
  unfold equalityCall?
  rw [followed.unwrapNegation]
  generalize NullSafeEq.unwrapNegation s = unwrapped at solid
  obtain ⟨inner, positive⟩ := unwrapped
  simp only [followed.receiver _ solid, followed.soleArgument _ solid, followed.calledName _ solid]
  by_cases named : inner.node.calledName? = some method
  · rw [if_pos named, if_pos named]
    cases inner.receiver? with
    | none => rfl
    | some q =>
      cases inner.soleArgument? with
      | none => rfl
      | some a =>
        simp only [Option.map_some, followed.bare, followed.isSelf,
          apply_ite (Option.map (EqualityCall.map change)), Option.map_none, EqualityCall.map]
  · rw [if_neg named, if_neg named]
    rfl

theorem onSelf (followed : Followed change) {call : Site}
    (receiver : (change call).receiver? = call.receiver?.map change) :
    ((change call).receiver?.any fun q => q.node.isSelf) =
      call.receiver?.any fun q => q.node.isSelf := by
  rw [receiver, Option.any_map]
  simp only [followed.isSelf]

variable {d : Detector}

theorem direct (followed : Followed change) {call : Site}
    (receiver : (change call).receiver? = call.receiver?.map change)
    (argument : (change call).soleArgument? = call.soleArgument?.map change) :
    d.direct? (change call) = (d.direct? call).map (Match.map change) := by
  unfold Detector.direct?
  rw [receiver, argument]
  cases d.requireGuard with
  | true => rfl
  | false =>
    cases call.receiver? with
    | none => rfl
    | some q =>
      cases call.soleArgument? with
      | none => rfl
      | some a => simp [Match.map, followed.bare]

variable (standard : d.compare = NullSafeEq.nullComparison)
  (names : ∀ s, d.nameOf (change s) = d.nameOf s)
include standard names

/-- A null check and a call make up a guarded call in the same way. -/
theorem guardedCall (followed : Followed change) {guard : Site}
    (place : ∀ equal checked argument, d.placeOf (change guard) equal checked (change argument) =
      change (d.placeOf guard equal checked argument)) (check callee : Site) (equal : Bool) :
    d.guardedCall? (change guard) (change check) (change callee) equal =
      (d.guardedCall? guard check callee equal).map (Match.map change) := by
  ext m
  simp only [Detector.guardedCall_iff, Option.map_eq_some_iff, standard, followed.equalityCall,
    followed.nullCheck]
  constructor
  · rintro ⟨_, ⟨found, calls, rfl⟩, affirmed, _, ⟨test, tests, rfl⟩, differs, checked, named,
      qualifier, rfl⟩
    simp only [EqualityCall.map, NullCheck.map, names] at named qualifier
    refine ⟨_, ⟨found, calls, affirmed, test, tests, differs, checked, named, qualifier, rfl⟩, ?_⟩
    simp only [Match.map, EqualityCall.map, place]
  · rintro ⟨_, ⟨found, calls, affirmed, test, tests, differs, checked, named, qualifier, rfl⟩, rfl⟩
    refine ⟨_, ⟨found, calls, rfl⟩, affirmed, _, ⟨test, tests, rfl⟩, differs, checked, ?_, ?_, ?_⟩
    · rw [NullCheck.map, names, named]
    · rw [EqualityCall.map, names, qualifier]
    · simp only [Match.map, EqualityCall.map, place]

/-- So do a test and two branches, wherever these have gone. -/
theorem conditional (followed : Followed change) {s : Site} {t y n t' y' n' : Expr}
    {sp sp' : Option Span} (node : s.node = .conditional t y n sp)
    (node' : (change s).node = .conditional t' y' n' sp')
    (test : (change s).down (.testOf y' n' sp') t' = change (s.down (.testOf y n sp) t))
    (yes : ((change s).down (.yesOf t' n' sp') y').bare =
      change (s.down (.yesOf t n sp) y).bare)
    (no : ((change s).down (.noOf t' y' sp') n').bare = change (s.down (.noOf t y sp) n).bare) :
    d.conditional? (change s) = (d.conditional? s).map (Match.map change) := by
  ext m
  simp only [Option.map_eq_some_iff, Detector.conditional_iff, standard, apply_ite Site.bare]
  constructor
  · rintro ⟨_, _, _, _, same, _, tests, _, others, _, calls, alike, first, named, second,
      otherNamed, argument, qualifier, rfl⟩
    cases node'.symm.trans same
    rw [test, followed.nullCheck, Option.map_eq_some_iff] at tests
    obtain ⟨tested, tests, rfl⟩ := tests
    rw [yes, no, ← apply_ite change, followed.nullCheck, Option.map_eq_some_iff] at others
    rw [yes, no, ← apply_ite change, followed.equalityCall, Option.map_eq_some_iff] at calls
    obtain ⟨other, others, rfl⟩ := others
    obtain ⟨found, calls, rfl⟩ := calls
    simp only [NullCheck.map, EqualityCall.map, names] at alike named otherNamed argument qualifier
    exact ⟨_, ⟨t, y, n, sp, node, tested, tests, other, others, found, calls, alike, first, named,
      second, otherNamed, argument, qualifier, rfl⟩, rfl⟩
  · rintro ⟨_, ⟨_, _, _, _, same, tested, tests, other, others, found, calls, alike, first, named,
      second, otherNamed, argument, qualifier, rfl⟩, rfl⟩
    cases node.symm.trans same
    refine ⟨t', y', n', sp', node', tested.map change, ?_, other.map change, ?_,
      found.map change, ?_, alike, first, ?_, second, ?_, ?_, ?_, rfl⟩
    · rw [test, followed.nullCheck, tests, Option.map_some]
    · rw [yes, no, ← apply_ite change, followed.nullCheck, NullCheck.map, others, Option.map_some]
    · rw [yes, no, ← apply_ite change, followed.equalityCall, NullCheck.map, calls,
        Option.map_some]
    all_goals simpa only [NullCheck.map, EqualityCall.map, names]

end Site.Followed

end NullSafeEq
