import NullSafeEq.Proofs.Idiom.CallSites

/-!
# Guarded calls only

A detector that wants guarded calls only passes over the bare calls and finds everything else as
before. This holds for any null comparison, and then several calls may have one place: a place is
that of a bare call for all of them or for none, so what is dropped never stood in the way of
anything that is kept.
-/
namespace NullSafeEq.Detector

/-- The same detector, for guarded calls only or for bare calls too. -/
def requiring (d : Detector) (guard : Bool) : Detector := { d with requireGuard := guard }

/-- Something other than a bare call. -/
def isGuardedForm (m : Match) : Bool := m.form ≠ .directCall

variable {d : Detector} {m : Match} {call context : Site}

/-! ## One call -/

@[simp] theorem applicable_requiring (d : Detector) (guard : Bool) :
    (d.requiring guard).applicable = d.applicable := rfl

@[simp] theorem binary_requiring (d : Detector) (guard : Bool) (s : Site) :
    (d.requiring guard).binary? s = d.binary? s := rfl

@[simp] theorem conditional_requiring (d : Detector) (guard : Bool) (s : Site) :
    (d.requiring guard).conditional? s = d.conditional? s := rfl

theorem conditional_form (h : d.conditional? context = some m) : m.form = .conditional := by
  obtain ⟨_, _, _, _, -, _, -, _, -, _, -, -, _, -, _, -, -, -, rfl⟩ := conditional_iff.mp h
  rfl

/-- Bare calls are dropped. -/
theorem direct_guarded (d : Detector) (call : Site) :
    (d.requiring true).direct? call = ((d.requiring false).direct? call).filter isGuardedForm := by
  have nothing : (d.requiring true).direct? call = none := rfl
  rw [nothing]
  cases found : (d.requiring false).direct? call with
  | none => rfl
  | some m =>
    obtain ⟨-, _, -, _, -, rfl⟩ := direct_iff.mp found
    rfl

theorem filter_isGuardedForm (other : m.form ≠ .directCall) :
    (some m).filter isGuardedForm = some m := by
  rw [Option.filter_some_pos]
  exact decide_eq_true other

theorem inContext_guarded (d : Detector) (call context : Site) :
    (d.requiring true).inContext? call context =
      ((d.requiring false).inContext? call context).filter isGuardedForm := by
  unfold inContext?
  simp only [binary_requiring, conditional_requiring, direct_guarded]
  cases context.node with
  | binary op l r sp =>
    cases found : d.binary? context with
    | some m =>
      exact (filter_isGuardedForm (by rw [binary_form found]; decide)).symm
    | none =>
      simp only
      split <;> rfl
  | conditional =>
    cases found : d.conditional? context with
    | some m =>
      exact (filter_isGuardedForm (by rw [conditional_form found]; decide)).symm
    | none => rfl
  | _ => rfl

theorem analyze_guarded (d : Detector) (call : Site) :
    (d.requiring true).analyze? call = ((d.requiring false).analyze? call).filter isGuardedForm := by
  have parts (guard : Bool) : (d.requiring guard).analyze? call =
      if !d.applicable || call.node.calledName? ≠ some d.method then none
      else if call.receiver?.any fun q => q.node.isSelf then none
      else (call.enclosing? Expr.isTransparent).elim ((d.requiring guard).direct? call)
        ((d.requiring guard).inContext? call) := analyze_eq_elim _ call
  rw [parts, parts, direct_guarded, funext (inContext_guarded d call)]
  split_ifs
  · rfl
  · rfl
  · cases call.enclosing? Expr.isTransparent <;> rfl

/-! ## All calls -/

/-- Each place once and then a choice by places, or the choice first: when a place is kept for all
of the matches that have it or for none, the order does not matter. -/
theorem firstPerPlace_filter {keep : Match → Bool} {found : List Match} {seen seen' : List Path}
    (byPlace : ∀ m ∈ found, ∀ m' ∈ found, m.span.path = m'.span.path → keep m = keep m')
    (alike : ∀ m ∈ found, keep m = true → (m.span.path ∈ seen ↔ m.span.path ∈ seen')) :
    (firstPerPlace seen found).filter keep = firstPerPlace seen' (found.filter keep) := by
  induction found generalizing seen seen' with
  | nil => rfl
  | cons m rest ih =>
    obtain ⟨here, later⟩ := List.forall_mem_cons.mp alike
    have byPlace' : ∀ o ∈ rest, ∀ o' ∈ rest, o.span.path = o'.span.path → keep o = keep o' :=
      fun o member o' member' =>
        byPlace o (List.mem_cons_of_mem m member) o' (List.mem_cons_of_mem m member')
    cases kept : keep m with
    | false =>
      have apart : ∀ o ∈ rest, keep o = true → o.span.path ≠ m.span.path := by
        intro o member keeps same
        have := byPlace o (List.mem_cons_of_mem m member) m List.mem_cons_self same
        rw [keeps, kept] at this
        cases this
      rw [List.filter_cons_of_neg (by simp [kept]), firstPerPlace]
      split
      · exact ih byPlace' later
      · rw [List.filter_cons_of_neg (by simp [kept])]
        refine ih byPlace' fun o member keeps => ?_
        rw [List.mem_cons, or_iff_right (apart o member keeps)]
        exact later o member keeps
    | true =>
      rw [List.filter_cons_of_pos kept, firstPerPlace, firstPerPlace]
      by_cases old : m.span.path ∈ seen
      · have old' := (here kept).mp old
        rw [if_pos (by simpa using old), if_pos (by simpa using old')]
        exact ih byPlace' later
      · have new' := mt (here kept).mpr old
        rw [if_neg (by simpa using old), if_neg (by simpa using new'),
          List.filter_cons_of_pos kept]
        refine congrArg (m :: ·) (ih byPlace' fun o member keeps => ?_)
        rw [List.mem_cons, List.mem_cons]
        exact or_congr_right (later o member keeps)

/-- Whether a match is a bare call can be told from its place. -/
theorem isGuardedForm_of_analyze {top : Expr} (found : d.analyze? call = some m)
    (inside : call.top = top) : ∃ node, top.at? m.span.path = some node ∧
      isGuardedForm m = !node.isCall := by
  have isCall := isCall_of_calledName (calledName_of_analyze found)
  refine ⟨m.span.node, ?_, ?_⟩
  · rw [← inside, ← (analyze_in found).span]
    exact m.span.at?_path
  · rw [isGuardedForm, Bool.eq_iff_iff]
    simp [form_iff isCall found]

/-- The matches of guarded calls only are the matches that are no bare calls, in the same order and
with nothing changed. -/
theorem scan_requiring (d : Detector) (t : Tree) :
    (d.requiring true).scan t = ((d.requiring false).scan t).filter (·.form ≠ .directCall) := by
  have each : t.calls.filterMap (d.requiring true).analyze? =
      (t.calls.filterMap (d.requiring false).analyze?).filter isGuardedForm := by
    rw [List.filter_filterMap]
    exact List.filterMap_congr fun call _ => analyze_guarded d call
  have byPlace : ∀ m ∈ t.calls.filterMap (d.requiring false).analyze?,
      ∀ m' ∈ t.calls.filterMap (d.requiring false).analyze?,
      m.span.path = m'.span.path → isGuardedForm m = isGuardedForm m' := by
    intro m member m' member' same
    obtain ⟨call, listed, found⟩ := List.mem_filterMap.mp member
    obtain ⟨call', listed', found'⟩ := List.mem_filterMap.mp member'
    obtain ⟨node, there, guarded⟩ := isGuardedForm_of_analyze found (top_of_mem_calls listed)
    obtain ⟨node', there', guarded'⟩ := isGuardedForm_of_analyze found' (top_of_mem_calls listed')
    rw [same, there'] at there
    cases there
    rw [guarded, guarded']
  unfold scan
  cases applies : d.applicable with
  | true =>
    simp only [applicable_requiring, applies, if_true, each]
    exact (firstPerPlace_filter byPlace fun _ _ _ => Iff.rfl).symm
  | false =>
    simp [applies]

end NullSafeEq.Detector
