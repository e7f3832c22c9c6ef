import NullSafeEq.Proofs.Rewriting.Fix
import NullSafeEq.Proofs.Rewriting.Rescan

/-!
# Fixing a fixed text

When nothing is found in a fixed text any more, so that fixing it again changes nothing. Only the
outermost matches are replaced, so this is not so for every text.
-/
namespace NullSafeEq

/-- A classifier that reads names off declarations or conventions looks at no span. -/
theorem Classifier.spanFree {c : Classifier} (given : ∀ resolve, c ≠ .custom resolve) :
    c.resolve.SpanFree := by
  cases c with
  | scope names => exact names.spanFree
  | convention rules => exact rules.spanFree
  | custom resolve => exact (given resolve rfl).elim

/-- In a tree with the outermost matches replaced nothing is found just when nothing was left
over. -/
theorem Detector.rescan_eq_nil_iff {d : Detector} {t t' : Tree} {n : DottedName}
    (standard : d.compare = nullComparison) (free : d.resolve.SpanFree)
    (same : t'.root.unspanned = (t.root.graft (d.fixGrafts n t)).unspanned) :
    d.scan t' = [] ↔ d.Settles t := by
  cases applies : d.applicable with
  | false =>
    have nothing (t : Tree) : d.scan t = [] := by simp [scan, applies]
    exact iff_of_true (nothing t') ⟨by simp [nothing t], by simp [nothing t, Tree.outermost]⟩
  | true =>
    have respelled (e : Expr) : d.Quiet none e.unspanned ↔ d.Quiet none e :=
      @quiet_unspanned d free none e
    rw [scan_eq_nil_iff standard applies, ← respelled, same, respelled]
    exact quiet_fixGrafts_iff standard applies n t

/-- A match that is the whole tree is exposed by no call. -/
theorem Match.not_exposes_of_whole {m : Match} (whole : m.span.path = []) (d : Detector)
    (call : Site) : ¬ m.Exposes d call := by
  rintro ⟨-, -, l, r, sp, above, -, place⟩
  have inside := (Site.Within.bare (Site.down ⟨.binary .or l r sp, above⟩ (.rightOf .or l sp) r)).2
  rw [← place, whole, Site.path_down] at inside
  have impossible := List.prefix_nil.mp inside
  simp at impossible

/-- A single match that is the whole tree leaves nothing over. -/
theorem Detector.settles_of_whole {d : Detector} {t : Tree} {m : Match} (only : d.scan t = [m])
    (whole : m.span.path = [])
    (apart : m.left.isAtOrAbove m.span = false ∧ m.right.isAtOrAbove m.span = false) :
    d.Settles t := by
  refine ⟨fun outer member inner inside => ?_, fun outer member _ call _ => ?_⟩
  · have listed := (outermost_spec.mp member).1
    rw [only, List.mem_singleton] at listed inside
    rw [listed, inside]
    exact apart
  · have listed := (outermost_spec.mp member).1
    rw [only, List.mem_singleton] at listed
    rw [listed]
    exact m.not_exposes_of_whole whole d call

namespace Guard
variable {g : Guard} {live : Inspection} {text : String} {t : Tree} {n : DottedName}

/-- A text in which nothing is found is not changed. -/
theorem fix_of_scan_nil (read : Tree.read text = .ok t) (scanned : g.scan live t = .ok []) :
    g.fix live text = .ok text := by
  rw [fix_eq read scanned]
  rfl

/-- Where the gate can be asked, nothing is found just when the detector for the method finds
nothing. -/
theorem scan_eq_nil_iff {applies : Bool} (gate : g.applicable live = .ok applies) :
    g.scan live t = .ok [] ↔
      ∀ method, g.method = some method → (g.detector method applies).scan t = [] := by
  rw [scan_iff]
  constructor
  · rintro ⟨applies', asked, found⟩ method named
    cases gate.symm.trans asked
    rcases found with ⟨none, -⟩ | ⟨name, some, found⟩
    · cases none.symm.trans named
    · cases some.symm.trans named
      exact found.symm
  · intro nothing
    refine ⟨applies, gate, ?_⟩
    cases named : g.method with
    | none => exact .inl ⟨rfl, rfl⟩
    | some method => exact .inr ⟨method, rfl, (nothing method named).symm⟩

/-- After a fix the text can be read again, and nothing is found in it just when the matches in
the given text settle. Fixing it again then changes nothing. -/
theorem rescan_fix_iff {applies : Bool} (given : ∀ resolve, g.classifier ≠ .custom resolve)
    (read : Tree.read text = .ok t) (gate : g.applicable live = .ok applies)
    (named : helper live = .ok n.text) (valid : n.Valid) :
    ∃ fixed t', g.fix live text = .ok fixed ∧ Tree.read fixed = .ok t' ∧
      (g.scan live t' = .ok [] ↔
        ∀ method, g.method = some method → (g.detector method applies).Settles t) ∧
      (g.scan live t' = .ok [] → g.fix live fixed = .ok fixed) := by
  obtain ⟨found, scanned⟩ := exists_scan (t := t) gate
  obtain ⟨fixed, t', fixes, again, grafted⟩ := read_fixed read scanned named valid
  refine ⟨fixed, t', fixes, again, ?_, fun nothing => fix_of_scan_nil again nothing⟩
  rw [scan_eq_nil_iff gate]
  refine forall_congr' fun method => forall_congr' fun isMethod => ?_
  have same : found = (g.detector method applies).scan t := by
    obtain ⟨applies', asked, ⟨none, -⟩ | ⟨name, some, found⟩⟩ := scan_iff.mp scanned
    · cases none.symm.trans isMethod
    · cases gate.symm.trans asked
      cases some.symm.trans isMethod
      exact found
  rw [same] at grafted
  exact Detector.rescan_eq_nil_iff rfl (Classifier.spanFree given) grafted

/-- In a guarded call that is the whole text nothing is left over. -/
theorem rescan_fix_guarded :
    let g : Guard := ⟨.scope ⟨["a", "b"], [], []⟩, false, some "equals", .level⟩
    ∃ fixed t', g.fix {} "a == null || !a.equals(b)" = .ok fixed ∧ Tree.read fixed = .ok t' ∧
      g.scan {} t' = .ok [] ∧ g.fix {} fixed = .ok fixed := by
  intro g
  have read : Tree.read "a == null || !a.equals(b)" = .ok ⟨.binary .or
      (.binary .eq (.name "a" (some ⟨0, 1⟩)) (.literal .null "null" (some ⟨5, 9⟩)) (some ⟨0, 9⟩))
      (.prefixed .not (.invoke (.name "a" (some ⟨14, 15⟩)) "equals" [.name "b" (some ⟨23, 24⟩)]
        (some ⟨14, 25⟩)) (some ⟨13, 25⟩)) (some ⟨0, 25⟩),
      some "a == null || !a.equals(b)"⟩ := rfl
  have given : ∀ resolve, g.classifier ≠ .custom resolve := nofun
  have gate : g.applicable {} = .ok true := rfl
  obtain ⟨fixed, t', fixes, again, clean, idle⟩ :=
    rescan_fix_iff given read gate helper_standard standardName_valid
  have nothing : g.scan {} t' = .ok [] := by
    refine clean.mpr fun method isMethod => ?_
    cases isMethod
    exact Detector.settles_of_whole rfl rfl ⟨rfl, rfl⟩
  exact ⟨fixed, t', fixes, again, nothing, idle nothing⟩

/-- The argument of a call is kept as it is, with the call in it, and this call is found the next
time. -/
theorem rescan_fix_nested :
    let g : Guard := ⟨.scope ⟨["a", "b", "c"], [], []⟩, false, some "equals", .level⟩
    ∃ t fixed t', Tree.read "a.equals(b.equals(c))" = .ok t ∧
      g.fix {} "a.equals(b.equals(c))" = .ok fixed ∧ Tree.read fixed = .ok t' ∧
      g.scan {} t' ≠ .ok [] := by
  intro g
  let t : Tree := ⟨.invoke (.name "a" (some ⟨0, 1⟩)) "equals"
    [.invoke (.name "b" (some ⟨9, 10⟩)) "equals" [.name "c" (some ⟨18, 19⟩)] (some ⟨9, 20⟩)]
    (some ⟨0, 21⟩), some "a.equals(b.equals(c))"⟩
  have read : Tree.read "a.equals(b.equals(c))" = .ok t := rfl
  have given : ∀ resolve, g.classifier ≠ .custom resolve := nofun
  have gate : g.applicable {} = .ok true := rfl
  obtain ⟨outer, inner, found, highest, inside⟩ : ∃ outer inner,
      (g.detector "equals" true).scan t = [outer, inner] ∧
      Tree.outermost [outer, inner] = [outer] ∧ outer.right.isAtOrAbove inner.span = true :=
    ⟨_, _, rfl, rfl, rfl⟩
  have scanned : g.scan {} t = .ok [outer, inner] := congrArg Except.ok found
  obtain ⟨fixed, t', fixes, again, grafted⟩ :=
    read_fixed read scanned helper_standard standardName_valid
  refine ⟨t, fixed, t', read, fixes, again, fun nothing => ?_⟩
  rw [← found] at grafted highest
  have settled := (Detector.rescan_eq_nil_iff rfl (Classifier.spanFree given) grafted).mp
    ((scan_eq_nil_iff gate).mp nothing "equals" rfl)
  have outside := (settled.flat outer (by simp [highest]) inner (by simp [found])).2
  rw [inside] at outside
  cases outside

end Guard

end NullSafeEq
