import NullSafeEq.Proofs.Idiom.CallSites
import NullSafeEq.Proofs.Rewriting.GraftedShapes

/-!
# The grafts of a fix

Every match lies within an outermost one, and the outermost ones are replaced, each at its place.
So a site keeps its node just when it lies within no match.
-/
namespace NullSafeEq

namespace Detector
variable {d : Detector} {t : Tree} {n : DottedName} {m : Match} {s : Site}

/-! ## All matches and the outermost ones -/

/-- Every match lies within an outermost one. -/
theorem exists_outermost (member : m ∈ d.scan t) :
    ∃ o ∈ Tree.outermost (d.scan t), m.span.Within o.span := by
  induction h : m.span.path.length using Nat.strong_induction_on generalizing m with
  | h length ih =>
    by_cases highest : ∀ other ∈ d.scan t, other.span.isAbove m.span = false
    · exact ⟨m, outermost_spec.mpr ⟨member, highest⟩, .refl _⟩
    · simp only [not_forall, Bool.not_eq_false] at highest
      obtain ⟨other, listed, above⟩ := highest
      obtain ⟨outer, differs⟩ := isAbove_iff.mp above
      have shorter : other.span.path.length < length := by
        rw [← h]
        exact Nat.lt_of_le_of_ne outer.length_le fun same => differs (outer.eq_of_length same)
      obtain ⟨o, outermost, within⟩ := ih _ shorter listed rfl
      have inside : m.span.Within other.span :=
        ⟨(in_of_mem_scan member).span.trans (in_of_mem_scan listed).span.symm, outer⟩
      exact ⟨o, outermost, inside.trans within⟩

theorem place_of_mem_scan (member : m ∈ d.scan t) : m.span.node.isPlace = true := by
  obtain ⟨call, -, found⟩ := analyze_of_mem_scan member
  exact (analyze_place found).1

/-! ## What takes their place -/

/-- What takes the place of the outermost matches. -/
def fixGrafts (d : Detector) (n : DottedName) (t : Tree) : Grafts :=
  Match.grafts n (Tree.outermost (d.scan t))

theorem fixGrafts_of_some {path : Path} {new : Expr} (h : d.fixGrafts n t path = some new) :
    ∃ m ∈ Tree.outermost (d.scan t), m.span.path = path ∧ new = m.rewritten n := by
  obtain ⟨m, found, rfl⟩ := Option.map_eq_some_iff.mp h
  have same : m.span.path = path := by simpa using List.find?_some found
  exact ⟨m, List.mem_reverse.mp (List.mem_of_find?_eq_some found), same, rfl⟩

theorem fixGrafts_fromMatches : (d.fixGrafts n t).FromMatches := by
  intro path new grafts
  obtain ⟨m, -, -, same⟩ := fixGrafts_of_some grafts
  exact ⟨n, m, same⟩

theorem fixGrafts_span (member : m ∈ Tree.outermost (d.scan t)) :
    d.fixGrafts n t m.span.path = some (m.rewritten n) := by
  unfold fixGrafts Match.grafts
  rw [find_lastAt member rfl, lastAt_eq (outermost_distinct (d.scan_distinct t)) member]
  rfl

/-- The site of a graft is the place of an outermost match. -/
theorem fixGrafts_site {new : Expr} (top : s.top = t.root)
    (h : d.fixGrafts n t s.path = some new) :
    ∃ m ∈ Tree.outermost (d.scan t), m.span = s ∧ new = m.rewritten n := by
  obtain ⟨m, member, path, same⟩ := fixGrafts_of_some h
  have inside := in_of_mem_scan (outermost_spec.mp member).1
  exact ⟨m, member, Site.eq_of_path (inside.span.trans top.symm) path, same⟩

/-- What lies within no place of a match is clear and not grafted. -/
theorem clear_of_uncovered (top : s.top = t.root)
    (uncovered : ∀ o ∈ Tree.outermost (d.scan t), ¬ s.Within o.span) :
    s.Clear (d.fixGrafts n t) ∧ d.fixGrafts n t s.path = none := by
  have free (a : Site) (within : s.Within a) : d.fixGrafts n t a.path = none := by
    rw [Option.eq_none_iff_forall_ne_some]
    intro new grafts
    obtain ⟨o, member, rfl, -⟩ := fixGrafts_site (within.1.symm.trans top) grafts
    exact uncovered o member within
  exact ⟨fun a within _ => free a within, free s (.refl s)⟩

/-- What is clear and not grafted lies within no place of a match. -/
theorem uncovered_of_clear (clear : s.Clear (d.fixGrafts n t))
    (ungrafted : d.fixGrafts n t s.path = none) (member : m ∈ d.scan t) : ¬ s.Within m.span := by
  intro within
  obtain ⟨o, outermost, outer⟩ := exists_outermost member
  have grafts := fixGrafts_span (n := n) outermost
  by_cases same : o.span = s
  · rw [same, ungrafted] at grafts
    cases grafts
  · rw [clear o.span (within.trans outer) same] at grafts
    cases grafts

/-- The place of an outermost match is clear. -/
theorem clear_span (member : m ∈ Tree.outermost (d.scan t)) : m.span.Clear (d.fixGrafts n t) := by
  intro a within differs
  rw [Option.eq_none_iff_forall_ne_some]
  intro new grafts
  obtain ⟨listed, highest⟩ := outermost_spec.mp member
  have top := within.1.symm.trans (in_of_mem_scan listed).span
  obtain ⟨o, outermost, rfl, -⟩ := fixGrafts_site top grafts
  have above := highest o (outermost_spec.mp outermost).1
  rw [within.isAbove differs] at above
  cases above

end Detector

end NullSafeEq
