import NullSafeEq.Proofs.Idiom.Computations
import NullSafeEq.Proofs.Rewriting.Idempotence

/-!
# What a fix keeps

Each match that is replaced exchanges one call of the equality method for one call of the helper,
and all other calls, creations, array accesses and casts stay. So fixing again and again comes to
an end, for every round but the last one uses up a call of the equality method.
-/
namespace NullSafeEq

namespace Detector
variable {d : Detector} {t : Tree} {n : DottedName}

/-- Each replacement exchanges a call of the equality method for a call of the helper. -/
theorem fixGrafts_exchange (standard : d.compare = nullComparison) :
    (d.fixGrafts n t).Exchange (.call d.method 1) (.call n.last 2) t.root where
  swaps s new top grafts := by
    obtain ⟨m, member, rfl, rfl⟩ := fixGrafts_site top grafts
    obtain ⟨call, -, found⟩ := analyze_of_mem_scan (outermost_spec.mp member).1
    have place : m.span.node.computations = _ := analyze_computes standard found
    rw [m.computations_rewritten, place, add_right_comm, add_comm {_} {_}, add_right_comm]
  apart s r top within differs grafted := by
    rw [Option.eq_none_iff_forall_ne_some]
    intro new grafts
    obtain ⟨m, member, rfl, -⟩ := fixGrafts_site (within.1.trans top) grafts
    rw [clear_span member s within differs.symm] at grafted
    cases grafted

/-- There are as many replacements as outermost matches. -/
theorem countBelow_fixGrafts :
    (d.fixGrafts n t).countBelow (.root t.root) = (Tree.outermost (d.scan t)).length := by
  have distinct : ((Tree.outermost (d.scan t)).map Match.span).Nodup := by
    refine List.Nodup.of_map Site.path ?_
    rw [List.map_map]
    exact outermost_distinct (d.scan_distinct t)
  have places : (t.root.sites.filter fun s => (d.fixGrafts n t s.path).isSome).Perm
      ((Tree.outermost (d.scan t)).map Match.span) := by
    refine (List.perm_ext_iff_of_nodup (t.root.nodup_sites.filter _) distinct).mpr fun s => ?_
    rw [List.mem_filter, Expr.mem_sites_iff, Option.isSome_iff_exists, List.mem_map]
    constructor
    · rintro ⟨top, new, grafts⟩
      obtain ⟨m, member, same, -⟩ := fixGrafts_site top grafts
      exact ⟨m, member, same⟩
    · rintro ⟨m, member, rfl⟩
      exact ⟨(in_of_mem_scan (outermost_spec.mp member).1).span, _, fixGrafts_span member⟩
  have lengths := places.length_eq
  rwa [List.length_map, ← List.countP_eq_length_filter] at lengths

/-- The tree with the outermost matches replaced computes what the tree computes, but for a call
of the helper in the place of a call of the equality method for each of them. -/
theorem computations_fixGrafts (standard : d.compare = nullComparison) :
    (t.root.graft (d.fixGrafts n t)).computations +
        .replicate (Tree.outermost (d.scan t)).length (.call d.method 1) =
      t.root.computations +
        .replicate (Tree.outermost (d.scan t)).length (.call n.last 2) := by
  rw [← countBelow_fixGrafts (n := n)]
  exact Grafts.Exchange.grafted (s := .root t.root) (fixGrafts_exchange standard)

/-- Where something was found there is an outermost match. -/
theorem outermost_ne_nil (found : d.scan t ≠ []) : 0 < (Tree.outermost (d.scan t)).length := by
  obtain ⟨m, member⟩ := List.exists_mem_of_ne_nil _ found
  obtain ⟨o, outermost, -⟩ := exists_outermost member
  exact List.length_pos_of_mem outermost

end Detector

namespace Guard
variable {g : Guard} {live : Inspection} {text method : String} {t : Tree} {n : DottedName}
variable {applies : Bool}

/-- The text after a number of fixes. -/
def refix (g : Guard) (live : Inspection) : Nat → String → Except Failure String
  | 0, text => .ok text
  | rounds + 1, text => do g.refix live rounds (← g.fix live text)

theorem refix_succ {fixed : String} (fixes : g.fix live text = .ok fixed) (rounds : Nat) :
    g.refix live (rounds + 1) text = g.refix live rounds fixed := by
  rw [refix, fixes]
  rfl

/-- The calls of the equality method in a tree. -/
abbrev equalityCalls (method : String) (t : Tree) : Nat :=
  t.root.computations.count (.call method 1)

/-- One round: every outermost match exchanges one call for another. -/
theorem exchange_of_fix (isMethod : g.method = some method) (read : Tree.read text = .ok t)
    (gate : g.applicable live = .ok applies) (named : helper live = .ok n.text) (valid : n.Valid) :
    ∃ found fixed t', g.scan live t = .ok found ∧ g.fix live text = .ok fixed ∧
      Tree.read fixed = .ok t' ∧ (found ≠ [] → 0 < (Tree.outermost found).length) ∧
      t'.root.computations + .replicate (Tree.outermost found).length (.call method 1) =
        t.root.computations + .replicate (Tree.outermost found).length (.call n.last 2) := by
  obtain ⟨found, fixed, t', scanned, fixes, again, grafted⟩ := read_fix read gate named valid
  refine ⟨found, fixed, t', scanned, fixes, again, ?_⟩
  obtain ⟨applies', asked, ⟨none, -⟩ | ⟨name, some, rfl⟩⟩ := scan_iff.mp scanned
  · cases none.symm.trans isMethod
  cases some.symm.trans isMethod
  refine ⟨Detector.outermost_ne_nil, ?_⟩
  have exchanged := Detector.computations_fixGrafts (d := g.detector method applies') (t := t)
    (n := n) rfl
  rw [← Expr.computations_unspanned] at exchanged ⊢
  rwa [grafted]

/-- An exchange takes as many calls of the equality method away as it says. -/
theorem equalityCalls_of_exchange {t' : Tree} {k : Nat} (exchanged : t'.root.computations +
      .replicate k (.call method 1) = t.root.computations + .replicate k (.call n.last 2)) :
    equalityCalls method t' + k = equalityCalls method t := by
  have counts := congrArg (Multiset.count (.call method 1)) exchanged
  have other : Computation.call n.last 2 ≠ .call method 1 := nofun
  rwa [Multiset.count_add, Multiset.count_add, Multiset.count_replicate_self,
    Multiset.count_replicate, if_neg other, add_zero] at counts

/-- Fixing comes to an end, after no more rounds than there are calls of the equality method. -/
theorem refix_ends (isMethod : g.method = some method) (read : Tree.read text = .ok t)
    (gate : g.applicable live = .ok applies) (named : helper live = .ok n.text) (valid : n.Valid) :
    ∃ rounds last t', rounds ≤ equalityCalls method t ∧ g.refix live rounds text = .ok last ∧
      Tree.read last = .ok t' ∧ g.scan live t' = .ok [] := by
  induction calls : equalityCalls method t using Nat.strong_induction_on generalizing text t with
  | h calls' ih =>
  subst calls
  obtain ⟨found, fixed, t₁, scanned, fixes, again, progress, exchanged⟩ :=
    exchange_of_fix isMethod read gate named valid
  by_cases nothing : found = []
  · subst nothing
    exact ⟨0, text, t, Nat.zero_le _, rfl, read, scanned⟩
  have fewer := equalityCalls_of_exchange exchanged
  have positive := progress nothing
  obtain ⟨rounds, last, t', few, fixedLast, readLast, clean⟩ :=
    ih (equalityCalls method t₁) (by omega) again rfl
  refine ⟨rounds + 1, last, t', by omega, ?_, readLast, clean⟩
  rw [refix_succ fixes, fixedLast]

/-- Fixing a text exchanges a call of the equality method with one argument for a call of the
helper with two, once for every outermost match, and loses and adds no other call, creation, array
access or cast. So the number of calls of the equality method drops by the number of outermost
matches, and fixing comes to an end after no more rounds than there are such calls. -/
theorem fix_conserves (isMethod : g.method = some method) (read : Tree.read text = .ok t)
    (gate : g.applicable live = .ok applies) (named : helper live = .ok n.text) (valid : n.Valid) :
    ∃ found fixed t', g.scan live t = .ok found ∧ g.fix live text = .ok fixed ∧
      Tree.read fixed = .ok t' ∧
      t'.root.computations + .replicate (Tree.outermost found).length (.call method 1) =
        t.root.computations + .replicate (Tree.outermost found).length (.call n.last 2) ∧
      equalityCalls method t' + (Tree.outermost found).length = equalityCalls method t ∧
      ∃ rounds last t'', rounds ≤ equalityCalls method t ∧ g.refix live rounds text = .ok last ∧
        Tree.read last = .ok t'' ∧ g.scan live t'' = .ok [] := by
  obtain ⟨found, fixed, t', scanned, fixes, again, -, exchanged⟩ :=
    exchange_of_fix isMethod read gate named valid
  exact ⟨found, fixed, t', scanned, fixes, again, exchanged, equalityCalls_of_exchange exchanged,
    refix_ends isMethod read gate named valid⟩

/-- In `a.equals(b.equals(c))` only the outer call is exchanged at first, and two rounds are
enough. -/
theorem fix_conserves_nested :
    let g : Guard := ⟨.custom fun _ => .value, false, some "equals", .level⟩
    ∃ t fixed t', Tree.read "a.equals(b.equals(c))" = .ok t ∧
      g.fix {} "a.equals(b.equals(c))" = .ok fixed ∧ Tree.read fixed = .ok t' ∧
      t'.root.computations + {.call "equals" 1} = t.root.computations + {.call "equals" 2} ∧
      ∃ rounds last t'', rounds ≤ 2 ∧ g.refix {} rounds "a.equals(b.equals(c))" = .ok last ∧
        Tree.read last = .ok t'' ∧ g.scan {} t'' = .ok [] := by
  intro g
  have read : Tree.read "a.equals(b.equals(c))" = .ok ⟨.invoke (.name "a" (some ⟨0, 1⟩)) "equals"
    [.invoke (.name "b" (some ⟨9, 10⟩)) "equals" [.name "c" (some ⟨18, 19⟩)] (some ⟨9, 20⟩)]
    (some ⟨0, 21⟩), some "a.equals(b.equals(c))"⟩ := rfl
  have gate : g.applicable {} = .ok true := rfl
  obtain ⟨found, fixed, t', scanned, fixes, again, exchanged, -, ends⟩ :=
    fix_conserves rfl read gate helper_standard standardName_valid
  cases scanned
  exact ⟨_, fixed, t', read, fixes, again, exchanged, ends⟩

end Guard

end NullSafeEq
