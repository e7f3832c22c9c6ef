import NullSafeEq.Proofs.Idiom.CallSites

/-!
# More declarations

A table of names that declares more values and classes names whatever a smaller table names, and in
the same way. So a guarded call that is found with the smaller table is found with the larger one.
Its place may grow, since an identity comparison in front of it may become recognisable.
-/
namespace NullSafeEq

/-- The second table declares all values and classes of the first, and the same packages. -/
structure Scope.IsWithin (s s' : Scope) : Prop where
  values : s.values ⊆ s'.values
  types : s.types ⊆ s'.types
  packages : ∀ name, name ∈ s.packages ↔ name ∈ s'.packages

namespace Scope
variable {s s' : Scope}

/-- A chain that is declared as a value or as a class is so in a larger table. -/
theorem IsWithin.declared {chain : Option String} {kind : SymbolKind} (more : s.IsWithin s')
    (known : s.declared? chain = some kind) (nameable : kind.isNameable = true) :
    ∃ kind', s'.declared? chain = some kind' ∧ kind'.isNameable = true := by
  cases chain with
  | none => cases known
  | some path =>
    simp only [declared?, List.contains_iff_mem, ← more.packages path] at known ⊢
    by_cases type' : path ∈ s'.types
    · exact ⟨.type, if_pos type', rfl⟩
    have noType : path ∉ s.types := fun type => type' (more.types type)
    rw [if_neg noType] at known
    rw [if_neg type']
    by_cases package : path ∈ s.packages
    · rw [if_pos package] at known
      cases known
      cases nameable
    rw [if_neg package] at known ⊢
    by_cases value : path ∈ s.values
    · exact ⟨.value, if_pos (more.values value), rfl⟩
    · rw [if_neg value] at known
      cases known

/-- What a larger table adds are values and classes. -/
theorem IsWithin.added {chain : Option String} {kind : SymbolKind} (more : s.IsWithin s')
    (unknown : s.declared? chain = none) (known : s'.declared? chain = some kind) :
    kind.isNameable = true := by
  cases chain with
  | none => cases known
  | some path =>
    simp only [declared?, List.contains_iff_mem, ← more.packages path] at unknown known
    by_cases package : path ∈ s.packages
    · rw [if_pos package] at unknown
      split at unknown <;> cases unknown
    rw [if_neg package] at known
    split at known
    · cases known
      rfl
    · split at known <;> cases known
      rfl

/-- A reference to a value or a class is one in a larger table too. -/
theorem IsWithin.nameable (more : s.IsWithin s') {e : Expr}
    (h : (s.resolve e).isNameable = true) : (s'.resolve e).isNameable = true := by
  induction e using Expr.induct_children with
  | step e ih =>
  cases e with
  | name id sp =>
    simp only [resolve] at h ⊢
    cases known : s.declared? (some id) with
    | none =>
      rw [known] at h
      cases h
    | some kind =>
      rw [known] at h
      obtain ⟨kind', known', nameable⟩ := more.declared known h
      rw [known']
      exact nameable
  | member q id sp =>
    simp only [resolve] at h ⊢
    cases known : s.declared? (Expr.dotted? (.member q id sp)) with
    | some kind =>
      rw [known] at h
      obtain ⟨kind', known', nameable⟩ := more.declared known h
      rw [known']
      exact nameable
    | none =>
      cases known' : s'.declared? (Expr.dotted? (.member q id sp)) with
      | some kind => exact more.added known known'
      | none =>
        -- neither table declares the chain, so its qualifier decides in both
        rw [known] at h
        by_cases computed : (!q.bare.isReference) = true
        · simp only [if_pos computed]
          rfl
        · by_cases field : (s.resolve q).isNameable = true
          · simp only [if_neg computed, if_pos (ih q (List.mem_singleton_self q) field)]
            rfl
          · simp only [if_neg computed, if_neg field] at h
            cases h
  | paren e sp =>
    simp only [resolve] at h ⊢
    exact ih e (List.mem_singleton_self e) h
  | _ => cases h

end Scope

/-- What has a name has the same name for the other resolver. -/
def Resolver.NamesWithin (resolve resolve' : Resolver) : Prop :=
  ∀ e name, qualifiedName? resolve e = some name → qualifiedName? resolve' e = some name

/-- Names do not change when more is declared. -/
theorem Scope.IsWithin.names {s s' : Scope} (more : s.IsWithin s') :
    Resolver.NamesWithin s.resolve s'.resolve := by
  intro e
  induction e using Expr.induct_children with
  | step e ih =>
  intro name h
  cases e with
  | name id sp =>
    simp only [qualifiedName?, Option.ite_none_right_eq_some, Bool.and_eq_true] at h ⊢
    exact ⟨⟨h.1.1, more.nameable h.1.2⟩, h.2⟩
  | member q id sp =>
    simp only [qualifiedName?, Option.ite_none_right_eq_some, Bool.and_eq_true,
      Option.map_eq_some_iff] at h ⊢
    obtain ⟨⟨nonempty, nameable⟩, base, named, whole⟩ := h
    exact ⟨⟨nonempty, more.nameable nameable⟩, base, ih q (List.mem_singleton_self q) base named,
      whole⟩
  | paren e sp =>
    rw [qualifiedName?] at h ⊢
    exact ih e (List.mem_singleton_self e) name h
  | self word outer sp =>
    rw [qualifiedName?] at h ⊢
    exact h
  | _ => cases h

/-- The first place takes in the second one and the left operand in front of it: it is the operator
that the second place, in parentheses or not, is the right operand of. -/
def Site.TakesIn (wide narrow : Site) : Prop :=
  ∃ op left sp above, narrow.wrapped.above = .rightOf op left sp :: above ∧
    wide = ⟨.binary op left narrow.wrapped.node sp, above⟩

/-- The second match is the first one, but that the place of a guarded call may have taken in what
stands in front of the construct around it. -/
structure Match.GrowsIn (context : Option Site) (m m' : Match) : Prop where
  form : m'.form = m.form
  left : m'.left = m.left
  right : m'.right = m.right
  negated : m'.negated = m.negated
  place : m'.span = m.span ∨ m.form = .binary ∧ context = some m.span ∧ m'.span.TakesIn m.span

theorem Match.GrowsIn.refl (context : Option Site) (m : Match) : m.GrowsIn context m :=
  ⟨rfl, rfl, rfl, rfl, .inl rfl⟩

namespace Detector
variable {d : Detector} {resolve : Resolver} {m : Match}

theorem comparesNames_mono (more : d.resolve.NamesWithin resolve) {equal : Bool}
    {first second : String} {e : Expr} (h : d.comparesNames equal first second e = true) :
    ({ d with resolve } : Detector).comparesNames equal first second e = true := by
  obtain ⟨l, r, sp, node, names⟩ := comparesNames_iff.mp h
  exact comparesNames_iff.mpr ⟨l, r, sp, node,
    names.imp (And.imp (more l _) (more r _)) (And.imp (more l _) (more r _))⟩

/-- Either the place stays, or it was the guard alone and takes in what stands in front of it. -/
theorem widen_mono (more : d.resolve.NamesWithin resolve) (guard : Site) (equal : Bool)
    (first second : String) :
    ({ d with resolve } : Detector).widen guard equal first second =
      d.widen guard equal first second ∨
    d.widen guard equal first second = guard ∧
      (({ d with resolve } : Detector).widen guard equal first second).TakesIn
        (d.widen guard equal first second) := by
  rcases d.widen_cases guard equal first second with narrow | ⟨op, left, sp, above, frames, isOp,
    compares, wide⟩
  · rcases ({ d with resolve } : Detector).widen_cases guard equal first second with
      narrow' | ⟨op, left, sp, above, frames, -, -, wide⟩
    · exact .inl (narrow'.trans narrow.symm)
    · exact .inr ⟨narrow, narrow.symm ▸ ⟨op, left, sp, above, frames, wide⟩⟩
  · refine .inl ?_
    rw [wide]
    simp only [widen, frames, isOp, decide_true, Bool.true_and, comparesNames_mono more compares,
      if_true]

theorem placeOf_mono (more : d.resolve.NamesWithin resolve) (guard : Site) (equal : Bool)
    (checked : String) (argument : Site) :
    ({ d with resolve } : Detector).placeOf guard equal checked argument =
      d.placeOf guard equal checked argument ∨
    d.placeOf guard equal checked argument = guard ∧
      (({ d with resolve } : Detector).placeOf guard equal checked argument).TakesIn
        (d.placeOf guard equal checked argument) := by
  cases named : d.nameOf argument with
  | some name =>
    have named' : ({ d with resolve } : Detector).nameOf argument = some name :=
      more argument.node name named
    simp only [placeOf, named, named']
    exact widen_mono more guard equal checked name
  | none =>
    have narrow : d.placeOf guard equal checked argument = guard := by simp only [placeOf, named]
    rw [narrow]
    rcases ({ d with resolve } : Detector).placeOf_cases guard equal checked argument with
      narrow' | ⟨name, -, place⟩
    · exact .inl narrow'
    · rw [place]
      rcases ({ d with resolve } : Detector).widen_cases guard equal checked name with
        narrow' | ⟨op, left, sp, above, frames, -, -, wide⟩
      · exact .inl narrow'
      · exact .inr ⟨rfl, op, left, sp, above, frames, wide⟩

theorem guardedCall_mono (more : d.resolve.NamesWithin resolve) {guard check callee : Site}
    {equal : Bool} (h : d.guardedCall? guard check callee equal = some m) :
    ∃ m', ({ d with resolve } : Detector).guardedCall? guard check callee equal = some m' ∧
      m.GrowsIn (some guard) m' := by
  obtain ⟨found, call, affirmed, test, tests, differs, checked, named, qualifier, rfl⟩ :=
    guardedCall_iff.mp h
  refine ⟨_, guardedCall_iff.mpr ⟨found, call, affirmed, test, tests, differs, checked,
    more _ _ named, more _ _ qualifier, rfl⟩, rfl, rfl, rfl, rfl, ?_⟩
  exact (placeOf_mono more guard equal checked found.argument).imp_right fun ⟨narrow, wide⟩ =>
    ⟨rfl, congrArg some narrow.symm, wide⟩

theorem binary_mono (more : d.resolve.NamesWithin resolve) {s : Site}
    (h : d.binary? s = some m) :
    ∃ m', ({ d with resolve } : Detector).binary? s = some m' ∧ m.GrowsIn (some s) m' := by
  rcases binary_iff.mp h with ⟨l, r, sp, node, found⟩ | ⟨l, r, sp, e, notSpan, node, negation, found⟩
  · obtain ⟨m', found', grows⟩ := guardedCall_mono more found
    exact ⟨m', binary_iff.mpr (.inl ⟨l, r, sp, node, found'⟩), grows⟩
  · obtain ⟨m', found', grows⟩ := guardedCall_mono more found
    exact ⟨m', binary_iff.mpr (.inr ⟨l, r, sp, e, notSpan, node, negation, found'⟩), grows⟩

theorem conditional_mono (more : d.resolve.NamesWithin resolve) {s : Site}
    (h : d.conditional? s = some m) : ({ d with resolve } : Detector).conditional? s = some m := by
  obtain ⟨t, y, n, sp, node, test, tests, other, others, found, calls, alike, tested, first,
    argument, second, second', first', rfl⟩ := conditional_iff.mp h
  exact conditional_iff.mpr ⟨t, y, n, sp, node, test, tests, other, others, found, calls, alike,
    tested, more _ _ first, argument, more _ _ second, more _ _ second', more _ _ first', rfl⟩

/-- A detector of guarded calls that knows more names finds the match of a call again. -/
theorem analyze_mono (guarded : d.requireGuard = true) (more : d.resolve.NamesWithin resolve)
    {call : Site} (h : d.analyze? call = some m) :
    ∃ m', ({ d with resolve } : Detector).analyze? call = some m' ∧
      m.GrowsIn (call.enclosing? Expr.isTransparent) m' := by
  have notDirect : d.direct? call ≠ some m := by
    intro direct
    rw [(direct_iff.mp direct).1] at guarded
    cases guarded
  rw [analyze_eq_elim] at h
  simp only [analyze_eq_elim]
  split at h
  · cases h
  next applies =>
  split at h
  · cases h
  next notSelf =>
  rw [if_neg applies, if_neg notSelf]
  cases around : call.enclosing? Expr.isTransparent with
  | none =>
    rw [around] at h
    exact (notDirect h).elim
  | some context =>
    rw [around] at h
    simp only [Option.elim_some] at h ⊢
    rcases inContext_cases h with binary | conditional | direct
    · obtain ⟨m', binary', grows⟩ := binary_mono more binary
      obtain ⟨op, l, r, sp, -, -, node, -⟩ := binary_guarded binary
      exact ⟨m', by simp only [inContext?, node, binary'], grows⟩
    · obtain ⟨t, y, n, sp, node, -⟩ := conditional_iff.mp conditional
      exact ⟨m, by simp only [inContext?, node, conditional_mono more conditional], .refl _ m⟩
    · exact (notDirect direct).elim

/-- Declaring more values and classes loses no guarded call. What is found for a call stays found
for it with the same form, operands and sign, at the same place or, for a guarded call whose place
was the construct around the call, at the operator around this construct. -/
theorem scan_of_isWithin {s s' : Scope} (more : s.IsWithin s') (method : String)
    (applicable : Bool) (t : Tree) :
    let before : Detector := ⟨s.resolve, true, method, nullComparison, applicable⟩
    let after : Detector := ⟨s'.resolve, true, method, nullComparison, applicable⟩
    (∀ m ∈ before.scan t, ∃ call ∈ t.calls, before.analyze? call = some m) ∧
    ∀ call ∈ t.calls, ∀ m, before.analyze? call = some m → m ∈ before.scan t ∧
      ∃ m' ∈ after.scan t, after.analyze? call = some m' ∧
        m'.form = m.form ∧ m'.left = m.left ∧ m'.right = m.right ∧ m'.negated = m.negated ∧
        (m'.span = m.span ∨ m.form = .binary ∧ m'.span.TakesIn m.span) ∧
        (call.enclosing? Expr.isTransparent ≠ some m.span → m'.span = m.span) := by
  intro before after
  refine ⟨fun m member => analyze_of_mem_scan member, fun call member m found => ?_⟩
  obtain ⟨m', found', grows⟩ : ∃ m', after.analyze? call = some m' ∧
      m.GrowsIn (call.enclosing? Expr.isTransparent) m' := analyze_mono rfl more.names found
  refine ⟨?_, m', ?_, found', grows.form, grows.left, grows.right, grows.negated,
    grows.place.imp_right fun ⟨form, _, wide⟩ => ⟨form, wide⟩, fun widened => ?_⟩
  · rw [scan_eq_filterMap rfl]
    exact List.mem_filterMap.mpr ⟨call, member, found⟩
  · rw [scan_eq_filterMap rfl]
    exact List.mem_filterMap.mpr ⟨call, member, found'⟩
  · exact grows.place.resolve_right fun ⟨_, narrow, _⟩ => widened narrow

/-- With `b` declared as well, the comparison of `a` and `b` in front becomes part of the place. -/
theorem scan_of_isWithin_comparison :
    let s : Scope := ⟨["a"], [], []⟩
    let s' : Scope := ⟨["b", "a"], [], []⟩
    let before : Detector := ⟨s.resolve, true, "equals", nullComparison, true⟩
    let after : Detector := ⟨s'.resolve, true, "equals", nullComparison, true⟩
    s.IsWithin s' ∧ ∃ t m m', Tree.read "a == b || a != null && a.equals(b)" = .ok t ∧
      m ∈ before.scan t ∧ m' ∈ after.scan t ∧ m'.left = m.left ∧ m'.right = m.right ∧
      m.span.path = [1] ∧ m'.span.path = [] ∧ m'.span.TakesIn m.span := by
  intro s s' before after
  have more : s.IsWithin s' := ⟨by decide, by decide, fun _ => Iff.rfl⟩
  let t : Tree := ⟨.binary .or
    (.binary .eq (.name "a" (some ⟨0, 1⟩)) (.name "b" (some ⟨5, 6⟩)) (some ⟨0, 6⟩))
    (.binary .and
      (.binary .ne (.name "a" (some ⟨10, 11⟩)) (.literal .null "null" (some ⟨15, 19⟩))
        (some ⟨10, 19⟩))
      (.invoke (.name "a" (some ⟨23, 24⟩)) "equals" [.name "b" (some ⟨32, 33⟩)] (some ⟨23, 34⟩))
      (some ⟨10, 34⟩)) (some ⟨0, 34⟩), some "a == b || a != null && a.equals(b)"⟩
  have read : Tree.read "a == b || a != null && a.equals(b)" = .ok t := rfl
  obtain ⟨call, m, calls, found, path, found'⟩ : ∃ call m, t.calls = [call] ∧
      before.analyze? call = some m ∧ m.span.path = [1] ∧
      (after.analyze? call).map (fun m' => m'.span.path) = some [] := ⟨_, _, rfl, rfl, rfl, rfl⟩
  obtain ⟨-, kept⟩ := scan_of_isWithin more "equals" true t
  obtain ⟨member, m', member', again, -, left, right, -, place, -⟩ :=
    kept call (by simp [calls]) m found
  have path' : m'.span.path = [] := by
    rw [again] at found'
    exact Option.some.inj found'
  refine ⟨more, t, m, m', read, member, member', left, right, path, path', ?_⟩
  refine (place.resolve_left fun same => ?_).2
  rw [same, path] at path'
  cases path'

end Detector

end NullSafeEq
