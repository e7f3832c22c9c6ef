import NullSafeEq.Proofs.Idiom.Relocation
import NullSafeEq.Proofs.Idiom.Respanning
import NullSafeEq.Proofs.Rewriting.Findings
import NullSafeEq.Proofs.Rewriting.Idempotence
import NullSafeEq.Proofs.Rewriting.Nesting

/-!
# Matches that are left for the next time

Only the outermost matches of a text are replaced. The others lie in the operands of these, so their
texts are kept, and they are found again in the fixed text: an operand is an operand of the helper
call afterwards, and in an operand of a call it does not matter which call that is.
-/
namespace NullSafeEq

/-! ## Where the operands are kept -/

/-- The index of an argument among the children of a call of the chain, which has a qualifier when
it is no single name. -/
def DottedName.slot : DottedName → Nat → Nat
  | plain _, i => i
  | member .., i => i + 1

theorem DottedName.child_call (n : DottedName) (args : List Expr) (i : Nat) :
    (n.call args).children[n.slot i]? = args[i]? := by
  cases n <;> rfl

namespace Match

/-- Where the helper call stands in what takes the place of a match. -/
def callPath (m : Match) : Path := if m.negated then [0] else []

/-- Where an operand of a match stands in what takes its place. -/
def operandPath (n : DottedName) (m : Match) (i : Nat) : Path := m.callPath ++ [n.slot i]

theorem at?_callPath (n : DottedName) (m : Match) :
    (m.rewritten n).at? m.callPath = some (n.call [m.left.node, m.right.node]) := by
  unfold rewritten callPath
  cases m.negated <;> rfl

/-- A match that lies in an operand of another one, and the match that is found in the tree in which
the other one is replaced: at the same place in this operand, with the same form and the same
operands. -/
structure FoundAgain (n : DottedName) (outer inner again : Match) : Prop where
  place : ∃ i o below, [outer.left, outer.right][i]? = some o ∧
    inner.span.path = o.path ++ below ∧
    again.span.path = outer.span.path ++ outer.operandPath n i ++ below
  span : again.span.node.unspanned = inner.span.node.unspanned
  left : again.left.node.unspanned = inner.left.node.unspanned
  right : again.right.node.unspanned = inner.right.node.unspanned
  negated : again.negated = inner.negated
  form : again.form = inner.form

end Match

/-- Below no graft a path leads to the node with its grafts. -/
theorem Site.Clear.at? {g : Grafts} {s : Site} (clear : s.Clear g) :
    (s.top.graft g).at? s.path = some (s.grafted g) := by
  obtain ⟨e, above⟩ := s
  induction above generalizing e with
  | nil => rfl
  | cons f fs ih =>
    obtain ⟨outer, ungrafted⟩ := clear.up (.up e f fs) (Site.Within.up_ne e f fs)
    have child := Expr.child_mapChildren
      (fun i c => c.graft (g.at (path ⟨f.fill e, fs⟩ ++ [i]))) (f.fill e) f.slot
    rw [← grafted_of_none ungrafted, Frame.child_fill, Option.map_some, ← path_cons] at child
    rw [path_cons, Expr.at?_append, top_cons, ih (f.fill e) outer, Option.bind_some, Expr.at?,
      child]
    rfl

namespace Detector
variable {d : Detector} {t t' : Tree} {n : DottedName} {m inner : Match} {o : Site} {i : Nat}

/-- In a tree with the outermost matches replaced every operand of theirs stands in a helper call. -/
theorem exists_operand (member : m ∈ Tree.outermost (d.scan t))
    (same : t'.root.unspanned = (t.root.graft (d.fixGrafts n t)).unspanned)
    (operand : [m.left, m.right][i]? = some o) :
    ∃ o' : Site, o'.top = t'.root ∧ o'.path = m.span.path ++ m.operandPath n i ∧
      o'.node.unspanned = o.node.unspanned ∧ o'.InCall := by
  have top := (in_of_mem_scan (outermost_spec.mp member).1).span
  have placed := (clear_span (n := n) member).at?
  rw [top, Site.grafted_of_some (fixGrafts_span member)] at placed
  have called : (t.root.graft (d.fixGrafts n t)).at? (m.span.path ++ m.callPath) =
      some (n.call [m.left.node, m.right.node]) := by
    rw [Expr.at?_append, placed]
    exact m.at?_callPath n
  have called' := Expr.at?_unspanned (m.span.path ++ m.callPath) t'.root
  rw [same, Expr.at?_unspanned, called] at called'
  obtain ⟨c, atPath, respanned⟩ := Option.map_eq_some_iff.mp called'.symm
  obtain ⟨k, topK, pathK, rfl⟩ := Expr.exists_site atPath
  have isCall : k.node.isCall = true := by
    rw [← Expr.isCall_unspanned, respanned, Expr.isCall_unspanned]
    exact n.isCall_call _
  have child := congrArg (fun e => e.children[n.slot i]?) respanned
  simp only [Expr.children_unspanned, List.getElem?_map, n.child_call] at child
  have argument : [m.left.node, m.right.node][i]? = some o.node := by
    have := congrArg (Option.map Site.node) operand
    rwa [← List.getElem?_map] at this
  rw [argument] at child
  obtain ⟨x, found, alike⟩ := Option.map_eq_some_iff.mp child
  obtain ⟨f, filled, slot⟩ := Expr.exists_frame found
  refine ⟨k.down f x, (Site.top_down filled).trans topK, ?_, alike, k, ?_, isCall⟩
  · rw [Site.path_down, pathK, slot, Match.operandPath, List.append_assoc]
  · exact Site.enclosing_child filled (Expr.isParen_of_isCall isCall)

/-- A match in an operand of an outermost match is found again. -/
theorem again_of_operand (standard : d.compare = nullComparison) (given : d.resolve.Given)
    (member : m ∈ Tree.outermost (d.scan t)) (listed : inner ∈ d.scan t)
    (same : t'.root.unspanned = (t.root.graft (d.fixGrafts n t)).unspanned)
    (operand : [m.left, m.right][i]? = some o) (inside : inner.span.Within o) :
    ∃ again ∈ d.scan t', m.FoundAgain n inner again := by
  obtain ⟨k, called, speaks⟩ := analyze_of_mem_scan (outermost_spec.mp member).1
  have inCall := (analyze_operandsOf standard (isCall_of_mem_calls called) speaks).inCall operand
  obtain ⟨call, calls, found⟩ := analyze_of_mem_scan listed
  -- the match that the call has in the operand alone
  obtain ⟨r, topR, rfl, alone⟩ :=
    analyze_operand standard inCall ((analyze_place found).2.trans inside)
  have isCall : (r.under o.above).node.isCall = true := isCall_of_mem_calls calls
  rw [Site.node_under] at isCall
  rw [found] at alone
  obtain ⟨relative, foundR, rfl⟩ := Option.map_eq_some_iff.mp alone.symm
  -- the same operand in the helper call
  obtain ⟨o', topO', pathO', alike, inCall'⟩ := exists_operand (n := n) member same operand
  obtain ⟨r', topR', respanned⟩ := Site.exists_respanned (s := r) (e := o'.node) (topR ▸ alike.symm)
  obtain ⟨relative', foundR', matches'⟩ := analyze_respanned standard given isCall respanned foundR
  obtain ⟨span, left, right, negated, form⟩ := Match.mk.inj matches'
  refine ⟨relative'.under o'.above, mem_scan_under standard topO' inCall' topR' foundR', ?_,
    congrArg Site.node span, congrArg Site.node left, congrArg Site.node right, negated, form⟩
  refine ⟨i, o, relative.span.path, operand, Site.path_under o relative.span, ?_⟩
  rw [← pathO', ← Site.path_unspanned relative.span, ← span, Site.path_unspanned]
  exact Site.path_under o' relative'.span

/-- A match inside another one lies in one of its operands. -/
theorem exists_operand_above (standard : d.compare = nullComparison) (outer : m ∈ d.scan t)
    (listed : inner ∈ d.scan t) (above : m.span.isAbove inner.span = true) :
    ∃ (i : Nat) (o : Site), [m.left, m.right][i]? = some o ∧ inner.span.Within o := by
  rcases within_operand standard outer listed above with inLeft | inRight
  · exact ⟨0, m.left, rfl, inLeft⟩
  · exact ⟨1, m.right, rfl, inRight⟩

/-- Above a match that is not replaced there is one that is. -/
theorem exists_replaced (listed : inner ∈ d.scan t)
    (skipped : inner ∉ Tree.outermost (d.scan t)) :
    ∃ m ∈ Tree.outermost (d.scan t), m.span.isAbove inner.span = true := by
  obtain ⟨m, member, within⟩ := exists_outermost listed
  refine ⟨m, member, isAbove_iff.mpr ⟨within.2, fun same => skipped ?_⟩⟩
  rwa [← List.inj_on_of_nodup_map (d.scan_distinct t) (outermost_spec.mp member).1 listed same]

end Detector

/-! ## Their texts -/

theorem Match.infix_replacement (t : Tree) (helper : String) {m : Match} {o : Site} {i : Nat}
    (operand : [m.left, m.right][i]? = some o) :
    (t.textOf o.node).toList <:+: (t.replacement helper m).toList := by
  have call : (t.textOf o.node).toList <:+: (helper ++ "(" ++ t.textOf m.left.node ++ ", " ++
      t.textOf m.right.node ++ ")").toList := by
    match i with
    | 0 =>
      cases operand
      exact ⟨(helper ++ "(").toList, (", " ++ t.textOf m.right.node ++ ")").toList, by simp⟩
    | 1 =>
      cases operand
      exact ⟨(helper ++ "(" ++ t.textOf m.left.node ++ ", ").toList, ")".toList, by simp⟩
  unfold Tree.replacement
  cases m.negated with
  | true =>
    rw [if_pos rfl, String.toList_append]
    exact call.trans (List.suffix_append _ _).isInfix
  | false =>
    rw [if_neg Bool.false_ne_true]
    exact call

/-- A classifier that reads names off declarations or conventions is one of those at hand. -/
theorem Classifier.given {c : Classifier} (given : ∀ resolve, c ≠ .custom resolve) :
    c.resolve.Given := by
  cases c with
  | scope names => exact .scope names
  | convention rules => exact .convention rules
  | custom resolve => exact (given resolve rfl).elim

namespace Guard
variable {g : Guard} {live : Inspection} {text : String} {n : DottedName} {t : Tree}

/-- No match is lost that a fix does not replace. When the place of one match lies below that of
another one it lies in an operand of it, whatever the forms of the two. So the text of a match that
is not replaced stands in the fixed text, and the match is found again there: in the operand of the
helper call for a match above it, with the same form, the same negation and the same operands. -/
theorem fix_keeps_nested {applies : Bool} (given : ∀ resolve, g.classifier ≠ .custom resolve)
    (read : Tree.read text = .ok t) (gate : g.applicable live = .ok applies)
    (named : helper live = .ok n.text) (valid : n.Valid) :
    ∃ found fixed t' found', g.scan live t = .ok found ∧ g.fix live text = .ok fixed ∧
      Tree.read fixed = .ok t' ∧ g.scan live t' = .ok found' ∧
      (∀ outer ∈ found, ∀ inner ∈ found, outer.span.isAbove inner.span = true →
        outer.left.isAtOrAbove inner.span = true ∨ outer.right.isAtOrAbove inner.span = true) ∧
      ∀ inner ∈ found, inner ∉ Tree.outermost found →
        (t.textOf inner.span.node).toList <:+: fixed.toList ∧
        ∃ outer ∈ Tree.outermost found, outer.span.isAbove inner.span = true ∧
          ∃ again ∈ found', outer.FoundAgain n inner again := by
  obtain ⟨found, scanned⟩ := exists_scan (t := t) gate
  obtain ⟨fixed, t', fixes, again, grafted⟩ := read_fixed read scanned named valid
  obtain ⟨found', rescanned⟩ := exists_scan (t := t') gate
  refine ⟨found, fixed, t', found', scanned, fixes, again, rescanned, ?_⟩
  obtain ⟨inside, distinct⟩ := scan_spec scanned
  obtain ⟨applies₁, asked₁, ⟨-, rfl⟩ | ⟨method, isMethod, rfl⟩⟩ := scan_iff.mp scanned
  · exact ⟨nofun, nofun⟩
  obtain ⟨applies₂, asked₂, ⟨none, -⟩ | ⟨method', isMethod', rfl⟩⟩ := scan_iff.mp rescanned
  · cases none.symm.trans isMethod
  cases asked₁.symm.trans asked₂
  cases isMethod.symm.trans isMethod'
  constructor
  · intro outer member inner listed above
    rcases Detector.within_operand rfl member listed above with inLeft | inRight
    · exact .inl (Site.isAtOrAbove_iff.mpr inLeft.2)
    · exact .inr (Site.isAtOrAbove_iff.mpr inRight.2)
  · intro inner listed skipped
    obtain ⟨outer, member, above⟩ := Detector.exists_replaced listed skipped
    have outerListed := (outermost_spec.mp member).1
    obtain ⟨i, o, operand, within⟩ :=
      Detector.exists_operand_above rfl outerListed listed above
    refine ⟨?_, outer, member, above, ?_⟩
    · have fixedText := fix_eq read scanned
      rw [fixes, if_neg (by simp [List.ne_nil_of_mem listed]), named] at fixedText
      rw [Except.ok.inj fixedText]
      have top : o.top = t.root := within.1.symm.trans (inside inner listed).span
      exact ((infix_textOf read top within).trans (Match.infix_replacement t _ operand)).trans
        (infix_apply read (placed_of_in inside) distinct member _)
    · exact Detector.again_of_operand rfl (Classifier.given given) member listed grafted operand
        within

/-- In the argument of a call there is a guarded call with an identity comparison in front of it,
which is found again as a whole in the second argument of the helper call. -/
theorem fix_keeps_nested_widened :
    let g : Guard := ⟨.scope ⟨["a", "b", "c"], [], []⟩, false, some "equals", .level⟩
    ∃ t fixed t' found', Tree.read "a.equals(b == c || b != null && b.equals(c))" = .ok t ∧
      g.fix {} "a.equals(b == c || b != null && b.equals(c))" = .ok fixed ∧
      Tree.read fixed = .ok t' ∧ g.scan {} t' = .ok found' ∧
      "b == c || b != null && b.equals(c)".toList <:+: fixed.toList ∧
      ∃ again ∈ found', again.span.path = [2] ∧ again.form = .binary ∧ again.negated = false := by
  intro g
  let t : Tree := ⟨.invoke (.name "a" (some ⟨0, 1⟩)) "equals" [.binary .or
    (.binary .eq (.name "b" (some ⟨9, 10⟩)) (.name "c" (some ⟨14, 15⟩)) (some ⟨9, 15⟩))
    (.binary .and
      (.binary .ne (.name "b" (some ⟨19, 20⟩)) (.literal .null "null" (some ⟨24, 28⟩))
        (some ⟨19, 28⟩))
      (.invoke (.name "b" (some ⟨32, 33⟩)) "equals" [.name "c" (some ⟨41, 42⟩)] (some ⟨32, 43⟩))
      (some ⟨19, 43⟩)) (some ⟨9, 43⟩)] (some ⟨0, 44⟩),
    some "a.equals(b == c || b != null && b.equals(c))"⟩
  have read : Tree.read "a.equals(b == c || b != null && b.equals(c))" = .ok t := rfl
  have given : ∀ resolve, g.classifier ≠ .custom resolve := nofun
  have gate : g.applicable {} = .ok true := rfl
  obtain ⟨outer, inner, found, highest, places, shown, form⟩ : ∃ outer inner,
      (g.detector "equals" true).scan t = [outer, inner] ∧
      Tree.outermost [outer, inner] = [outer] ∧
      (outer.span.path = [] ∧ outer.left.path = [0] ∧ outer.right.path = [1] ∧
        inner.span.path = [1]) ∧
      t.textOf inner.span.node = "b == c || b != null && b.equals(c)" ∧
      outer.negated = false ∧ inner.form = .binary ∧ inner.negated = false :=
    ⟨_, _, rfl, rfl, ⟨rfl, rfl, rfl, rfl⟩, rfl, rfl, rfl, rfl⟩
  obtain ⟨all, fixed, t', found', scanned, fixes, again, rescanned, -, kept⟩ :=
    fix_keeps_nested given read gate helper_standard standardName_valid
  obtain rfl : all = [outer, inner] :=
    Except.ok.inj (scanned.symm.trans (congrArg Except.ok found))
  obtain ⟨root, left, right, nested⟩ := places
  obtain ⟨affirmed, isBinary, innerAffirmed⟩ := form
  have skipped : inner ∉ Tree.outermost [outer, inner] := by
    rw [highest, List.mem_singleton]
    rintro rfl
    rw [root] at nested
    cases nested
  obtain ⟨part, m, replaced, -, other, listed, same⟩ := kept inner (by simp) skipped
  rw [highest, List.mem_singleton] at replaced
  subst replaced
  rw [shown] at part
  refine ⟨t, fixed, t', found', read, fixes, again, rescanned, part, other, listed, ?_,
    same.form.trans isBinary, same.negated.trans innerAffirmed⟩
  obtain ⟨i, o, below, operand, path, path'⟩ := same.place
  rw [path', root, Match.operandPath, Match.callPath, affirmed]
  rw [nested] at path
  match i with
  | 0 =>
    cases operand
    rw [left] at path
    cases path
  | 1 =>
    cases operand
    rw [right] at path
    cases path
    rfl

end Guard

end NullSafeEq
