import NullSafeEq.Proofs.Idiom.CallSites
import NullSafeEq.Proofs.Idiom.Transfer
import NullSafeEq.Proofs.Tree.Erasure

/-!
# Parentheses do not matter

Every part of the idioms looks through parentheses, so it answers for the counterpart of a site with
the counterpart of what it answers for the site. From the parts this is carried over to the match of
a call, and from the calls to all matches of a tree.
-/
namespace NullSafeEq

variable {respan : Option Span → Option Span}

/-- Answers that depend neither on parentheses nor on how spans are changed. -/
def Resolver.Blind (resolve : Resolver) (respan : Option Span → Option Span) : Prop :=
  ∀ e, resolve (e.erased respan) = resolve e

/-- The resolvers at hand: a table of declared names, the naming conventions, and a table of last
names. -/
inductive Resolver.Given : Resolver → Prop
  | scope (s : Scope) : Given s.resolve
  | convention (c : Convention) : Given c.resolve
  | names (t : NameTable) : Given t.resolve

theorem Scope.blind (s : Scope) : Resolver.Blind s.resolve respan := by
  intro e
  induction e using Expr.induct_children with
  | step e ih =>
  cases e with
  | member q id sp =>
    have chain : (Expr.erased respan (.member q id sp)).dotted? = _ := Expr.dotted_erased _
    rw [Expr.erased] at chain ⊢
    rw [resolve, resolve, chain, Expr.bare_erased, ← Expr.erased_bare,
      Expr.isReference_erased q.isParen_bare, Expr.erased_bare, ih q List.mem_cons_self]
  | paren e sp =>
    rw [Expr.erased, resolve]
    exact ih e List.mem_cons_self
  | _ => rfl

theorem Convention.blind (c : Convention) : Resolver.Blind c.resolve respan := by
  intro e
  induction e using Expr.induct_children with
  | step e ih =>
  cases e with
  | member q id sp =>
    rw [Expr.erased, resolve, resolve, Expr.bare_erased, ← Expr.erased_bare,
      Expr.isReference_erased q.isParen_bare, Expr.erased_bare, ih q List.mem_cons_self,
      Expr.isSelf_erased]
  | paren e sp =>
    rw [Expr.erased, resolve]
    exact ih e List.mem_cons_self
  | _ => rfl

theorem NameTable.blind (t : NameTable) : Resolver.Blind t.resolve respan := by
  intro e
  induction e using Expr.induct_children with
  | step e ih =>
  cases e with
  | paren e sp =>
    rw [Expr.erased, resolve]
    exact ih e List.mem_cons_self
  | _ => rfl

theorem Resolver.Given.blind {resolve : Resolver} (given : resolve.Given) :
    resolve.Blind respan := by
  cases given with
  | scope s => exact s.blind
  | convention c => exact c.blind
  | names t => exact t.blind

theorem qualifiedName_erased {resolve : Resolver} (blind : resolve.Blind respan) (e : Expr) :
    qualifiedName? resolve (e.erased respan) = qualifiedName? resolve e := by
  induction e using Expr.induct_children with
  | step e ih =>
  cases e with
  | name id sp =>
    have := blind (.name id sp)
    rw [Expr.erased] at this ⊢
    rw [qualifiedName?, qualifiedName?, this]
  | member q id sp =>
    have := blind (.member q id sp)
    rw [Expr.erased] at this ⊢
    rw [qualifiedName?, qualifiedName?, this, ih q List.mem_cons_self]
  | paren e sp =>
    rw [Expr.erased, qualifiedName?]
    exact ih e List.mem_cons_self
  | _ => rfl

/-! ## The parts of the idioms -/

/-- The counterpart of a match. -/
def Match.erased (respan : Option Span → Option Span) (m : Match) : Match :=
  ⟨m.span.erased respan, m.left.erased respan, m.right.erased respan, m.negated, m.form⟩

namespace Site

/-- Going down to a child and into its parentheses. -/
theorem bare_down_erased {f : Frame} (solid : f.isParen = false) (s : Site) (c : Expr) :
    ((s.erased respan).down (f.erased respan) (c.erased respan)).bare =
      (s.down f c).bare.erased respan := by
  rw [← erased_down solid, bare_erased, erased_bare]

theorem receiver_erased {s : Site} (solid : s.node.isParen = false) :
    (s.erased respan).receiver? = s.receiver?.map (erased respan) := by
  obtain ⟨e, above⟩ := s
  cases e with
  | paren => cases solid
  | invoke q id args sp =>
    refine Eq.trans ?_ (congrArg some (erased_down (f := .receiverOf id args sp) rfl _ q).symm)
    simp [erased, receiver?, Expr.erased, Frame.erased]
  | _ => rfl

theorem soleArgument_erased {s : Site} (solid : s.node.isParen = false) :
    (s.erased respan).soleArgument? = s.soleArgument?.map (erased respan) := by
  obtain ⟨e, above⟩ := s
  cases e with
  | paren => cases solid
  | call id args sp =>
    match args with
    | [] | _ :: _ :: _ => rfl
    | [a] => exact congrArg some (erased_down (f := .argOfCall id [] [] sp) rfl _ a).symm
  | invoke q id args sp =>
    match args with
    | [] | _ :: _ :: _ => rfl
    | [a] => exact congrArg some (erased_down (f := .argOfInvoke q id [] [] sp) rfl _ a).symm
  | _ => rfl

end Site

theorem unwrapNegation_erased (s : Site) : unwrapNegation (s.erased respan) =
    ((unwrapNegation s).1.erased respan, (unwrapNegation s).2) := by
  have solid := s.isParen_bare
  unfold unwrapNegation
  rw [Site.bare_erased, ← Site.erased_bare]
  generalize s.bare = b at solid
  obtain ⟨e, above⟩ := b
  cases e with
  | paren => cases solid
  | prefixed op o sp =>
    cases op with
    | not => exact congrArg (·, false) (Site.bare_down_erased (f := .operandOf .not sp) rfl _ o)
    | negate | plus => rfl
  | _ => rfl

theorem nullComparison_of_binary {s : Site} {op : BinaryOp} {l r : Expr} {sp : Option Span}
    (node : s.bare.node = .binary op l r sp) (equal : Bool) : nullComparison s equal =
      if op = (if equal then .eq else .ne) then
        if r.bare.isNull then some (s.bare.down (.leftOf op r sp) l).bare
        else if l.bare.isNull then some (s.bare.down (.rightOf op l sp) r).bare
        else none
      else none := by
  unfold nullComparison
  simp only [node, Site.node_bare, Site.down]

theorem nullComparison_bare (s : Site) (equal : Bool) :
    nullComparison s.bare equal = nullComparison s equal := by
  unfold nullComparison
  rw [Site.bare_of_solid s.isParen_bare]

theorem nullComparison_erased (s : Site) (equal : Bool) :
    nullComparison (s.erased respan) equal = (nullComparison s equal).map (Site.erased respan) := by
  have solid := s.isParen_bare
  rw [← Site.erased_bare, ← nullComparison_bare s]
  generalize s.bare = b at solid
  obtain ⟨e, above⟩ := b
  cases e with
  | paren => cases solid
  | binary op l r sp =>
    have isNull (e : Expr) : (e.erased respan).bare.isNull = e.bare.isNull := by
      rw [Expr.bare_erased, ← Expr.erased_bare, Expr.isNull_erased e.isParen_bare]
    let here : Site := ⟨.binary op l r sp, above⟩
    have left : ((here.erased respan).down (.leftOf op (r.erased respan) (respan sp))
        (l.erased respan)).bare = (here.down (.leftOf op r sp) l).bare.erased respan :=
      Site.bare_down_erased (f := .leftOf op r sp) rfl here l
    have right : ((here.erased respan).down (.rightOf op (l.erased respan) (respan sp))
        (r.erased respan)).bare = (here.down (.rightOf op l sp) r).bare.erased respan :=
      Site.bare_down_erased (f := .rightOf op l sp) rfl here r
    rw [nullComparison_of_binary rfl, Site.bare_erased, isNull, isNull, left, right]
    rw [nullComparison_of_binary rfl]
    simp only [apply_ite (Option.map (Site.erased respan)), Option.map_some, Option.map_none]
    rfl
  | _ => rfl

/-- Taking parentheses away is a change that the idioms follow. -/
theorem Site.followed_erased : Followed (erased respan) where
  bare s := by rw [bare_erased, erased_bare]
  unwrapNegation := unwrapNegation_erased
  nullComparison := nullComparison_erased
  isSelf s := by rw [node_erased, Expr.isSelf_erased]
  calledName s solid := by rw [node_erased, Expr.calledName_erased solid]
  receiver _ solid := receiver_erased solid
  soleArgument _ solid := soleArgument_erased solid

namespace Detector
variable {d : Detector}

section
variable (blind : d.resolve.Blind respan)
include blind

theorem nameOf_erased (s : Site) : d.nameOf (s.erased respan) = d.nameOf s :=
  qualifiedName_erased blind s.node

theorem comparesNames_erased (equal : Bool) (first second : String) (e : Expr) :
    d.comparesNames equal first second (e.erased respan) =
      d.comparesNames equal first second e := by
  have solid := e.isParen_bare
  unfold comparesNames
  rw [Expr.bare_erased, ← Expr.erased_bare]
  cases node : e.bare with
  | paren =>
    rw [node] at solid
    cases solid
  | binary op l r sp => simp only [Expr.erased, qualifiedName_erased blind]
  | _ => rfl

/-- The place of a guarded call takes in the same comparison. -/
theorem widen_erased (guard : Site) (equal : Bool) (first second : String) :
    d.widen (guard.erased respan) equal first second =
      (d.widen guard equal first second).erased respan := by
  have outer : guard.erased respan = guard.wrapped.erased respan := guard.erased_wrapped.symm
  have node : (guard.erased respan).node = guard.wrapped.node.erased respan := by
    rw [outer, Site.node_erased]
  unfold widen
  rw [Site.wrapped_erased]
  cases frames : guard.wrapped.above with
  | nil =>
    have above : (guard.erased respan).above = [] := by
      rw [outer, Site.erased, frames, List.filter_nil, List.map_nil]
    simp only [above, frames]
  | cons f fs =>
    have solid := Site.solid_above_wrapped frames
    have above : (guard.erased respan).above =
        f.erased respan :: (fs.filter fun f => !f.isParen).map (Frame.erased respan) := by
      rw [outer, Site.erased, frames, List.filter_cons_of_pos (by simp [solid]), List.map_cons]
    simp only [above, frames]
    cases f with
    | rightOf op left sp =>
      simp only [Frame.erased, node, comparesNames_erased blind, apply_ite (Site.erased respan)]
      rfl
    | _ => rfl

theorem placeOf_erased (guard : Site) (equal : Bool) (checked : String) (argument : Site) :
    d.placeOf (guard.erased respan) equal checked (argument.erased respan) =
      (d.placeOf guard equal checked argument).erased respan := by
  unfold placeOf
  rw [nameOf_erased blind]
  cases d.nameOf argument with
  | none => rfl
  | some name => exact widen_erased blind guard equal checked name

variable (standard : d.compare = nullComparison)
include standard

/-- A null check and a call make up a guarded call in the same way. -/
theorem guardedCall_erased (guard check callee : Site) (equal : Bool) :
    d.guardedCall? (guard.erased respan) (check.erased respan) (callee.erased respan) equal =
      (d.guardedCall? guard check callee equal).map (Match.erased respan) :=
  Site.followed_erased.guardedCall standard (nameOf_erased blind) (placeOf_erased blind guard)
    check callee equal

theorem binary_erased {s : Site} (solid : s.node.isParen = false) :
    d.binary? (s.erased respan) = (d.binary? s).map (Match.erased respan) := by
  obtain ⟨e, above⟩ := s
  cases e with
  | paren => cases solid
  | binary op l r sp =>
    let here : Site := ⟨.binary op l r sp, above⟩
    have check : (here.down (.leftOf op r sp) l).erased respan = (here.erased respan).down
        (.leftOf op (r.erased respan) (respan sp)) (l.erased respan) :=
      Site.erased_down (f := .leftOf op r sp) rfl here l
    have right : ((here.erased respan).down (.rightOf op (l.erased respan) (respan sp))
        (r.erased respan)).bare = (here.down (.rightOf op l sp) r).bare.erased respan :=
      Site.bare_down_erased (f := .rightOf op l sp) rfl here r
    have found := guardedCall_erased blind standard here (here.down (.leftOf op r sp) l)
    rw [check] at found
    cases op with
    | and => exact (congrArg (d.guardedCall? _ _ · true) right).trans (found _ true)
    | or =>
      have noParen := (here.down (.rightOf .or l sp) r).isParen_bare
      unfold binary?
      simp only [here, Site.node_erased, Expr.erased] at right found ⊢
      rw [right]
      generalize Site.bare _ = b at noParen
      obtain ⟨e, frames⟩ := b
      cases e with
      | paren => cases noParen
      | prefixed prefixOp o notSpan =>
        cases prefixOp with
        | not =>
          let negation : Site := ⟨.prefixed .not o notSpan, frames⟩
          have callee : ((negation.erased respan).down (.operandOf .not (respan notSpan))
              (o.erased respan)).bare =
                (negation.down (.operandOf .not notSpan) o).bare.erased respan :=
            Site.bare_down_erased (f := .operandOf .not notSpan) rfl negation o
          exact (congrArg (d.guardedCall? _ _ · false) callee).trans (found _ false)
        | negate | plus => rfl
      | _ => rfl
    | _ => rfl
  | _ => rfl

theorem conditional_erased {s : Site} (solid : s.node.isParen = false) :
    d.conditional? (s.erased respan) = (d.conditional? s).map (Match.erased respan) := by
  obtain ⟨e, above⟩ := s
  cases e with
  | paren => cases solid
  | conditional t y n sp =>
    let here : Site := ⟨.conditional t y n sp, above⟩
    let here' := here.erased respan
    have test : here'.down (.testOf (y.erased respan) (n.erased respan) (respan sp))
        (t.erased respan) = (here.down (.testOf y n sp) t).erased respan :=
      (Site.erased_down (f := .testOf y n sp) rfl here t).symm
    have yes : (here'.down (.yesOf (t.erased respan) (n.erased respan) (respan sp))
        (y.erased respan)).bare = (here.down (.yesOf t n sp) y).bare.erased respan :=
      Site.bare_down_erased (f := .yesOf t n sp) rfl here y
    have no : (here'.down (.noOf (t.erased respan) (y.erased respan) (respan sp))
        (n.erased respan)).bare = (here.down (.noOf t y sp) n).bare.erased respan :=
      Site.bare_down_erased (f := .noOf t y sp) rfl here n
    exact Site.followed_erased.conditional (s := here) standard (nameOf_erased blind) rfl rfl test
      yes no
  | _ => rfl

end

theorem direct_erased {call : Site} (solid : call.node.isParen = false) :
    d.direct? (call.erased respan) = (d.direct? call).map (Match.erased respan) :=
  Site.followed_erased.direct (Site.receiver_erased solid) (Site.soleArgument_erased solid)

theorem isGuardShape_erased {e : Expr} (solid : e.isParen = false) :
    isGuardShape (e.erased respan) = isGuardShape e := by
  cases e with
  | paren => cases solid
  | binary op l r sp =>
    cases op with
    | or =>
      have negation : (r.bare.erased respan).isNot = r.bare.isNot :=
        Expr.isNot_erased r.isParen_bare
      rwa [Expr.erased_bare, ← Expr.bare_erased] at negation
    | _ => rfl
  | _ => rfl

section
variable (blind : d.resolve.Blind respan) (standard : d.compare = nullComparison)
include blind standard

theorem inContext_erased {call context : Site} (solid : call.node.isParen = false)
    (solid' : context.node.isParen = false) :
    d.inContext? (call.erased respan) (context.erased respan) =
      (d.inContext? call context).map (Match.erased respan) := by
  have binary := binary_erased blind standard solid'
  have conditional := conditional_erased blind standard solid'
  have direct : d.direct? (call.erased respan) = _ := direct_erased solid
  have shape : isGuardShape (context.node.erased respan) = _ := isGuardShape_erased solid'
  unfold inContext?
  cases node : context.node with
  | paren =>
    rw [node] at solid'
    cases solid'
  | binary op l r sp =>
    rw [node] at shape
    simp only [Site.node_erased, node, Expr.erased, binary, direct] at shape ⊢
    rw [shape]
    cases d.binary? context with
    | some found => rfl
    | none => simp only [apply_ite (Option.map (Match.erased respan)), Option.map_none]
  | conditional t y n sp =>
    simp only [Site.node_erased, node, Expr.erased, conditional, direct]
    cases d.conditional? context <;> rfl
  | _ => simp only [Site.node_erased, node, Expr.erased, direct]

/-- The match of a counterpart is the counterpart of the match. -/
theorem analyze_erased {call : Site} (solid : call.node.isParen = false) :
    d.analyze? (call.erased respan) = (d.analyze? call).map (Match.erased respan) := by
  have skips (e : Expr) (solid : e.isParen = false) :
      (e.erased respan).isTransparent = e.isTransparent := by
    rw [Expr.isTransparent, Expr.isTransparent, solid, Expr.isParen_erased,
      Expr.isPrefixed_erased solid]
  have around : (call.erased respan).enclosing? Expr.isTransparent =
      (call.enclosing? Expr.isTransparent).map (Site.erased respan) :=
    Site.enclosing_erased (fun _ _ => rfl) skips call
  have onSelf := Site.followed_erased.onSelf (@Site.receiver_erased respan _ solid)
  rw [analyze_eq_elim, analyze_eq_elim, onSelf, Site.node_erased, Expr.calledName_erased solid,
    around]
  split
  · rfl
  · split
    · rfl
    · cases near : call.enclosing? Expr.isTransparent with
      | none => exact direct_erased solid
      | some context =>
        have stays : Expr.isTransparent context.node = false := by
          simpa using List.find?_some near
        exact inContext_erased blind standard solid (Expr.isParen_of_isTransparent stays)

end

/-- The calls of a tree without its parentheses are the counterparts of its calls. -/
theorem calls_erased (t : Tree) (source : Option String) :
    Tree.calls ⟨t.root.erased respan, source⟩ = t.calls.map (Site.erased respan) := by
  have called (s : Site) : ((s.erased respan).node.isCall && !s.node.isParen) = s.node.isCall := by
    cases paren : s.node.isParen with
    | true =>
      rw [Bool.not_true, Bool.and_false]
      cases node : s.node with
      | paren => rfl
      | _ =>
        rw [node] at paren
        cases paren
    | false => rw [Site.node_erased, Expr.isCall_erased paren, Bool.not_false, Bool.and_true]
  rw [Tree.calls, Tree.sites, Expr.sites_erased, List.filter_map, List.filter_filter]
  exact congrArg _ (List.filter_congr fun s _ => called s)

/-- The place and the operands of a match are no parentheses. -/
theorem solid_of_analyze (standard : d.compare = nullComparison) {call : Site} {m : Match}
    (isCall : call.node.isCall = true) (h : d.analyze? call = some m) :
    m.span.node.isParen = false ∧ m.left.node.isParen = false ∧ m.right.node.isParen = false := by
  obtain ⟨q, id, a, sp, node, left, right⟩ := analyze_operandsOf standard isCall h
  refine ⟨?_, left ▸ Site.isParen_bare _, right ▸ Site.isParen_bare _⟩
  exact Expr.isParen_of_isPlace (analyze_place h).1

/-- The matches of a tree without its parentheses are the counterparts of its matches. -/
theorem scan_counterpart (standard : d.compare = nullComparison) (given : d.resolve.Given)
    (respan : Option Span → Option Span) (t : Tree) (source : Option String) :
    d.scan ⟨t.root.erased respan, source⟩ = (d.scan t).map (Match.erased respan) := by
  rw [scan_eq_filterMap standard, scan_eq_filterMap standard, calls_erased, List.filterMap_map,
    List.map_filterMap]
  refine List.filterMap_congr fun call member => analyze_erased given.blind standard ?_
  exact Expr.isParen_of_isCall (isCall_of_mem_calls member)

/-- Parentheses do not matter for what is found. The sites of a tree other than its parentheses have
one counterpart each in the tree without them, the matches of this tree are the counterparts of the
matches in their order, and trees that differ in parentheses and spans only have matches with the
same counterparts. -/
theorem scan_erased (standard : d.compare = nullComparison) (given : d.resolve.Given) (t : Tree) :
    (∀ (respan : Option Span → Option Span) (source : Option String),
      let without : Tree := ⟨t.root.erased respan, source⟩
      without.sites = (t.sites.filter fun s => !s.node.isParen).map (Site.erased respan) ∧
      (∀ s ∈ t.sites, ∀ s' ∈ t.sites, s.node.isParen = false → s'.node.isParen = false →
        s.erased respan = s'.erased respan → s = s') ∧
      (∀ m ∈ d.scan t, m.span.node.isParen = false ∧ m.left.node.isParen = false ∧
        m.right.node.isParen = false) ∧
      d.scan without = (d.scan t).map (Match.erased respan)) ∧
    ∀ t' : Tree, t'.root.erased (fun _ => none) = t.root.erased (fun _ => none) →
      (d.scan t').map (Match.erased fun _ => none) =
        (d.scan t).map (Match.erased fun _ => none) := by
  refine ⟨fun respan source => ⟨t.root.sites_erased, ?_, ?_, ?_⟩, ?_⟩
  · intro s member s' member' solid solid' same
    have top := (Expr.mem_sites_iff.mp member).trans (Expr.mem_sites_iff.mp member').symm
    exact Site.erased_inj top solid solid' same
  · intro m member
    rw [scan_eq_filterMap standard] at member
    obtain ⟨call, called, found⟩ := List.mem_filterMap.mp member
    exact solid_of_analyze standard (isCall_of_mem_calls called) found
  · exact scan_counterpart standard given respan t source
  · intro t' same
    rw [← scan_counterpart standard given _ t none, ← scan_counterpart standard given _ t' none,
      same]

/-- A guarded call written with and without parentheses. -/
theorem scan_erased_guarded :
    let d : Detector := ⟨NameTable.resolve ⟨[], .value⟩, true, "equals", nullComparison, true⟩
    ∃ t t' m m', Tree.read "(a) != (null) && (((a)).equals((b)))" = .ok t ∧
      Tree.read "a != null && a.equals(b)" = .ok t' ∧ d.scan t = [m] ∧ d.scan t' = [m'] ∧
      m.erased (fun _ => none) = m'.erased (fun _ => none) ∧ m.form = .binary := by
  intro d
  let t' : Tree := ⟨.binary .and
    (.binary .ne (.name "a" (some ⟨0, 1⟩)) (.literal .null "null" (some ⟨5, 9⟩)) (some ⟨0, 9⟩))
    (.invoke (.name "a" (some ⟨13, 14⟩)) "equals" [.name "b" (some ⟨22, 23⟩)] (some ⟨13, 24⟩))
    (some ⟨0, 24⟩), some "a != null && a.equals(b)"⟩
  have read' : Tree.read "a != null && a.equals(b)" = .ok t' := rfl
  obtain ⟨t, read, same⟩ : ∃ t, Tree.read "(a) != (null) && (((a)).equals((b)))" = .ok t ∧
      t.root.erased (fun _ => none) = t'.root.erased (fun _ => none) := ⟨_, rfl, rfl⟩
  obtain ⟨call, m', calls, matched, form⟩ : ∃ call m', t'.calls = [call] ∧
      d.analyze? call = some m' ∧ m'.form = .binary := ⟨_, _, rfl, rfl, rfl⟩
  have found : d.scan t' = [m'] := by
    rw [scan_eq_filterMap rfl, calls]
    simp [matched]
  have alike := (scan_erased (d := d) rfl (.names _) t').2 t same
  rw [found, List.map_singleton, List.map_eq_singleton_iff] at alike
  obtain ⟨m, found', counterparts⟩ := alike
  refine ⟨t, t', m, m', read, read', found', found, counterparts, ?_⟩
  exact (congrArg Match.form counterparts).trans form

end Detector

end NullSafeEq
