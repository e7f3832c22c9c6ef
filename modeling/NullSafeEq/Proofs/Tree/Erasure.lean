import NullSafeEq.Proofs.Tree.Walk

/-!
# Expressions without parentheses

Erasing the parentheses of an expression keeps its other nodes and their order, so each of them has
one counterpart. The spans are changed on the way as one likes: kept, to compare an expression with
what is left of it, or dropped, to compare two expressions that were read from different texts.
-/
namespace NullSafeEq

variable {respan : Option Span → Option Span}

namespace Expr

mutual

/-- The expression without its parentheses, with its spans changed. -/
def erased (respan : Option Span → Option Span) : Expr → Expr
  | literal kind text sp => literal kind text (respan sp)
  | name id sp => name id (respan sp)
  | member q id sp => member (q.erased respan) id (respan sp)
  | self word outer sp => self word outer (respan sp)
  | call id args sp => call id (erasedAll respan args) (respan sp)
  | invoke q id args sp => invoke (q.erased respan) id (erasedAll respan args) (respan sp)
  | binary op l r sp => binary op (l.erased respan) (r.erased respan) (respan sp)
  | prefixed op e sp => prefixed op (e.erased respan) (respan sp)
  | conditional t y n sp =>
    conditional (t.erased respan) (y.erased respan) (n.erased respan) (respan sp)
  | paren e _ => e.erased respan
  | cast type e sp => cast type (e.erased respan) (respan sp)
  | index a i sp => index (a.erased respan) (i.erased respan) (respan sp)
  | create type args sp => create type (erasedAll respan args) (respan sp)

/-- Several expressions without their parentheses. -/
def erasedAll (respan : Option Span → Option Span) : List Expr → List Expr
  | [] => []
  | e :: es => e.erased respan :: erasedAll respan es

end

@[simp] theorem erasedAll_eq (es : List Expr) : erasedAll respan es = es.map (erased respan) := by
  induction es with
  | nil => rfl
  | cons e es ih => rw [erasedAll, ih, List.map_cons]

@[simp] theorem isParen_erased (e : Expr) : (e.erased respan).isParen = false := by
  induction e using induct_children with
  | step e ih =>
  cases e with
  | paren e sp => exact ih e List.mem_cons_self
  | _ => rfl

@[simp] theorem bare_erased (e : Expr) : (e.erased respan).bare = e.erased respan :=
  bare_of_solid e.isParen_erased

/-- Parentheses around an expression are erased with the others. -/
@[simp] theorem erased_bare (e : Expr) : e.bare.erased respan = e.erased respan := by
  fun_induction bare e with
  | case1 e sp ih => exact ih
  | case2 => rfl

theorem isNull_erased {e : Expr} (solid : e.isParen = false) :
    (e.erased respan).isNull = e.isNull := by
  cases e with
  | paren => cases solid
  | literal kind => cases kind <;> rfl
  | _ => rfl

theorem isNot_erased {e : Expr} (solid : e.isParen = false) :
    (e.erased respan).isNot = e.isNot := by
  cases e with
  | paren => cases solid
  | prefixed op => cases op <;> rfl
  | _ => rfl

theorem isReference_erased {e : Expr} (solid : e.isParen = false) :
    (e.erased respan).isReference = e.isReference := by
  cases e with
  | paren => cases solid
  | _ => rfl

theorem isCall_erased {e : Expr} (solid : e.isParen = false) :
    (e.erased respan).isCall = e.isCall := by
  cases e with
  | paren => cases solid
  | _ => rfl

theorem calledName_erased {e : Expr} (solid : e.isParen = false) :
    (e.erased respan).calledName? = e.calledName? := by
  cases e with
  | paren => cases solid
  | _ => rfl

theorem isPrefixed_erased {e : Expr} (solid : e.isParen = false) :
    (e.erased respan).isPrefixed = e.isPrefixed := by
  cases e with
  | paren => cases solid
  | _ => rfl

@[simp] theorem isSelf_erased (e : Expr) : (e.erased respan).isSelf = e.isSelf := by
  rw [isSelf, isSelf, bare_erased, ← erased_bare]
  have solid := e.isParen_bare
  cases same : e.bare with
  | paren =>
    rw [same] at solid
    cases solid
  | _ => rfl

@[simp] theorem dotted_erased (e : Expr) : (e.erased respan).dotted? = e.dotted? := by
  induction e using induct_children with
  | step e ih =>
  cases e with
  | member q id => rw [erased, dotted?, dotted?, ih q List.mem_cons_self]
  | paren e => exact ih e List.mem_cons_self
  | _ => rfl

end Expr

namespace Frame

def isParen : Frame → Bool
  | bodyOfParen _ => true
  | _ => false

/-- The frame with the parentheses of the siblings erased. -/
def erased (respan : Option Span → Option Span) : Frame → Frame
  | memberOf id sp => memberOf id (respan sp)
  | receiverOf id args sp => receiverOf id (args.map (Expr.erased respan)) (respan sp)
  | argOfCall id before after sp =>
    argOfCall id (before.map (Expr.erased respan)) (after.map (Expr.erased respan)) (respan sp)
  | argOfInvoke q id before after sp =>
    argOfInvoke (q.erased respan) id (before.map (Expr.erased respan))
      (after.map (Expr.erased respan)) (respan sp)
  | leftOf op r sp => leftOf op (r.erased respan) (respan sp)
  | rightOf op l sp => rightOf op (l.erased respan) (respan sp)
  | operandOf op sp => operandOf op (respan sp)
  | testOf y n sp => testOf (y.erased respan) (n.erased respan) (respan sp)
  | yesOf t n sp => yesOf (t.erased respan) (n.erased respan) (respan sp)
  | noOf t y sp => noOf (t.erased respan) (y.erased respan) (respan sp)
  | bodyOfParen sp => bodyOfParen (respan sp)
  | bodyOfCast type sp => bodyOfCast type (respan sp)
  | arrayOf i sp => arrayOf (i.erased respan) (respan sp)
  | positionOf a sp => positionOf (a.erased respan) (respan sp)
  | argOfCreate type before after sp =>
    argOfCreate type (before.map (Expr.erased respan)) (after.map (Expr.erased respan)) (respan sp)

theorem isParen_erased (f : Frame) : (f.erased respan).isParen = f.isParen := by
  cases f <;> rfl

theorem isParen_fill (f : Frame) (c : Expr) : (f.fill c).isParen = f.isParen := by
  cases f <;> rfl

theorem erased_fill {f : Frame} (solid : f.isParen = false) (c : Expr) :
    (f.fill c).erased respan = (f.erased respan).fill (c.erased respan) := by
  cases f with
  | bodyOfParen => cases solid
  | _ => simp [fill, erased, Expr.erased]

theorem erased_fill_paren {f : Frame} (paren : f.isParen = true) (c : Expr) :
    (f.fill c).erased respan = c.erased respan := by
  cases f with
  | bodyOfParen => rfl
  | _ => cases paren

end Frame

/-! ## Counterparts of sites -/

/-- The counterpart of a site: the frames of parentheses around it are gone. -/
def Site.erased (respan : Option Span → Option Span) (s : Site) : Site :=
  ⟨s.node.erased respan, (s.above.filter fun f => !f.isParen).map (Frame.erased respan)⟩

namespace Site

@[simp] theorem node_erased (s : Site) : (s.erased respan).node = s.node.erased respan := rfl

theorem erased_cons_paren {f : Frame} (paren : f.isParen = true) (c : Expr) (fs : List Frame) :
    erased respan ⟨c, f :: fs⟩ = erased respan ⟨f.fill c, fs⟩ := by
  rw [erased, erased, List.filter_cons_of_neg (by simp [paren]), f.erased_fill_paren paren]

theorem erased_cons {f : Frame} (solid : f.isParen = false) (c : Expr) (fs : List Frame) :
    erased respan ⟨c, f :: fs⟩ =
      ⟨c.erased respan, f.erased respan :: (erased respan ⟨f.fill c, fs⟩).above⟩ := by
  rw [erased, List.filter_cons_of_pos (by simp [solid]), List.map_cons, erased]

theorem erased_down {f : Frame} (solid : f.isParen = false) (s : Site) (c : Expr) :
    (s.down f c).erased respan = (s.erased respan).down (f.erased respan) (c.erased respan) :=
  erased_cons solid c s.above

@[simp] theorem erased_bare (s : Site) : s.bare.erased respan = s.erased respan := by
  have below (above : List Frame) (e : Expr) :
      (bareBelow above e).erased respan = erased respan ⟨e, above⟩ := by
    fun_induction bareBelow above e with
    | case1 above e sp ih => exact ih.trans (erased_cons_paren (f := .bodyOfParen sp) rfl e above)
    | case2 => rfl
  exact below s.above s.node

@[simp] theorem erased_wrapped (s : Site) : s.wrapped.erased respan = s.erased respan := by
  have below (e : Expr) (above : List Frame) :
      (wrapBelow e above).erased respan = erased respan ⟨e, above⟩ := by
    fun_induction wrapBelow e above with
    | case1 e sp above ih =>
      exact ih.trans (erased_cons_paren (f := .bodyOfParen sp) rfl e above).symm
    | case2 => rfl
  exact below s.node s.above

@[simp] theorem bare_erased (s : Site) : (s.erased respan).bare = s.erased respan :=
  bare_of_solid s.node.isParen_erased

theorem wrapped_of_solid {e : Expr} {f : Frame} (solid : f.isParen = false) (fs : List Frame) :
    wrapped ⟨e, f :: fs⟩ = ⟨e, f :: fs⟩ := by
  cases f with
  | bodyOfParen => cases solid
  | _ => rfl

@[simp] theorem wrapped_erased (s : Site) : (s.erased respan).wrapped = s.erased respan := by
  obtain ⟨e, above⟩ := s
  induction above generalizing e with
  | nil => rfl
  | cons f fs ih =>
    cases paren : f.isParen with
    | true => rw [erased_cons_paren paren, ih]
    | false =>
      rw [erased_cons paren, wrapped_of_solid]
      rw [Frame.isParen_erased, paren]

/-- Around the outermost parentheses there are no others. -/
theorem solid_above_wrapped {s : Site} {f : Frame} {fs : List Frame}
    (frames : s.wrapped.above = f :: fs) : f.isParen = false := by
  have below (e : Expr) (above : List Frame) (frames : (wrapBelow e above).above = f :: fs) :
      f.isParen = false := by
    fun_induction wrapBelow e above with
    | case1 e sp above ih => exact ih frames
    | case2 e above other =>
      cases f with
      | bodyOfParen sp => exact (other sp fs frames).elim
      | _ => rfl
  exact below s.node s.above frames

/-- The nearest construct around a counterpart, where parentheses do not count, is the counterpart
of the nearest construct. -/
theorem enclosing_erased {skip : Expr → Bool} (parens : ∀ e sp, skip (.paren e sp) = true)
    (same : ∀ e, e.isParen = false → skip (e.erased respan) = skip e) (s : Site) :
    (s.erased respan).enclosing? skip = (s.enclosing? skip).map (erased respan) := by
  obtain ⟨e, above⟩ := s
  induction above generalizing e with
  | nil => rfl
  | cons f fs ih =>
    rw [enclosing_cons]
    cases paren : f.isParen with
    | true =>
      have skipped : skip (f.fill e) = true := by
        cases f with
        | bodyOfParen sp => exact parens e sp
        | _ => cases paren
      rw [erased_cons_paren paren, ih, if_pos skipped]
    | false =>
      rw [erased_cons paren, enclosing_cons, ← Frame.erased_fill paren,
        same _ ((f.isParen_fill e).trans paren), apply_ite (Option.map (erased respan))]
      exact if_congr Iff.rfl (ih (f.fill e)) rfl

end Site

namespace Expr

theorem argFrames_erased (frame frame' : List Expr → List Expr → Frame)
    (same : ∀ before after, (frame before after).erased respan =
      frame' (before.map (erased respan)) (after.map (erased respan))) (before es : List Expr) :
    argFrames frame' (before.map (erased respan)) (es.map (erased respan)) =
      (argFrames frame before es).map fun p => (p.1.erased respan, p.2.erased respan) := by
  induction es generalizing before with
  | nil => rfl
  | cons e es ih =>
    have rest := ih (before ++ [e])
    rw [List.map_append] at rest
    rw [argFrames, List.map_cons, argFrames, List.map_cons, same]
    exact congrArg _ rest

theorem openings_erased {e : Expr} (solid : e.isParen = false) : (e.erased respan).openings =
    e.openings.map fun p => (p.1.erased respan, p.2.erased respan) := by
  cases e with
  | paren => cases solid
  | call id args sp =>
    rw [erased, erasedAll_eq]
    exact argFrames_erased (fun b a => .argOfCall id b a sp) _ (fun _ _ => rfl) [] args
  | create type args sp =>
    rw [erased, erasedAll_eq]
    exact argFrames_erased (fun b a => .argOfCreate type b a sp) _ (fun _ _ => rfl) [] args
  | invoke q id args sp =>
    rw [erased, erasedAll_eq]
    exact congrArg _
      (argFrames_erased (fun b a => .argOfInvoke q id b a sp) _ (fun _ _ => rfl) [] args)
  | _ => rfl

/-- The sites of an expression without its parentheses are the counterparts of those sites that are
no parentheses. -/
theorem sitesBelow_erased (e : Expr) (above : List Frame) :
    (e.erased respan).sitesBelow (Site.erased respan ⟨e, above⟩).above =
      ((e.sitesBelow above).filter fun s => !s.node.isParen).map (Site.erased respan) := by
  induction e using induct_children generalizing above with
  | step e ih =>
  cases paren : e.isParen with
  | true =>
    cases e with
    | paren body sp =>
      rw [sitesBelow, List.filter_cons_of_neg (by simp [isParen]),
        ← ih body List.mem_cons_self (.bodyOfParen sp :: above),
        Site.erased_cons_paren (f := .bodyOfParen sp) rfl]
      rfl
    | _ => cases paren
  | false =>
    rw [sitesBelow_eq, sitesBelow_eq, List.filter_cons_of_pos (by simp [paren]), List.map_cons,
      List.filter_flatMap, List.map_flatMap, openings_erased paren, List.flatMap_map]
    refine congrArg _ (List.flatMap_congr fun p opening => ?_)
    have filled := fill_of_mem_openings opening
    have solid : p.1.isParen = false := by rw [← p.1.isParen_fill p.2, filled, paren]
    rw [← ih p.2 (mem_children_of_mem_openings opening) (p.1 :: above),
      Site.erased_cons solid, filled]

theorem sites_erased (e : Expr) : (e.erased respan).sites =
    (e.sites.filter fun s => !s.node.isParen).map (Site.erased respan) := sitesBelow_erased e []

end Expr

/-- Different sites have different counterparts. -/
theorem Site.erased_inj {s s' : Site} (top : s.top = s'.top) (solid : s.node.isParen = false)
    (solid' : s'.node.isParen = false) (same : s.erased respan = s'.erased respan) : s = s' := by
  have distinct := (s.top.erased respan).nodup_sites
  rw [Expr.sites_erased] at distinct
  have member {x : Site} (inside : x.top = s.top) (solid : x.node.isParen = false) :
      x ∈ s.top.sites.filter fun x => !x.node.isParen :=
    List.mem_filter.mpr ⟨Expr.mem_sites_iff.mpr inside, by simp [solid]⟩
  exact List.inj_on_of_nodup_map distinct (member rfl solid) (member top.symm solid') same

end NullSafeEq
