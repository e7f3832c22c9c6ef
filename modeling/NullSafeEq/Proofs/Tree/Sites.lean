import NullSafeEq.Proofs.Grammar.Production

/-!
# Sites of a tree

Putting a node back into the frames around it gives the whole expression. Every move from one site
to another keeps it, and the path of a site leads from the whole expression to its node.
-/
namespace NullSafeEq

/-- The subexpression at a path. -/
def Expr.at? : Path → Expr → Option Expr
  | [], e => some e
  | i :: path, e => e.children[i]?.bind (Expr.at? path)

theorem Expr.at?_append (p q : Path) (e : Expr) :
    e.at? (p ++ q) = (e.at? p).bind (Expr.at? q) := by
  induction p generalizing e with
  | nil => rfl
  | cons i p ih =>
    rw [List.cons_append, at?, at?, Option.bind_assoc]
    congr 1
    exact funext ih

theorem Expr.bare_of_solid {e : Expr} (solid : e.isParen = false) : e.bare = e := by
  cases e with
  | paren => cases solid
  | _ => rfl

theorem Expr.isParen_bare (e : Expr) : e.bare.isParen = false := by
  fun_induction bare e with
  | case1 e sp ih => exact ih
  | case2 e other =>
    cases e with
    | paren e sp => exact (other e sp rfl).elim
    | _ => rfl

theorem Expr.bare_bare (e : Expr) : e.bare.bare = e.bare := bare_of_solid e.isParen_bare

namespace Frame

/-- The siblings to the right of the child that was taken out. -/
def later : Frame → List Expr
  | memberOf .. | operandOf .. | rightOf .. | noOf .. | bodyOfParen .. | bodyOfCast ..
  | positionOf .. => []
  | receiverOf _ args _ => args
  | argOfCall _ _ after _ | argOfInvoke _ _ _ after _ | argOfCreate _ _ after _ => after
  | leftOf _ r _ => [r]
  | testOf y n _ => [y, n]
  | yesOf _ n _ => [n]
  | arrayOf i _ => [i]

theorem children_fill (e : Expr) (f : Frame) :
    (f.fill e).children = f.earlier ++ e :: f.later := by
  cases f <;> rfl

theorem child_fill (e : Expr) (f : Frame) : (f.fill e).children[f.slot]? = some e := by
  rw [children_fill, slot, List.getElem?_append_right (Nat.le_refl _), Nat.sub_self]
  rfl

end Frame

namespace Site

/-- The whole expression around a site. -/
def top (s : Site) : Expr := s.above.foldl (fun e f => f.fill e) s.node

theorem top_cons (e : Expr) (f : Frame) (fs : List Frame) :
    top ⟨e, f :: fs⟩ = top ⟨f.fill e, fs⟩ := rfl

theorem top_root (e : Expr) : (root e).top = e := rfl

theorem path_cons (e : Expr) (f : Frame) (fs : List Frame) :
    path ⟨e, f :: fs⟩ = path ⟨f.fill e, fs⟩ ++ [f.slot] := by
  simp [path]

/-- The path of a site leads to its node. -/
theorem at?_path (s : Site) : s.top.at? s.path = some s.node := by
  obtain ⟨e, above⟩ := s
  induction above generalizing e with
  | nil => rfl
  | cons f fs ih =>
    rw [top_cons, path_cons, Expr.at?_append, ih]
    simp only [Option.bind_some, Expr.at?, Frame.child_fill]

/-! ## Moves -/

theorem top_down {s : Site} {f : Frame} {c : Expr} (same : f.fill c = s.node) :
    (s.down f c).top = s.top := by
  rw [down, top_cons, same]

theorem top_bareBelow (above : List Frame) (e : Expr) :
    (bareBelow above e).top = top ⟨e, above⟩ := by
  fun_induction bareBelow above e with
  | case1 above e sp ih => exact ih
  | case2 => rfl

theorem node_bareBelow (above : List Frame) (e : Expr) : (bareBelow above e).node = e.bare := by
  fun_induction bareBelow above e with
  | case1 above e sp ih => exact ih
  | case2 above e other =>
    unfold Expr.bare
    split
    next e sp => exact (other e sp rfl).elim
    next => rfl

theorem node_bare (s : Site) : s.bare.node = s.node.bare := node_bareBelow s.above s.node

theorem isParen_bare (s : Site) : s.bare.node.isParen = false := by
  rw [node_bare]
  exact s.node.isParen_bare

theorem bare_of_solid {s : Site} (solid : s.node.isParen = false) : s.bare = s := by
  obtain ⟨e, above⟩ := s
  cases e with
  | paren => cases solid
  | _ => rfl

theorem top_bare (s : Site) : s.bare.top = s.top := top_bareBelow s.above s.node

theorem top_wrapBelow (e : Expr) (above : List Frame) :
    (wrapBelow e above).top = top ⟨e, above⟩ := by
  fun_induction wrapBelow e above with
  | case1 e sp above ih => exact ih
  | case2 => rfl

/-- A site that is not parenthesized is found again in the parentheses around it. -/
theorem bare_wrapped {s : Site} (solid : s.node.isParen = false) : s.wrapped.bare = s := by
  have below (e : Expr) (above : List Frame) :
      (wrapBelow e above).bare = (⟨e, above⟩ : Site).bare := by
    fun_induction wrapBelow e above with
    | case1 e sp above ih => exact ih
    | case2 => rfl
  exact (below s.node s.above).trans (bare_of_solid solid)

theorem top_wrapped (s : Site) : s.wrapped.top = s.top := top_wrapBelow s.node s.above

theorem top_soleArgument {s a : Site} (h : s.soleArgument? = some a) : a.top = s.top := by
  unfold soleArgument? at h
  split at h
  next id a sp same =>
    cases h
    exact top_down same.symm
  next q id a sp same =>
    cases h
    exact top_down same.symm
  next => cases h

theorem top_receiver {s q : Site} (h : s.receiver? = some q) : q.top = s.top := by
  unfold receiver? at h
  split at h
  next q id args sp same =>
    cases h
    exact top_down same.symm
  next => cases h

theorem top_climb {e : Expr} {fs : List Frame} {a : Site} (h : a ∈ climb e fs) :
    a.top = top ⟨e, fs⟩ := by
  induction fs generalizing e with
  | nil => cases h
  | cons f fs ih =>
    rcases List.mem_cons.mp h with rfl | above
    · rfl
    · rw [ih above, top_cons]

theorem top_enclosing {skip : Expr → Bool} {s a : Site} (h : s.enclosing? skip = some a) :
    a.top = s.top := top_climb (List.mem_of_find?_eq_some h)

end Site

/-! ## All sites -/

namespace Expr

theorem argFrames_spec {frame : List Expr → List Expr → Frame} {before es : List Expr} {f : Frame}
    {c : Expr} (h : (f, c) ∈ argFrames frame before es) :
    ∃ front back, f = frame front back ∧ front ++ c :: back = before ++ es := by
  induction es generalizing before with
  | nil => cases h
  | cons e es ih =>
    rcases List.mem_cons.mp h with same | member
    · cases same
      exact ⟨before, es, rfl, rfl⟩
    · obtain ⟨front, back, rfl, same⟩ := ih member
      exact ⟨front, back, rfl, by simpa using same⟩

/-- Putting a child back into the frame that it left gives the node again. -/
theorem fill_of_mem_openings {e c : Expr} {f : Frame} (h : (f, c) ∈ e.openings) : f.fill c = e := by
  cases e with
  | literal | name | self => cases h
  | call id args sp | create id args sp =>
    obtain ⟨front, back, rfl, same⟩ := argFrames_spec h
    simp only [Frame.fill, same, List.nil_append]
  | invoke q id args sp =>
    rcases List.mem_cons.mp h with same | member
    · cases same
      rfl
    · obtain ⟨front, back, rfl, same⟩ := argFrames_spec member
      simp only [Frame.fill, same, List.nil_append]
  | member | prefixed | paren | cast =>
    cases List.mem_singleton.mp h
    rfl
  | binary | index =>
    simp only [openings, List.mem_cons, Prod.mk.injEq, List.not_mem_nil, or_false] at h
    rcases h with ⟨rfl, rfl⟩ | ⟨rfl, rfl⟩ <;> rfl
  | conditional =>
    simp only [openings, List.mem_cons, Prod.mk.injEq, List.not_mem_nil, or_false] at h
    rcases h with ⟨rfl, rfl⟩ | ⟨rfl, rfl⟩ | ⟨rfl, rfl⟩ <;> rfl

theorem argSites_eq (frame : List Expr → List Expr → Frame) (above : List Frame)
    (before es : List Expr) : argSites frame above before es =
      (argFrames frame before es).flatMap fun (f, c) => sitesBelow (f :: above) c := by
  induction es generalizing before with
  | nil => rfl
  | cons e es ih => rw [argSites, argFrames, List.flatMap_cons, ih]

/-- The sites of an expression are its root and the sites of its children. -/
theorem sitesBelow_eq (above : List Frame) (e : Expr) : e.sitesBelow above =
    ⟨e, above⟩ :: e.openings.flatMap fun (f, c) => sitesBelow (f :: above) c := by
  cases e <;> simp [sitesBelow, openings, argSites_eq]

theorem mem_children_of_mem_openings {e c : Expr} {f : Frame} (h : (f, c) ∈ e.openings) :
    c ∈ e.children := by
  rw [← fill_of_mem_openings h, Frame.children_fill]
  exact List.mem_append_right _ List.mem_cons_self

theorem top_of_mem_sitesBelow {e : Expr} {above : List Frame} {s : Site}
    (h : s ∈ e.sitesBelow above) : s.top = Site.top ⟨e, above⟩ := by
  induction e using induct_children generalizing above with
  | step e ih =>
  rw [sitesBelow_eq] at h
  rcases List.mem_cons.mp h with rfl | below
  · rfl
  · obtain ⟨⟨f, c⟩, opening, member⟩ := List.mem_flatMap.mp below
    rw [ih c (mem_children_of_mem_openings opening) member, Site.top_cons,
      fill_of_mem_openings opening]

/-- The whole expression around each of its sites. -/
theorem top_of_mem_sites {e : Expr} {s : Site} (h : s ∈ e.sites) : s.top = e :=
  top_of_mem_sitesBelow h

end Expr

end NullSafeEq
