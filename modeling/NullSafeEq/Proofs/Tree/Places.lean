import NullSafeEq.Proofs.Tree.Sites

/-!
# Places

A site is known by the whole expression around it and its path, so a site lies within another one
just when the path of the one starts with that of the other. Going up from a site meets the sites
that it lies within one after the other.
-/
namespace NullSafeEq

theorem Frame.fill_inj {f f' : Frame} {c c' : Expr} (same : f.fill c = f'.fill c')
    (slot : f.slot = f'.slot) : f = f' ∧ c = c' := by
  have lists : f.earlier ++ c :: f.later = f'.earlier ++ c' :: f'.later := by
    rw [← children_fill, ← children_fill, same]
  obtain ⟨earlier, rest⟩ := List.append_inj lists slot
  obtain ⟨child, later⟩ := List.cons.inj rest
  refine ⟨?_, child⟩
  cases f <;> cases f' <;> simp_all [fill, Frame.earlier, Frame.later]

namespace Site
variable {a b s : Site}

theorem length_path (s : Site) : s.path.length = s.above.length := by
  simp [path]

/-- A site is known by the whole expression and its path. -/
theorem eq_of_path (top : a.top = b.top) (path : a.path = b.path) : a = b := by
  obtain ⟨e, above⟩ := a
  obtain ⟨e', above'⟩ := b
  have lengths := congrArg List.length path
  rw [length_path, length_path] at lengths
  induction above generalizing e e' above' with
  | nil =>
    obtain rfl := List.eq_nil_of_length_eq_zero lengths.symm
    exact congrArg root top
  | cons f fs ih =>
    cases above' with
    | nil => cases lengths
    | cons f' fs' =>
      rw [path_cons, path_cons] at path
      obtain ⟨outer, last⟩ := List.append_inj' path rfl
      have parents := ih (f.fill e) (f'.fill e') fs' top outer (Nat.succ.inj lengths)
      obtain ⟨same, rest⟩ := Site.mk.inj parents
      obtain ⟨rfl, rfl⟩ := Frame.fill_inj same (List.cons.inj last).1
      rw [rest]

/-- A site of an expression where the expression stands below some frames. -/
def under (above : List Frame) (s : Site) : Site := ⟨s.node, s.above ++ above⟩

@[simp] theorem node_under (above : List Frame) (s : Site) : (s.under above).node = s.node := rfl

@[simp] theorem above_under (above : List Frame) (s : Site) :
    (s.under above).above = s.above ++ above := rfl

@[simp] theorem down_under (above : List Frame) (s : Site) (f : Frame) (c : Expr) :
    (s.under above).down f c = (s.down f c).under above := rfl

theorem top_under (above : List Frame) (s : Site) :
    (s.under above).top = top ⟨s.top, above⟩ := by
  simp [top, List.foldl_append]

theorem path_under (a s : Site) : (s.under a.above).path = a.path ++ s.path := by
  simp [path]

/-- The first site is the second one or lies below it. -/
def Within (s a : Site) : Prop := s.top = a.top ∧ a.path <+: s.path

namespace Within

theorem refl (s : Site) : s.Within s := ⟨rfl, List.prefix_refl _⟩

theorem trans (h : s.Within b) (h' : b.Within a) : s.Within a :=
  ⟨h.1.trans h'.1, h'.2.trans h.2⟩

theorem antisymm (h : a.Within b) (h' : b.Within a) : a = b :=
  eq_of_path h.1 (h'.2.eq_of_length (Nat.le_antisymm h'.2.length_le h.2.length_le))

theorem up (e : Expr) (f : Frame) (fs : List Frame) : Within ⟨e, f :: fs⟩ ⟨f.fill e, fs⟩ := by
  refine ⟨rfl, ?_⟩
  rw [path_cons]
  exact List.prefix_append _ _

theorem up_ne (e : Expr) (f : Frame) (fs : List Frame) : (⟨f.fill e, fs⟩ : Site) ≠ ⟨e, f :: fs⟩ :=
  fun same => List.cons_ne_self _ _ (Site.mk.inj same).2.symm

/-- What a site lies within is the site itself, or what the site around it lies within. -/
theorem cons_cases {e : Expr} {f : Frame} {fs : List Frame} (h : Within ⟨e, f :: fs⟩ a) :
    a = ⟨e, f :: fs⟩ ∨ Within ⟨f.fill e, fs⟩ a := by
  obtain ⟨top, path⟩ := h
  rw [path_cons] at path
  rcases List.prefix_concat_iff.mp path with whole | outer
  · left
    refine (eq_of_path top ?_).symm
    rw [path_cons, whole]
  · exact .inr ⟨top, outer⟩

theorem nil_eq {e : Expr} (h : Within ⟨e, []⟩ a) : a = ⟨e, []⟩ := by
  refine (eq_of_path h.1 ?_).symm
  exact (List.prefix_nil.mp h.2).symm

theorem under {r : Site} (top : r.top = a.node) : (r.under a.above).Within a := by
  refine ⟨?_, ?_⟩
  · rw [top_under, top]
  · rw [path_under]
    exact List.prefix_append _ _

/-- Frames around a site within another one end with the frames around that one. -/
theorem inside (h : s.Within a) : ∃ r : Site, r.top = a.node ∧ s = r.under a.above := by
  obtain ⟨e, above⟩ := s
  induction above generalizing e with
  | nil =>
    obtain rfl := h.nil_eq
    exact ⟨root e, rfl, rfl⟩
  | cons f fs ih =>
    rcases h.cons_cases with rfl | outer
    · exact ⟨root e, rfl, rfl⟩
    · obtain ⟨⟨c, rs⟩, top, same⟩ := ih (f.fill e) outer
      obtain ⟨rfl, rfl⟩ := Site.mk.inj same
      exact ⟨⟨e, f :: rs⟩, top, rfl⟩

/-- What lies below a site lies within one of its children. -/
theorem child (h : s.Within a) (differs : a ≠ s) :
    ∃ f c, f.fill c = a.node ∧ s.Within (a.down f c) := by
  obtain ⟨e, above⟩ := s
  induction above generalizing e with
  | nil => exact (differs h.nil_eq).elim
  | cons f fs ih =>
    rcases h.cons_cases with same | outer
    · exact (differs same).elim
    by_cases here : a = ⟨f.fill e, fs⟩
    · subst here
      exact ⟨f, e, rfl, .refl _⟩
    · obtain ⟨f', c, same, inner⟩ := ih (f.fill e) outer here
      exact ⟨f', c, same, (up e f fs).trans inner⟩

theorem down {f : Frame} {c : Expr} (same : f.fill c = s.node) : (s.down f c).Within s := by
  have := up c f s.above
  rwa [same] at this

theorem bareBelow (above : List Frame) (e : Expr) : (bareBelow above e).Within ⟨e, above⟩ := by
  fun_induction Site.bareBelow above e with
  | case1 above e sp ih => exact ih.trans (up e (.bodyOfParen sp) above)
  | case2 => exact refl _

theorem bare (s : Site) : s.bare.Within s := bareBelow s.above s.node

theorem wrapBelow (e : Expr) (above : List Frame) : Within ⟨e, above⟩ (wrapBelow e above) := by
  fun_induction Site.wrapBelow e above with
  | case1 e sp above ih => exact (up e (.bodyOfParen sp) above).trans ih
  | case2 => exact refl _

theorem wrapped (s : Site) : s.Within s.wrapped := wrapBelow s.node s.above

theorem climb {e : Expr} {fs : List Frame} (h : a ∈ climb e fs) : Within ⟨e, fs⟩ a := by
  induction fs generalizing e with
  | nil => cases h
  | cons f fs ih =>
    rcases List.mem_cons.mp h with rfl | above
    · exact up e f fs
    · exact (up e f fs).trans (ih above)

theorem enclosing {skip : Expr → Bool} (h : s.enclosing? skip = some a) : s.Within a :=
  climb (List.mem_of_find?_eq_some h)

end Within

/-! ## The nearest construct around a site -/

variable {skip : Expr → Bool}

theorem enclosing_cons (e : Expr) (f : Frame) (fs : List Frame) :
    enclosing? skip ⟨e, f :: fs⟩ =
      if skip (f.fill e) then enclosing? skip ⟨f.fill e, fs⟩ else some ⟨f.fill e, fs⟩ := by
  simp only [enclosing?, ancestors, climb, List.find?_cons]
  cases skip (f.fill e) <;> rfl

theorem enclosing_down {f : Frame} {c : Expr} (same : f.fill c = s.node) :
    (s.down f c).enclosing? skip = if skip s.node then s.enclosing? skip else some s := by
  rw [down, enclosing_cons, same]

theorem enclosing_child {f : Frame} {c : Expr} (same : f.fill c = s.node)
    (counts : skip s.node = false) : (s.down f c).enclosing? skip = some s := by
  rw [enclosing_down same, counts]
  rfl

theorem enclosing_bareBelow (parens : ∀ e sp, skip (.paren e sp) = true) (above : List Frame)
    (e : Expr) : (bareBelow above e).enclosing? skip = enclosing? skip ⟨e, above⟩ := by
  fun_induction bareBelow above e with
  | case1 above e sp ih => rw [ih, enclosing_cons, Frame.fill, if_pos (parens e sp)]
  | case2 => rfl

theorem enclosing_bare (parens : ∀ e sp, skip (.paren e sp) = true) (s : Site) :
    s.bare.enclosing? skip = s.enclosing? skip := enclosing_bareBelow parens s.above s.node

theorem enclosing_wrapBelow (parens : ∀ e sp, skip (.paren e sp) = true)
    (e : Expr) (above : List Frame) :
    (wrapBelow e above).enclosing? skip = enclosing? skip ⟨e, above⟩ := by
  fun_induction wrapBelow e above with
  | case1 e sp above ih => rw [ih, enclosing_cons, Frame.fill, if_pos (parens e sp)]
  | case2 => rfl

theorem length_above_of_mem_climb {e : Expr} {fs : List Frame} (h : a ∈ climb e fs) :
    a.above.length < fs.length := by
  induction fs generalizing e with
  | nil => cases h
  | cons f fs ih =>
    rcases List.mem_cons.mp h with rfl | above
    · exact Nat.lt_succ_self _
    · exact Nat.lt_succ_of_lt (ih above)

/-- What stands around a site is another site. -/
theorem enclosing_ne (h : s.enclosing? skip = some a) : a ≠ s := by
  rintro rfl
  exact Nat.lt_irrefl _ (length_above_of_mem_climb (List.mem_of_find?_eq_some h))

theorem mem_climb_of_within {e : Expr} {fs : List Frame} (h : Within ⟨e, fs⟩ a)
    (differs : a ≠ ⟨e, fs⟩) : a ∈ climb e fs := by
  induction fs generalizing e with
  | nil => exact (differs h.nil_eq).elim
  | cons f fs ih =>
    rcases h.cons_cases with same | outer
    · exact (differs same).elim
    by_cases here : a = ⟨f.fill e, fs⟩
    · exact here ▸ List.mem_cons_self
    · exact List.mem_cons_of_mem _ (ih outer here)

/-- The ancestors of a site are the other sites that it lies within. -/
theorem mem_ancestors_iff : a ∈ s.ancestors ↔ s.Within a ∧ a ≠ s := by
  constructor
  · intro h
    refine ⟨Within.climb h, ?_⟩
    rintro rfl
    exact Nat.lt_irrefl _ (length_above_of_mem_climb h)
  · rintro ⟨within, differs⟩
    exact mem_climb_of_within within differs

/-- What a site lies within is skipped until the nearest construct is reached. -/
theorem enclosing_between {x : Site} (near : s.enclosing? skip = some x) (h : s.Within a)
    (differs : a ≠ s) (stays : skip a.node = false) : x.Within a := by
  obtain ⟨e, above⟩ := s
  induction above generalizing e with
  | nil => exact (differs h.nil_eq).elim
  | cons f fs ih =>
    rcases h.cons_cases with same | outer
    · exact (differs same).elim
    rw [enclosing_cons] at near
    by_cases skips : skip (f.fill e) = true
    · rw [if_pos skips] at near
      by_cases same : a = ⟨f.fill e, fs⟩
      · subst same
        rw [skips] at stays
        cases stays
      · exact ih (f.fill e) near outer same
    · rw [if_neg skips] at near
      cases near
      exact outer

/-- Parentheses around a site change nothing about what else it lies within. -/
theorem wrapBelow_within {e : Expr} {above : List Frame} (h : Within ⟨e, above⟩ a)
    (differs : a ≠ ⟨e, above⟩) (noParen : a.node.isParen = false) : (wrapBelow e above).Within a := by
  fun_induction wrapBelow e above with
  | case1 e sp above ih =>
    rcases h.cons_cases with same | outer
    · exact (differs same).elim
    · refine ih outer fun same => ?_
      rw [same] at noParen
      cases noParen
  | case2 => exact h

end Site

/-- A site lies above another one when its path is the beginning of the other path. -/
theorem isAbove_iff {a b : Site} : a.isAbove b = true ↔ a.path <+: b.path ∧ a.path ≠ b.path := by
  simp only [Site.isAbove, Bool.and_eq_true, List.isPrefixOf_iff_prefix, decide_eq_true_eq]
  constructor
  · rintro ⟨below, shorter⟩
    exact ⟨below, fun same => by simp [same] at shorter⟩
  · rintro ⟨below, differs⟩
    refine ⟨below, Nat.lt_of_le_of_ne below.length_le ?_⟩
    exact fun same => differs (below.eq_of_length same)

theorem Site.isAtOrAbove_iff {a b : Site} : a.isAtOrAbove b = true ↔ a.path <+: b.path :=
  List.isPrefixOf_iff_prefix

theorem Site.Within.isAbove {a b : Site} (h : b.Within a) (differs : a ≠ b) : a.isAbove b = true :=
  isAbove_iff.mpr ⟨h.2, fun same => differs (Site.eq_of_path h.1.symm same)⟩

theorem Site.within_of_isAbove {a b : Site} (top : b.top = a.top) (above : a.isAbove b = true) :
    b.Within a ∧ a ≠ b := by
  obtain ⟨below, differs⟩ := isAbove_iff.mp above
  exact ⟨⟨top, below⟩, fun same => differs (congrArg Site.path same)⟩

/-- In one expression the sites above another one are its ancestors. -/
theorem Site.isAbove_iff_mem_ancestors {a b : Site} (top : b.top = a.top) :
    a.isAbove b = true ↔ a ∈ b.ancestors := by
  rw [mem_ancestors_iff]
  exact ⟨within_of_isAbove top, fun ⟨within, differs⟩ => within.isAbove differs⟩

/-! ## All sites -/

namespace Expr

/-- Every child of a node leaves a frame. -/
theorem exists_frame {e c : Expr} {i : Nat} (h : e.children[i]? = some c) :
    ∃ f : Frame, f.fill c = e ∧ f.slot = i := by
  have split {args : List Expr} {i : Nat} (h : args[i]? = some c) :
      ∃ before after, before ++ c :: after = args ∧ before.length = i := by
    obtain ⟨bound, same⟩ := List.getElem?_eq_some_iff.mp h
    refine ⟨args.take i, args.drop (i + 1), ?_, List.length_take_of_le bound.le⟩
    rw [← same, List.cons_getElem_drop_succ, List.take_append_drop]
  cases e with
  | literal | name | self => cases h
  | call id args sp =>
    obtain ⟨before, after, rfl, rfl⟩ := split h
    exact ⟨.argOfCall id before after sp, rfl, rfl⟩
  | create type args sp =>
    obtain ⟨before, after, rfl, rfl⟩ := split h
    exact ⟨.argOfCreate type before after sp, rfl, rfl⟩
  | invoke q id args sp =>
    cases i with
    | zero =>
      cases h
      exact ⟨.receiverOf id args sp, rfl, rfl⟩
    | succ i =>
      obtain ⟨before, after, rfl, rfl⟩ := split (show args[i]? = some c from h)
      exact ⟨.argOfInvoke q id before after sp, rfl, rfl⟩
  | member q id sp =>
    match i with
    | 0 => exact ⟨.memberOf id sp, by cases h; rfl, rfl⟩
  | prefixed op e sp =>
    match i with
    | 0 => exact ⟨.operandOf op sp, by cases h; rfl, rfl⟩
  | paren e sp =>
    match i with
    | 0 => exact ⟨.bodyOfParen sp, by cases h; rfl, rfl⟩
  | cast type e sp =>
    match i with
    | 0 => exact ⟨.bodyOfCast type sp, by cases h; rfl, rfl⟩
  | binary op l r sp =>
    match i with
    | 0 => exact ⟨.leftOf op r sp, by cases h; rfl, rfl⟩
    | 1 => exact ⟨.rightOf op l sp, by cases h; rfl, rfl⟩
  | index a p sp =>
    match i with
    | 0 => exact ⟨.arrayOf p sp, by cases h; rfl, rfl⟩
    | 1 => exact ⟨.positionOf a sp, by cases h; rfl, rfl⟩
  | conditional t y n sp =>
    match i with
    | 0 => exact ⟨.testOf y n sp, by cases h; rfl, rfl⟩
    | 1 => exact ⟨.yesOf t n sp, by cases h; rfl, rfl⟩
    | 2 => exact ⟨.noOf t y sp, by cases h; rfl, rfl⟩

theorem mem_argFrames (frame : List Expr → List Expr → Frame) (before front back : List Expr)
    (c : Expr) : (frame (before ++ front) back, c) ∈ argFrames frame before (front ++ c :: back) := by
  induction front generalizing before with
  | nil => simp [argFrames]
  | cons x front ih =>
    have := ih (before ++ [x])
    rw [List.append_assoc] at this
    exact List.mem_cons_of_mem _ this

/-- The frame that a child left is one of the openings of the node. -/
theorem mem_openings (f : Frame) (c : Expr) : (f, c) ∈ (f.fill c).openings := by
  cases f with
  | argOfCall id before after sp =>
    exact mem_argFrames (fun b a => .argOfCall id b a sp) [] before after c
  | argOfInvoke q id before after sp =>
    have member := mem_argFrames (fun b a => .argOfInvoke q id b a sp) [] before after c
    exact List.mem_cons_of_mem _ member
  | argOfCreate type before after sp =>
    exact mem_argFrames (fun b a => .argOfCreate type b a sp) [] before after c
  | _ => simp [Frame.fill, openings]

theorem mem_sitesBelow_self (above : List Frame) (e : Expr) : ⟨e, above⟩ ∈ e.sitesBelow above := by
  rw [sitesBelow_eq]
  exact List.mem_cons_self

theorem mem_sitesBelow_child {e : Expr} {above : List Frame} {f : Frame} {c : Expr} {fs : List Frame}
    (h : ⟨f.fill c, fs⟩ ∈ e.sitesBelow above) : ⟨c, f :: fs⟩ ∈ e.sitesBelow above := by
  induction e using induct_children generalizing above with
  | step e ih =>
  rw [sitesBelow_eq] at h ⊢
  rcases List.mem_cons.mp h with same | below
  · obtain ⟨rfl, rfl⟩ := Site.mk.inj same
    refine List.mem_cons_of_mem _ (List.mem_flatMap.mpr ⟨(f, c), mem_openings f c, ?_⟩)
    exact mem_sitesBelow_self _ _
  · obtain ⟨⟨f', c'⟩, opening, member⟩ := List.mem_flatMap.mp below
    refine List.mem_cons_of_mem _ (List.mem_flatMap.mpr ⟨(f', c'), opening, ?_⟩)
    exact ih c' (mem_children_of_mem_openings opening) member

/-- The sites of an expression are all the sites with this expression around them. -/
theorem mem_sites_iff {e : Expr} {s : Site} : s ∈ e.sites ↔ s.top = e := by
  refine ⟨top_of_mem_sites, ?_⟩
  rintro rfl
  obtain ⟨c, above⟩ := s
  induction above generalizing c with
  | nil => exact mem_sitesBelow_self [] c
  | cons f fs ih => exact mem_sitesBelow_child (ih (f.fill c))

end Expr

/-! ## What lies below an operator -/

namespace Site.Within
variable {s c : Site}

theorem opening (h : c.Within s) (differs : s ≠ c) :
    ∃ f o, (f, o) ∈ s.node.openings ∧ c.Within (s.down f o) := by
  obtain ⟨f, o, filled, inner⟩ := h.child differs
  exact ⟨f, o, filled ▸ Expr.mem_openings f o, inner⟩

theorem side {op : BinaryOp} {l r : Expr} {sp : Option Span} (h : c.Within s)
    (node : s.node = .binary op l r sp) (differs : s ≠ c) :
    c.Within (s.down (.leftOf op r sp) l) ∨ c.Within (s.down (.rightOf op l sp) r) := by
  obtain ⟨f, o, opening, inner⟩ := h.opening differs
  rw [node] at opening
  simp only [Expr.openings, List.mem_cons, Prod.mk.injEq, List.not_mem_nil, or_false] at opening
  rcases opening with ⟨rfl, rfl⟩ | ⟨rfl, rfl⟩
  · exact .inl inner
  · exact .inr inner

theorem branch {t y n : Expr} {sp : Option Span} (h : c.Within s)
    (node : s.node = .conditional t y n sp) (differs : s ≠ c) :
    c.Within (s.down (.testOf y n sp) t) ∨ c.Within (s.down (.yesOf t n sp) y) ∨
      c.Within (s.down (.noOf t y sp) n) := by
  obtain ⟨f, o, opening, inner⟩ := h.opening differs
  rw [node] at opening
  simp only [Expr.openings, List.mem_cons, Prod.mk.injEq, List.not_mem_nil, or_false] at opening
  rcases opening with ⟨rfl, rfl⟩ | ⟨rfl, rfl⟩ | ⟨rfl, rfl⟩
  · exact .inl inner
  · exact .inr (.inl inner)
  · exact .inr (.inr inner)

/-- What lies below a site and is no parenthesis lies below what the parentheses hold. -/
theorem into_bare (h : c.Within s) (solid : c.node.isParen = false) : c.Within s.bare := by
  obtain ⟨e, above⟩ := s
  unfold Site.bare
  fun_induction Site.bareBelow above e with
  | case1 above e sp ih =>
    have differs : (⟨.paren e sp, above⟩ : Site) ≠ c := by
      rintro rfl
      cases solid
    obtain ⟨f, o, opening, inner⟩ := h.opening differs
    cases List.mem_singleton.mp opening
    exact ih inner
  | case2 => exact h

end Site.Within

end NullSafeEq
