import NullSafeEq.Proofs.Tree.Places

/-!
# The walk over an expression

The frames that the children of a node leave are numbered like the children, and the sites of an
expression are listed without repetition.
-/
namespace NullSafeEq

namespace Expr

theorem argFrames_zipIdx {frame : List Expr → List Expr → Frame} {offset : Nat}
    (slots : ∀ before after, (frame before after).slot = before.length + offset)
    (before es : List Expr) : (argFrames frame before es).map (fun p => (p.2, p.1.slot)) =
      es.zipIdx (before.length + offset) := by
  induction es generalizing before with
  | nil => rfl
  | cons e es ih =>
    rw [argFrames, List.map_cons, ih, List.zipIdx_cons, slots, List.length_append,
      List.length_singleton, Nat.add_right_comm]

/-- The frames of a node have the indices of the children that left them. -/
theorem openings_zipIdx (e : Expr) :
    e.openings.map (fun p => (p.2, p.1.slot)) = e.children.zipIdx := by
  cases e with
  | call id args sp =>
    exact @argFrames_zipIdx (fun b a => .argOfCall id b a sp) 0 (fun _ _ => rfl) [] args
  | create type args sp =>
    exact @argFrames_zipIdx (fun b a => .argOfCreate type b a sp) 0 (fun _ _ => rfl) [] args
  | invoke q id args sp =>
    have behind := @argFrames_zipIdx (fun b a => .argOfInvoke q id b a sp) 1 (fun _ _ => rfl) [] args
    exact congrArg ((q, 0) :: ·) behind
  | _ => rfl

theorem openings_slots (e : Expr) :
    e.openings.map (fun p => p.1.slot) = List.range e.children.length := by
  have := congrArg (List.map Prod.snd) e.openings_zipIdx
  rwa [List.map_map, List.zipIdx_map_snd, ← List.range_eq_range'] at this

theorem within_of_mem_sitesBelow {e : Expr} {above : List Frame} {s : Site}
    (h : s ∈ e.sitesBelow above) : s.Within ⟨e, above⟩ := by
  induction e using induct_children generalizing above with
  | step e ih =>
  rw [sitesBelow_eq] at h
  rcases List.mem_cons.mp h with rfl | below
  · exact .refl _
  · obtain ⟨⟨f, c⟩, opening, member⟩ := List.mem_flatMap.mp below
    have inner := ih c (mem_children_of_mem_openings opening) member
    rw [← fill_of_mem_openings opening]
    exact inner.trans (.up c f above)

/-- No site is listed twice. -/
theorem nodup_sitesBelow (e : Expr) (above : List Frame) : (e.sitesBelow above).Nodup := by
  induction e using induct_children generalizing above with
  | step e ih =>
  have path_child {f : Frame} {c : Expr} (opening : (f, c) ∈ e.openings) :
      Site.path ⟨c, f :: above⟩ = Site.path ⟨e, above⟩ ++ [f.slot] := by
    rw [Site.path_cons, fill_of_mem_openings opening]
  rw [sitesBelow_eq, List.nodup_cons, List.nodup_flatMap]
  refine ⟨fun below => ?_, fun p opening => ?_, ?_⟩
  · obtain ⟨⟨f, c⟩, opening, member⟩ := List.mem_flatMap.mp below
    have longer := (within_of_mem_sitesBelow member).2.length_le
    rw [path_child opening, List.length_append, List.length_singleton] at longer
    omega
  · exact ih p.2 (mem_children_of_mem_openings opening) (p.1 :: above)
  · have distinct : (e.openings.map fun p => p.1.slot).Nodup := by
      rw [openings_slots]
      exact List.nodup_range
    refine (List.pairwise_map.mp distinct).imp_of_mem ?_
    intro p q opening opening' differs s member member'
    have inner := (within_of_mem_sitesBelow member).2
    have inner' := (within_of_mem_sitesBelow member').2
    rw [path_child opening] at inner
    rw [path_child opening'] at inner'
    have same := (List.prefix_of_prefix_length_le inner inner' (by simp)).eq_of_length (by simp)
    exact differs (List.singleton_inj.mp (List.append_cancel_left same))

theorem nodup_sites (e : Expr) : e.sites.Nodup := e.nodup_sitesBelow []

end Expr

end NullSafeEq
