import NullSafeEq.Expr.Site

/-!
# The index of an expression

An expression is walked with a stack of the sites that are still to be visited. The index is built
by such a walk too: for every child the site above it is entered, and what lies around a site is
looked up from then on. No node stands twice in an expression, so that a path is as good a key as
the node itself.
-/
namespace NullSafeEq

namespace Site

/-- The number of nodes at and below the sites on a stack. -/
def pending (stack : List Site) : Nat := Expr.totalSize (stack.map node)

theorem pending_lt {s : Site} {next stack : List Site} (same : next.Perm (s.children ++ stack)) :
    pending next < pending (s :: stack) := by
  have left : pending next = Expr.totalSize s.node.children + pending stack := by
    rw [pending, Expr.totalSize_perm (same.map node), List.map_append, s.node_children,
      Expr.totalSize_append, pending]
  have taken : pending (s :: stack) = s.node.size + pending stack := rfl
  rw [left, taken, s.node.size_eq]
  omega

/-- Visit the sites on a stack and all those below them. The children of a site come before what
is left of the stack. -/
def walkFrom : List Site → List Site
  | [] => []
  | s :: stack => s :: walkFrom (s.children ++ stack)
termination_by stack => pending stack
decreasing_by exact pending_lt (.refl _)

/-- A site and all those below it, in the order in which they are visited. -/
def walk (s : Site) : List Site := walkFrom [s]

theorem length_path_child {s c : Site} (h : c ∈ s.children) :
    c.path.length = s.path.length + 1 := by
  obtain ⟨⟨f, e⟩, -, rfl⟩ := List.mem_map.mp h
  simp [path, down]

end Site

/-- For the paths of sites, the sites directly above them. -/
structure ParentIndex where
  /-- The first entry with a path is the one that counts. -/
  entries : List (Path × Site)
  /-- Every entry leads upwards. -/
  rises : ∀ entry ∈ entries, entry.2.path.length < entry.1.length

namespace ParentIndex

def empty : ParentIndex := ⟨[], nofun⟩

/-- Enter a site for each of its children. -/
def enter (x : ParentIndex) (s : Site) : ParentIndex where
  entries := (s.children.map fun c => (c.path, s)).reverse ++ x.entries
  rises := by
    intro entry member
    rcases List.mem_append.mp member with new | old
    · obtain ⟨c, child, rfl⟩ := List.mem_map.mp (List.mem_reverse.mp new)
      exact Nat.lt_of_lt_of_eq (Nat.lt_succ_self _) (Site.length_path_child child).symm
    · exact x.rises entry old

/-- Enter the sites on a stack and all those below them. The last child of a site comes next. -/
def enterFrom (x : ParentIndex) : List Site → ParentIndex
  | [] => x
  | s :: stack => enterFrom (x.enter s) (s.children.reverse ++ stack)
termination_by stack => Site.pending stack
decreasing_by exact Site.pending_lt ((List.reverse_perm _).append_right _)

/-- The site above a site. -/
def parent? (x : ParentIndex) (s : Site) : Option Site := x.entries.lookup s.path

theorem mem_entries_of_parent {x : ParentIndex} {s p : Site} (h : x.parent? s = some p) :
    (s.path, p) ∈ x.entries := by
  obtain ⟨front, back, same, -⟩ := List.lookup_eq_some_iff.mp h
  rw [same]
  exact List.mem_append_right _ List.mem_cons_self

/-- The sites that are met on the way up from a site, from one parent to the next. -/
def ancestors (x : ParentIndex) (s : Site) : List Site :=
  match _found : x.parent? s with
  | none => []
  | some p => p :: x.ancestors p
termination_by s.path.length
decreasing_by exact x.rises _ (mem_entries_of_parent ‹_›)

theorem ancestors_of_none {x : ParentIndex} {s : Site} (h : x.parent? s = none) :
    x.ancestors s = [] := by
  rw [ancestors]
  split
  next => rfl
  next p found => cases h.symm.trans found

theorem ancestors_of_some {x : ParentIndex} {s p : Site} (h : x.parent? s = some p) :
    x.ancestors s = p :: x.ancestors p := by
  rw [ancestors]
  split
  next missing => cases h.symm.trans missing
  next q found =>
    cases h.symm.trans found
    rfl

/-- The first site is met on the way up from the second. The way starts at the second site itself
or, if strict, at the one above it. -/
def isAncestor (x : ParentIndex) (a b : Site) (strict : Bool) : Bool :=
  (if strict then x.ancestors b else b :: x.ancestors b).any a.sameAs

/-- The first site on the way up of which `skip` does not hold. -/
def skipParents (x : ParentIndex) (skip : Expr → Bool) (s : Site) : Option Site :=
  (x.ancestors s).find? fun a => !skip a.node

end ParentIndex

namespace Expr

/-- All sites of an expression in the order in which they are visited. -/
def walk (e : Expr) : List Site := (Site.root e).walk

/-- The index of all sites of an expression. -/
def parents (e : Expr) : ParentIndex := ParentIndex.empty.enterFrom [Site.root e]

end Expr

end NullSafeEq
