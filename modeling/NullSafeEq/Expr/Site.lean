import NullSafeEq.Expr.Basic
import NullSafeEq.Expr.Render

/-!
# Sites in an expression

A site is one occurrence of a subexpression: the node together with everything around it, as a
stack of frames from the innermost to the root. Two textually equal subexpressions at different
places are different sites. Moving up fills the innermost frame; moving down opens a frame.
-/
namespace NullSafeEq

/-- A node with one child taken out. -/
inductive Frame where
  | memberOf (id : String) (span : Option Span)
  | receiverOf (id : String) (args : List Expr) (span : Option Span)
  | argOfCall (id : String) (before after : List Expr) (span : Option Span)
  | argOfInvoke (qualifier : Expr) (id : String) (before after : List Expr) (span : Option Span)
  | leftOf (op : BinaryOp) (right : Expr) (span : Option Span)
  | rightOf (op : BinaryOp) (left : Expr) (span : Option Span)
  | operandOf (op : PrefixOp) (span : Option Span)
  | testOf (yes no : Expr) (span : Option Span)
  | yesOf (test no : Expr) (span : Option Span)
  | noOf (test yes : Expr) (span : Option Span)
  | bodyOfParen (span : Option Span)
  | bodyOfCast (type : String) (span : Option Span)
  | arrayOf (position : Expr) (span : Option Span)
  | positionOf (array : Expr) (span : Option Span)
  | argOfCreate (type : String) (before after : List Expr) (span : Option Span)
  deriving Repr

namespace Frame

/-- The node that results from putting a child back. -/
def fill (e : Expr) : Frame → Expr
  | memberOf id s => .member e id s
  | receiverOf id args s => .invoke e id args s
  | argOfCall id before after s => .call id (before ++ e :: after) s
  | argOfInvoke q id before after s => .invoke q id (before ++ e :: after) s
  | leftOf op r s => .binary op e r s
  | rightOf op l s => .binary op l e s
  | operandOf op s => .prefixed op e s
  | testOf y n s => .conditional e y n s
  | yesOf t n s => .conditional t e n s
  | noOf t y s => .conditional t y e s
  | bodyOfParen s => .paren e s
  | bodyOfCast type s => .cast type e s
  | arrayOf i s => .index e i s
  | positionOf a s => .index a e s
  | argOfCreate type before after s => .create type (before ++ e :: after) s

/-- The siblings to the left of the child that was taken out. -/
def earlier : Frame → List Expr
  | memberOf .. | receiverOf .. | leftOf .. | operandOf .. | testOf .. | bodyOfParen ..
  | bodyOfCast .. | arrayOf .. => []
  | argOfCall _ before _ _ | argOfCreate _ before _ _ => before
  | argOfInvoke q _ before _ _ => q :: before
  | rightOf _ l _ => [l]
  | yesOf t _ _ => [t]
  | noOf t y _ => [t, y]
  | positionOf a _ => [a]

/-- The index of the child that was taken out. -/
def slot (f : Frame) : Nat := f.earlier.length

end Frame

/-- An occurrence of a subexpression, with the frames around it from the inside out. -/
structure Site where
  node : Expr
  above : List Frame
  deriving Repr

namespace Site

/-- The whole expression as a site. -/
def root (e : Expr) : Site := ⟨e, []⟩

/-- The child indices that lead from the root to the site. -/
def path (s : Site) : Path := (s.above.map Frame.slot).reverse

/-- The number of nodes before the site in pre-order. -/
def number (s : Site) : Nat :=
  s.above.foldr (fun f n => Expr.totalSize f.earlier + 1 + n) 0

/-- The site one level up. -/
def parent? (s : Site) : Option Site :=
  match s.above with
  | [] => none
  | f :: fs => some ⟨f.fill s.node, fs⟩

/-- The sites around a node in some frames, from the innermost to the root. -/
def climb (e : Expr) : List Frame → List Site
  | [] => []
  | f :: fs => ⟨f.fill e, fs⟩ :: climb (f.fill e) fs

/-- The proper ancestors of a site, nearest first. -/
def ancestors (s : Site) : List Site := climb s.node s.above

/-- The nearest proper ancestor of which `skip` does not hold. -/
def enclosing? (skip : Expr → Bool) (s : Site) : Option Site :=
  s.ancestors.find? fun a => !skip a.node

/-- The first site lies strictly above the second in the same expression. -/
def isAbove (a b : Site) : Bool := a.path.isPrefixOf b.path && a.path.length < b.path.length

/-- The first site lies above the second or at the same place in the same expression. -/
def isAtOrAbove (a b : Site) : Bool := a.path.isPrefixOf b.path

/-- Both sites are the same place in the same expression. -/
def sameAs (a b : Site) : Bool := a.path == b.path

/-- Go below a frame to the child that stands in it. -/
def down (s : Site) (f : Frame) (child : Expr) : Site := ⟨child, f :: s.above⟩

/-- The innermost expression inside any number of parentheses, below some frames. -/
def bareBelow (above : List Frame) : Expr → Site
  | .paren e sp => bareBelow (.bodyOfParen sp :: above) e
  | e => ⟨e, above⟩

/-- The site of the innermost expression inside any number of parentheses. -/
def bare (s : Site) : Site := bareBelow s.above s.node

/-- A node together with all parentheses directly around it. -/
def wrapBelow (e : Expr) : List Frame → Site
  | .bodyOfParen sp :: above => wrapBelow (.paren e sp) above
  | above => ⟨e, above⟩

/-- The site of the outermost parentheses directly around a site, or the site itself. -/
def wrapped (s : Site) : Site := wrapBelow s.node s.above

/-- The only argument of a call with one argument, in parentheses or not. -/
def soleArgument? (s : Site) : Option Site :=
  match s.node with
  | .call id [a] sp => some (s.down (.argOfCall id [] [] sp) a)
  | .invoke q id [a] sp => some (s.down (.argOfInvoke q id [] [] sp) a)
  | _ => none

/-- The qualifier of a qualified call. -/
def receiver? (s : Site) : Option Site :=
  match s.node with
  | .invoke q id args sp => some (s.down (.receiverOf id args sp) q)
  | _ => none

end Site

namespace Expr

/-- Each of several children with the frame that is left when it is taken out. -/
def argFrames (frame : List Expr → List Expr → Frame) (before : List Expr) :
    List Expr → List (Frame × Expr)
  | [] => []
  | e :: es => (frame before es, e) :: argFrames frame (before ++ [e]) es

/-- Each child with the frame that is left when it is taken out. -/
def openings : Expr → List (Frame × Expr)
  | literal .. | name .. | self .. => []
  | member q id s => [(.memberOf id s, q)]
  | call id args s => argFrames (fun b a => .argOfCall id b a s) [] args
  | invoke q id args s =>
    (.receiverOf id args s, q) :: argFrames (fun b a => .argOfInvoke q id b a s) [] args
  | binary op l r s => [(.leftOf op r s, l), (.rightOf op l s, r)]
  | prefixed op e s => [(.operandOf op s, e)]
  | conditional t y n s => [(.testOf y n s, t), (.yesOf t n s, y), (.noOf t y s, n)]
  | paren e s => [(.bodyOfParen s, e)]
  | cast type e s => [(.bodyOfCast type s, e)]
  | index a i s => [(.arrayOf i s, a), (.positionOf a s, i)]
  | create type args s => argFrames (fun b a => .argOfCreate type b a s) [] args

theorem argFrames_snd (frame : List Expr → List Expr → Frame) (before es : List Expr) :
    (argFrames frame before es).map Prod.snd = es := by
  induction es generalizing before with
  | nil => rfl
  | cons e es ih => rw [argFrames, List.map_cons, ih]

theorem openings_snd (e : Expr) : e.openings.map Prod.snd = e.children := by
  cases e <;> simp [openings, children, argFrames_snd]

mutual

/-- All sites of an expression that stands below some frames, in pre-order. -/
def sitesBelow (above : List Frame) (e : Expr) : List Site :=
  ⟨e, above⟩ ::
    match e with
    | literal .. | name .. | self .. => []
    | member q id s => sitesBelow (.memberOf id s :: above) q
    | call id args s => argSites (fun b a => .argOfCall id b a s) above [] args
    | invoke q id args s =>
      sitesBelow (.receiverOf id args s :: above) q ++
        argSites (fun b a => .argOfInvoke q id b a s) above [] args
    | binary op l r s =>
      sitesBelow (.leftOf op r s :: above) l ++ sitesBelow (.rightOf op l s :: above) r
    | prefixed op operand s => sitesBelow (.operandOf op s :: above) operand
    | conditional t y n s =>
      sitesBelow (.testOf y n s :: above) t ++ (sitesBelow (.yesOf t n s :: above) y ++
        sitesBelow (.noOf t y s :: above) n)
    | paren body s => sitesBelow (.bodyOfParen s :: above) body
    | cast type body s => sitesBelow (.bodyOfCast type s :: above) body
    | index a i s =>
      sitesBelow (.arrayOf i s :: above) a ++ sitesBelow (.positionOf a s :: above) i
    | create type args s => argSites (fun b a => .argOfCreate type b a s) above [] args

/-- All sites of several children, given the frame left by each and those around it. -/
def argSites (frame : List Expr → List Expr → Frame) (above : List Frame) (before : List Expr) :
    List Expr → List Site
  | [] => []
  | e :: es =>
    sitesBelow (frame before es :: above) e ++ argSites frame above (before ++ [e]) es

end

/-- All sites of an expression in pre-order: a node comes before its children. -/
def sites (e : Expr) : List Site := e.sitesBelow []

end Expr

/-- The children of a site from left to right. -/
def Site.children (s : Site) : List Site := s.node.openings.map fun (f, e) => s.down f e

theorem Site.node_children (s : Site) : s.children.map node = s.node.children := by
  rw [children, List.map_map, ← s.node.openings_snd]
  rfl

end NullSafeEq
