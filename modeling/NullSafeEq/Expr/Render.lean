import NullSafeEq.Expr.Basic

/-!
# Canonical text of an expression

One blank around binary operators and after commas, no blank after a prefix operator. Parentheses
are written where the tree has them and nowhere else. Rendering takes a patch, which gives texts
to write in the place of some nodes; a node is addressed by its path, the child indices that lead
to it.
-/
namespace NullSafeEq

/-- Child indices from a node down to one below it, counted as in `Expr.children`. -/
abbrev Path := List Nat

/-- Texts put in the place of the nodes at some paths. -/
abbrev Patch := Path → Option String

namespace Patch

/-- No node is replaced. -/
def empty : Patch := fun _ => none

/-- The replacements below the child with index `i`. -/
def under (s : Patch) (i : Nat) : Patch := fun path => s (i :: path)

end Patch

namespace Expr

/-- A qualifier in front of `this` or `super`. -/
def qualifiedSelf (outer : Option String) (word : SelfWord) : String :=
  match outer with
  | none => word.text
  | some type => type ++ "." ++ word.text

/-- Arguments between parentheses. -/
def argumentList (texts : List String) : String :=
  "(" ++ String.intercalate ", " texts ++ ")"

mutual

/-- Canonical text, with the texts of a patch in the place of its nodes. -/
def renderWith (patch : Patch) (e : Expr) : String :=
  match patch [] with
  | some text => text
  | none =>
    match e with
    | literal _ text _ => text
    | name id _ => id
    | member q id _ => q.renderWith (patch.under 0) ++ "." ++ id
    | self word outer _ => qualifiedSelf outer word
    | call id args _ => id ++ argumentList (renderEach patch 0 args)
    | invoke q id args _ =>
      q.renderWith (patch.under 0) ++ "." ++ (id ++ argumentList (renderEach patch 1 args))
    | binary op l r _ =>
      l.renderWith (patch.under 0) ++ " " ++ op.text ++ " " ++ r.renderWith (patch.under 1)
    | prefixed op operand _ => op.text ++ operand.renderWith (patch.under 0)
    | conditional t y n _ =>
      t.renderWith (patch.under 0) ++ " ? " ++ y.renderWith (patch.under 1) ++ " : " ++
        n.renderWith (patch.under 2)
    | paren body _ => "(" ++ body.renderWith (patch.under 0) ++ ")"
    | cast type body _ => "(" ++ type ++ ") " ++ body.renderWith (patch.under 0)
    | index a i _ => a.renderWith (patch.under 0) ++ "[" ++ i.renderWith (patch.under 1) ++ "]"
    | create type args _ => "new " ++ type ++ argumentList (renderEach patch 0 args)

/-- The texts of consecutive children, the first of which has index `i`. -/
def renderEach (patch : Patch) (i : Nat) : List Expr → List String
  | [] => []
  | e :: es => e.renderWith (patch.under i) :: renderEach patch (i + 1) es

end

/-- Canonical text. -/
def render (e : Expr) : String := e.renderWith Patch.empty

end Expr

end NullSafeEq
