import NullSafeEq.Expr.Render
import NullSafeEq.Text.Cased

/-!
# What names denote

The idioms never look at types. They only ask a resolver whether a reference denotes a value (a
local, a parameter, a field) or a class. Any other answer makes the reference unnameable. Two
expressions count as the same value when their qualified names are equal: `this` and `super` have
one, and so has a chain of references every one of which denotes a value or a class.
-/
namespace NullSafeEq

inductive SymbolKind where
  | value | type | package | other | unresolved
  deriving DecidableEq, Repr

/-- Values and classes may stand in the name of a value path. -/
def SymbolKind.isNameable (k : SymbolKind) : Bool := k = value || k = type

/-- A resolver classifies references: names, qualified or not. -/
abbrev Resolver := Expr → SymbolKind

/-- A table of declared names. Dotted entries stand for whole chains. -/
structure Scope where
  values : List String
  types : List String
  packages : List String
  deriving DecidableEq, Repr

namespace Scope

/-- What a chain of names is declared as; a class wins over a package, a package over a value. -/
def declared? (s : Scope) (chain : Option String) : Option SymbolKind :=
  match chain with
  | none => none
  | some path =>
    if s.types.contains path then some .type
    else if s.packages.contains path then some .package
    else if s.values.contains path then some .value
    else none

/-- Undeclared names are unresolved. A member of a value, of a class, of `this` or `super` or of
anything computed is a field. -/
def resolve (s : Scope) : Resolver
  | .name id _ => (s.declared? (some id)).getD .unresolved
  | .member q id sp =>
    match s.declared? (Expr.dotted? (.member q id sp)) with
    | some kind => kind
    | none =>
      if !q.bare.isReference then .value
      else if (s.resolve q).isNameable then .value
      else .unresolved
  | .paren e _ => s.resolve e
  | _ => .unresolved

end Scope

/-- Classification by naming conventions, for texts without a table of names. -/
structure Convention where
  /-- Names at which a chain starts as a package. -/
  packageRoots : List String
  deriving DecidableEq, Repr

namespace Convention

/-- Starts with a capital and is not written in capitals throughout. -/
def looksLikeType (name : String) : Bool :=
  Text.upperCase (name.toList.take 1) && !Text.upperCase name.toList

/-- `UpperCamel` names are classes, `lowerCamel` and `CONSTANT_CASE` names are values. A chain that
starts at a package root stays a package while it is in lower case. -/
def resolve (c : Convention) : Resolver
  | .name id _ =>
    if c.packageRoots.contains id then .package
    else if looksLikeType id then .type
    else .value
  | .member q id _ =>
    if q.bare.isReference then
      match c.resolve q with
      | .package =>
        if looksLikeType id then .type
        else if Text.lowerCase id.toList then .package
        else .unresolved
      | kind =>
        if !kind.isNameable then .unresolved
        else if looksLikeType id then .type
        else .value
    else if looksLikeType id && !q.isSelf then .type
    else .value
  | .paren e _ => c.resolve e
  | _ => .unresolved

/-- The package roots that are assumed when nothing else is said. -/
def standard : Convention := ⟨["java", "javax", "com", "org", "net"]⟩

end Convention

/-- Classification by the last name alone. -/
structure NameTable where
  kinds : List (String × SymbolKind)
  otherwise : SymbolKind
  deriving Repr

namespace NameTable

def kindOf (t : NameTable) (id : String) : SymbolKind := (t.kinds.lookup id).getD t.otherwise

def resolve (t : NameTable) : Resolver
  | .name id _ => t.kindOf id
  | .member _ id _ => t.kindOf id
  | .paren e _ => t.resolve e
  | _ => .unresolved

end NameTable

/-! ### Names of value paths -/

/-- The dotted name of a value path, with parentheses looked through at every level. -/
def qualifiedName? (resolve : Resolver) : Expr → Option String
  | .paren e _ => qualifiedName? resolve e
  | .self word outer _ => some (Expr.qualifiedSelf outer word)
  | .name id sp =>
    if !id.isEmpty && (resolve (.name id sp)).isNameable then some id else none
  | .member q id sp =>
    if !id.isEmpty && (resolve (.member q id sp)).isNameable then
      (qualifiedName? resolve q).map fun base => base ++ "." ++ id
    else none
  | _ => none

end NullSafeEq
