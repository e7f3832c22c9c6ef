import NullSafeEq.Proofs.Meaning.ValuePath
import NullSafeEq.Proofs.Reading.WellFormed
import NullSafeEq.Proofs.Tree.Erasure

/-!
# Names and what they name

A value path is what is left of an expression that spells it when parentheses and spans are gone. In
expressions that were read, a name belongs to one value path, so two expressions with one name
differ in parentheses and spans only.
-/
namespace NullSafeEq

/-- The expression that spells a path without parentheses. -/
def ValuePath.toExpr : ValuePath → Expr
  | name id => .name id none
  | self word outer => .self word outer none
  | member base id => .member base.toExpr id none

/-- An expression that spells a path is the path, parentheses and spans apart. -/
theorem Expr.erased_of_valuePath {e : Expr} {p : ValuePath} (spelled : e.valuePath? = some p) :
    e.erased (fun _ => none) = p.toExpr := by
  induction e using induct_children generalizing p with
  | step e ih =>
  cases e with
  | name id sp =>
    cases spelled
    rfl
  | self word outer sp =>
    cases spelled
    rfl
  | member q id sp =>
    obtain ⟨base, spells, rfl⟩ := Option.map_eq_some_iff.mp spelled
    rw [erased, ih q List.mem_cons_self spells, ValuePath.toExpr]
  | paren e sp =>
    rw [erased]
    exact ih e List.mem_cons_self spelled
  | _ => cases spelled

/-- What stands in a tree that was read is well formed. -/
theorem wellFormed_of_mem_sites {text : String} {t : Tree} {s : Site}
    (read : Tree.read text = .ok t) (inside : s ∈ t.sites) : s.node.WellFormed := by
  have top : s.top = t.root := Expr.mem_sites_iff.mp inside
  exact (wellFormed_of_read read).at? (top ▸ s.at?_path)

/-- Two expressions in texts that were read, to which any resolvers give one name, are the same
value path apart from parentheses and spans, and the name is the text of this path. -/
theorem qualifiedName_identifies {text text' : String} {t t' : Tree}
    (read : Tree.read text = .ok t) (read' : Tree.read text' = .ok t') {s s' : Site}
    (inside : s ∈ t.sites) (inside' : s' ∈ t'.sites) {resolve resolve' : Resolver} {name : String}
    (named : qualifiedName? resolve s.node = some name)
    (named' : qualifiedName? resolve' s'.node = some name) :
    s.node.erased (fun _ => none) = s'.node.erased (fun _ => none) ∧
      ∃ p : ValuePath, p.text = name ∧ s.node.erased (fun _ => none) = p.toExpr := by
  have wf := wellFormed_of_mem_sites read inside
  have wf' := wellFormed_of_mem_sites read' inside'
  obtain ⟨p, spells, spells'⟩ := valuePath_eq_of_qualifiedName wf wf' named named'
  have chain := Expr.erased_of_valuePath spells
  refine ⟨chain.trans (Expr.erased_of_valuePath spells').symm, p, ?_, chain⟩
  obtain ⟨p', spelled, text⟩ := valuePath_of_qualifiedName named
  rw [spells] at spelled
  rwa [← Option.some.inj spelled] at text

/-- A field with the name of a keyword, selected from a qualified `this`. -/
theorem qualifiedName_identifies_keyword :
    ∃ t t', Tree.read "(Outer.this).null" = .ok t ∧ Tree.read "((Outer)).this.null" = .ok t' ∧
      qualifiedName? (fun _ => .value) t.root = some "Outer.this.null" ∧
      qualifiedName? (fun _ => .type) t'.root = some "Outer.this.null" ∧
      t.root.erased (fun _ => none) = t'.root.erased (fun _ => none) := by
  obtain ⟨t, t', read, read', named, named'⟩ : ∃ t t',
      Tree.read "(Outer.this).null" = .ok t ∧ Tree.read "((Outer)).this.null" = .ok t' ∧
      qualifiedName? (fun _ => .value) t.root = some "Outer.this.null" ∧
      qualifiedName? (fun _ => .type) t'.root = some "Outer.this.null" :=
    ⟨_, _, rfl, rfl, rfl, rfl⟩
  have whole (t : Tree) : Site.root t.root ∈ t.sites := Expr.mem_sitesBelow_self [] t.root
  have same := qualifiedName_identifies read read' (whole t) (whole t') named named'
  exact ⟨t, t', read, read', named, named', same.1⟩

end NullSafeEq
