import NullSafeEq.Proofs.Meaning.ValuePath

/-!
# Names by convention

The naming conventions sort references into five kinds, of which two are nameable. Below a value or
a class there are values and classes only, whatever the names look like, so all that decides whether
a chain of references has a name is where it starts: a chain that starts at a package root has none,
and every other chain has one.
-/
namespace NullSafeEq

namespace ValuePath

/-- What a chain starts with. -/
def base : ValuePath → ValuePath
  | member p _ => p.base
  | p => p

/-- The names that are selected behind the base. -/
def selected : ValuePath → List String
  | member p id => p.selected ++ [id]
  | _ => []

/-- The text of a chain is its base and the selected names with dots between them. -/
theorem text_eq_intercalate (p : ValuePath) :
    p.text = String.intercalate "." (p.base.text :: p.selected) := by
  induction p with
  | name id => simp [base, selected]
  | self word outer => simp [base, selected]
  | member p id ih =>
    have joins := String.intercalate_append_of_ne_nil (s := ".")
      (List.cons_ne_nil p.base.text p.selected) (List.cons_ne_nil id [])
    rw [List.cons_append, String.intercalate_singleton] at joins
    rw [text, ih, base, selected, joins]

/-- The chain starts with `this` or `super`, or with a name that is no package root. -/
def StartsOutside (roots : List String) (p : ValuePath) : Prop :=
  ∀ id, p.base = name id → id ∉ roots

/-- No name in the chain is empty. -/
def HasNames (p : ValuePath) : Prop := p.base ≠ name "" ∧ "" ∉ p.selected

theorem startsOutside_self (roots : List String) (word : SelfWord) (outer : Option String) :
    (self word outer).StartsOutside roots := by
  rintro id ⟨⟩

theorem hasNames_self (word : SelfWord) (outer : Option String) : (self word outer).HasNames := by
  simp [HasNames, base, selected]

theorem hasNames_name {id : String} (some : id ≠ "") : (name id).HasNames := by
  simp [HasNames, base, selected, some]

end ValuePath

namespace Convention
variable {c : Convention} {e : Expr} {p : ValuePath} {name : String}

theorem isNameable_ordinary (type : Prop) [Decidable type] :
    (if type then SymbolKind.type else .value).isNameable = true := by
  split <;> rfl

/-- A name that is no package root is a class or a value. -/
theorem isNameable_name (c : Convention) (id : String) (sp : Option Span) :
    (c.resolve (.name id sp)).isNameable = true ↔ id ∉ c.packageRoots := by
  rw [resolve, ← List.contains_iff_mem]
  split
  next root => exact iff_of_false nofun (not_not_intro root)
  next other => exact iff_of_true (isNameable_ordinary _) other

/-- What is selected from a nameable reference, or from anything that is no reference, is a class or
a value. -/
theorem isNameable_member {q : Expr} (id : String) (sp : Option Span)
    (above : q.bare.isReference = true → (c.resolve q).isNameable = true) :
    (c.resolve (.member q id sp)).isNameable = true := by
  rw [resolve]
  split
  next reference =>
    have nameable := above reference
    cases kind : c.resolve q with
    | value | type => exact isNameable_ordinary _
    | package | other | unresolved =>
      rw [kind] at nameable
      cases nameable
  next => exact isNameable_ordinary _

/-- The references of a chain are nameable unless it starts at a package root. -/
theorem isNameable_of_valuePath (spelled : e.valuePath? = some p)
    (start : p.StartsOutside c.packageRoots) (reference : e.bare.isReference = true) :
    (c.resolve e).isNameable = true := by
  induction e using Expr.induct_children generalizing p with
  | step e ih =>
  cases e with
  | name id sp =>
    cases spelled
    exact (c.isNameable_name id sp).mpr (start id rfl)
  | member q id sp =>
    obtain ⟨base, spells, rfl⟩ := Option.map_eq_some_iff.mp spelled
    exact isNameable_member id sp (ih q List.mem_cons_self spells start)
  | paren e sp =>
    rw [resolve]
    exact ih e List.mem_cons_self spelled start reference
  | _ => cases reference

/-- A chain with names in it that does not start at a package root is named. -/
theorem qualifiedName_of_valuePath (spelled : e.valuePath? = some p)
    (start : p.StartsOutside c.packageRoots) (names : p.HasNames) :
    qualifiedName? c.resolve e = some p.text := by
  induction e using Expr.induct_children generalizing p with
  | step e ih =>
  have nameable := isNameable_of_valuePath (c := c) spelled start
  cases e with
  | self word outer sp =>
    cases spelled
    rfl
  | name id sp =>
    cases spelled
    have some : id ≠ "" := fun none => names.1 (congrArg ValuePath.name none)
    rw [qualifiedName?, nameable rfl]
    simp [some, ValuePath.text]
  | member q id sp =>
    obtain ⟨base, spells, rfl⟩ := Option.map_eq_some_iff.mp spelled
    obtain ⟨front, later⟩ := names
    rw [ValuePath.selected, List.mem_append, not_or] at later
    have some : id ≠ "" := fun none => later.2 (List.mem_singleton.mpr none.symm)
    rw [qualifiedName?, nameable rfl, ih q List.mem_cons_self spells start ⟨front, later.1⟩]
    simp [some, ValuePath.text]
  | paren e sp => exact ih e List.mem_cons_self spelled start names
  | _ => cases spelled

/-- What is named is a chain with names in it that does not start at a package root. -/
theorem valuePath_of_named (named : qualifiedName? c.resolve e = some name) :
    ∃ p, e.valuePath? = some p ∧ p.StartsOutside c.packageRoots ∧ p.HasNames ∧ p.text = name := by
  fun_induction qualifiedName? c.resolve e generalizing name with
  | case1 e sp ih => exact ih named
  | case2 word outer sp =>
    cases named
    exact ⟨.self word outer, rfl, ValuePath.startsOutside_self _ word outer,
      ValuePath.hasNames_self word outer, rfl⟩
  | case3 id sp nameable =>
    cases named
    rw [Bool.and_eq_true, isNameable_name] at nameable
    obtain ⟨some, outside⟩ := nameable
    have some : id ≠ "" := by simpa using some
    refine ⟨.name id, rfl, ?_, ValuePath.hasNames_name some, rfl⟩
    rintro _ ⟨⟩
    exact outside
  | case4 => cases named
  | case5 q id sp nameable ih =>
    obtain ⟨base, below, rfl⟩ := Option.map_eq_some_iff.mp named
    obtain ⟨p, spells, start, names, rfl⟩ := ih below
    have some : "" ≠ id := by
      rintro rfl
      cases nameable
    refine ⟨.member p id, by rw [Expr.valuePath?, spells]; rfl, start, ⟨names.1, ?_⟩, rfl⟩
    rw [ValuePath.selected, List.mem_append, List.mem_singleton]
    exact not_or.mpr ⟨names.2, some⟩
  | case6 => cases named
  | case7 => cases named

/-- Under the naming conventions the expressions with a name are the chains of references,
parentheses apart, that start with `this`, `super` or a name that is no package root, and that have
no empty name in them. The name is made of the base and the selected names with dots between them.
In particular nothing that is reached through a package root has a name. -/
theorem qualifiedName_convention (c : Convention) (e : Expr) :
    (∀ name, qualifiedName? c.resolve e = some name ↔ ∃ p, e.valuePath? = some p ∧
      p.StartsOutside c.packageRoots ∧ p.HasNames ∧
      name = String.intercalate "." (p.base.text :: p.selected)) ∧
    ∀ p root, e.valuePath? = some p → p.base = .name root → root ∈ c.packageRoots →
      qualifiedName? c.resolve e = none := by
  constructor
  · intro name
    constructor
    · intro named
      obtain ⟨p, spelled, start, names, rfl⟩ := valuePath_of_named named
      exact ⟨p, spelled, start, names, p.text_eq_intercalate⟩
    · rintro ⟨p, spelled, start, names, rfl⟩
      rw [qualifiedName_of_valuePath spelled start names, p.text_eq_intercalate]
  · intro p root spelled base listed
    rw [Option.eq_none_iff_forall_ne_some]
    intro name named
    obtain ⟨p', spelled', start, -⟩ := valuePath_of_named named
    obtain rfl := Option.some.inj (spelled.symm.trans spelled')
    exact start root base listed

example : qualifiedName? standard.resolve
    (.member (.member (.name "java" none) "util" none) "Locale" none) = none := rfl

end Convention

end NullSafeEq
