import NullSafeEq.Names.Resolver
import NullSafeEq.Proofs.Lexing.Spelling
import NullSafeEq.Proofs.Tree.Sites

/-!
# Value paths

The chains of references that a qualified name may be given to, with parentheses gone. In a
well-formed expression two chains with one name are the same chain.
-/
namespace NullSafeEq

/-- A chain of references. -/
inductive ValuePath where
  | name (id : String)
  | self (word : SelfWord) (outer : Option String)
  | member (base : ValuePath) (id : String)
  deriving DecidableEq, Repr

/-- The chain that an expression spells, if it is one. -/
def Expr.valuePath? : Expr → Option ValuePath
  | paren e _ => e.valuePath?
  | name id _ => some (.name id)
  | self word outer _ => some (.self word outer)
  | member q id _ => q.valuePath?.map fun base => .member base id
  | _ => none

/-! ## Words with dots between them -/

theorem dot_notMem {id : String} (h : IsIdentifier id) : '.' ∉ id.toList := by
  obtain ⟨c, cs, chars, start, rest⟩ := h
  rw [chars]
  intro dot
  rcases List.mem_cons.mp dot with same | member
  · rw [← same] at start
    exact absurd start (by decide)
  · exact absurd (List.all_eq_true.mp rest _ member) (by decide)

theorem dot_notMem_self (word : SelfWord) : '.' ∉ word.text.toList := by
  cases word <;> decide

theorem self_text_inj {word word' : SelfWord} (h : word.text = word'.text) : word = word' := by
  revert h
  cases word <;> cases word' <;> decide

theorem append_dot_inj {front front' back back' : List Char} (plain : '.' ∉ front)
    (plain' : '.' ∉ front') (same : front ++ '.' :: back = front' ++ '.' :: back') :
    front = front' ∧ back = back' := by
  induction front generalizing front' with
  | nil =>
    cases front' with
    | nil => exact ⟨rfl, (List.cons.inj same).2⟩
    | cons c cs =>
      have head : '.' = c := (List.cons.inj same).1
      exact (plain' (head ▸ List.mem_cons_self)).elim
  | cons c cs ih =>
    cases front' with
    | nil =>
      have head : c = '.' := (List.cons.inj same).1
      exact (plain (head ▸ List.mem_cons_self)).elim
    | cons c' cs' =>
      obtain ⟨rfl, rest⟩ := List.cons.inj same
      obtain ⟨rfl, backs⟩ := ih (fun dot => plain (List.mem_cons_of_mem _ dot))
        (fun dot => plain' (List.mem_cons_of_mem _ dot)) rest
      exact ⟨rfl, backs⟩

/-- A word, behind others and a dot when there are any. -/
def joined (front : Option String) (last : String) : String :=
  match front with
  | none => last
  | some front => front ++ "." ++ last

theorem toList_joined (front last : String) :
    (joined (some front) last).toList = front.toList ++ '.' :: last.toList := by
  simp [joined]

/-- The last word is what follows the last dot. -/
theorem joined_inj {front front' : Option String} {last last' : String} (plain : '.' ∉ last.toList)
    (plain' : '.' ∉ last'.toList) (same : joined front last = joined front' last') :
    front = front' ∧ last = last' := by
  have chars := congrArg String.toList same
  cases front with
  | none =>
    cases front' with
    | none => exact ⟨rfl, same⟩
    | some front' =>
      rw [toList_joined] at chars
      have dotted : '.' ∈ last.toList := by
        rw [show last.toList = _ from chars]
        simp
      exact (plain dotted).elim
  | some front =>
    cases front' with
    | none =>
      rw [toList_joined] at chars
      have dotted : '.' ∈ last'.toList := by
        rw [show last'.toList = _ from chars.symm]
        simp
      exact (plain' dotted).elim
    | some front' =>
      rw [toList_joined, toList_joined] at chars
      have turned := congrArg List.reverse chars
      simp only [List.reverse_append, List.reverse_cons, List.append_assoc,
        List.singleton_append] at turned
      obtain ⟨lasts, fronts⟩ := append_dot_inj (by simpa using plain) (by simpa using plain') turned
      have sameFront := String.toList_inj.mp (List.reverse_inj.mp fronts)
      exact ⟨congrArg some sameFront, String.toList_inj.mp (List.reverse_inj.mp lasts)⟩

namespace ValuePath

/-- The last word of a path. -/
def last : ValuePath → String
  | name id | member _ id => id
  | self word _ => word.text

def text : ValuePath → String
  | name id => id
  | self word outer => Expr.qualifiedSelf outer word
  | member base id => base.text ++ "." ++ id

/-- What stands before the last word. -/
def front : ValuePath → Option String
  | name _ => none
  | self _ outer => outer
  | member base _ => some base.text

theorem text_eq (p : ValuePath) : p.text = joined p.front p.last := by
  cases p with
  | name | member => rfl
  | self word outer => cases outer <;> rfl

/-- Made of words that can be read. -/
def Valid : ValuePath → Prop
  | name id => IsPlainName id
  | self .. => True
  | member base id => base.Valid ∧ IsMemberName id

theorem Valid.dot_notMem_last {p : ValuePath} (h : p.Valid) : '.' ∉ p.last.toList := by
  cases p with
  | name => exact dot_notMem h.1
  | self word => exact dot_notMem_self word
  | member => exact dot_notMem h.2.1

theorem self_text_ne {word : SelfWord} {id : String} (h : id ≠ "this" ∧ id ≠ "super") :
    word.text ≠ id := by
  cases word with
  | this => exact h.1.symm
  | super => exact h.2.symm

theorem name_ne_self {id : String} (h : IsPlainName id) : id ≠ "this" ∧ id ≠ "super" :=
  ⟨fun same => h.2 (same ▸ by decide), fun same => h.2 (same ▸ by decide)⟩

/-- Paths with the same name are the same path. -/
theorem text_injective {p q : ValuePath} (valid : p.Valid) (valid' : q.Valid)
    (same : p.text = q.text) : p = q := by
  induction p generalizing q with
  | name id =>
    rw [text_eq, text_eq] at same
    obtain ⟨fronts, lasts⟩ := joined_inj valid.dot_notMem_last valid'.dot_notMem_last same
    cases q with
    | name => exact congrArg name lasts
    | self => exact (self_text_ne (name_ne_self valid) lasts.symm).elim
    | member => cases fronts
  | self word outer =>
    rw [text_eq, text_eq] at same
    obtain ⟨fronts, lasts⟩ := joined_inj valid.dot_notMem_last valid'.dot_notMem_last same
    cases q with
    | name => exact (self_text_ne (name_ne_self valid') lasts).elim
    | self word' outer' =>
      obtain rfl : outer = outer' := fronts
      exact congrArg (self · outer) (self_text_inj lasts)
    | member => exact (self_text_ne valid'.2.2 lasts).elim
  | member base id ih =>
    rw [text_eq, text_eq] at same
    obtain ⟨fronts, lasts⟩ := joined_inj valid.dot_notMem_last valid'.dot_notMem_last same
    cases q with
    | name => cases fronts
    | self => exact (self_text_ne valid.2.2 lasts.symm).elim
    | member base' id' =>
      obtain rfl := ih valid.1 valid'.1 (Option.some.inj fronts)
      exact congrArg (member base) lasts

end ValuePath

namespace Expr

theorem WellFormed.child {e c : Expr} (h : e.WellFormed) (member : c ∈ e.children) :
    c.WellFormed := by
  cases h with
  | node leveled worded below => exact below c member

theorem WellFormed.worded {e : Expr} (h : e.WellFormed) : e.Worded := by
  cases h with
  | node leveled worded below => exact worded

theorem WellFormed.at? {path : Path} {e c : Expr} (h : e.WellFormed) (found : e.at? path = some c) :
    c.WellFormed := by
  induction path generalizing e with
  | nil =>
    cases found
    exact h
  | cons i path ih =>
    obtain ⟨child, atIndex, below⟩ := Option.bind_eq_some_iff.mp found
    exact ih (h.child (List.mem_of_getElem? atIndex)) below

theorem WellFormed.bare {e : Expr} (wf : e.WellFormed) : e.bare.WellFormed := by
  fun_induction Expr.bare e with
  | case1 e sp ih => exact ih (wf.child List.mem_cons_self)
  | case2 => exact wf

theorem WellFormed.valid {e : Expr} {p : ValuePath} (h : e.WellFormed)
    (spelled : e.valuePath? = some p) : p.Valid := by
  induction e using induct_children generalizing p with
  | step e ih =>
  cases e with
  | name id =>
    cases spelled
    exact h.worded
  | self =>
    cases spelled
    trivial
  | member q id =>
    obtain ⟨base, spells, rfl⟩ := Option.map_eq_some_iff.mp spelled
    exact ⟨ih q List.mem_cons_self (h.child List.mem_cons_self) spells, h.worded⟩
  | paren e => exact ih e List.mem_cons_self (h.child List.mem_cons_self) spelled
  | _ => cases spelled

end Expr

/-- A name is given to value paths only, and it is the text of the path. -/
theorem valuePath_of_qualifiedName {resolve : Resolver} {e : Expr} {name : String}
    (h : qualifiedName? resolve e = some name) : ∃ p, e.valuePath? = some p ∧ p.text = name := by
  fun_induction qualifiedName? resolve e generalizing name with
  | case1 e sp ih => exact ih h
  | case2 word outer sp =>
    cases h
    exact ⟨_, rfl, rfl⟩
  | case3 id sp named =>
    cases h
    exact ⟨_, rfl, rfl⟩
  | case4 => cases h
  | case5 q id sp named ih =>
    obtain ⟨base, spells, rfl⟩ := Option.map_eq_some_iff.mp h
    obtain ⟨p, path, rfl⟩ := ih spells
    exact ⟨.member p id, by rw [Expr.valuePath?, path]; rfl, rfl⟩
  | case6 => cases h
  | case7 => cases h

/-- In well-formed expressions equal names are given to equal paths. -/
theorem valuePath_eq_of_qualifiedName {resolve resolve' : Resolver} {e e' : Expr} {name : String}
    (wf : e.WellFormed) (wf' : e'.WellFormed) (h : qualifiedName? resolve e = some name)
    (h' : qualifiedName? resolve' e' = some name) :
    ∃ p, e.valuePath? = some p ∧ e'.valuePath? = some p := by
  obtain ⟨p, spells, text⟩ := valuePath_of_qualifiedName h
  obtain ⟨p', spells', text'⟩ := valuePath_of_qualifiedName h'
  obtain rfl := ValuePath.text_injective (wf.valid spells) (wf'.valid spells') (text.trans text'.symm)
  exact ⟨p, spells, spells'⟩

end NullSafeEq
