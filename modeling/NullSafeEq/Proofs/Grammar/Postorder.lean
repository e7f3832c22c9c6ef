import NullSafeEq.Proofs.Grammar.Derivation

/-!
# Phrases in post-order

The constituents of a phrase are the phrases that it is made of, those included that are no part of
its expression: the type of a cast and the qualifier of `this` and `super`. In post-order every
phrase stands behind its constituents. A phrase has an expression if no phrase in this order
misuses a class name, and otherwise the error is that of the first one that does.
-/
namespace NullSafeEq

/-- The error of a computation that failed. -/
def fault? {ε α : Type} : Except ε α → Option ε
  | .ok _ => none
  | .error e => some e

section
variable {ε α : Type} {x : Except ε α}

theorem fault_eq_none_iff : fault? x = none ↔ ∃ a, x = .ok a := by
  cases x <;> simp [fault?]

theorem fault_eq_some_iff {e : ε} : fault? x = some e ↔ x = .error e := by
  cases x <;> simp [fault?]

end

namespace Phrase

/-! ## The order -/

/-- The phrases that a phrase is made of, from left to right. -/
def parts : Phrase → List Phrase
  | literal .. | name .. | self .. => []
  | member base .. | selfOf base .. => [base]
  | call _ _ args _ | create _ _ args _ => args
  | invoke base _ args _ => base :: args
  | index base position _ => [base, position]
  | paren _ body _ => [body]
  | cast _ type body => [type, body]
  | prefixed _ _ operand => [operand]
  | binary _ left right => [left, right]
  | conditional test yes no => [test, yes, no]

theorem sizeOf_part_lt {p c : Phrase} (h : c ∈ p.parts) : sizeOf c < sizeOf p := by
  cases p with
  | call id start args stop | create start type args stop =>
    have : sizeOf c < sizeOf args := List.sizeOf_lt_of_mem h
    simp
    omega
  | invoke base id args stop =>
    rcases List.mem_cons.mp h with rfl | member
    · simp
      omega
    · have := List.sizeOf_lt_of_mem member
      simp
      omega
  | literal | name | self => cases h
  | _ =>
    simp only [parts, List.mem_cons, List.not_mem_nil, or_false] at h
    rcases h with rfl | rfl | rfl <;> simp <;> omega

/-- A phrase and the phrases in it, each behind those that it is made of. -/
def postorder (p : Phrase) : List Phrase :=
  p.parts.attach.flatMap (fun c => c.val.postorder) ++ [p]
termination_by sizeOf p
decreasing_by exact sizeOf_part_lt c.property

theorem postorder_eq (p : Phrase) : p.postorder = p.parts.flatMap postorder ++ [p] := by
  rw [postorder, List.flatMap_subtype (g := postorder) fun _ _ => rfl, List.unattach_attach]

/-! ## The first misuse -/

/-- A chain of names, with parentheses at any level. -/
inductive IsChain : Phrase → Prop
  | name {id range} : IsChain (.name id range)
  | member {base id range} (chain : IsChain base) : IsChain (.member base id range)
  | paren {start body stop} (chain : IsChain body) : IsChain (.paren start body stop)

/-- The type of a cast and the qualifier of `this` and `super` are class names. -/
def Proper : Phrase → Prop
  | cast _ type _ => type.IsChain
  | selfOf base _ _ => base.IsChain
  | _ => True

/-- The misuse at the root. -/
def misuse? : Phrase → Option Misuse
  | cast start type _ => if type.dotted?.isSome then none else some (.castType start)
  | selfOf base word range =>
    if base.dotted?.isSome then none else some (.selfQualifier word range.start)
  | _ => none

theorem isSome_dotted_iff {p : Phrase} : p.dotted?.isSome = true ↔ p.IsChain := by
  constructor
  · intro dotted
    match p with
    | name .. => exact .name
    | member base id range =>
      rw [dotted?, Option.isSome_map] at dotted
      exact .member (isSome_dotted_iff.mp dotted)
    | paren _ body _ => exact .paren (isSome_dotted_iff.mp dotted)
  · intro chain
    induction chain with
    | name => rfl
    | member chain ih => rwa [dotted?, Option.isSome_map]
    | paren chain ih => exact ih

theorem misuse_eq_none_iff {p : Phrase} : p.misuse? = none ↔ p.Proper := by
  cases p with
  | cast | selfOf => simp [misuse?, Proper, isSome_dotted_iff]
  | _ => simp [misuse?, Proper]

theorem fault_toExprs (ps : List Phrase) :
    fault? (toExprs ps) = ps.findSome? fun p => fault? p.toExpr := by
  induction ps with
  | nil => rfl
  | cons p ps ih =>
    rw [List.findSome?_cons, ← ih, toExprs]
    cases p.toExpr with
    | error e => rfl
    | ok e => cases toExprs ps <;> rfl

/-- A phrase is looked at behind its constituents, and these from left to right. -/
theorem fault_toExpr_step (p : Phrase) : fault? p.toExpr =
    (p.parts.findSome? fun c => fault? c.toExpr).or p.misuse? := by
  cases p with
  | literal | name | self => rfl
  | member base | prefixed _ _ base | paren _ base =>
    simp only [parts, List.findSome?_cons, List.findSome?_nil, toExpr, misuse?]
    cases base.toExpr <;> rfl
  | selfOf base =>
    simp only [parts, List.findSome?_cons, List.findSome?_nil, toExpr, misuse?]
    cases base.toExpr <;> cases base.dotted? <;> rfl
  | call _ _ args | create _ _ args =>
    simp only [parts, ← fault_toExprs, toExpr, misuse?]
    cases toExprs args <;> rfl
  | invoke base _ args =>
    simp only [parts, List.findSome?_cons, ← fault_toExprs, toExpr, misuse?]
    cases base.toExpr <;> cases toExprs args <;> rfl
  | index left right | binary _ left right =>
    simp only [parts, List.findSome?_cons, List.findSome?_nil, toExpr, misuse?]
    cases left.toExpr <;> cases right.toExpr <;> rfl
  | cast _ type body =>
    simp only [parts, List.findSome?_cons, List.findSome?_nil, toExpr, misuse?]
    cases type.toExpr <;> cases body.toExpr <;> cases type.dotted? <;> rfl
  | conditional test yes no =>
    simp only [parts, List.findSome?_cons, List.findSome?_nil, toExpr, misuse?]
    cases test.toExpr <;> cases yes.toExpr <;> cases no.toExpr <;> rfl

theorem findSome_flatMap {α β γ : Type} (f : β → Option γ) (g : α → List β) (l : List α) :
    (l.flatMap g).findSome? f = l.findSome? fun a => (g a).findSome? f := by
  simp only [← List.head?_filterMap, List.filterMap_flatMap, List.head?_flatMap]

theorem findSome_congr {α β : Type} {f g : α → Option β} {l : List α}
    (same : ∀ a ∈ l, f a = g a) : l.findSome? f = l.findSome? g := by
  rw [← List.head?_filterMap, List.filterMap_congr same, List.head?_filterMap]

/-- The error of a phrase is the first misuse in post-order. -/
theorem fault_toExpr (p : Phrase) : fault? p.toExpr = p.postorder.findSome? misuse? := by
  induction p using postorder.induct with
  | case1 p ih =>
  -- what the constituents answer one by one, their post-orders answer one after the other
  have inside : (p.parts.findSome? fun c => fault? c.toExpr) =
      (p.parts.flatMap postorder).findSome? misuse? := by
    rw [findSome_flatMap]
    exact findSome_congr fun c member => ih ⟨c, member⟩
  rw [fault_toExpr_step, postorder_eq, List.findSome?_append, List.findSome?_singleton, inside]

theorem toExpr_ok_iff {p : Phrase} :
    (∃ e, p.toExpr = .ok e) ↔ ∀ q ∈ p.postorder, q.Proper := by
  rw [← fault_eq_none_iff, fault_toExpr, List.findSome?_eq_none_iff]
  simp only [misuse_eq_none_iff]

theorem toExpr_error {p q : Phrase} {front back : List Phrase} {m : Misuse}
    (order : p.postorder = front ++ q :: back) (before : ∀ x ∈ front, x.Proper)
    (misuse : q.misuse? = some m) : p.toExpr = .error m := by
  rw [← fault_eq_some_iff, fault_toExpr, List.findSome?_eq_some_iff]
  exact ⟨front, q, back, order, misuse, fun x member => misuse_eq_none_iff.mpr (before x member)⟩

/-! ## The lexemes of constituents -/

theorem ReadsFurther.of_mem {ps : List Phrase} {p : Phrase} {ts : List Lexeme}
    (h : ReadsFurther ps ts) (member : p ∈ ps) : ∃ us, us <:+: ts ∧ p.Reads us := by
  induction ps generalizing ts with
  | nil => cases member
  | cons q ps ih =>
    obtain ⟨c, us, vs, rfl, -, reads, further⟩ := h
    rcases List.mem_cons.mp member with rfl | member
    · exact ⟨us, ⟨[c], vs, rfl⟩, reads⟩
    · obtain ⟨ws, within, reads⟩ := ih further member
      exact ⟨ws, List.infix_cons (within.trans (List.suffix_append us vs).isInfix), reads⟩

theorem ReadsArgs.of_mem {ps : List Phrase} {p : Phrase} {ts : List Lexeme}
    (h : ReadsArgs ps ts) (member : p ∈ ps) : ∃ us, us <:+: ts ∧ p.Reads us := by
  cases ps with
  | nil => cases member
  | cons q ps =>
    obtain ⟨us, vs, rfl, reads, further⟩ := h
    rcases List.mem_cons.mp member with rfl | member
    · exact ⟨us, (List.prefix_append us vs).isInfix, reads⟩
    · obtain ⟨ws, within, reads⟩ := further.of_mem member
      exact ⟨ws, within.trans (List.suffix_append us vs).isInfix, reads⟩

/-- A constituent reads some of the lexemes of its phrase, without a gap. -/
theorem Reads.part {p c : Phrase} {ts : List Lexeme} (h : p.Reads ts) (member : c ∈ p.parts) :
    ∃ us, us <:+: ts ∧ c.Reads us := by
  cases p with
  | literal | name | self => cases member
  | member base | selfOf base =>
    obtain ⟨us, d, rfl, -, -, reads⟩ := h
    cases List.mem_singleton.mp member
    exact ⟨us, (List.prefix_append ..).isInfix, reads⟩
  | call _ _ args =>
    obtain ⟨f, l, us, r, rfl, -, -, -, reads, -⟩ := h
    obtain ⟨vs, within, reads⟩ := reads.of_mem member
    exact ⟨vs, within.trans ⟨[f, l], [r], rfl⟩, reads⟩
  | create _ _ args =>
    obtain ⟨ns, l, us, r, rfl, -, -, -, reads, -⟩ := h
    obtain ⟨vs, within, reads⟩ := reads.of_mem member
    exact ⟨vs, within.trans ⟨ns ++ [l], [r], by simp⟩, reads⟩
  | invoke base _ args =>
    obtain ⟨bs, d, f, l, us, r, rfl, -, -, -, argReads, -, -, -, reads⟩ := h
    rcases List.mem_cons.mp member with rfl | member
    · exact ⟨bs, (List.prefix_append ..).isInfix, reads⟩
    · obtain ⟨vs, within, reads⟩ := argReads.of_mem member
      exact ⟨vs, within.trans ⟨bs ++ [d, f, l], [r], by simp⟩, reads⟩
  | index base position =>
    obtain ⟨bs, l, us, r, rfl, -, -, -, -, baseReads, reads⟩ := h
    rcases List.mem_pair.mp member with rfl | rfl
    · exact ⟨bs, (List.prefix_append ..).isInfix, baseReads⟩
    · exact ⟨us, ⟨bs ++ [l], [r], by simp⟩, reads⟩
  | paren _ body =>
    obtain ⟨l, us, r, rfl, -, -, -, -, reads⟩ := h
    cases List.mem_singleton.mp member
    exact ⟨us, ⟨[l], [r], rfl⟩, reads⟩
  | cast _ type body =>
    obtain ⟨l, us, r, bs, rfl, -, -, -, typeReads, -, reads⟩ := h
    rcases List.mem_pair.mp member with rfl | rfl
    · exact ⟨us, ⟨[l], r :: bs, rfl⟩, typeReads⟩
    · exact ⟨bs, ⟨l :: (us ++ [r]), [], by simp⟩, reads⟩
  | prefixed _ _ operand =>
    obtain ⟨o, us, rfl, -, -, -, reads⟩ := h
    cases List.mem_singleton.mp member
    exact ⟨us, (List.suffix_cons ..).isInfix, reads⟩
  | binary _ left right =>
    obtain ⟨ls, o, rs, rfl, -, -, leftReads, -, reads⟩ := h
    rcases List.mem_pair.mp member with rfl | rfl
    · exact ⟨ls, (List.prefix_append ..).isInfix, leftReads⟩
    · exact ⟨rs, ⟨ls ++ [o], [], by simp⟩, reads⟩
  | conditional test yes no =>
    obtain ⟨us, q, vs, c, ws, rfl, -, -, -, testReads, yesReads, reads⟩ := h
    simp only [parts, List.mem_cons, List.not_mem_nil, or_false] at member
    rcases member with rfl | rfl | rfl
    · exact ⟨us, (List.prefix_append ..).isInfix, testReads⟩
    · exact ⟨vs, ⟨us ++ [q], c :: ws, by simp⟩, yesReads⟩
    · exact ⟨ws, ⟨us ++ q :: (vs ++ [c]), [], by simp⟩, reads⟩

theorem Reads.of_mem_postorder {p q : Phrase} {ts : List Lexeme} (h : p.Reads ts)
    (member : q ∈ p.postorder) : ∃ us, us <:+: ts ∧ q.Reads us := by
  induction p using postorder.induct generalizing ts with
  | case1 p ih =>
  rw [postorder_eq, List.mem_append, List.mem_singleton, List.mem_flatMap] at member
  rcases member with ⟨c, part, inner⟩ | rfl
  · obtain ⟨us, within, reads⟩ := h.part part
    obtain ⟨vs, within', reads⟩ := ih ⟨c, part⟩ reads inner
    exact ⟨vs, within'.trans within, reads⟩
  · exact ⟨ts, List.infix_rfl, h⟩

end Phrase

end NullSafeEq
