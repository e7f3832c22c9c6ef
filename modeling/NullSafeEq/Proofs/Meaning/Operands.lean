import NullSafeEq.Proofs.Meaning.Evaluation

/-!
# Operands of calls

A call takes references, so a truth value that is an operand of a call is boxed: some object stands
for it. Evaluation is defined with any account of what the operands of calls stand for; when they
stand for themselves it is the evaluation without boxing. What the parts of the idioms evaluate to
does not depend on the account.
-/
namespace NullSafeEq

/-- What an operand of a call stands for when truth values are boxed. -/
def Outcome.boxed {Object : Type} (box : Bool → Object) : Outcome Object → Outcome Object
  | truth b => reference (.object (box b))
  | o => o

/-- An outcome may become another one when it throws. -/
def Outcome.Approximates {Object : Type} (o o' : Outcome Object) : Prop := o = .thrown ∨ o = o'

namespace Outcome.Approximates
variable {Object : Type} {l l' r r' : Outcome Object}

theorem negated (h : l.Approximates l') : l.negated.Approximates l'.negated := by
  rcases h with rfl | rfl
  · exact .inl rfl
  · exact .inr rfl

theorem compared [DecidableEq Object] (equal : Bool) (left : l.Approximates l')
    (right : r.Approximates r') : (l.compared equal r).Approximates (l'.compared equal r') := by
  rcases left with rfl | rfl
  · exact .inl rfl
  rcases right with rfl | rfl
  · cases l <;> exact .inl rfl
  · exact .inr rfl

theorem shortCircuit (stop : Bool) (left : l.Approximates l') (right : r.Approximates r') :
    (l.shortCircuit stop r).Approximates (l'.shortCircuit stop r') := by
  rcases left with rfl | rfl
  · exact .inl rfl
  cases l with
  | truth b =>
    simp only [Outcome.shortCircuit]
    split
    · exact .inr rfl
    · exact right
  | _ => exact .inl rfl

theorem choose {t t' : Outcome Object} (test : t.Approximates t') (yes : l.Approximates l')
    (no : r.Approximates r') : (t.choose l r).Approximates (t'.choose l' r') := by
  rcases test with rfl | rfl
  · exact .inl rfl
  cases t with
  | truth b =>
    cases b with
    | true => exact yes
    | false => exact no
  | _ => exact .inl rfl

end Outcome.Approximates

namespace Environment
variable {Object : Type}

theorem methodCall_approximates (env : Environment Object) (box : Bool → Object)
    {q q' a a' : Outcome Object} (qualifier : q.Approximates q') (argument : a.Approximates a') :
    (env.methodCall q a).Approximates (env.methodCall (q'.boxed box) (a'.boxed box)) := by
  rcases qualifier with rfl | rfl
  · exact .inl rfl
  rcases argument with rfl | rfl
  · rcases q with (_ | _) | _ | _ <;> exact .inl rfl
  · rcases q with (_ | _) | _ | _ <;> rcases a with _ | _ | _ <;>
      first | exact .inl rfl | exact .inr rfl

variable [DecidableEq Object]

theorem helperCall_approximates (env : Environment Object) (box : Bool → Object)
    {l l' r r' : Outcome Object} (left : l.Approximates l') (right : r.Approximates r') :
    (env.helperCall l r).Approximates (env.helperCall (l'.boxed box) (r'.boxed box)) := by
  rcases left with rfl | rfl
  · exact .inl rfl
  rcases right with rfl | rfl
  · rcases l with (_ | _) | _ | _ <;> exact .inl rfl
  · rcases l with (_ | _) | _ | _ <;> rcases r with _ | _ | _ <;>
      first | exact .inl rfl | exact .inr rfl

mutual

/-- The outcome of an expression, for the names of the equality method and of the helper, where
`stands` says what the operands of their calls stand for. -/
def evalWith (env : Environment Object) (stands : Outcome Object → Outcome Object)
    (method : String) (helper : DottedName) : Expr → Outcome Object
  | .literal .null _ _ => .null
  | .literal .boolean text _ => .truth (text = "true")
  | .name id _ => env.valueOf (.name id)
  | .self word outer _ => env.valueOf (.self word outer)
  | .member q id s =>
    match q.valuePath? with
    | some base => env.valueOf (.member base id)
    | none => env.other (.member q id s)
  | .call id args s =>
    match env.evalAllWith stands method helper args with
    | [l, r] =>
      if helper.isSpelled (.name id none) then env.helperCall (stands l) (stands r)
      else env.other (.call id args s)
    | _ => env.other (.call id args s)
  | .invoke q id args s =>
    match env.evalAllWith stands method helper args with
    | [a] =>
      if id = method then
        env.methodCall (stands (env.evalWith stands method helper q)) (stands a)
      else env.other (.invoke q id args s)
    | [l, r] =>
      if helper.isSpelled (.member q id none) then env.helperCall (stands l) (stands r)
      else env.other (.invoke q id args s)
    | _ => env.other (.invoke q id args s)
  | .binary .or l r _ =>
    (env.evalWith stands method helper l).shortCircuit true (env.evalWith stands method helper r)
  | .binary .and l r _ =>
    (env.evalWith stands method helper l).shortCircuit false (env.evalWith stands method helper r)
  | .binary .eq l r _ =>
    (env.evalWith stands method helper l).compared true (env.evalWith stands method helper r)
  | .binary .ne l r _ =>
    (env.evalWith stands method helper l).compared false (env.evalWith stands method helper r)
  | .prefixed .not e _ => (env.evalWith stands method helper e).negated
  | .conditional t y n _ =>
    (env.evalWith stands method helper t).choose (env.evalWith stands method helper y)
      (env.evalWith stands method helper n)
  | .paren e _ => env.evalWith stands method helper e
  | e => env.other e

/-- The outcomes of several expressions. -/
def evalAllWith (env : Environment Object) (stands : Outcome Object → Outcome Object)
    (method : String) (helper : DottedName) : List Expr → List (Outcome Object)
  | [] => []
  | e :: es => env.evalWith stands method helper e :: env.evalAllWith stands method helper es

end

variable {env : Environment Object} {method : String} {helper : DottedName}
variable {stands : Outcome Object → Outcome Object}

theorem evalAllWith_eq_map (es : List Expr) : env.evalAllWith stands method helper es =
    es.map (env.evalWith stands method helper) := by
  induction es with
  | nil => rfl
  | cons e es ih => rw [evalAllWith, ih, List.map_cons]

theorem evalAll_eq_map (es : List Expr) :
    env.evalAll method helper es = es.map (env.eval method helper) := by
  induction es with
  | nil => rfl
  | cons e es ih => rw [evalAll, ih, List.map_cons]

/-- Without boxing operands stand for themselves. -/
theorem eval_eq_evalWith (e : Expr) :
    env.eval method helper e = env.evalWith id method helper e := by
  induction e using Expr.induct_children with
  | step e ih =>
  have all : ∀ es : List Expr, (∀ x ∈ es, x ∈ e.children) →
      env.evalAll method helper es = env.evalAllWith id method helper es := by
    intro es inside
    rw [evalAll_eq_map, evalAllWith_eq_map]
    exact List.map_congr_left fun x member => ih x (inside x member)
  cases e with
  | literal kind => cases kind <;> rfl
  | call id args s =>
    rw [eval, evalWith, all args fun _ => fun h => h]
    rfl
  | invoke q id args s =>
    rw [eval, evalWith, all args fun _ => List.mem_cons_of_mem _, ih q List.mem_cons_self]
    rfl
  | binary op l r =>
    have left := ih l List.mem_cons_self
    have right := ih r (List.mem_cons_of_mem _ List.mem_cons_self)
    cases op with
    | or | and | eq | ne => rw [eval, evalWith, left, right]
    | _ => rfl
  | prefixed op o =>
    cases op with
    | not => rw [eval, evalWith, ih o List.mem_cons_self]
    | _ => rfl
  | conditional t y n =>
    rw [eval, evalWith, ih t List.mem_cons_self, ih y (List.mem_cons_of_mem _ List.mem_cons_self),
      ih n (List.mem_cons_of_mem _ (List.mem_cons_of_mem _ List.mem_cons_self))]
  | paren o => rw [eval, evalWith, ih o List.mem_cons_self]
  | _ => rfl

/-- Boxing only gives an outcome to what throws without it. -/
theorem eval_approximates (box : Bool → Object) (e : Expr) :
    (env.eval method helper e).Approximates (env.evalWith (.boxed box) method helper e) := by
  induction e using Expr.induct_children with
  | step e ih =>
  cases e with
  | literal kind => cases kind <;> exact .inr rfl
  | call id args s =>
    rcases args with _ | ⟨l, _ | ⟨r, _ | ⟨_, _⟩⟩⟩
    case cons.cons.nil =>
      simp only [eval, evalWith, evalAll, evalAllWith]
      split
      next =>
        exact env.helperCall_approximates box (ih l (by simp [Expr.children]))
          (ih r (by simp [Expr.children]))
      next => exact .inr rfl
    all_goals exact .inr rfl
  | invoke q id args s =>
    rcases args with _ | ⟨a, _ | ⟨r, _ | ⟨_, _⟩⟩⟩
    case cons.nil =>
      simp only [eval, evalWith, evalAll, evalAllWith]
      split
      next =>
        exact env.methodCall_approximates box (ih q (by simp [Expr.children]))
          (ih a (by simp [Expr.children]))
      next => exact .inr rfl
    case cons.cons.nil =>
      simp only [eval, evalWith, evalAll, evalAllWith]
      split
      next =>
        exact env.helperCall_approximates box (ih a (by simp [Expr.children]))
          (ih r (by simp [Expr.children]))
      next => exact .inr rfl
    all_goals exact .inr rfl
  | binary op l r =>
    have left := ih l List.mem_cons_self
    have right := ih r (List.mem_cons_of_mem _ List.mem_cons_self)
    cases op with
    | or =>
      rw [eval, evalWith]
      exact .shortCircuit true left right
    | and =>
      rw [eval, evalWith]
      exact .shortCircuit false left right
    | eq =>
      rw [eval, evalWith]
      exact .compared true left right
    | ne =>
      rw [eval, evalWith]
      exact .compared false left right
    | _ => exact .inr rfl
  | prefixed op o =>
    cases op with
    | not =>
      rw [eval, evalWith]
      exact .negated (ih o List.mem_cons_self)
    | _ => exact .inr rfl
  | conditional t y n =>
    rw [eval, evalWith]
    exact .choose (ih t (by simp [Expr.children])) (ih y (by simp [Expr.children]))
      (ih n (by simp [Expr.children]))
  | paren o =>
    rw [eval, evalWith]
    exact ih o List.mem_cons_self
  | _ => exact .inr rfl

/-- Parentheses do not matter. -/
theorem evalWith_bare (e : Expr) :
    env.evalWith stands method helper e.bare = env.evalWith stands method helper e := by
  fun_induction Expr.bare e with
  | case1 e sp ih => rw [evalWith, ih]
  | case2 => rfl

/-- The outcome of a path is what the path denotes. -/
theorem evalWith_of_valuePath {e : Expr} {p : ValuePath} (h : e.valuePath? = some p) :
    env.evalWith stands method helper e = env.valueOf p := by
  induction e using Expr.induct_children generalizing p with
  | step e ih =>
  cases e with
  | name | self =>
    cases h
    rw [evalWith]
  | member q id =>
    obtain ⟨base, spells, rfl⟩ := Option.map_eq_some_iff.mp h
    rw [evalWith, spells]
  | paren e =>
    rw [evalWith]
    exact ih e List.mem_cons_self h
  | _ => cases h

/-- The outcome of a call of the helper. -/
theorem evalWith_call (n : DottedName) (l r : Expr) :
    env.evalWith stands method n (n.call [l, r]) =
      env.helperCall (stands (env.evalWith stands method n l))
        (stands (env.evalWith stands method n r)) := by
  have spelled := n.isSpelled_toExpr
  cases n with
  | plain id =>
    rw [DottedName.call, evalWith]
    simp only [evalAllWith]
    exact if_pos spelled
  | member outer id =>
    rw [DottedName.call, evalWith]
    simp only [evalAllWith]
    exact if_pos spelled

end Environment

end NullSafeEq
