import NullSafeEq.Proofs.Reading.Assembly
import NullSafeEq.Proofs.Rewriting.Graft
import NullSafeEq.Proofs.Tree.Sites

/-!
# Canonical texts lay out their expressions

The canonical text of a well-formed expression is one of its layouts. The same holds with texts in
the place of some nodes, when each of them lays out an expression that binds at least as tightly
as the node. So the canonical text of a well-formed expression is read as this expression.
-/
namespace NullSafeEq

open Lexeme (Mode)

/-- At every path of the expression there is neither a text nor a graft, or the text lays out the
graft, which binds at least as tightly as the node. -/
def Agree (patch : Patch) (g : Grafts) (e : Expr) : Prop :=
  ∀ path node, e.at? path = some node → patch path = none ∧ g path = none ∨
    ∃ text new items, patch path = some text ∧ g path = some new ∧ node.level ≤ new.level ∧
      LaysOut .operand items new ∧ typeset items = text.toList

namespace Agree
variable {patch : Patch} {g : Grafts} {e c : Expr} {i : Nat}

theorem under (h : Agree patch g e) (child : e.children[i]? = some c) :
    Agree (patch.under i) (g.under i) c := by
  intro path node found
  apply h (i :: path) node
  rw [Expr.at?, child]
  exact found

/-- Grafts never loosen an expression. -/
theorem level_le (h : Agree patch g e) : e.level ≤ (e.graft g).level := by
  rcases h [] e rfl with ⟨-, none⟩ | ⟨_, new, _, -, some, le, -⟩
  · rw [Expr.graft_of_none none, Expr.level_mapChildren]
  · rwa [Expr.graft_of_some some]

theorem leveled (h : Agree patch g e) (leveled : e.Leveled) (none : g [] = none) :
    (e.graft g).Leveled := by
  rw [Expr.graft_of_none none]
  exact Expr.leveled_mapChildren leveled fun i c child => (h.under child).level_le

end Agree

theorem takes_op (o : BinaryOp) : Mode.operator.Takes (.op o) := by
  cases o <;> exact nofun

theorem takes_self {mode : Mode} (word : SelfWord) (noType : mode ≠ .typeName) :
    mode.Takes (.self word) := by
  rw [Mode.takes_word rfl]
  cases word with
  | this =>
    refine ⟨⟨'t', "his".toList, rfl, by decide, by decide⟩, ?_⟩
    cases mode <;> first | rfl | exact (noType rfl).elim
  | super =>
    refine ⟨⟨'s', "uper".toList, rfl, by decide, by decide⟩, ?_⟩
    cases mode <;> first | rfl | exact (noType rfl).elim

/-! ## Texts that are layouts -/

/-- Some layout of the expression is the text. -/
def Prints (text : String) (e : Expr) : Prop :=
  ∃ items, LaysOut .operand items e ∧ typeset items = text.toList

/-- Some layout of the pieces of a production is the text; after it the next token is found in
the mode `next`. -/
def PrintsParts (mode : Mode) (text : String) (ps : List Part) (next : Mode) : Prop :=
  ∃ items, LaysParts mode items ps next ∧ typeset items = text.toList

namespace PrintsParts
variable {mode next last : Mode} {text back : String} {ps qs : List Part}

theorem append (h : PrintsParts mode text ps next) (rest : PrintsParts next back qs last)
    (noName : next ≠ .typeName) : PrintsParts mode (text ++ back) (ps ++ qs) last := by
  obtain ⟨is, front, same⟩ := h
  obtain ⟨js, further, sameRest⟩ := rest
  refine ⟨is ++ js, front.append further noName, ?_⟩
  rw [typeset_append, same, sameRest, String.toList_append]

/-- One blank in front. -/
theorem spaced (h : PrintsParts mode text ps next) (some : ps ≠ []) :
    PrintsParts mode (" " ++ text) ps next := by
  obtain ⟨items, lays, same⟩ := h
  refine ⟨indent [' '] items, lays.indent blank_one, ?_⟩
  rw [typeset_indent _ (lays.ne_nil some), same, String.toList_append]
  rfl

theorem token {t : Token} (takes : mode.Takes t) :
    PrintsParts mode t.text [.token t] (mode.after t) :=
  ⟨[⟨[], t⟩], .token takes blank_nil, by simp⟩

theorem className {n : DottedName} (valid : n.Valid) (plain : mode.Plain) :
    PrintsParts mode n.text [.className n.text] .operator :=
  ⟨n.items, n.laysClassName valid plain, n.typeset_items⟩

theorem newType {words : List String} (some : words ≠ []) (each : ∀ w ∈ words, IsIdentifier w)
    (plain : mode.Plain) : PrintsParts mode ("new " ++ String.intercalate "." words)
      [.newType (String.intercalate "." words)] .typeTail :=
  ⟨newItems words, laysNewType some each plain, typeset_newItems some⟩

end PrintsParts

namespace Prints
variable {text : String} {e : Expr}

/-- What prints the production of an expression prints the expression. -/
theorem ofParts {whole : String} {next : Mode} (leveled : e.Leveled)
    (h : PrintsParts .operand text e.production next) (same : whole.toList = text.toList) :
    Prints whole e := by
  obtain ⟨items, lays, typed⟩ := h
  exact ⟨items, .ofParts leveled lays, typed.trans same.symm⟩

/-- An expression in its place in a production. -/
theorem sub {mode : Mode} (h : Prints text e) (plain : mode.Plain) (slot : Nat) :
    PrintsParts mode text [.sub slot e] .operator := by
  obtain ⟨items, lays, same⟩ := h
  exact ⟨items, (lays.plain (.inl rfl) plain).sub plain slot, same⟩

end Prints

theorem args_ne_nil {iss : List (List Item)} {es : List Expr}
    (lay : List.Forall₂ (LaysOut .operand) iss es) : ∀ is ∈ iss, is ≠ [] := by
  induction lay with
  | nil => nofun
  | cons lays _ ih => exact List.forall_mem_cons.mpr ⟨lays.ne_nil, ih⟩

theorem exists_layouts {texts : List String} {es : List Expr} (h : List.Forall₂ Prints texts es) :
    ∃ iss, List.Forall₂ (LaysOut .operand) iss es ∧
      iss.map (fun is => String.ofList (typeset is)) = texts := by
  induction h with
  | nil => exact ⟨[], .nil, rfl⟩
  | cons first _ ih =>
    obtain ⟨is, lays, same⟩ := first
    obtain ⟨iss, further, sameRest⟩ := ih
    refine ⟨is :: iss, .cons lays further, ?_⟩
    rw [List.map_cons, same, sameRest, String.ofList_toList]

theorem PrintsParts.bracketed {mode : Mode} {texts : List String} {es : List Expr} (slot : Nat)
    (h : List.Forall₂ Prints texts es) :
    PrintsParts mode (Expr.argumentList texts) (Expr.bracketed slot es) .operator := by
  obtain ⟨iss, lays, same⟩ := exists_layouts h
  refine ⟨bracketItems iss, laysParts_bracketed slot lays, ?_⟩
  rw [typeset_bracketItems (args_ne_nil lays), same]

theorem DottedName.prints_call {n : DottedName} {texts : List String} {args : List Expr}
    (valid : n.Valid) (h : List.Forall₂ Prints texts args) :
    Prints (n.text ++ Expr.argumentList texts) (n.call args) := by
  obtain ⟨iss, lays, same⟩ := exists_layouts h
  refine ⟨n.items ++ bracketItems iss, n.laysCall valid (.inl rfl) lays, ?_⟩
  rw [typeset_append, n.typeset_items, typeset_bracketItems (args_ne_nil lays), same,
    String.toList_append]

/-! ## The canonical text of a node -/

section
variable {patch : Patch} {f : Nat → Expr → Expr} {e : Expr}

theorem prints_each (slot : Nat) (es : List Expr) (each : ∀ i c, es[i]? = some c →
      Prints (c.renderWith (patch.under (slot + i))) (f (slot + i) c)) :
    List.Forall₂ Prints (Expr.renderEach patch slot es) (Expr.mapArgs f slot es) := by
  induction es generalizing slot with
  | nil => exact .nil
  | cons e es ih =>
    refine .cons (each 0 e rfl) (ih (slot + 1) fun i c child => ?_)
    have := each (i + 1) c child
    rwa [← Nat.add_assoc, Nat.add_right_comm] at this

/-- Where the texts of the children print other expressions, the text of the node prints the node
with these as its children, as far as they fit there. -/
theorem prints_node (noText : patch [] = none) (worded : e.Worded)
    (tight : (e.mapChildren f).Leveled)
    (child : ∀ i c, e.children[i]? = some c → Prints (c.renderWith (patch.under i)) (f i c)) :
    Prints (e.renderWith patch) (e.mapChildren f) := by
  have dot : PrintsParts .operator "." [.token .dot] .member := .token (by rintro ⟨⟩)
  have opens : PrintsParts .operand "(" [.token .openParen] .operand := .token (by rintro ⟨⟩)
  have closes : PrintsParts .operator ")" [.token .closeParen] .operator := .token (by rintro ⟨⟩)
  cases e with
  | literal kind text sp =>
    have word := PrintsParts.token ((Lexeme.takes_literal (.inl rfl)).mpr worded)
    exact .ofParts trivial word (by simp [Expr.renderWith, noText, Token.text])
  | name id sp =>
    have word := PrintsParts.token ((Lexeme.takes_name_plain (.inl rfl)).mpr worded)
    exact .ofParts trivial word (by simp [Expr.renderWith, noText, Token.text])
  | self word outer sp =>
    cases outer with
    | none =>
      have self := PrintsParts.token (takes_self word (show Mode.operand ≠ .typeName by decide))
      exact .ofParts trivial self
        (by simp [Expr.renderWith, noText, Token.text, Expr.qualifiedSelf])
    | some outer =>
      obtain ⟨n, valid, rfl⟩ := worded
      have qualifier := PrintsParts.className valid (show Mode.operand.Plain from .inl rfl)
      have self := PrintsParts.token (takes_self word (show Mode.member ≠ .typeName by decide))
      exact .ofParts trivial (qualifier.append (dot.append self (by decide)) (by decide))
        (by simp [Expr.renderWith, noText, Token.text, Expr.qualifiedSelf])
  | member q id sp =>
    have qualifier := (child 0 q rfl).sub (.inl rfl) 0
    have word := PrintsParts.token (Lexeme.takes_name_member.mpr worded)
    exact .ofParts tight (qualifier.append (dot.append word (by decide)) (by decide))
      (by simp [Expr.renderWith, noText, Token.text])
  | call id args sp =>
    have each := prints_each 0 args fun i c found => by
      rw [Nat.zero_add]
      exact child i c found
    have word : PrintsParts .operand id [.token (.name id)] .operator :=
      .token ((Lexeme.takes_name_plain (.inl rfl)).mpr worded)
    exact .ofParts tight (word.append (.bracketed 0 each) (by decide))
      (by simp [Expr.renderWith, noText])
  | invoke q id args sp =>
    have each := prints_each 1 args fun i c found => by
      rw [Nat.add_comm]
      exact child (i + 1) c found
    have qualifier := (child 0 q rfl).sub (.inl rfl) 0
    have word : PrintsParts .member id [.token (.name id)] .operator :=
      .token (Lexeme.takes_name_member.mpr worded)
    have called := word.append (.bracketed 1 each) (by decide)
    exact .ofParts tight (qualifier.append (dot.append called (by decide)) (by decide))
      (by simp [Expr.renderWith, noText])
  | binary op l r sp =>
    have left := (child 0 l rfl).sub (.inl rfl) 0
    have operator : PrintsParts .operator (" " ++ op.text) [.token (.op op)] .operand :=
      .spaced (.token (takes_op op)) (List.cons_ne_nil _ _)
    have right := ((child 1 r rfl).sub (.inl rfl) 1).spaced (List.cons_ne_nil _ _)
    exact .ofParts tight (left.append (operator.append right (by decide)) (by decide))
      (by simp [Expr.renderWith, noText])
  | prefixed op e sp =>
    have sign : PrintsParts .operand op.text [.token op.token] .operand := by
      cases op <;> exact .token (by rintro ⟨⟩)
    exact .ofParts tight (sign.append ((child 0 e rfl).sub (.inl rfl) 0) (by decide))
      (by simp [Expr.renderWith, noText])
  | conditional t y n sp =>
    have test := (child 0 t rfl).sub (.inl rfl) 0
    have yes := ((child 1 y rfl).sub (.inl rfl) 1).spaced (List.cons_ne_nil _ _)
    have no := ((child 2 n rfl).sub (.inl rfl) 2).spaced (List.cons_ne_nil _ _)
    have asks : PrintsParts .operator (" " ++ "?") [.token .question] .operand :=
      .spaced (.token (by rintro ⟨⟩)) (List.cons_ne_nil _ _)
    have colon : PrintsParts .operator (" " ++ ":") [.token .colon] .operand :=
      .spaced (.token (by rintro ⟨⟩)) (List.cons_ne_nil _ _)
    have branches := yes.append (colon.append no (by decide)) (by decide)
    exact .ofParts tight (test.append (asks.append branches (by decide)) (by decide))
      (by simp [Expr.renderWith, noText])
  | paren e sp =>
    have body := (child 0 e rfl).sub (.inl rfl) 0
    exact .ofParts tight (opens.append (body.append closes (by decide)) (by decide))
      (by simp [Expr.renderWith, noText])
  | cast type e sp =>
    obtain ⟨n, valid, rfl⟩ := worded
    have type := PrintsParts.className valid (show Mode.operand.Plain from .inl rfl)
    have body := ((child 0 e rfl).sub (.inr rfl) 0).spaced (List.cons_ne_nil _ _)
    have behind := type.append (closes.append body (by decide)) (by decide)
    exact .ofParts tight (opens.append behind (by decide))
      (by simp [Expr.renderWith, noText])
  | index a i sp =>
    have array := (child 0 a rfl).sub (.inl rfl) 0
    have position := (child 1 i rfl).sub (.inl rfl) 1
    have opens : PrintsParts .operator "[" [.token .openSquare] .operand := .token (by rintro ⟨⟩)
    have closes : PrintsParts .operator "]" [.token .closeSquare] .operator := .token (by rintro ⟨⟩)
    have behind := opens.append (position.append closes (by decide)) (by decide)
    exact .ofParts tight (array.append behind (by decide))
      (by simp [Expr.renderWith, noText])
  | create type args sp =>
    obtain ⟨words, some, each, rfl⟩ := worded
    have args := prints_each 0 args fun i c found => by
      rw [Nat.zero_add]
      exact child i c found
    have new := PrintsParts.newType some each (show Mode.operand.Plain from .inl rfl)
    exact .ofParts tight (new.append (.bracketed 0 args) (by decide))
      (by simp [Expr.renderWith, noText])

end

/-! ## The canonical text of a tree -/

/-- The text lays out the grafted expression. -/
def Renders (patch : Patch) (g : Grafts) (e : Expr) : Prop :=
  ∃ items, LaysOut .operand items (e.graft g) ∧ typeset items = (e.renderWith patch).toList

/-- The canonical text of a well-formed expression, with texts in the place of some nodes, lays
out the expression with the corresponding grafts. -/
theorem renders {e : Expr} {patch : Patch} {g : Grafts} (wf : e.WellFormed)
    (agree : Agree patch g e) : Renders patch g e := by
  induction e using Expr.induct_children generalizing patch g with
  | step e ih =>
  obtain ⟨leveled, worded, below⟩ := wf
  rcases agree [] e rfl with ⟨noText, noGraft⟩ | ⟨text, new, items, patched, grafted, -, lays, same⟩
  · have tight := agree.leveled leveled noGraft
    unfold Renders
    rw [Expr.graft_of_none noGraft] at tight ⊢
    refine prints_node noText worded tight fun i c found => ?_
    have member := List.mem_of_getElem? found
    exact ih c member (below c member) (agree.under found)
  · refine ⟨items, ?_, ?_⟩
    · rwa [Expr.graft_of_some grafted]
    · rw [same]
      cases e <;> simp only [Expr.renderWith, patched]

/-- The canonical text of a well-formed expression lays out the expression. -/
theorem lays_render {e : Expr} (wf : e.WellFormed) :
    ∃ items, LaysOut .operand items e ∧ typeset items = e.render.toList := by
  have agree : Agree Patch.empty (fun _ => none) e := fun _ _ _ => .inl ⟨rfl, rfl⟩
  obtain ⟨items, lays, same⟩ := renders wf agree
  rw [Expr.graft_nothing] at lays
  exact ⟨items, lays, same⟩

/-! ## Reading and writing are inverse -/

/-- The canonical text of a well-formed expression is read as this expression. -/
theorem read_render {e : Expr} (wf : e.WellFormed) :
    ∃ t, Tree.read e.render = .ok t ∧ t.root.unspanned = e.unspanned := by
  obtain ⟨items, lays, same⟩ := lays_render wf
  exact lays.read_text same

/-- Reading gives well-formed expressions only, and it undoes writing: on every well-formed
expression, and so on whatever has been read. -/
theorem read_inverts_render :
    (∀ text t, Tree.read text = .ok t → t.root.WellFormed) ∧
    (∀ e : Expr, e.WellFormed →
      ∃ t, Tree.read e.render = .ok t ∧ t.root.unspanned = e.unspanned) ∧
    (∀ text t, Tree.read text = .ok t →
      ∃ again, Tree.read t.root.render = .ok again ∧ again.root.unspanned = t.root.unspanned) :=
  ⟨fun _ _ read => wellFormed_of_read read, fun _ wf => read_render wf,
    fun _ _ read => read_render (wellFormed_of_read read)⟩

/-- `--a` is a sign on a sign. -/
theorem read_inverts_render_signs :
    (Expr.prefixed .negate (.prefixed .negate (.name "a" none) none) none).render = "--a" ∧
      ∃ t, Tree.read "--a" = .ok t ∧ t.root.unspanned =
        .prefixed .negate (.prefixed .negate (.name "a" none) none) none := by
  have name : (Expr.name "a" none).WellFormed :=
    .node trivial ⟨⟨'a', [], rfl, by decide, by decide⟩, by decide⟩ nofun
  have inner : (Expr.prefixed .negate (.name "a" none) none).WellFormed :=
    .node (show 7 ≤ 9 by decide) trivial (List.forall_mem_singleton.mpr name)
  have outer : (Expr.prefixed .negate (.prefixed .negate (.name "a" none) none) none).WellFormed :=
    .node (Nat.le_refl 7) trivial (List.forall_mem_singleton.mpr inner)
  exact ⟨rfl, read_inverts_render.2.1 _ outer⟩

end NullSafeEq
