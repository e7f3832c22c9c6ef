import NullSafeEq.Proofs.Fallible
import NullSafeEq.Proofs.Grammar.Completeness

/-!
# Phrases and expressions

A phrase in which every cast type and every qualifier of `this` and `super` is a class name is an
expression that its lexemes spell, with exact spans. Conversely lexemes that spell an expression
are read by a phrase of that expression.
-/
namespace NullSafeEq

variable {placed : Option Span → List Lexeme → Prop}

namespace SpelledParts
variable {ps qs : List Part} {slot : Nat} {e : Expr} {ts us vs : List Lexeme}

/-! ## What spells the first piece, and what the others -/

theorem token_inv {t : Token} (h : SpelledParts placed (.token t :: ps) ts) :
    ∃ l us, ts = l :: us ∧ l.token = t ∧ SpelledParts placed ps us := by
  cases h with
  | token same rest => exact ⟨_, _, rfl, same, rest⟩

theorem className_inv {text : String} (h : SpelledParts placed (.className text :: ps) ts) :
    ∃ us vs, ts = us ++ vs ∧ Lexeme.Names text us ∧ SpelledParts placed ps vs := by
  cases h with
  | className names rest => exact ⟨_, _, rfl, names, rest⟩

theorem newType_inv {type : String} (h : SpelledParts placed (.newType type :: ps) ts) :
    ∃ us vs, ts = us ++ vs ∧ Lexeme.NewType type us ∧ SpelledParts placed ps vs := by
  cases h with
  | newType words rest => exact ⟨_, _, rfl, words, rest⟩

theorem sub_inv (h : SpelledParts placed (.sub slot e :: ps) ts) :
    ∃ us vs, ts = us ++ vs ∧ Spelled placed e us ∧ SpelledParts placed ps vs := by
  cases h with
  | sub body rest => exact ⟨_, _, rfl, body, rest⟩

theorem last_token {t : Token} (h : SpelledParts placed [.token t] ts) :
    ∃ l, ts = [l] ∧ l.token = t := by
  obtain ⟨l, _, rfl, same, none⟩ := h.token_inv
  cases none
  exact ⟨l, rfl, same⟩

theorem of_sub (h : SpelledParts placed [.sub slot e] ts) : Spelled placed e ts := by
  obtain ⟨us, _, rfl, body, none⟩ := h.sub_inv
  cases none
  rwa [List.append_nil]

theorem single (body : Spelled placed e ts) : SpelledParts placed [.sub slot e] ts := by
  simpa using SpelledParts.sub body .nil

theorem append (front : SpelledParts placed ps us) (back : SpelledParts placed qs vs) :
    SpelledParts placed (ps ++ qs) (us ++ vs) := by
  induction ps generalizing us with
  | nil =>
    cases front
    exact back
  | cons p ps ih =>
    cases front with
    | token same rest => exact .token same (ih rest)
    | className names rest => simpa using SpelledParts.className names (ih rest)
    | newType words rest => simpa using SpelledParts.newType words (ih rest)
    | sub body rest => simpa using SpelledParts.sub body (ih rest)

theorem split (h : SpelledParts placed (ps ++ qs) ts) :
    ∃ us vs, ts = us ++ vs ∧ SpelledParts placed ps us ∧ SpelledParts placed qs vs := by
  induction ps generalizing ts with
  | nil => exact ⟨[], ts, rfl, .nil, h⟩
  | cons p ps ih =>
    cases h with
    | token same rest =>
      obtain ⟨us, vs, rfl, front, back⟩ := ih rest
      exact ⟨_ :: us, vs, rfl, .token same front, back⟩
    | @className _ _ ns _ names rest =>
      obtain ⟨us, vs, rfl, front, back⟩ := ih rest
      exact ⟨ns ++ us, vs, by simp, .className names front, back⟩
    | @newType _ _ ns _ words rest =>
      obtain ⟨us, vs, rfl, front, back⟩ := ih rest
      exact ⟨ns ++ us, vs, by simp, .newType words front, back⟩
    | @sub _ _ _ ns _ body rest =>
      obtain ⟨us, vs, rfl, front, back⟩ := ih rest
      exact ⟨ns ++ us, vs, by simp, .sub body front, back⟩

end SpelledParts

/-- Arguments between brackets. -/
theorem SpelledParts.bracketed {slot : Nat} {args : List Expr} {l r : Lexeme} {us : List Lexeme}
    (opens : l.token = .openParen) (body : SpelledParts placed (Expr.argParts slot args) us)
    (closes : r.token = .closeParen) :
    SpelledParts placed (Expr.bracketed slot args) (l :: (us ++ [r])) :=
  .token opens (body.append (.token closes .nil))

theorem SpelledParts.unbracketed {slot : Nat} {args : List Expr} {ts : List Lexeme}
    (h : SpelledParts placed (Expr.bracketed slot args) ts) :
    ∃ l us r, ts = l :: (us ++ [r]) ∧ l.token = .openParen ∧
      SpelledParts placed (Expr.argParts slot args) us ∧ r.token = .closeParen := by
  obtain ⟨l, _, rfl, opens, rest⟩ := h.token_inv
  obtain ⟨us, _, rfl, body, last⟩ := rest.split
  obtain ⟨r, rfl, closes⟩ := last.last_token
  exact ⟨l, us, r, rfl, opens, body, closes⟩

namespace Phrase

/-! ## From phrases to expressions -/

/-- A phrase starts where its first lexeme does and stops where its last one does. -/
theorem Reads.bounds {p : Phrase} {ts : List Lexeme} (h : p.Reads ts) :
    (∃ first ∈ ts.head?, first.span.start = p.start) ∧
      ∃ last ∈ ts.getLast?, last.span.stop = p.stop := by
  match p with
  | literal .. | name .. | self .. =>
    cases h
    exact ⟨⟨_, rfl, rfl⟩, _, rfl, rfl⟩
  | member base id range =>
    obtain ⟨us, d, rfl, _, _, reads⟩ := h
    obtain ⟨⟨first, atHead, starts⟩, _⟩ := reads.bounds
    exact ⟨⟨first, by simp [Option.mem_def.mp atHead], starts⟩, ⟨.name id, range⟩, by simp, rfl⟩
  | selfOf base word range =>
    obtain ⟨us, d, rfl, _, _, reads⟩ := h
    obtain ⟨⟨first, atHead, starts⟩, _⟩ := reads.bounds
    exact ⟨⟨first, by simp [Option.mem_def.mp atHead], starts⟩, ⟨.self word, range⟩, by simp, rfl⟩
  | call id start args stop =>
    obtain ⟨f, l, us, r, rfl, _, starts, _, _, _, stops⟩ := h
    exact ⟨⟨f, rfl, starts⟩, r, by simp [List.getLast?_cons], stops⟩
  | invoke base id args stop =>
    obtain ⟨bs, d, f, l, us, r, rfl, _, _, _, _, _, stops, _, reads⟩ := h
    obtain ⟨⟨first, atHead, starts⟩, _⟩ := reads.bounds
    exact ⟨⟨first, by simp [Option.mem_def.mp atHead], starts⟩, r,
      by simp [List.getLast?_cons], stops⟩
  | index base position stop =>
    obtain ⟨bs, l, us, r, rfl, _, _, stops, _, reads, _⟩ := h
    obtain ⟨⟨first, atHead, starts⟩, _⟩ := reads.bounds
    exact ⟨⟨first, by simp [Option.mem_def.mp atHead], starts⟩, r,
      by simp [List.getLast?_cons], stops⟩
  | create start type args stop =>
    obtain ⟨ns, l, us, r, rfl, _, starts, _, _, _, stops⟩ := h
    obtain ⟨first, atHead, starts⟩ := Option.map_eq_some_iff.mp starts
    exact ⟨⟨first, by simp [atHead], starts⟩, r, by simp [List.getLast?_cons], stops⟩
  | paren start body stop =>
    obtain ⟨l, us, r, rfl, _, starts, _, stops, _⟩ := h
    exact ⟨⟨l, rfl, starts⟩, r, by simp [List.getLast?_cons], stops⟩
  | cast start type body =>
    obtain ⟨l, us, r, bs, rfl, _, starts, _, _, _, reads⟩ := h
    obtain ⟨_, last, atEnd, stops⟩ := reads.bounds
    exact ⟨⟨l, rfl, starts⟩, last, by simp [List.getLast?_cons, Option.mem_def.mp atEnd], stops⟩
  | prefixed start op operand =>
    obtain ⟨o, us, rfl, _, starts, _, reads⟩ := h
    obtain ⟨_, last, atEnd, stops⟩ := reads.bounds
    exact ⟨⟨o, rfl, starts⟩, last, by simp [List.getLast?_cons, Option.mem_def.mp atEnd], stops⟩
  | binary op left right =>
    obtain ⟨ls, o, rs, rfl, _, _, leftReads, _, rightReads⟩ := h
    obtain ⟨⟨first, atHead, starts⟩, _⟩ := leftReads.bounds
    obtain ⟨_, last, atEnd, stops⟩ := rightReads.bounds
    exact ⟨⟨first, by simp [Option.mem_def.mp atHead], starts⟩, last,
      by simp [List.getLast?_cons, Option.mem_def.mp atEnd], stops⟩
  | conditional test yes no =>
    obtain ⟨us, q, vs, c, ws, rfl, _, _, _, testReads, _, noReads⟩ := h
    obtain ⟨⟨first, atHead, starts⟩, _⟩ := testReads.bounds
    obtain ⟨_, last, atEnd, stops⟩ := noReads.bounds
    exact ⟨⟨first, by simp [Option.mem_def.mp atHead], starts⟩, last,
      by simp [List.getLast?_cons, Option.mem_def.mp atEnd], stops⟩

theorem Reads.located {p : Phrase} {ts : List Lexeme} (h : p.Reads ts) :
    Lexeme.Located (some p.span) ts := by
  obtain ⟨⟨first, atHead, starts⟩, last, atEnd, stops⟩ := h.bounds
  exact ⟨first, atHead, last, atEnd, by rw [starts, stops]; rfl⟩

theorem names_of_dotted {p : Phrase} {id : String} {ts : List Lexeme} (h : p.Reads ts)
    (dotted : p.dotted? = some id) : Lexeme.Names id ts := by
  match p with
  | name id' range =>
    cases dotted
    cases h
    exact .name rfl
  | member base id' range =>
    obtain ⟨us, d, rfl, dot, _, reads⟩ := h
    obtain ⟨outer, baseDotted, rfl⟩ := Option.map_eq_some_iff.mp dotted
    exact .member (names_of_dotted reads baseDotted) dot rfl
  | paren start body stop =>
    obtain ⟨l, us, r, rfl, opens, _, closes, _, reads⟩ := h
    exact .paren opens (names_of_dotted reads dotted) closes
  | literal .. | self .. | selfOf .. | call .. | invoke .. | index .. | create .. | cast ..
  | prefixed .. | binary .. | conditional .. => cases dotted

/-! ### Phrases that have an expression

Each has the expression that is put together from those of its constituents. -/

section
variable {base left right test yes no type : Phrase} {args : List Phrase} {id ty : String}
  {start stop : Nat} {range : Span} {e : Expr}

theorem toExpr_member : (member base id range).toExpr = .ok e ↔
    ∃ q, base.toExpr = .ok q ∧ e = .member q id (some (member base id range).span) :=
  bind_pure_eq_ok

theorem toExpr_selfOf {word : SelfWord} : (selfOf base word range).toExpr = .ok e ↔
    ∃ q outer, base.toExpr = .ok q ∧ base.dotted? = some outer ∧
      e = .self word (some outer) (some (selfOf base word range).span) := by
  refine bind_eq_ok.trans ?_
  cases base.dotted? <;> simp [pure_eq_ok]

theorem toExpr_call : (call id start args stop).toExpr = .ok e ↔
    ∃ es, toExprs args = .ok es ∧ e = .call id es (some (call id start args stop).span) :=
  bind_pure_eq_ok

theorem toExpr_invoke : (invoke base id args stop).toExpr = .ok e ↔
    ∃ q, base.toExpr = .ok q ∧ ∃ es, toExprs args = .ok es ∧
      e = .invoke q id es (some (invoke base id args stop).span) :=
  bind_eq_ok.trans (exists_congr fun _ => and_congr_right fun _ => bind_pure_eq_ok)

theorem toExpr_index : (index left right stop).toExpr = .ok e ↔
    ∃ a, left.toExpr = .ok a ∧ ∃ i, right.toExpr = .ok i ∧
      e = .index a i (some (index left right stop).span) :=
  bind_eq_ok.trans (exists_congr fun _ => and_congr_right fun _ => bind_pure_eq_ok)

theorem toExpr_create : (create start ty args stop).toExpr = .ok e ↔
    ∃ es, toExprs args = .ok es ∧ e = .create ty es (some (create start ty args stop).span) :=
  bind_pure_eq_ok

theorem toExpr_paren : (paren start base stop).toExpr = .ok e ↔
    ∃ b, base.toExpr = .ok b ∧ e = .paren b (some (paren start base stop).span) :=
  bind_pure_eq_ok

theorem toExpr_cast : (cast start type base).toExpr = .ok e ↔
    ∃ x b id, type.toExpr = .ok x ∧ base.toExpr = .ok b ∧ type.dotted? = some id ∧
      e = .cast id b (some (cast start type base).span) := by
  refine bind_eq_ok.trans ?_
  simp only [bind_eq_ok]
  cases type.dotted? <;> simp [pure_eq_ok]

theorem toExpr_prefixed {op : PrefixOp} : (prefixed start op base).toExpr = .ok e ↔
    ∃ b, base.toExpr = .ok b ∧ e = .prefixed op b (some (prefixed start op base).span) :=
  bind_pure_eq_ok

theorem toExpr_binary {op : BinaryOp} : (binary op left right).toExpr = .ok e ↔
    ∃ l, left.toExpr = .ok l ∧ ∃ r, right.toExpr = .ok r ∧
      e = .binary op l r (some (binary op left right).span) :=
  bind_eq_ok.trans (exists_congr fun _ => and_congr_right fun _ => bind_pure_eq_ok)

theorem toExpr_conditional : (conditional test yes no).toExpr = .ok e ↔
    ∃ t, test.toExpr = .ok t ∧ ∃ y, yes.toExpr = .ok y ∧ ∃ n, no.toExpr = .ok n ∧
      e = .conditional t y n (some (conditional test yes no).span) := by
  refine bind_eq_ok.trans ?_
  simp only [bind_eq_ok, pure_eq_ok]

theorem toExprs_cons {p : Phrase} {ps : List Phrase} {es : List Expr} :
    toExprs (p :: ps) = .ok es ↔
      ∃ e, p.toExpr = .ok e ∧ ∃ rest, toExprs ps = .ok rest ∧ es = e :: rest :=
  bind_eq_ok.trans (exists_congr fun _ => and_congr_right fun _ => bind_pure_eq_ok)

end

/-- The expression of a phrase binds as tightly as the phrase. -/
theorem level_toExpr {p : Phrase} {e : Expr} (h : p.toExpr = .ok e) : e.level = p.level := by
  match p with
  | literal .. | name .. | self .. =>
    cases h
    rfl
  | member .. =>
    obtain ⟨q, -, rfl⟩ := toExpr_member.mp h
    rfl
  | selfOf .. =>
    obtain ⟨q, outer, -, -, rfl⟩ := toExpr_selfOf.mp h
    rfl
  | call .. =>
    obtain ⟨es, -, rfl⟩ := toExpr_call.mp h
    rfl
  | invoke .. =>
    obtain ⟨q, -, es, -, rfl⟩ := toExpr_invoke.mp h
    rfl
  | index .. =>
    obtain ⟨a, -, i, -, rfl⟩ := toExpr_index.mp h
    rfl
  | create .. =>
    obtain ⟨es, -, rfl⟩ := toExpr_create.mp h
    rfl
  | paren .. =>
    obtain ⟨b, -, rfl⟩ := toExpr_paren.mp h
    rfl
  | cast .. =>
    obtain ⟨x, b, id, -, -, -, rfl⟩ := toExpr_cast.mp h
    rfl
  | prefixed _ op _ =>
    obtain ⟨b, -, rfl⟩ := toExpr_prefixed.mp h
    cases op <;> rfl
  | binary .. =>
    obtain ⟨l, -, r, -, rfl⟩ := toExpr_binary.mp h
    rfl
  | conditional .. =>
    obtain ⟨t, -, y, -, n, -, rfl⟩ := toExpr_conditional.mp h
    rfl

mutual

/-- The lexemes of a phrase spell its expression. -/
theorem written_of_reads {p : Phrase} {ts : List Lexeme} {e : Expr} (h : p.Reads ts)
    (made : p.toExpr = .ok e) : Written e ts := by
  have located := h.located
  match p with
  | literal kind text range | name id range | self word range =>
    cases made
    cases h
    exact .node trivial located (.token rfl .nil)
  | member base id range =>
    obtain ⟨q, baseMade, rfl⟩ := toExpr_member.mp made
    obtain ⟨us, d, rfl, dot, tight, reads⟩ := h
    refine .node ?_ located (.sub (written_of_reads reads baseMade) (.token dot (.token rfl .nil)))
    rwa [← level_toExpr baseMade] at tight
  | selfOf base word range =>
    obtain ⟨q, outer, -, dotted, rfl⟩ := toExpr_selfOf.mp made
    obtain ⟨us, d, rfl, dot, tight, reads⟩ := h
    exact .node trivial located
      (.className (names_of_dotted reads dotted) (.token dot (.token rfl .nil)))
  | call id start args stop =>
    obtain ⟨es, argsMade, rfl⟩ := toExpr_call.mp made
    obtain ⟨f, l, us, r, rfl, named, _, opens, argReads, closes, _⟩ := h
    exact .node trivial located
      (.token named (.bracketed opens (spelled_args 0 argReads argsMade) closes))
  | invoke base id args stop =>
    obtain ⟨q, baseMade, es, argsMade, rfl⟩ := toExpr_invoke.mp made
    obtain ⟨bs, d, f, l, us, r, rfl, dot, named, opens, argReads, closes, _, tight, reads⟩ := h
    refine .node ?_ located (.sub (written_of_reads reads baseMade) (.token dot (.token named
      (.bracketed opens (spelled_args 1 argReads argsMade) closes))))
    rwa [← level_toExpr baseMade] at tight
  | index base position stop =>
    obtain ⟨a, baseMade, i, positionMade, rfl⟩ := toExpr_index.mp made
    obtain ⟨bs, l, us, r, rfl, opens, closes, _, tight, reads, positionReads⟩ := h
    refine .node ?_ located (.sub (written_of_reads reads baseMade) (.token opens
      (.sub (written_of_reads positionReads positionMade) (.token closes .nil))))
    rwa [← level_toExpr baseMade] at tight
  | create start type args stop =>
    obtain ⟨es, argsMade, rfl⟩ := toExpr_create.mp made
    obtain ⟨ns, l, us, r, rfl, typed, _, opens, argReads, closes, _⟩ := h
    exact .node trivial located
      (.newType typed (.bracketed opens (spelled_args 0 argReads argsMade) closes))
  | paren start body stop =>
    obtain ⟨b, bodyMade, rfl⟩ := toExpr_paren.mp made
    obtain ⟨l, us, r, rfl, opens, _, closes, _, reads⟩ := h
    exact .node trivial located
      (.token opens (.sub (written_of_reads reads bodyMade) (.token closes .nil)))
  | cast start type body =>
    obtain ⟨x, b, id, -, bodyMade, dotted, rfl⟩ := toExpr_cast.mp made
    obtain ⟨l, us, r, bs, rfl, opens, _, closes, typeReads, tight, reads⟩ := h
    refine .node ?_ located (.token opens (.className (names_of_dotted typeReads dotted)
      (.token closes (.single (written_of_reads reads bodyMade)))))
    rwa [← level_toExpr bodyMade] at tight
  | prefixed start op operand =>
    obtain ⟨b, bodyMade, rfl⟩ := toExpr_prefixed.mp made
    obtain ⟨o, us, rfl, same, _, tight, reads⟩ := h
    refine .node ?_ located (.token same (.single (written_of_reads reads bodyMade)))
    rwa [← level_toExpr bodyMade] at tight
  | binary op left right =>
    obtain ⟨l, leftMade, r, rightMade, rfl⟩ := toExpr_binary.mp made
    obtain ⟨ls, o, rs, rfl, same, le, leftReads, lt, rightReads⟩ := h
    refine .node ?_ located (.sub (written_of_reads leftReads leftMade)
      (.token same (.single (written_of_reads rightReads rightMade))))
    rw [← level_toExpr leftMade] at le
    rw [← level_toExpr rightMade] at lt
    exact ⟨le, lt⟩
  | conditional test yes no =>
    obtain ⟨t, testMade, y, yesMade, n, noMade, rfl⟩ := toExpr_conditional.mp made
    obtain ⟨us, q, vs, c, ws, rfl, asks, colon, tight, testReads, yesReads, noReads⟩ := h
    refine .node ?_ located (.sub (written_of_reads testReads testMade) (.token asks
      (.sub (written_of_reads yesReads yesMade)
        (.token colon (.single (written_of_reads noReads noMade))))))
    rwa [← level_toExpr testMade] at tight

theorem spelled_args {ps : List Phrase} {es : List Expr} {us : List Lexeme} (slot : Nat)
    (h : ReadsArgs ps us) (made : toExprs ps = .ok es) :
    SpelledParts Lexeme.Located (Expr.argParts slot es) us := by
  match ps with
  | [] =>
    cases made
    cases h
    exact .nil
  | p :: ps =>
    obtain ⟨e, firstMade, es, restMade, rfl⟩ := toExprs_cons.mp made
    obtain ⟨us, vs, rfl, reads, further⟩ := h
    exact .sub (written_of_reads reads firstMade) (spelled_further (slot + 1) further restMade)

theorem spelled_further {ps : List Phrase} {es : List Expr} {us : List Lexeme} (slot : Nat)
    (h : ReadsFurther ps us) (made : toExprs ps = .ok es) :
    SpelledParts Lexeme.Located (Expr.furtherArgs slot es) us := by
  match ps with
  | [] =>
    cases made
    cases h
    exact .nil
  | p :: ps =>
    obtain ⟨e, firstMade, es, restMade, rfl⟩ := toExprs_cons.mp made
    obtain ⟨c, us, vs, rfl, comma, reads, further⟩ := h
    exact .token comma
      (.sub (written_of_reads reads firstMade) (spelled_further (slot + 1) further restMade))

end

/-! ## From expressions to phrases -/

theorem of_names {id : String} {ts : List Lexeme} (h : Lexeme.Names id ts) :
    ∃ p e, Reads p ts ∧ p.dotted? = some id ∧ 9 ≤ p.level ∧ p.toExpr = .ok e := by
  induction h with
  | @name id t word =>
    obtain ⟨token, range⟩ := t
    cases word
    exact ⟨.name id range, _, rfl, rfl, Nat.le_refl _, rfl⟩
  | @member outer id us d t _ dot word ih =>
    obtain ⟨base, q, reads, dotted, tight, made⟩ := ih
    obtain ⟨token, range⟩ := t
    cases word
    exact ⟨.member base id range, _, ⟨us, d, rfl, dot, tight, reads⟩, by simp [dotted?, dotted],
      Nat.le_refl _, toExpr_member.mpr ⟨q, made, rfl⟩⟩
  | @paren id us l r opens _ closes ih =>
    obtain ⟨body, b, reads, dotted, _, made⟩ := ih
    exact ⟨.paren l.span.start body r.span.stop, _,
      ⟨l, us, r, rfl, opens, rfl, closes, rfl, reads⟩, dotted, Nat.le_refl _,
      toExpr_paren.mpr ⟨b, made, rfl⟩⟩

theorem level_unspanned (e : Expr) : e.unspanned.level = e.level := by
  cases e with
  | prefixed op e s => cases op <;> rfl
  | _ => rfl

theorem level_found {p : Phrase} {e e' : Expr} (made : p.toExpr = .ok e')
    (same : e'.unspanned = e.unspanned) : p.level = e.level := by
  rw [← level_toExpr made, ← level_unspanned e', same, level_unspanned]

/-- Some phrase of the expression reads the lexemes. -/
def Found (e : Expr) (ts : List Lexeme) : Prop :=
  ∃ p e', Reads p ts ∧ p.toExpr = .ok e' ∧ e'.unspanned = e.unspanned

/-- Phrases of the expressions read the lexemes, with commas between them. -/
def FoundArgs (es : List Expr) (ts : List Lexeme) : Prop :=
  ∃ ps es', ReadsArgs ps ts ∧ toExprs ps = .ok es' ∧ Expr.unspannedAll es' = Expr.unspannedAll es

theorem found_further {es : List Expr} {slot : Nat} {ts : List Lexeme}
    (each : ∀ e ∈ es, ∀ {us}, Spelled placed e us → Found e us)
    (h : SpelledParts placed (Expr.furtherArgs slot es) ts) :
    ∃ ps es', ReadsFurther ps ts ∧ toExprs ps = .ok es' ∧
      Expr.unspannedAll es' = Expr.unspannedAll es := by
  induction es generalizing slot ts with
  | nil =>
    cases h
    exact ⟨[], [], rfl, rfl, rfl⟩
  | cons e es ih =>
    obtain ⟨c, _, rfl, comma, rest⟩ := h.token_inv
    obtain ⟨us, vs, rfl, body, rest⟩ := rest.sub_inv
    obtain ⟨p, e', reads, made, same⟩ := each e List.mem_cons_self body
    obtain ⟨ps, es', further, restMade, restSame⟩ :=
      ih (fun e member => each e (List.mem_cons_of_mem _ member)) rest
    refine ⟨p :: ps, e' :: es', ⟨c, us, vs, rfl, comma, reads, further⟩,
      toExprs_cons.mpr ⟨e', made, es', restMade, rfl⟩, ?_⟩
    simp only [Expr.unspannedAll, same, restSame]

theorem found_args {es : List Expr} {slot : Nat} {ts : List Lexeme}
    (each : ∀ e ∈ es, ∀ {us}, Spelled placed e us → Found e us)
    (h : SpelledParts placed (Expr.argParts slot es) ts) : FoundArgs es ts := by
  cases es with
  | nil =>
    cases h
    exact ⟨[], [], rfl, rfl, rfl⟩
  | cons e es =>
    obtain ⟨us, vs, rfl, body, rest⟩ := h.sub_inv
    obtain ⟨p, e', reads, made, same⟩ := each e List.mem_cons_self body
    obtain ⟨ps, es', further, restMade, restSame⟩ :=
      found_further (fun e member => each e (List.mem_cons_of_mem _ member)) rest
    refine ⟨p :: ps, e' :: es', ⟨us, vs, rfl, reads, further⟩,
      toExprs_cons.mpr ⟨e', made, es', restMade, rfl⟩, ?_⟩
    simp only [Expr.unspannedAll, same, restSame]

namespace Found
variable {q e l r : Expr} {args : List Expr} {id : String} {span : Option Span}
  {us vs ws : List Lexeme} {d t opening closing : Lexeme}

/-- The phrase binds as tightly as the expression. -/
theorem leveled (h : Found e us) : ∃ p e', Reads p us ∧ p.toExpr = .ok e' ∧
    e'.unspanned = e.unspanned ∧ p.level = e.level := by
  obtain ⟨p, e', reads, made, same⟩ := h
  exact ⟨p, e', reads, made, same, level_found made same⟩

theorem literal {kind : LiteralKind} {text : String} (word : t.token = .literal kind text) :
    Found (.literal kind text span) [t] := by
  obtain ⟨token, range⟩ := t
  cases word
  exact ⟨.literal kind text range, _, rfl, rfl, rfl⟩

theorem name (word : t.token = .name id) : Found (.name id span) [t] := by
  obtain ⟨token, range⟩ := t
  cases word
  exact ⟨.name id range, _, rfl, rfl, rfl⟩

theorem self {word : SelfWord} (same : t.token = .self word) :
    Found (.self word none span) [t] := by
  obtain ⟨token, range⟩ := t
  cases same
  exact ⟨.self word range, _, rfl, rfl, rfl⟩

theorem selfOf {word : SelfWord} (names : Lexeme.Names id us) (dot : d.token = .dot)
    (same : t.token = .self word) : Found (.self word (some id) span) (us ++ [d, t]) := by
  obtain ⟨token, range⟩ := t
  cases same
  obtain ⟨base, q, reads, dotted, tight, made⟩ := of_names names
  exact ⟨.selfOf base word range, _, ⟨us, d, rfl, dot, tight, reads⟩,
    toExpr_selfOf.mpr ⟨q, id, made, dotted, rfl⟩, rfl⟩

theorem member (qualifier : Found q us) (tight : 9 ≤ q.level) (dot : d.token = .dot)
    (word : t.token = .name id) : Found (.member q id span) (us ++ [d, t]) := by
  obtain ⟨token, range⟩ := t
  cases word
  obtain ⟨base, q', reads, made, same, level⟩ := qualifier.leveled
  rw [← level] at tight
  refine ⟨.member base id range, _, ⟨us, d, rfl, dot, tight, reads⟩,
    toExpr_member.mpr ⟨q', made, rfl⟩, ?_⟩
  exact congrArg (Expr.member · id none) same

theorem call (word : t.token = .name id) (opens : opening.token = .openParen)
    (found : FoundArgs args us) (closes : closing.token = .closeParen) :
    Found (.call id args span) (t :: opening :: (us ++ [closing])) := by
  obtain ⟨ps, es, reads, made, same⟩ := found
  refine ⟨.call id t.span.start ps closing.span.stop, _,
    ⟨t, opening, us, closing, rfl, word, rfl, opens, reads, closes, rfl⟩,
    toExpr_call.mpr ⟨es, made, rfl⟩, ?_⟩
  exact congrArg (Expr.call id · none) same

theorem invoke (qualifier : Found q us) (tight : 9 ≤ q.level) (dot : d.token = .dot)
    (word : t.token = .name id) (opens : opening.token = .openParen) (found : FoundArgs args vs)
    (closes : closing.token = .closeParen) :
    Found (.invoke q id args span) (us ++ d :: t :: opening :: (vs ++ [closing])) := by
  obtain ⟨base, q', reads, made, same, level⟩ := qualifier.leveled
  obtain ⟨ps, es, argReads, argsMade, argsSame⟩ := found
  rw [← level] at tight
  refine ⟨.invoke base id ps closing.span.stop, _,
    ⟨us, d, t, opening, vs, closing, rfl, dot, word, opens, argReads, closes, rfl, tight, reads⟩,
    toExpr_invoke.mpr ⟨q', made, es, argsMade, rfl⟩, ?_⟩
  exact congrArg₂ (Expr.invoke · id · none) same argsSame

theorem index (array : Found l us) (tight : 9 ≤ l.level) (opens : opening.token = .openSquare)
    (position : Found r vs) (closes : closing.token = .closeSquare) :
    Found (.index l r span) (us ++ opening :: (vs ++ [closing])) := by
  obtain ⟨base, l', reads, made, same, level⟩ := array.leveled
  obtain ⟨inner, r', innerReads, innerMade, innerSame⟩ := position
  rw [← level] at tight
  refine ⟨.index base inner closing.span.stop, _,
    ⟨us, opening, vs, closing, rfl, opens, closes, rfl, tight, reads, innerReads⟩,
    toExpr_index.mpr ⟨l', made, r', innerMade, rfl⟩, ?_⟩
  exact congrArg₂ (Expr.index · · none) same innerSame

theorem create {type : String} (typed : Lexeme.NewType type ws)
    (opens : opening.token = .openParen) (found : FoundArgs args us)
    (closes : closing.token = .closeParen) :
    Found (.create type args span) (ws ++ opening :: (us ++ [closing])) := by
  obtain ⟨ps, es, reads, made, same⟩ := found
  obtain ⟨new, words, vs, rfl, -⟩ := id typed
  refine ⟨.create new.span.start type ps closing.span.stop, _,
    ⟨new :: vs, opening, us, closing, rfl, typed, rfl, opens, reads, closes, rfl⟩,
    toExpr_create.mpr ⟨es, made, rfl⟩, ?_⟩
  exact congrArg (Expr.create type · none) same

theorem paren (opens : opening.token = .openParen) (body : Found e us)
    (closes : closing.token = .closeParen) :
    Found (.paren e span) (opening :: (us ++ [closing])) := by
  obtain ⟨p, e', reads, made, same⟩ := body
  refine ⟨.paren opening.span.start p closing.span.stop, _,
    ⟨opening, us, closing, rfl, opens, rfl, closes, rfl, reads⟩,
    toExpr_paren.mpr ⟨e', made, rfl⟩, ?_⟩
  exact congrArg (Expr.paren · none) same

theorem cast (opens : opening.token = .openParen) (names : Lexeme.Names id us)
    (closes : closing.token = .closeParen) (body : Found e vs) (tight : 8 ≤ e.level) :
    Found (.cast id e span) (opening :: (us ++ closing :: vs)) := by
  obtain ⟨type, x, typeReads, dotted, -, typeMade⟩ := of_names names
  obtain ⟨p, e', reads, made, same, level⟩ := body.leveled
  rw [← level] at tight
  refine ⟨.cast opening.span.start type p, _,
    ⟨opening, us, closing, vs, rfl, opens, rfl, closes, typeReads, tight, reads⟩,
    toExpr_cast.mpr ⟨x, e', id, typeMade, made, dotted, rfl⟩, ?_⟩
  exact congrArg (Expr.cast id · none) same

theorem prefixed {op : PrefixOp} (sign : t.token = op.token) (operand : Found e us)
    (tight : 7 ≤ e.level) : Found (.prefixed op e span) (t :: us) := by
  obtain ⟨p, e', reads, made, same, level⟩ := operand.leveled
  rw [← level] at tight
  refine ⟨.prefixed t.span.start op p, _, ⟨t, us, rfl, sign, rfl, tight, reads⟩,
    toExpr_prefixed.mpr ⟨e', made, rfl⟩, ?_⟩
  exact congrArg (Expr.prefixed op · none) same

theorem binary {op : BinaryOp} (left : Found l us) (le : op.level ≤ l.level)
    (operator : t.token = .op op) (right : Found r vs) (lt : op.level < r.level) :
    Found (.binary op l r span) (us ++ t :: vs) := by
  obtain ⟨lp, l', leftReads, leftMade, leftSame, leftLevel⟩ := left.leveled
  obtain ⟨rp, r', rightReads, rightMade, rightSame, rightLevel⟩ := right.leveled
  rw [← leftLevel] at le
  rw [← rightLevel] at lt
  refine ⟨.binary op lp rp, _, ⟨us, t, vs, rfl, operator, le, leftReads, lt, rightReads⟩,
    toExpr_binary.mpr ⟨l', leftMade, r', rightMade, rfl⟩, ?_⟩
  exact congrArg₂ (Expr.binary op · · none) leftSame rightSame

theorem conditional {test yes no : Expr} (first : Found test us) (tight : 1 ≤ test.level)
    (asks : t.token = .question) (second : Found yes vs) (colon : d.token = .colon)
    (third : Found no ws) : Found (.conditional test yes no span) (us ++ t :: (vs ++ d :: ws)) := by
  obtain ⟨tp, test', testReads, testMade, testSame, level⟩ := first.leveled
  obtain ⟨yp, yes', yesReads, yesMade, yesSame⟩ := second
  obtain ⟨np, no', noReads, noMade, noSame⟩ := third
  rw [← level] at tight
  refine ⟨.conditional tp yp np, _,
    ⟨us, t, vs, d, ws, rfl, asks, colon, tight, testReads, yesReads, noReads⟩,
    toExpr_conditional.mpr ⟨test', testMade, yes', yesMade, no', noMade, rfl⟩, ?_⟩
  simp only [Expr.unspanned, testSame, yesSame, noSame]

end Found

/-- Lexemes that spell an expression are read by a phrase of that expression. -/
theorem found_of_spelled {e : Expr} {ts : List Lexeme} (h : Spelled placed e ts) : Found e ts := by
  induction e using Expr.induct_children generalizing ts with
  | step e ih =>
  obtain ⟨leveled, -, parts⟩ := h
  match e with
  | .literal kind text sp =>
    obtain ⟨t, rfl, word⟩ := parts.last_token
    exact .literal word
  | .name id sp =>
    obtain ⟨t, rfl, word⟩ := parts.last_token
    exact .name word
  | .self word none sp =>
    obtain ⟨t, rfl, same⟩ := parts.last_token
    exact .self same
  | .self word (some outer) sp =>
    obtain ⟨us, _, rfl, names, rest⟩ := parts.className_inv
    obtain ⟨d, _, rfl, dot, rest⟩ := rest.token_inv
    obtain ⟨t, rfl, same⟩ := rest.last_token
    exact .selfOf names dot same
  | .member q id sp =>
    obtain ⟨us, _, rfl, qualifier, rest⟩ := parts.sub_inv
    obtain ⟨d, _, rfl, dot, rest⟩ := rest.token_inv
    obtain ⟨t, rfl, word⟩ := rest.last_token
    exact (ih q List.mem_cons_self qualifier).member leveled dot word
  | .call id args sp =>
    obtain ⟨t, _, rfl, word, rest⟩ := parts.token_inv
    obtain ⟨l, us, r, rfl, opens, body, closes⟩ := rest.unbracketed
    exact .call word opens (found_args (fun a member => ih a member) body) closes
  | .invoke q id args sp =>
    obtain ⟨us, _, rfl, qualifier, rest⟩ := parts.sub_inv
    obtain ⟨d, _, rfl, dot, rest⟩ := rest.token_inv
    obtain ⟨t, _, rfl, word, rest⟩ := rest.token_inv
    obtain ⟨l, vs, r, rfl, opens, body, closes⟩ := rest.unbracketed
    have args := found_args (fun a member => ih a (List.mem_cons_of_mem _ member)) body
    exact (ih q List.mem_cons_self qualifier).invoke leveled dot word opens args closes
  | .binary op l r sp =>
    obtain ⟨us, _, rfl, left, rest⟩ := parts.sub_inv
    obtain ⟨t, vs, rfl, operator, right⟩ := rest.token_inv
    have leftFound := ih l (by simp [Expr.children]) left
    have rightFound := ih r (by simp [Expr.children]) right.of_sub
    exact leftFound.binary leveled.1 operator rightFound leveled.2
  | .prefixed op e sp =>
    obtain ⟨t, us, rfl, sign, operand⟩ := parts.token_inv
    exact .prefixed sign (ih e List.mem_cons_self operand.of_sub) leveled
  | .conditional test yes no sp =>
    obtain ⟨us, _, rfl, first, rest⟩ := parts.sub_inv
    obtain ⟨q, _, rfl, asks, rest⟩ := rest.token_inv
    obtain ⟨vs, _, rfl, second, rest⟩ := rest.sub_inv
    obtain ⟨c, ws, rfl, colon, third⟩ := rest.token_inv
    have testFound := ih test (by simp [Expr.children]) first
    exact testFound.conditional leveled asks (ih yes (by simp [Expr.children]) second) colon
      (ih no (by simp [Expr.children]) third.of_sub)
  | .paren e sp =>
    obtain ⟨l, _, rfl, opens, rest⟩ := parts.token_inv
    obtain ⟨us, _, rfl, body, rest⟩ := rest.sub_inv
    obtain ⟨r, rfl, closes⟩ := rest.last_token
    exact .paren opens (ih e List.mem_cons_self body) closes
  | .cast type e sp =>
    obtain ⟨l, _, rfl, opens, rest⟩ := parts.token_inv
    obtain ⟨us, _, rfl, names, rest⟩ := rest.className_inv
    obtain ⟨r, vs, rfl, closes, body⟩ := rest.token_inv
    exact .cast opens names closes (ih e List.mem_cons_self body.of_sub) leveled
  | .index a i sp =>
    obtain ⟨us, _, rfl, array, rest⟩ := parts.sub_inv
    obtain ⟨l, _, rfl, opens, rest⟩ := rest.token_inv
    obtain ⟨vs, _, rfl, position, rest⟩ := rest.sub_inv
    obtain ⟨r, rfl, closes⟩ := rest.last_token
    have arrayFound := ih a (by simp [Expr.children]) array
    exact arrayFound.index leveled opens (ih i (by simp [Expr.children]) position) closes
  | .create type args sp =>
    obtain ⟨ws, _, rfl, typed, rest⟩ := parts.newType_inv
    obtain ⟨l, us, r, rfl, opens, body, closes⟩ := rest.unbracketed
    exact .create typed opens (found_args (fun a member => ih a member) body) closes

end Phrase

end NullSafeEq
