import Mathlib
import NullSafeEq.Replacement

/-!
# Splicing

Replacing several ranges of a text from the last one to the first leaves what stands between them
as it is, and the order in which the ranges are listed does not matter.
-/
namespace NullSafeEq

/-- A text for the node at a path, which covers a range of the source. -/
structure Cut where
  path : Path
  span : Span
  text : String
  deriving DecidableEq, Repr

namespace Cut

/-- What is spliced in, and where. -/
def edit (c : Cut) : Span × String := (c.span, c.text)

end Cut

/-- Edits made one after the other. -/
def spliceAll (edits : List (Span × String)) (text : List Char) : List Char :=
  edits.foldl (fun text (span, inserted) => Tree.splice text span inserted) text

section
variable {edits edits' : List (Span × String)} {text front rest : List Char} {span : Span}
  {inserted : String}

@[simp] theorem spliceAll_nil (text : List Char) : spliceAll [] text = text := rfl

@[simp] theorem spliceAll_cons (span : Span) (inserted : String) (edits : List (Span × String))
    (text : List Char) : spliceAll ((span, inserted) :: edits) text =
      spliceAll edits (Tree.splice text span inserted) := rfl

theorem spliceAll_append (edits edits' : List (Span × String)) (text : List Char) :
    spliceAll (edits ++ edits') text = spliceAll edits' (spliceAll edits text) :=
  List.foldl_append

theorem length_splice (text : List Char) (span : Span) (inserted : String) :
    (Tree.splice text span inserted).length =
      min span.start text.length + inserted.length + (text.length - span.stop) := by
  simp [Tree.splice, Nat.add_assoc, String.length_toList]

/-- An edit in the front part of a text leaves the rest as it is. -/
theorem splice_append (ordered : span.start ≤ span.stop) (inside : span.stop ≤ front.length) :
    Tree.splice (front ++ rest) span inserted = Tree.splice front span inserted ++ rest := by
  simp only [Tree.splice, List.append_assoc]
  rw [List.take_append_of_le_length (ordered.trans inside), List.drop_append_of_le_length inside]

theorem spliceAll_append_rest (ordered : ∀ e ∈ edits, e.1.start ≤ e.1.stop)
    (apart : edits.Pairwise fun a b => b.1.stop ≤ a.1.start)
    (inside : ∀ e ∈ edits, e.1.stop ≤ front.length) :
    spliceAll edits (front ++ rest) = spliceAll edits front ++ rest := by
  induction edits generalizing front with
  | nil => rfl
  | cons e edits ih =>
    obtain ⟨span, inserted⟩ := e
    obtain ⟨orderedHere, orderedLater⟩ := List.forall_mem_cons.mp ordered
    obtain ⟨insideHere, -⟩ := List.forall_mem_cons.mp inside
    obtain ⟨apartHere, apartLater⟩ := List.pairwise_cons.mp apart
    rw [spliceAll_cons, spliceAll_cons, splice_append orderedHere insideHere]
    refine ih orderedLater apartLater fun e member => ?_
    -- the edited front still reaches up to the start of the edit
    have reached := apartHere e member
    simp only [length_splice] at reached orderedHere insideHere ⊢
    omega

/-- Edits that put something in do not cut the text off in front of their starts. -/
theorem lt_length_spliceAll {k : Nat} (inserts : ∀ e ∈ edits, 0 < e.2.length)
    (behind : ∀ e ∈ edits, k ≤ e.1.start) (long : k < text.length) :
    k < (spliceAll edits text).length := by
  induction edits generalizing text with
  | nil => exact long
  | cons e edits ih =>
    obtain ⟨span, inserted⟩ := e
    obtain ⟨insertsHere, insertsLater⟩ := List.forall_mem_cons.mp inserts
    obtain ⟨behindHere, behindLater⟩ := List.forall_mem_cons.mp behind
    refine ih insertsLater behindLater ?_
    simp only [length_splice] at insertsHere behindHere ⊢
    omega

theorem take_splice (reached : span.start ≤ text.length) (inserted : String) :
    (Tree.splice text span inserted).take span.start = text.take span.start := by
  rw [Tree.splice, List.append_assoc, List.take_left' (List.length_take_of_le reached)]

/-- Making an edit again changes nothing just when what it put in is as long as what it cut out,
or reaches no further and there is nothing behind. -/
theorem splice_again_iff (reached : span.start ≤ text.length) (ordered : span.start ≤ span.stop) :
    Tree.splice (Tree.splice text span inserted) span inserted = Tree.splice text span inserted ↔
      inserted.length = span.stop - span.start ∨
        inserted.length ≤ span.stop - span.start ∧ text.length ≤ span.stop := by
  have size := length_splice text span inserted
  constructor
  · intro same
    have sizes := congrArg List.length same
    rw [length_splice, size] at sizes
    omega
  · intro fits
    have behind : (Tree.splice text span inserted).drop span.stop = text.drop span.stop := by
      rcases fits with same | ⟨shorter, last⟩
      · refine List.drop_left' ?_
        rw [List.length_append, List.length_take_of_le reached, String.length_toList]
        omega
      · rw [List.drop_of_length_le last, List.drop_of_length_le]
        omega
    rw [Tree.splice, take_splice reached, behind, ← Tree.splice]

/-- Whether an edit is made once or twice can still be seen after edits in front of it. -/
theorem spliceAll_again_iff (ordered : ∀ e ∈ edits, e.1.start ≤ e.1.stop)
    (apart : edits.Pairwise fun a b => b.1.stop ≤ a.1.start)
    (before : ∀ e ∈ edits, e.1.stop ≤ span.start) (reached : span.start ≤ text.length) :
    spliceAll edits (Tree.splice (Tree.splice text span inserted) span inserted) =
        spliceAll edits (Tree.splice text span inserted) ↔
      Tree.splice (Tree.splice text span inserted) span inserted =
        Tree.splice text span inserted := by
  have size : (text.take span.start).length = span.start := List.length_take_of_le reached
  have cancel (rest rest' : List Char) :
      spliceAll edits (text.take span.start ++ rest) =
          spliceAll edits (text.take span.start ++ rest') ↔
        text.take span.start ++ rest = text.take span.start ++ rest' := by
    rw [spliceAll_append_rest ordered apart fun e member => (before e member).trans_eq size.symm,
      spliceAll_append_rest ordered apart fun e member => (before e member).trans_eq size.symm,
      List.append_cancel_left_eq, List.append_cancel_left_eq]
  have again : Tree.splice (Tree.splice text span inserted) span inserted =
      text.take span.start ++
        (inserted.toList ++ (Tree.splice text span inserted).drop span.stop) := by
    rw [Tree.splice, take_splice reached, List.append_assoc]
  have once : Tree.splice text span inserted =
      text.take span.start ++ (inserted.toList ++ text.drop span.stop) := List.append_assoc ..
  rw [again, once]
  exact cancel _ _

end

/-- Edits from the last start to the first. -/
def Descending (edits : List (Span × String)) : Prop :=
  edits.Pairwise fun a b => b.1.start ≤ a.1.start

/-- The edits from the last start to the first. -/
def lastFirst (edits : List (Span × String)) : List (Span × String) :=
  edits.mergeSort fun a b => b.1.start ≤ a.1.start

theorem lastFirst_perm (edits : List (Span × String)) : (lastFirst edits).Perm edits :=
  List.mergeSort_perm _ _

theorem descending_lastFirst (edits : List (Span × String)) : Descending (lastFirst edits) :=
  List.pairwise_mergeSort' (Order.Preimage (fun e : Span × String => e.1.start) (· ≥ ·)) edits

/-- An edit may be listed again right behind itself. -/
theorem Descending.again {later earlier : List (Span × String)} {e : Span × String}
    (h : Descending (later ++ e :: earlier)) : Descending (later ++ e :: e :: earlier) := by
  obtain ⟨inLater, inRest, across⟩ := List.pairwise_append.mp h
  obtain ⟨behind, inEarlier⟩ := List.pairwise_cons.mp inRest
  refine List.pairwise_append.mpr ⟨inLater, .cons ?_ inRest, fun a member b member' => ?_⟩
  · exact List.forall_mem_cons.mpr ⟨Nat.le_refl _, behind⟩
  · refine across a member b ?_
    rcases List.mem_cons.mp member' with rfl | member'
    · exact List.mem_cons_self
    · exact member'

/-- There is one descending order of edits that are told apart by their starts. -/
theorem Descending.unique {edits edits' : List (Span × String)} (h : Descending edits)
    (h' : Descending edits') (perm : edits.Perm edits')
    (alike : ∀ a ∈ edits, ∀ b ∈ edits, a.1.start = b.1.start → a = b) : edits = edits' := by
  refine List.Perm.eq_of_pairwise ?_ h h' perm
  intro a b listed listed' le ge
  exact alike a listed b (perm.mem_iff.mpr listed') (Nat.le_antisymm ge le)

/-- The texts `old`, which stands at an offset, and `new` agree but for the listed ranges, which
are not empty; in `new` their replacements stand in their place. -/
inductive Spliced : Nat → List Char → List Char → List Cut → Prop
  | keep (o : Nat) (kept : List Char) : Spliced o kept kept []
  | swap {o : Nat} {kept cut old new : List Char} {c : Cut} {cuts : List Cut}
    (range : c.span = ⟨o + kept.length, o + kept.length + cut.length⟩) (some : cut ≠ [])
    (rest : Spliced (o + kept.length + cut.length) old new cuts) :
    Spliced o (kept ++ (cut ++ old)) (kept ++ (c.text.toList ++ new)) (c :: cuts)

namespace Spliced
variable {o : Nat} {old new : List Char} {cuts : List Cut}

/-- A single range up to the end. -/
theorem one {kept cut : List Char} (c : Cut) (some : cut ≠ [])
    (range : c.span = ⟨o + kept.length, o + kept.length + cut.length⟩) :
    Spliced o (kept ++ cut) (kept ++ c.text.toList) [c] := by
  have swap := Spliced.swap range some (.keep _ [])
  rwa [List.append_nil, List.append_nil] at swap

theorem keep_append (kept : List Char) (h : Spliced (o + kept.length) old new cuts) :
    Spliced o (kept ++ old) (kept ++ new) cuts := by
  cases h with
  | keep => exact .keep _ _
  | @swap _ front cut old new c cuts range some rest =>
    rw [← List.append_assoc kept, ← List.append_assoc kept front]
    refine .swap ?_ some ?_
    · rw [range, List.length_append, Nat.add_assoc o]
    · rwa [List.length_append, ← Nat.add_assoc]

theorem append {old' new' : List Char} {cuts' : List Cut} (front : Spliced o old new cuts)
    (back : Spliced (o + old.length) old' new' cuts') :
    Spliced o (old ++ old') (new ++ new') (cuts ++ cuts') := by
  induction front with
  | keep o kept => exact back.keep_append kept
  | @swap o kept cut old new c cuts range some rest ih =>
    simp only [List.append_assoc, List.cons_append]
    refine .swap range some (ih ?_)
    simpa [Nat.add_assoc] using back

/-- Splicing in all the replacements, the last one first. -/
theorem spliceAll_reverse (h : Spliced o old new cuts) {front : List Char}
    (size : front.length = o) :
    spliceAll (cuts.map Cut.edit).reverse (front ++ old) = front ++ new := by
  induction h generalizing front with
  | keep o kept => rfl
  | @swap o kept cut old new c cuts range some rest ih =>
    have reached : (front ++ (kept ++ cut)).length = o + kept.length + cut.length := by
      simp [size, Nat.add_assoc]
    have tail := ih reached
    simp only [List.append_assoc] at tail
    rw [List.map_cons, List.reverse_cons, spliceAll_append, tail]
    simp only [Cut.edit, spliceAll_cons, spliceAll_nil, Tree.splice, range]
    have before : (front ++ (kept ++ (cut ++ new))).take (o + kept.length) = front ++ kept := by
      rw [← List.append_assoc]
      exact List.take_left' (by simp [size])
    have behind : (front ++ (kept ++ (cut ++ new))).drop (o + kept.length + cut.length) = new := by
      rw [← List.append_assoc kept, ← List.append_assoc]
      exact List.drop_left' reached
    rw [before, behind]
    simp

/-- Ranges that stand in a text one behind the other can be replaced. -/
theorem exists_of_apart (solid : ∀ c ∈ cuts, c.span.start < c.span.stop)
    (bounded : ∀ c ∈ cuts, o ≤ c.span.start ∧ c.span.stop ≤ o + old.length)
    (apart : cuts.Pairwise fun a b => a.span.stop ≤ b.span.start) :
    ∃ new, Spliced o old new cuts := by
  induction cuts generalizing o old with
  | nil => exact ⟨old, .keep o old⟩
  | cons c cuts ih =>
    obtain ⟨solidHere, solidLater⟩ := List.forall_mem_cons.mp solid
    obtain ⟨⟨start, stop⟩, boundedLater⟩ := List.forall_mem_cons.mp bounded
    obtain ⟨behind, apartLater⟩ := List.pairwise_cons.mp apart
    let kept := old.take (c.span.start - o)
    let cut := (old.drop (c.span.start - o)).take (c.span.stop - c.span.start)
    let rest := (old.drop (c.span.start - o)).drop (c.span.stop - c.span.start)
    have keptSize : o + kept.length = c.span.start := by
      simp only [kept, List.length_take]
      omega
    have cutSize : c.span.start + cut.length = c.span.stop := by
      simp only [cut, List.length_take, List.length_drop]
      omega
    have restSize : c.span.stop + rest.length = o + old.length := by
      simp only [rest, List.length_drop]
      omega
    obtain ⟨new, spliced⟩ : ∃ new, Spliced c.span.stop rest new cuts := ih solidLater
      (fun d member => ⟨behind d member, restSize ▸ (boundedLater d member).2⟩) apartLater
    have parts : kept ++ (cut ++ rest) = old := by
      rw [List.take_append_drop, List.take_append_drop]
    have range : c.span = ⟨o + kept.length, o + kept.length + cut.length⟩ := by
      rw [keptSize, cutSize]
    have some : cut ≠ [] := List.ne_nil_of_length_pos (by omega)
    refine ⟨kept ++ (c.text.toList ++ new), parts ▸ .swap range some ?_⟩
    rwa [keptSize, cutSize]

/-- Every replacement is a part of the new text. -/
theorem infix_of_mem (h : Spliced o old new cuts) {c : Cut} (member : c ∈ cuts) :
    c.text.toList <:+: new := by
  induction h with
  | keep => cases member
  | @swap o kept cut old new d cuts range some rest ih =>
    rcases List.mem_cons.mp member with rfl | later
    · exact List.infix_append' kept c.text.toList new
    · have behind := (ih later).trans (List.suffix_append d.text.toList new).isInfix
      exact behind.trans (List.suffix_append kept _).isInfix

theorem start_le (h : Spliced o old new cuts) : ∀ c ∈ cuts, o ≤ c.span.start := by
  induction h with
  | keep => nofun
  | @swap o kept cut old new c cuts range some rest ih =>
    refine List.forall_mem_cons.mpr ⟨by simp [range], ?_⟩
    intro d member
    have := ih d member
    omega

/-- The ranges stand in order. -/
theorem ascending (h : Spliced o old new cuts) :
    cuts.Pairwise fun a b => a.span.start < b.span.start := by
  induction h with
  | keep => exact .nil
  | @swap o kept cut old new c cuts range some rest ih =>
    refine List.pairwise_cons.mpr ⟨?_, ih⟩
    intro d member
    have le := rest.start_le d member
    have pos := List.length_pos_iff.mpr some
    rw [range]
    simp only
    omega

theorem nodup (h : Spliced o old new cuts) : cuts.Nodup :=
  h.ascending.imp fun lt same => by simp [same] at lt

/-- The ranges in any order are brought into their order from the last one to the first. -/
theorem lastFirst_eq (h : Spliced o old new cuts) {edits : List (Span × String)}
    (perm : edits.Perm (cuts.map Cut.edit)) : lastFirst edits = (cuts.map Cut.edit).reverse := by
  have strict : (cuts.map Cut.edit).reverse.Pairwise fun a b => b.1.start < a.1.start := by
    rw [List.pairwise_reverse, List.pairwise_map]
    exact h.ascending
  have perm' : (lastFirst edits).Perm (cuts.map Cut.edit).reverse :=
    (lastFirst_perm edits).trans (perm.trans (List.reverse_perm _).symm)
  have symm : Std.Symm fun a b : Span × String => a.1.start = b.1.start → a = b :=
    ⟨fun _ _ h same => (h same.symm).symm⟩
  have apart : (cuts.map Cut.edit).reverse.Pairwise fun a b => a.1.start = b.1.start → a = b :=
    strict.imp fun lt same => by omega
  have alike := apart.forall_of_forall fun _ _ _ => rfl
  refine (descending_lastFirst edits).unique (strict.imp Nat.le_of_lt) perm' ?_
  intro a inSorted b inSorted'
  exact alike (perm'.mem_iff.mp inSorted) (perm'.mem_iff.mp inSorted')

end Spliced

end NullSafeEq
