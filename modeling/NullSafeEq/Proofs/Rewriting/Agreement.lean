import NullSafeEq.Proofs.Idiom.Placement
import NullSafeEq.Proofs.Meaning.ValuePath

/-!
# Splicing and writing out agree

Matches can be applied to the source of a tree or, without one, while the tree is written out
canonically. The two texts differ in their layout, but they are read as the same tree.
-/
namespace NullSafeEq

/-- The tree without the text that it was read from. -/
def Tree.sourceless (t : Tree) : Tree := ⟨t.root, none⟩

theorem Tree.shows_sourceless (t : Tree) {e : Expr} (wf : e.WellFormed) : t.sourceless.Shows e :=
  lays_render wf

section
variable {t : Tree} {n : DottedName} {found : List Match}

/-- Writing out a well-formed tree with matches applied gives a text that is read as the tree with
the outermost ones replaced. -/
theorem read_apply_sourceless (wf : t.root.WellFormed) (valid : n.Valid)
    (inside : ∀ m ∈ found, m.In t.root) :
    ∃ t', Tree.read (t.sourceless.apply n.text found) = .ok t' ∧
      t'.root.unspanned = (t.root.graft (Match.grafts n (Tree.outermost found))).unspanned := by
  have insideOuter := fun m member => inside m (outermost_spec.mp member).1
  have agree : Agree (t.sourceless.patch n.text (Tree.outermost found))
      (Match.grafts n (Tree.outermost found)) t.root :=
    agree_of_in (t := t.sourceless) insideOuter valid fun s top =>
      t.shows_sourceless (wf.at? (top ▸ s.at?_path))
  obtain ⟨items, lays, same⟩ := renders wf agree
  exact lays.read_text same

/-- Any of the matches found in a text can be applied to its source or while its tree is written
out: both texts are read, and as the same tree, that of the text with the outermost of these
matches replaced. -/
theorem read_apply_eq_sourceless {d : Detector} {text : String} (read : Tree.read text = .ok t)
    (chosen : found.Sublist (d.scan t)) (valid : n.Valid) :
    ∃ spliced written, Tree.read (t.apply n.text found) = .ok spliced ∧
      Tree.read (t.sourceless.apply n.text found) = .ok written ∧
      spliced.root.unspanned = written.root.unspanned ∧
      written.root.unspanned =
        (t.root.graft (Match.grafts n (Tree.outermost found))).unspanned := by
  have inside : ∀ m ∈ found, m.In t.root :=
    fun m member => Detector.in_of_mem_scan (chosen.subset member)
  have distinct : (found.map fun m => m.span.path).Nodup :=
    (d.scan_distinct t).sublist (chosen.map _)
  obtain ⟨spliced, readSpliced, graftedSpliced⟩ := read_apply read valid inside distinct
  obtain ⟨written, readWritten, graftedWritten⟩ :=
    read_apply_sourceless (wellFormed_of_read read) valid inside
  exact ⟨spliced, written, readSpliced, readWritten, graftedSpliced.trans graftedWritten.symm,
    graftedWritten⟩

end

/-- Only the second of two calls is applied, to a text with white space of its own. -/
theorem read_apply_eq_sourceless_second :
    let d : Detector := ⟨fun _ => .value, false, "equals", nullComparison, true⟩
    let n := DottedName.plain "same"
    ∃ t first second, Tree.read "( a.equals(b)) &&c .equals( d )" = .ok t ∧
      d.scan t = [first, second] ∧
      ∃ spliced written, Tree.read (t.apply n.text [second]) = .ok spliced ∧
        Tree.read (t.sourceless.apply n.text [second]) = .ok written ∧
        spliced.root.unspanned = written.root.unspanned := by
  intro d n
  have valid : n.Valid := ⟨⟨'s', "ame".toList, rfl, by decide, by decide⟩, by decide⟩
  have read : Tree.read "( a.equals(b)) &&c .equals( d )" = .ok ⟨.binary .and
      (.paren (.invoke (.name "a" (some ⟨2, 3⟩)) "equals" [.name "b" (some ⟨11, 12⟩)]
        (some ⟨2, 13⟩)) (some ⟨0, 14⟩))
      (.invoke (.name "c" (some ⟨17, 18⟩)) "equals" [.name "d" (some ⟨28, 29⟩)] (some ⟨17, 31⟩))
      (some ⟨0, 31⟩), some "( a.equals(b)) &&c .equals( d )"⟩ := rfl
  refine ⟨_, _, _, read, rfl, ?_⟩
  obtain ⟨spliced, written, readSpliced, readWritten, same, -⟩ := read_apply_eq_sourceless read
    (d := d) (List.sublist_cons_self _ [_]) valid
  exact ⟨spliced, written, readSpliced, readWritten, same⟩

end NullSafeEq
