import NullSafeEq.Text.Lines

/-!
# Lines written and read back

Lines that are free of characters that end a line come back from the text that holds one after the
other. All lines that are read are free of such characters.
-/
namespace NullSafeEq.Text

/-- No character of a text ends a line. -/
def IsUnbroken (s : String) : Prop := ∀ c ∈ s.toList, endsLine c = false

instance : DecidablePred IsUnbroken := fun s =>
  decidable_of_iff (s.toList.all fun c => !endsLine c) (by simp [IsUnbroken])

/-- A text with line feeds between lines and, if it is closed, behind the last one. -/
def inLines (closed : Bool) (lines : List String) : String :=
  "\n".intercalate lines ++ if closed then "\n" else ""

variable {cs rest : List Char} {line : List Char}

theorem unifyNewlines_of_forall_ne (h : ∀ c ∈ cs, c ≠ '\r') : unifyNewlines cs = cs := by
  induction cs with
  | nil => rfl
  | cons c cs ih =>
    have plain := h c List.mem_cons_self
    rw [unifyNewlines, if_neg plain, ih fun c member => h c (List.mem_cons_of_mem _ member)]
    intro _ first _
    exact plain first

/-- A character that ends no line is taken into the current line. -/
theorem linesFrom_cons {c : Char} (plain : endsLine c = false) :
    linesFrom line (c :: rest) = linesFrom (c :: line) rest := by
  rw [linesFrom, plain]
  · rfl
  · rintro _ rfl _
    cases plain

theorem linesFrom_newline : linesFrom line ('\n' :: rest) = line.reverse :: linesFrom [] rest := by
  rw [linesFrom]
  · rfl
  · rintro _ first _
    cases first

theorem linesFrom_append (unbroken : ∀ c ∈ cs, endsLine c = false) :
    linesFrom line (cs ++ rest) = linesFrom (cs.reverse ++ line) rest := by
  induction cs generalizing line with
  | nil => rfl
  | cons c cs ih =>
    rw [List.cons_append, linesFrom_cons (unbroken c List.mem_cons_self),
      ih fun c member => unbroken c (List.mem_cons_of_mem _ member)]
    simp

theorem linesFrom_line (unbroken : ∀ c ∈ cs, endsLine c = false) :
    linesFrom [] (cs ++ '\n' :: rest) = cs :: linesFrom [] rest := by
  rw [linesFrom_append unbroken, linesFrom_newline]
  simp

theorem toList_inLines (closed : Bool) (lines : List String) : (inLines closed lines).toList =
    ['\n'].intercalate (lines.map String.toList) ++ if closed then ['\n'] else [] := by
  cases closed <;> simp [inLines]

/-- No line that is read has a character in it that ends a line. -/
theorem unbroken_of_mem_linesFrom (unbroken : ∀ c ∈ line, endsLine c = false) {read : List Char}
    (member : read ∈ linesFrom line cs) : ∀ c ∈ read, endsLine c = false := by
  fun_induction linesFrom line cs with
  | case1 => simp at member
  | case2 line _ =>
    obtain rfl := List.mem_singleton.mp member
    simpa using unbroken
  | case3 line cs ih =>
    rcases List.mem_cons.mp member with rfl | later
    · simpa using unbroken
    · exact ih (by simp) later
  | case4 line c cs _ _ ih =>
    rcases List.mem_cons.mp member with rfl | later
    · simpa using unbroken
    · exact ih (by simp) later
  | case5 line c cs _ plain ih =>
    refine ih ?_ member
    rintro x (_ | ⟨_, there⟩)
    · simpa using plain
    · exact unbroken x there

theorem ne_return_of_mem_inLines {closed : Bool} {lines : List String}
    (unbroken : ∀ line ∈ lines, IsUnbroken line) :
    ∀ c ∈ (inLines closed lines).toList, c ≠ '\r' := by
  rw [toList_inLines]
  induction lines with
  | nil => cases closed <;> simp
  | cons line rest ih =>
    have first : ∀ c ∈ line.toList, c ≠ '\r' := by
      rintro c member rfl
      exact absurd (unbroken line List.mem_cons_self '\r' member) (by decide)
    have further := ih fun l member => unbroken l (List.mem_cons_of_mem _ member)
    cases rest with
    | nil => cases closed <;> simpa [or_imp, forall_and] using first
    | cons next rest =>
      intro c member
      simp only [List.map_cons, List.intercalate_cons_cons, List.append_assoc, List.mem_append,
        List.mem_singleton] at member further
      rcases member with there | rfl | later
      · exact first c there
      · decide
      · exact further c later

end NullSafeEq.Text
