import NullSafeEq.Idiom.Detector

/-!
# Replacing matches

A match is replaced by a helper call on its two operands, which keep their text. Of nested matches
only the outermost is applied. Where the source and all places are known the replacements are
spliced into the source, from the last place to the first; otherwise the tree is written out
canonically with the replacements in place.
-/
namespace NullSafeEq

/-- The helper that is called when nothing else is said. -/
def standardHelper : String := "java.util.Objects.equals"

namespace Tree

/-- `helper(left, right)`, behind a `!` when the match is negated. -/
def replacement (t : Tree) (helper : String) (m : Match) : String :=
  let call := helper ++ "(" ++ t.textOf m.left.node ++ ", " ++ t.textOf m.right.node ++ ")"
  if m.negated then "!" ++ call else call

/-- The matches that lie below no other match of the list. -/
def outermost (found : List Match) : List Match :=
  found.filter fun m => !found.any fun other => other.span.isAbove m.span

/-- Of the matches with the place of `m`, the last one. -/
def lastAt (selected : List Match) (m : Match) : Match :=
  (selected.reverse.find? fun other => other.span.sameAs m.span).getD m

/-- Cut out a range of a text and put another text there. A range with its ends swapped repeats
the text between them. -/
def splice (text : List Char) (span : Span) (inserted : String) : List Char :=
  text.take span.start ++ inserted.toList ++ text.drop span.stop

/-- The range of a match with its replacement, when the range is known. -/
def edit? (t : Tree) (helper : String) (selected : List Match) (m : Match) :
    Option (Span × String) :=
  m.span.node.span.map fun span => (span, t.replacement helper (lastAt selected m))

/-- The edits of all matches, the last start first; edits with one start keep their order. Nothing
when some range is not known. -/
def edits? (t : Tree) (helper : String) (selected : List Match) : Option (List (Span × String)) :=
  (selected.mapM (t.edit? helper selected)).map fun edits =>
    edits.mergeSort fun a b => b.1.start ≤ a.1.start

/-- The replacements at the places of the matches. -/
def patch (t : Tree) (helper : String) (selected : List Match) : Patch := fun path =>
  (selected.reverse.find? fun m => m.span.path == path).map (t.replacement helper)

/-- The text of the tree with the matches applied. -/
def apply (t : Tree) (helper : String) (found : List Match) : String :=
  let selected := outermost found
  match t.source, t.edits? helper selected with
  | some source, some edits =>
    String.ofList (edits.foldl (fun text (span, inserted) => splice text span inserted)
      source.toList)
  | _, _ => t.root.renderWith (t.patch helper selected)

end Tree

end NullSafeEq
