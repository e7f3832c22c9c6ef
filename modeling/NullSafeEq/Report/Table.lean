import NullSafeEq.Report.Layout
import NullSafeEq.Text.Lines

/-!
# Tables

A table has a title, a heavy head and a frame. Each column is as wide as its widest line and one
blank on either side, as long as the table fits; otherwise the widest columns are narrowed, and
what no longer fits into a line of a cell is broken between words or cut off.
-/
namespace NullSafeEq.Report

/-- The cells of a column, or of a row, are texts. -/
abbrev Cell := List Char

/-- The width that a cell asks for, with a blank on either side. -/
def Cell.natural (cell : Cell) : Nat :=
  ((Text.lines (String.ofList cell)).map fun line => width line.toList).foldl max 0 + 2

/-- The widths that columns ask for when they may take at most `limit` each. -/
def naturalWidths (limit : Nat) (rows : List (List Cell)) : List Nat :=
  (rows.foldl (fun widths row => List.zipWith max widths (row.map Cell.natural))
    ((rows.head?.getD []).map fun _ => 0)).map fun w => max 1 (min limit w)

/-- A fraction rounded to the nearest whole number, from the middle to the even one. -/
def roundDiv (n d : Nat) : Nat :=
  let q := n / d
  if 2 * (n % d) < d then q else if 2 * (n % d) = d then q + q % 2 else q + 1

/-- Take `excess` from the columns of the width `top`, of which `count` are left, in equal shares of
at most `most`. -/
def shrink (top most : Nat) (count excess : Nat) : List Nat → List Nat
  | [] => []
  | w :: rest =>
    if w = top then
      let share := min most (roundDiv excess count)
      (w - share) :: shrink top most (count - 1) (excess - share) rest
    else w :: shrink top most count excess rest

/-- Narrow the widest columns, down to the next ones, until all columns fit into `limit`. Each of
the `fuel` rounds takes one cell at least. -/
def narrow (limit : Nat) : (fuel : Nat) → List Nat → List Nat
  | 0, widths => widths
  | fuel + 1, widths =>
    let excess := total widths - limit
    if excess = 0 then widths
    else
      let top := widths.foldl max 0
      let next := (widths.filter (· ≠ top)).foldl max 0
      narrow limit fuel (shrink top (min excess (top - next)) (widths.count top) excess widths)

/-- The widths of the columns of a table that may take `limit` cells apart from its frame. -/
def columnWidths (limit : Nat) (rows : List (List Cell)) : List Nat :=
  let natural := naturalWidths limit rows
  narrow limit (total natural) natural

/-- The lines of a cell in a column. -/
def Cell.lines (w : Nat) (cell : Cell) : List (List Char) :=
  if w ≤ 2 then [] else (layout (w - 2) .ellipsis .flush cell).map fun line => ' ' :: line ++ [' ']

/-- A horizontal line through a table. -/
def ruleLine (left line cross right : Char) (widths : List Nat) : List Char :=
  left :: [cross].intercalate (widths.map fun w => List.replicate w line) ++ [right]

/-- The lines of a row with a bar between its cells. The cells of the head stand at the bottom. -/
def rowLines (isHead : Bool) (bar : Char) (widths : List Nat) (row : List Cell) :
    List (List Char) :=
  let columns := List.zipWith Cell.lines widths row
  let height := (columns.map List.length).foldl max 1
  let filled := List.zipWith (fun w lines =>
    let missing := List.replicate (height - List.length lines) (blanks w)
    if isHead then missing ++ lines else lines ++ missing) widths columns
  (List.range height).map fun i =>
    bar :: [bar].intercalate (filled.map fun lines => (lines[i]?).getD []) ++ [bar]

/-- The lines of a table on a terminal of some width. A table without a title starts at once. -/
def table (limit : Nat) (title : Option (List Char)) (head : List Cell) (rows : List (List Cell)) :
    List (List Char) :=
  let frame := head.length + 1
  let widths := columnWidths (limit - frame) (head :: rows)
  let lines :=
    (match title with
      | none => []
      | some title => layout (total widths + frame) .fold .centre title) ++
      [ruleLine '┏' '━' '┳' '┓' widths] ++
      rowLines true '┃' widths head ++
      [ruleLine '┡' '━' '╇' '┩' widths] ++
      rows.flatMap (rowLines false '│' widths) ++
      [ruleLine '└' '─' '┴' '┘' widths]
  lines.map (takeCells limit)

end NullSafeEq.Report
