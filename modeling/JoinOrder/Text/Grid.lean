import JoinOrder.Text.Width
/-!
# Ruled tables

A table of cells with a rule above the titles, a double rule below them, rules between the rows and a
rule at the bottom.
Every column is as wide as its widest line, with a blank on both sides. A cell of several lines makes
its row as high.
-/

namespace JoinOrder.Text

/-- The lines of a text: each but the last ends at a line feed, together with a carriage return
before it, and a text that ends so has no empty line after it. -/
def linesFrom (line : List Char) : List Char → List (List Char)
  | [] => if line.isEmpty then [] else [line.reverse]
  | '\n' :: rest =>
    (match line with
      | '\r' :: line => line.reverse
      | line => line.reverse) :: linesFrom [] rest
  | c :: rest => linesFrom (c :: line) rest

/-- The lines of a text. -/
def lines (text : String) : List (List Char) := linesFrom [] text.toList

/-- The columns a cell needs. -/
def cellWidth (cell : List (List Char)) : Nat := (cell.map shownColumns).foldl max 0

/-- The widths of the columns of a table. -/
def columnWidths : List (List (List (List Char))) → List Nat
  | [] => []
  | [row] => row.map cellWidth
  | row :: rows => List.zipWith max (row.map cellWidth) (columnWidths rows)

/-- A rule drawn with a character. -/
def rule (mark : Char) (widths : List Nat) : String :=
  "+" ++ String.join (widths.map fun w => String.ofList (List.replicate (w + 2) mark) ++ "+") ++ "\n"

/-- One line of one cell. -/
def cellLine (width i : Nat) (cell : List (List Char)) : String :=
  let line := cell[i]?.getD []
  " " ++ String.ofList (line ++ List.replicate (width - shownColumns line) ' ') ++ " |"

/-- One row of cells. -/
def rowText (widths : List Nat) (row : List (List (List Char))) : String :=
  let height := (row.map List.length).foldl max 0
  String.join ((List.range height).map fun i =>
    "|" ++ String.join (List.zipWith (fun w cell => cellLine w i cell) widths row) ++ "\n")

/-- The text of a table. -/
def grid (titles : List String) (rows : List (List String)) : String :=
  let titles := titles.map lines
  let rows := rows.map fun row => row.map lines
  let widths := columnWidths (titles :: rows)
  let line := rule '-' widths
  line ++ rowText widths titles ++ rule '=' widths ++ line.intercalate (rows.map (rowText widths)) ++
    line

end JoinOrder.Text
