import RelationalStore.Text.Fields
import RelationalStore.Text.Upper
import RelationalStore.Value.Basic

/-!
# Rows in a grid

Rows are shown in a box under their headers in upper case. A column is as wide as its
widest cell, counted in code points, and at least one character.
-/

namespace RelationalStore.Report

/-- A dashed line of the given length. -/
def dashes (length : Nat) : String :=
  String.ofList (List.replicate length '-')

/-- The width of a column: that of its header or of its widest cell. -/
def columnWidth (header : String) (cells : List Value) : Nat :=
  cells.foldl (fun width v => max width v.width) (max header.length 1)

/-- The widths of all columns; a row may be shorter than the headers. -/
def columnWidths (headers : List String) (rows : List Row) : List Nat :=
  headers.zipIdx.map fun (header, i) => columnWidth header (rows.filterMap (·[i]?))

/-- One line of cells. Cells without a column are left out. -/
def gridLine (widths : List Nat) (cells : List String) : String :=
  let padded := (cells.zip widths).map fun (cell, width) => " " ++ Text.padEnd width cell ++ " "
  "|" ++ "|".intercalate padded ++ "|"

/-- The line between headers and rows. -/
def gridBorder (widths : List Nat) : String :=
  "+" ++ "+".intercalate (widths.map fun width => dashes (width + 2)) ++ "+"

/-- Rows in a box under their headers. -/
def grid (headers : List String) (rows : List Row) : String :=
  let titles := headers.map Text.upper
  let widths := columnWidths titles rows
  let border := gridBorder widths
  let lines := rows.map fun row => gridLine widths (row.map Value.text)
  "\n".intercalate ([border, gridLine widths titles, border] ++ lines ++ [border])

end RelationalStore.Report
