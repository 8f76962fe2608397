import TreePass.Console.Markup
import TreePass.Text.Width

/-!
Tables in a box with a heavy head. Every column is as wide as its widest cell, with a blank on
either side, and the title stands centred above the box, broken into lines where it is too long.
-/

set_option autoImplicit false
set_option relaxedAutoImplicit false

namespace TreePass.Console

structure Column where
  header : String
  /-- Whether cells stand at the right. -/
  alignRight : Bool := false

structure Table where
  title : String
  columns : List Column
  rows : List (List String)

namespace Table

def repeated (count : Nat) (text : String) : String :=
  String.join (List.replicate count text)

def cell (alignRight : Bool) (width : Nat) (text : String) : String :=
  let slack := repeated (width - Text.Width.ofText text) " "
  if alignRight then " " ++ slack ++ text ++ " " else " " ++ text ++ slack ++ " "

def rule (left fill middle right : String) (widths : List Nat) : String :=
  left ++ middle.intercalate (widths.map fun width => repeated (width + 2) fill) ++ right

def row (border : String) (columns : List (Column × Nat)) (cells : List String) : String :=
  border ++
    border.intercalate ((columns.zip cells).map fun ((column, width), text) =>
      cell column.alignRight width text) ++ border

def widths (table : Table) : List Nat :=
  table.columns.zipIdx.map fun (column, index) =>
    (table.rows.map fun cells => Text.Width.ofText (cells.getD index "")).foldl max
      (Text.Width.ofText column.header)

def words (text : List Char) : List (List Char) :=
  let pieces := text.splitBy fun a b => !Text.Blank.isBlank a || Text.Blank.isBlank b
  match pieces with
  | blank :: word :: rest =>
    if blank.all Text.Blank.isBlank then (blank ++ word) :: rest else pieces
  | _ => pieces

def chop (width : Nat) (text : List Char) : List (List Char) :=
  let step (c : Char) : List (List Char) → List (List Char)
    | line :: lines =>
      if Text.Width.ofChars line + Text.Width.columns c > width then [c] :: line :: lines
      else (line ++ [c]) :: lines
    | [] => [[c]]
  (text.foldl (fun lines c => step c lines) []).reverse

/-- Fills lines of the given width with words; the last line is still open. -/
def fill (width : Nat) (open_ : List Char) : List (List Char) → List (List Char)
  | [] => [open_]
  | word :: rest =>
    let size := Text.Width.ofChars (Text.Blank.trimEnd word)
    if Text.Width.ofChars open_ + size ≤ width then fill width (open_ ++ word) rest
    else
      let before := if open_.isEmpty then [] else [open_]
      if size > width then
        let pieces := chop width word
        before ++ pieces.dropLast ++ fill width (pieces.getLastD []) rest
      else before ++ fill width word rest

/-- A line in the middle of the given width; an odd blank stands at the right. -/
def centred (width : Nat) (line : List Char) : String :=
  let text := Text.Blank.trimEnd line
  repeated ((width - Text.Width.ofChars text) / 2) " " ++ String.ofList text

def titleLines (width : Nat) (text : String) : List String :=
  (fill width [] (words text.toList)).map (centred width)

def lines (table : Table) : Except Markup.Unmatched (List String) := do
  let widths := table.widths
  let columns := table.columns.zip widths
  let whole := widths.foldr (· + ·) 0 + 3 * widths.length + 1
  let title ← Markup.lines table.title
  return title.flatMap (titleLines whole) ++
    [rule "┏" "━" "┳" "┓" widths,
      row "┃" columns (table.columns.map Column.header),
      rule "┡" "━" "╇" "┩" widths] ++
    table.rows.map (row "│" columns) ++
    [rule "└" "─" "┴" "┘" widths]

end Table

end TreePass.Console
