import LanguageUsage.Number.Rounding
import LanguageUsage.Text.Wrap

/-!
# Grids

A table for the terminal: a centred title, a frame of lines, a heading, and columns that are as wide
as their widest cell with a blank on either side. If the table is too wide for the terminal the widest
columns are made narrower, and their cells take several lines.

* `Grid`, `Grid.widths`: a table, and the widths of its columns;
* `Grid.lines`: the lines of the table.
-/

namespace LanguageUsage

/-- A column: its heading, and the side to which its cells are moved. -/
structure GridColumn where
  heading : String
  toTheRight : Bool := false
  deriving DecidableEq, Repr

/-- A titled table; every row has a cell for every column. -/
structure Grid where
  title : String
  columns : List GridColumn
  rows : List (List String)
  deriving DecidableEq, Repr

namespace Grid

/-- `n` times a character. -/
def fill (n : Nat) (c : Char) : String := String.ofList (List.replicate n c)

/-! ### Widths -/

/-- Take `total` from the widths for which `shrinks`, in equal shares of at most `most` each. The shares
are rounded one after the other, `among` being the number of widths that are still to come. -/
def shrinkEach (shrinks : Nat → Bool) (most : Nat) : Nat → Nat → List Nat → List Nat
  | _, _, [] => []
  | total, among, w :: ws =>
    if shrinks w then
      let share := min most (roundEven total among)
      (w - share) :: shrinkEach shrinks most (total - share) (among - 1) ws
    else w :: shrinkEach shrinks most total among ws

/-- Make the widest columns narrower, down to the next one in width at a time, until all of them take
no more than `limit`. -/
def shrunk (limit : Nat) : Nat → List Nat → List Nat
  | 0, ws => ws
  | fuel + 1, ws =>
    if ws.sum ≤ limit then ws
    else
      let widest := ws.foldl max 0
      let second := (ws.filter (· ≠ widest)).foldl max 0
      let most := min (ws.sum - limit) (widest - second)
      shrunk limit fuel
        (shrinkEach (· == widest) most (ws.sum - limit) (ws.count widest) ws)

/-- The width that a column needs without its blanks. -/
def contentWidth (g : Grid) (i : Nat) (c : GridColumn) : Nat :=
  let cells := c.heading :: g.rows.map fun r => (r[i]?).getD ""
  (cells.map fun s => Text.widestLine (s.toList.filter (!Text.isSilent ·))).foldl max 0

/-- The width of every column, blanks included, in a table that takes at most `limit` columns of the
terminal. -/
def widths (g : Grid) (limit : Nat) : List Nat :=
  let room := limit - (g.columns.length + 1)
  let wanted := g.columns.mapIdx fun i c => min room (g.contentWidth i c + 2)
  List.zipWith min wanted (shrunk room wanted.sum wanted)

/-! ### Lines -/

/-- The lines of a cell of `width` columns, blanks included. -/
def cellLines (width : Nat) (column : GridColumn) (s : String) : List String :=
  let inner := width - 2
  (Text.rawLines .ellipsis inner s.toList).map fun line =>
    let line := if column.toTheRight then Text.withoutEnd line else line
    let line := Text.truncated .ellipsis inner line
    let gap := fill (inner - Text.columns line) ' '
    let line := String.ofList line
    if column.toTheRight then " " ++ gap ++ line ++ " " else " " ++ line ++ gap ++ " "

/-- A line of the frame. -/
def rule (widths : List Nat) (left line joint right : Char) : String :=
  left.toString ++ joint.toString.intercalate (widths.map fun w => fill w line) ++ right.toString

/-- The lines of a row: as many as those of its highest cell. -/
def rowLines (g : Grid) (widths : List Nat) (bar : String) (row : List String) : List String :=
  let cells := ((widths.zip g.columns).zip row).map fun c => (c.1.1, cellLines c.1.1 c.1.2 c.2)
  let height := (cells.map (·.2.length)).foldl max 1
  (List.range height).map fun k =>
    bar ++ bar.intercalate (cells.map fun c => (c.2[k]?).getD (fill c.1 ' ')) ++ bar

/-- The title in the middle; if the blanks cannot be halved there are more on the right. -/
def titleLine (g : Grid) (widths : List Nat) : String :=
  let total := widths.sum + widths.length + 1
  let blanks := total - Text.width g.title
  fill (blanks / 2) ' ' ++ g.title ++ fill (blanks - blanks / 2) ' '

/-- The lines of the table, which takes at most `limit` columns of the terminal. -/
def lines (g : Grid) (limit : Nat) : List String :=
  let ws := g.widths limit
  [g.titleLine ws, rule ws '┏' '━' '┳' '┓']
    ++ g.rowLines ws "┃" (g.columns.map (·.heading))
    ++ [rule ws '┡' '━' '╇' '┩']
    ++ g.rows.flatMap (g.rowLines ws "│")
    ++ [rule ws '└' '─' '┴' '┘']

end Grid

end LanguageUsage
