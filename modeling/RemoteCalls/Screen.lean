/-!
# Screens

A screen is a rectangle of cells, each with one character and a style. Texts are written row by row
and cut where their room ends; setting a style changes only the parts of it that are given. A line
break inside of a text takes no cell.
-/

namespace RemoteCalls

/-- A color by its red, green and blue parts, or the black of the terminal. -/
inductive Color where
  | black
  | rgb (red green blue : Nat)
deriving DecidableEq, Repr

/-- The look of a cell. A color that is not given is that of the terminal. -/
structure Style where
  foreground : Option Color
  background : Option Color
  bold : Bool
deriving DecidableEq, Repr, Inhabited

namespace Style

/-- No color given. -/
def plain : Style := ⟨none, none, false⟩

/-- A color for the characters. -/
def fg (color : Color) : Style := ⟨some color, none, false⟩

/-- A color for the ground. -/
def bg (color : Color) : Style := ⟨none, some color, false⟩

/-- A style with bold characters. -/
def emphasized (style : Style) : Style := { style with bold := true }

/-- A style with the parts that another one gives. -/
def patch (style new : Style) : Style :=
  ⟨new.foreground.or style.foreground, new.background.or style.background, style.bold || new.bold⟩

end Style

/-- A text in one style. -/
structure Span where
  text : String
  style : Style
deriving DecidableEq, Repr, Inhabited

/-- One cell of a screen. The text is one character, and any line breaks that were written with
it. -/
structure Cell where
  text : List Char
  style : Style
deriving DecidableEq, Repr, Inhabited

namespace Span

/-- Characters without line breaks, which are line feeds with or without a carriage return. -/
def dropBreaks : List Char → List Char
  | [] => []
  | c :: cs =>
    if c = '\n' ∨ (c = '\r' ∧ cs.head? = some '\n') then dropBreaks cs
    else c :: dropBreaks cs

/-- A span without line breaks. -/
def withoutBreaks (span : Span) : Span :=
  { span with text := String.ofList (dropBreaks span.text.toList) }

/-- Characters cell by cell. A carriage return with a line feed goes into the cell before it, or the
first cell if there is none before; a line feed alone is left out. `cell` holds the cell that is
filled, and `full` says that its character is there. -/
def cellTexts : (cell : List Char) → (full : Bool) → List Char → List (List Char)
  | cell, full, [] => if full then [cell] else []
  | cell, full, c :: cs =>
    if c = '\n' then cellTexts cell full cs
    else if c = '\r' ∧ cs.head? = some '\n' then cellTexts (cell ++ ['\r', '\n']) full cs
    else if full then cell :: cellTexts [c] true cs
    else cellTexts (cell ++ [c]) true cs

/-- The cells of a span. -/
def cells (span : Span) : List Cell :=
  (cellTexts [] false span.text.toList).map (⟨·, span.style⟩)

end Span

/-- A rectangle by its upper left cell and its size. -/
structure Area where
  left : Nat
  top : Nat
  width : Nat
  height : Nat
deriving DecidableEq, Repr, Inhabited

namespace Area

/-- Whether a rectangle has no cells. -/
def isEmpty (area : Area) : Bool := area.width == 0 || area.height == 0

/-- The rectangle inside of a border of one cell. -/
def inner (area : Area) : Area :=
  ⟨area.left + 1, area.top + 1, area.width - 2, area.height - 2⟩

/-- One row of a rectangle. -/
def row (area : Area) (index : Nat) : Area :=
  ⟨area.left, area.top + index, area.width, if index < area.height then 1 else 0⟩

end Area

/-- A rectangle of cells, row by row. -/
structure Screen where
  width : Nat
  height : Nat
  cells : Array Cell
deriving Repr

namespace Screen

/-- A screen of spaces. -/
def blank (width height : Nat) : Screen :=
  ⟨width, height, Array.replicate (width * height) ⟨[' '], .plain⟩⟩

/-- The whole of a screen. -/
def area (screen : Screen) : Area := ⟨0, 0, screen.width, screen.height⟩

/-- A screen with one cell changed; cells outside of it do not count. -/
def change (screen : Screen) (x y : Nat) (f : Cell → Cell) : Screen :=
  if x < screen.width ∧ y < screen.height then
    { screen with cells := screen.cells.modify (y * screen.width + x) f }
  else screen

/-- A screen with one cell written over another. -/
def put (screen : Screen) (x y : Nat) (new : Cell) : Screen :=
  screen.change x y fun cell => ⟨new.text, cell.style.patch new.style⟩

/-- A screen with a style set on every cell of a rectangle. -/
def paint (screen : Screen) (area : Area) (style : Style) : Screen :=
  (List.range area.height).foldl (fun screen dy =>
    (List.range area.width).foldl (fun screen dx =>
      screen.change (area.left + dx) (area.top + dy) fun cell =>
        { cell with style := cell.style.patch style }) screen) screen

/-- A screen with cells written from one place on to the right. -/
def write (screen : Screen) (x y : Nat) : List Cell → Screen
  | [] => screen
  | cell :: rest => write (screen.put x y cell) (x + 1) y rest

/-- A screen with spans written at the left of a row, cut at its end. -/
def writeLeft (screen : Screen) (row : Area) (spans : List Span) : Screen :=
  if row.isEmpty then screen
  else screen.write row.left row.top ((spans.flatMap (·.cells)).take row.width)

/-- A screen with spans written at the right of a row, cut at its end. -/
def writeRight (screen : Screen) (row : Area) (spans : List Span) : Screen :=
  if row.isEmpty then screen
  else
    let shown := (spans.flatMap (·.cells)).take row.width
    screen.write (row.left + (row.width - shown.length)) row.top shown

/-- A screen with lines written in the rows of a rectangle, as many as it has. -/
def writeLines (screen : Screen) (area : Area) (lines : List (List Span)) : Screen :=
  ((List.range area.height).zip lines).foldl (fun screen (index, line) =>
    screen.writeLeft (area.row index) line) screen

/-- A screen with a border along the edge of a rectangle and a title in the upper edge. -/
def border (screen : Screen) (area : Area) (style : Style) (title : String) : Screen :=
  if area.isEmpty then screen
  else
    let right := area.left + area.width - 1
    let bottom := area.top + area.height - 1
    let edge (screen : Screen) (x y : Nat) (c : Char) : Screen := screen.put x y ⟨[c], style⟩
    let screen := (List.range area.height).foldl (fun screen dy =>
      edge (edge screen area.left (area.top + dy) '│') right (area.top + dy) '│') screen
    let screen := (List.range area.width).foldl (fun screen dx =>
      edge (edge screen (area.left + dx) area.top '─') (area.left + dx) bottom '─') screen
    let screen := edge screen right bottom '┘'
    let screen := edge screen right area.top '┐'
    let screen := edge screen area.left bottom '└'
    let screen := edge screen area.left area.top '┌'
    screen.writeLeft ⟨area.left + 1, area.top, area.width - 2, 1⟩ [⟨title, .plain⟩]

/-- The cells of a screen by rows. -/
def rows (screen : Screen) : List (List Cell) :=
  (List.range screen.height).map fun y =>
    ((List.range screen.width).map fun x => screen.cells[y * screen.width + x]?).filterMap id

/-- The texts in the rows of a screen. -/
def lines (screen : Screen) : List String :=
  screen.rows.map fun row => String.ofList (row.flatMap (·.text))

end Screen

end RemoteCalls
