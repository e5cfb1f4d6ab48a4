import RemoteCalls.Text.Pieces

/-!
# Lines of a text
-/

namespace RemoteCalls.Text

/-- The lines that pieces between line breaks stand for. A carriage return in front of a line break
belongs to it, and behind the last line break there is no line unless it holds something. -/
def linesOfPieces : List (List Char) → List (List Char)
  | [] => []
  | [last] => if last.isEmpty then [] else [last]
  | piece :: rest =>
    (if piece.getLast? = some '\r' then piece.dropLast else piece) :: linesOfPieces rest

/-- The lines of a text. -/
def lines (text : String) : List String :=
  (linesOfPieces (pieces '\n' text.toList)).map String.ofList

/-- A text filled up with spaces to a number of characters. -/
def padRight (width : Nat) (text : String) : String :=
  text ++ String.ofList (List.replicate (width - text.length) ' ')

end RemoteCalls.Text
