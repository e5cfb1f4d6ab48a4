import RemoteCalls.Text.Blank

/-!
# Pieces of a text

A text cut at each occurrence of a character.
-/

namespace RemoteCalls.Text

/-- The runs of characters between the occurrences of `mark`. -/
def pieces (mark : Char) : List Char → List (List Char)
  | [] => [[]]
  | c :: cs =>
    match pieces mark cs with
    | [] => [[c]]
    | piece :: rest => if c = mark then [] :: piece :: rest else (c :: piece) :: rest

/-- The pieces between commas, without the blanks around them and without the empty ones. -/
def commaPieces (cs : List Char) : List String :=
  ((pieces ',' cs).map fun piece => String.ofList (trim piece)).filter fun s => !s.isEmpty

end RemoteCalls.Text
