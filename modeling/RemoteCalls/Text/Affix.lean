/-!
# Fronts and backs of texts

Whether a text begins or ends with another one, and what is left of it then.
-/

namespace RemoteCalls.Text

/-- Whether a text begins with another one. -/
def beginsWith (front text : String) : Bool :=
  front.toList.isPrefixOf text.toList

/-- Whether a text ends with another one. -/
def endsWith (back text : String) : Bool :=
  back.toList.isSuffixOf text.toList

/-- What stands in a text before the given back, if it ends with that. -/
def dropBack? (back text : String) : Option String :=
  if endsWith back text then
    some (String.ofList (text.toList.take (text.toList.length - back.toList.length)))
  else none

/-- A text with a back put behind it is that text again without it. -/
@[simp] theorem dropBack?_append (text back : String) :
    dropBack? back (text ++ back) = some text := by
  simp [dropBack?, endsWith]

end RemoteCalls.Text
