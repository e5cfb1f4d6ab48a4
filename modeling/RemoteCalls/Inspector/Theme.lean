import RemoteCalls.Screen

/-!
# Colors of the inspector

The colors of the inspector by what they are for.
-/

namespace RemoteCalls.Inspector.Theme

/-- Text. -/
def text : Color := .rgb 205 214 244

/-- Brackets, and the badge of a run without errors. -/
def primary : Color := .rgb 137 180 250

/-- Headings and variables. -/
def secondary : Color := .rgb 250 179 135

/-- Comments and whatever stands back. -/
def comment : Color := .rgb 108 112 134

/-- The absence of errors. -/
def success : Color := .rgb 166 227 161

/-- Errors. -/
def error : Color := .rgb 243 139 168

/-- Keywords. -/
def keyword : Color := .rgb 137 180 250

/-- Literals in quotes. -/
def string : Color := .rgb 250 179 135

/-- Numbers. -/
def number : Color := .rgb 250 179 135

/-- The border of the pane in use. -/
def focusedBorder : Color := .rgb 249 226 175

/-- The borders of the other panes. -/
def border : Color := .rgb 108 112 134

/-- The ground of the selection and of the status bar. -/
def selection : Color := .rgb 50 50 70

/-- Names of functions. -/
def function : Color := .rgb 249 226 175

/-- Names of types. -/
def type : Color := .rgb 148 226 213

/-- Annotations and placeholders. -/
def note : Color := .rgb 245 194 231

/-- The color for the kind of an entry. -/
def kind (kind : String) : Color :=
  if kind = "function" then function
  else if kind = "struct" ∨ kind = "typedef" then type
  else if kind = "placeholder" ∨ kind = "annotation" then note
  else if kind = "variable" then secondary
  else text

end RemoteCalls.Inspector.Theme
