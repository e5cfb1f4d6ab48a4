import RemoteCalls.Note
import RemoteCalls.CType.Declarator
import RemoteCalls.Declaration.Basic

/-!
# Declarations

The records of functions, structures, typedefs, variables and placeholders, and how a record takes
in a later sighting of the same name. A second definition at another place is refused; in every
other case the notes of both sightings are kept. The kinds that have one record for each name are
instances of `Record`.
-/

namespace RemoteCalls

/-- The storage words seen on a declaration. -/
structure Storage where
  isStatic : Bool
  isExtern : Bool
  isInline : Bool
deriving DecidableEq, Repr, Inhabited

namespace Storage

/-- No storage words. -/
def empty : Storage := ⟨false, false, false⟩

/-- The storage words seen on either of two declarations. -/
def union (s t : Storage) : Storage :=
  ⟨s.isStatic || t.isStatic, s.isExtern || t.isExtern, s.isInline || t.isInline⟩

/-- The storage words as written. -/
def words (s : Storage) : List String :=
  (if s.isStatic then ["static"] else []) ++ (if s.isExtern then ["extern"] else []) ++
    (if s.isInline then ["inline"] else [])

end Storage

/-- What becomes of a record by a later sighting, and the place of the definition that the sighting
contradicts, if it does. -/
structure Merged (α : Type) where
  record : α
  conflict : Option Place

/-- The kinds of declarations that have one record for each name: the name, where it was first seen,
and what a later sighting does to the record. -/
class Record (α : Type) where
  name : α → String
  origin : α → Origin
  place : α → Place
  merge : α → α → Merged α

/-- A function. `place` is its first sighting, `isDefined` says whether its body was seen, and
`definition` is the place of the body. -/
structure Function where
  name : String
  result : CType
  params : ParamList
  storage : Storage
  origin : Origin
  place : Place
  isDefined : Bool
  definition : Option Place
  notes : List Note
deriving Repr, Inhabited

namespace Function

/-- The parameter with the given name. -/
def param? (f : Function) (name : String) : Option Param :=
  f.params.params.find? (·.name = some name)

/-- The prototype of a function. -/
def signature (f : Function) : String :=
  let params := f.params.params.map fun param =>
    match param.name with
    | some name => param.type.declare name
    | none => param.type.spelling
  f.result.declare (f.name ++ "(" ++ parameterText params f.params.variadic ++ ")")

/-- Takes in a later sighting. A body brings its own result type and parameters; a second body at
another place changes nothing. -/
def merge (f newer : Function) : Merged Function :=
  if newer.isDefined && f.isDefined then
    if f.definition.any (·.same newer.place) then
      ⟨{ f with notes := Note.union f.notes newer.notes }, none⟩
    else ⟨f, some (f.definition.getD f.place)⟩
  else
    let f := { f with
      storage := f.storage.union newer.storage
      notes := Note.union f.notes newer.notes }
    if newer.isDefined then
      ⟨{ f with
        result := newer.result
        params := newer.params
        isDefined := true
        definition := some newer.place }, none⟩
    else ⟨f, none⟩

instance : Record Function := ⟨name, origin, place, merge⟩

end Function

/-- A member of a structure; `width` is the size of a bit-field as written. -/
structure Field where
  name : String
  type : CType
  width : Option String
deriving Repr, Inhabited

/-- A structure. `isDefined` says whether its field list was seen, and `definition` is the place of
the list. -/
structure Structure where
  name : String
  fields : List Field
  origin : Origin
  place : Place
  isDefined : Bool
  definition : Option Place
  notes : List Note
deriving Repr, Inhabited

namespace Structure

/-- The tag of structures, unions and enumerations that are declared without one. -/
def anonymousTag : String := "(anonymous)"

/-- The field with the given name. -/
def field? (s : Structure) (name : String) : Option Field :=
  s.fields.find? (·.name == name)

/-- Takes in a later sighting. A second field list at another place changes nothing. -/
def merge (s newer : Structure) : Merged Structure :=
  if newer.isDefined && s.isDefined then
    if s.definition.any (·.same newer.place) then
      ⟨{ s with notes := Note.union s.notes newer.notes }, none⟩
    else ⟨s, some (s.definition.getD s.place)⟩
  else
    let s := { s with notes := Note.union s.notes newer.notes }
    if newer.isDefined then
      ⟨{ s with
        fields := newer.fields
        isDefined := true
        definition := some newer.place }, none⟩
    else ⟨s, none⟩

instance : Record Structure := ⟨name, origin, place, merge⟩

end Structure

/-- Another name for a type. -/
structure Typedef where
  name : String
  type : CType
  origin : Origin
  place : Place
  notes : List Note
deriving Repr, Inhabited

namespace Typedef

/-- Whether the name stands for a function type or a pointer to one. -/
def isCallback (t : Typedef) : Bool := t.type.isFunctionPointer

/-- Takes in a later sighting, which brings only notes. -/
def merge (t newer : Typedef) : Typedef :=
  { t with notes := Note.union t.notes newer.notes }

instance : Record Typedef := ⟨name, origin, place, fun t newer => ⟨t.merge newer, none⟩⟩

end Typedef

/-- A variable at file scope, with the text of its initializer. -/
structure Variable where
  name : String
  type : CType
  isExtern : Bool
  isStatic : Bool
  initializer : Option String
  origin : Origin
  place : Place
  notes : List Note
deriving Repr, Inhabited

/-- Takes in a later sighting. One sighting that is not `extern` makes the variable so, and the
first initializer counts. -/
def Variable.merge (v newer : Variable) : Variable :=
  { v with
    isExtern := v.isExtern && newer.isExtern
    initializer := v.initializer.or newer.initializer
    notes := Note.union v.notes newer.notes }

instance : Record Variable :=
  ⟨Variable.name, Variable.origin, Variable.place, fun v newer => ⟨v.merge newer, none⟩⟩

/-- A marker that stands by itself at file scope. -/
structure Placeholder where
  note : Note
  origin : Origin
  place : Place
deriving DecidableEq, Repr

namespace Placeholder

/-- The name of a placeholder is that of its note. -/
def name (p : Placeholder) : String := p.note.name

/-- Whether two placeholders are one statement at one place. -/
def same (p q : Placeholder) : Bool :=
  p.note == q.note && p.place.same q.place

end Placeholder

/-- A declaration of any kind. -/
inductive Declaration where
  | function (f : Function)
  | struct (s : Structure)
  | typedef (t : Typedef)
  | variable (v : Variable)
  | placeholder (p : Placeholder)
deriving Repr

namespace Declaration

/-- The kind of a declaration. -/
def kind : Declaration → DeclKind
  | function _ => .function
  | struct _ => .struct
  | typedef _ => .typedef
  | «variable» _ => .variable
  | placeholder _ => .placeholder

/-- The name of a declaration. -/
def name : Declaration → String
  | function f => f.name
  | struct s => s.name
  | typedef t => t.name
  | «variable» v => v.name
  | placeholder p => p.name

/-- Whether a declaration is one of a function. -/
def isFunction : Declaration → Bool
  | function _ => true
  | _ => false

/-- The declaration of a function together with its body, which has the given notes. -/
def define (notes : List Note) : Declaration → Declaration
  | function f => .function { f with isDefined := true, definition := some f.place, notes := notes }
  | other => other

/-- The notes in front of a declaration, and behind them those of its body that are not among
them. A placeholder has its own note alone. -/
def annotate (attached : List Note) : Declaration → Declaration
  | function f => .function { f with notes := Note.union attached f.notes }
  | struct s => .struct { s with notes := Note.union attached s.notes }
  | typedef t => .typedef { t with notes := Note.union attached t.notes }
  | «variable» v => .variable { v with notes := Note.union attached v.notes }
  | placeholder p => .placeholder p

end Declaration

end RemoteCalls
