import RemoteCalls.Stub

/-!
# Entries of the inspector

One entry for each declaration of a catalog: what it is and where, its annotations, details about
it, and the code that is generated for it.
-/

namespace RemoteCalls.Inspector

/-- A declaration as the inspector shows it. -/
structure Entry where
  kind : String
  name : String
  place : String
  origin : Origin
  notes : List String
  details : List String
  preview : Option String
deriving DecidableEq, Repr, Inhabited

namespace Entry

/-- The indentation of the code that is shown. -/
def indent : String := "    "

/-- The lines about a function; a remote one has names made from its own. -/
def functionDetails (isRemote : Bool) (f : Function) : List String :=
  [f.signature] ++
    (if f.storage.words.isEmpty then [] else ["storage: " ++ " ".intercalate f.storage.words]) ++
    [match f.definition with
      | some place => "defined at " ++ place.text
      | none => "prototype only"] ++
    (if isRemote then
      let names := RemoteNames.of f.name
      ["handler: " ++ names.handler, "response: " ++ names.response,
        "result: struct " ++ names.result]
    else [])

/-- The code for a remote function, or a comment on why there is none. -/
def functionPreview (f : Function) : String :=
  match Stub.ofFunction indent .all f with
  | .ok text => text
  | .error fault => "/* cannot generate: " ++ fault.message ++ " */"

/-- The entry of a function. -/
def ofFunction (remoteNames : List String) (f : Function) : Entry :=
  let isRemote := remoteNames.contains f.name
  ⟨"function", f.name, f.place.text, f.origin, f.notes.map (·.text),
    functionDetails isRemote f, if isRemote then some (functionPreview f) else none⟩

/-- The entry of a structure. -/
def ofStructure (s : Structure) : Entry :=
  ⟨"struct", s.name, s.place.text, s.origin, s.notes.map (·.text),
    if s.isDefined then s.fields.map fun field => field.type.declare field.name ++ ";"
    else ["forward declaration"],
    some (Stub.ofStructure indent s)⟩

/-- The entry of a typedef. -/
def ofTypedef (t : Typedef) : Entry :=
  ⟨"typedef", t.name, t.place.text, t.origin, t.notes.map (·.text),
    ["typedef " ++ t.type.declare t.name ++ ";"] ++
      (if t.isCallback then ["callback type"] else []),
    none⟩

/-- The entry of a variable. -/
def ofVariable (v : Variable) : Entry :=
  ⟨"variable", v.name, v.place.text, v.origin, v.notes.map (·.text),
    [v.type.declare v.name] ++ (if v.isExtern then ["extern"] else []) ++
      (if v.isStatic then ["static"] else []) ++
      (match v.initializer with
        | some text => ["= " ++ text]
        | none => []),
    none⟩

/-- The entry of a placeholder. -/
def ofPlaceholder (p : Placeholder) : Entry :=
  ⟨"placeholder", p.name, p.place.text, p.origin, [p.note.text], [],
    some (Stub.ofPlaceholder p)⟩

/-- The entries of a catalog: functions, structures, typedefs, variables, placeholders. -/
def ofCatalog (catalog : Catalog) : List Entry :=
  catalog.functions.map (ofFunction catalog.remoteNames) ++ catalog.structures.map ofStructure ++
    catalog.typedefs.map ofTypedef ++ catalog.globals.map ofVariable ++
    catalog.placeholders.map ofPlaceholder

end Entry

end RemoteCalls.Inspector
