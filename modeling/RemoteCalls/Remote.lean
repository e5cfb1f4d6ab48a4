import RemoteCalls.Catalog
import RemoteCalls.Text.Affix
import RemoteCalls.Text.Pieces

/-!
# Remote functions

A call of a remote function is sent to its handler, and the answer comes back through its response
function in a result structure. Notes on the function say in which direction each parameter goes,
whether it is a string, and whether there is an answer at all.
-/

namespace RemoteCalls

/-- The back of a handler's name. -/
def handlerBack : String := "_rpc_handler"

/-- The back of a response function's name. -/
def responseBack : String := "_rpc_rsp"

/-- The back of a result structure's name. -/
def resultBack : String := "_rpc_res"

/-- The name of the output that carries the returned value. -/
def resultName : String := "_result"

/-- The placeholder that names a remote function which is declared elsewhere. -/
def remoteMarker : String := "FUNC"

/-- The names around one remote function. -/
structure RemoteNames where
  function : String
  handler : String
  response : String
  result : String
deriving DecidableEq, Repr

namespace RemoteNames

/-- The names around the function with the given name. -/
def of (name : String) : RemoteNames :=
  ⟨name, name ++ handlerBack, name ++ responseBack, name ++ resultBack⟩

/-- The name in front of a back, unless there is none. -/
def stemBefore? (back name : String) : Option String :=
  (Text.dropBack? back name).filter fun stem => !stem.isEmpty

/-- The name of the function that a name is made from, if it has the form of a made name. -/
def stem? (name : String) : Option String :=
  (([handlerBack, responseBack, resultBack]).findSome? (Text.dropBack? · name)).filter
    fun stem => !stem.isEmpty

end RemoteNames

/-- Which way a parameter goes: to the handler, back from it, or both. -/
inductive Direction where
  | input
  | output
  | both
deriving DecidableEq, Repr

namespace Direction

/-- Whether a parameter is sent to the handler. -/
def isInput : Direction → Bool
  | input | both => true
  | output => false

/-- Whether a parameter is sent back. -/
def isOutput : Direction → Bool
  | output | both => true
  | input => false

end Direction

/-- A parameter of a remote function. -/
structure RemoteParam where
  name : String
  type : CType
  direction : Direction
  isString : Bool
deriving Repr

/-- What can be said about a remote function and its parameters. -/
inductive DirectiveKind where
  | output
  | both
  | string
  | event
  | inlineResponse
  | ignoreReturn
deriving DecidableEq, Repr

namespace DirectiveKind

/-- All kinds of directives. -/
def all : List DirectiveKind := [output, both, string, event, inlineResponse, ignoreReturn]

/-- The word for a directive. -/
def text : DirectiveKind → String
  | output => "OUT"
  | both => "INOUT"
  | string => "STR"
  | event => "EVENT"
  | inlineResponse => "INLINE_RESPONSE"
  | ignoreReturn => "IGNORE_RETURN"

/-- The directive that a word stands for. -/
def of? (word : String) : Option DirectiveKind :=
  all.find? (·.text = word)

/-- Whether the arguments of a directive name parameters. -/
def namesParams : DirectiveKind → Bool
  | output | both | string => true
  | _ => false

@[simp] theorem of?_text (kind : DirectiveKind) : of? kind.text = some kind := by
  cases kind <;> decide

end DirectiveKind

/-- A directive with its arguments. -/
structure Directive where
  kind : DirectiveKind
  arguments : List String
deriving DecidableEq, Repr

namespace Directive

/-- The directive written as `NAME` or as `NAME(a, b)`. -/
def ofText? (text : String) : Option Directive :=
  let cs := Text.trim text.toList
  let name := cs.takeWhile (· ≠ '(')
  match cs.drop name.length with
  | [] => (DirectiveKind.of? (String.ofList name)).map (⟨·, []⟩)
  | _ :: inner =>
    if inner.getLast? = some ')' then
      (DirectiveKind.of? (String.ofList (Text.trim name))).map
        (⟨·, Text.commaPieces inner.dropLast⟩)
    else none

/-- The directives of a note: itself if its name is one, else those among its arguments. -/
def ofNote (note : Note) : List Directive :=
  match DirectiveKind.of? note.name with
  | some kind => [⟨kind, note.arguments⟩]
  | none => note.arguments.filterMap ofText?

end Directive

/-- Why a function cannot be a remote function. Parameters are counted from zero. -/
inductive RemoteFault where
  | unknownFunction (name : String)
  | unnamedParam (function : String) (index : Nat)
  | missingParam (function : String) (directive : DirectiveKind) (param : String)
  | eventWithInlineResponse (function : String)
deriving DecidableEq, Repr

/-- The message for a function that cannot be remote. -/
def RemoteFault.message : RemoteFault → String
  | unknownFunction name => "'" ++ name ++ "' is not a known function"
  | unnamedParam function index =>
    "parameter " ++ toString index ++ " of '" ++ function ++ "' has no name"
  | missingParam function directive param =>
    directive.text ++ " on '" ++ function ++ "' names missing parameter '" ++ param ++ "'"
  | eventWithInlineResponse function =>
    "'" ++ function ++ "' cannot be an event and have an inline response"

/-- A function that can be called from afar. The parameters are the declared ones and, behind them,
the returned value if it is sent back. -/
structure RemoteFunction where
  names : RemoteNames
  result : CType
  params : List RemoteParam
  isEvent : Bool
  inlineResponse : Bool
deriving Repr

namespace RemoteParam

/-- The declared parameters as inputs, or the index of the first without a name. `index` is that of
the first one. -/
def ofParams (index : Nat) : List Param → Except Nat (List RemoteParam)
  | [] => .ok []
  | param :: rest =>
    match param.name with
    | none => .error index
    | some name =>
      match ofParams (index + 1) rest with
      | .ok params => .ok (⟨name, param.type, .input, false⟩ :: params)
      | .error index => .error index

/-- A parameter under one more directive. -/
def direct (kind : DirectiveKind) (param : RemoteParam) : RemoteParam :=
  match kind with
  | .output => { param with direction := .output }
  | .both => { param with direction := .both }
  | .string => { param with isString := true }
  | _ => param

/-- The parameters with one more directive on the first of the given name, if there is one. -/
def directNamed (kind : DirectiveKind) (name : String) :
    List RemoteParam → Option (List RemoteParam)
  | [] => none
  | param :: rest =>
    if param.name = name then some (param.direct kind :: rest)
    else (directNamed kind name rest).map (param :: ·)

/-- The parameters under a directive, or the first argument that names none of them. -/
def directAll (kind : DirectiveKind) : List String → List RemoteParam →
    Except String (List RemoteParam)
  | [], params => .ok params
  | name :: names, params =>
    match directNamed kind name params with
    | some params => directAll kind names params
    | none => .error name

end RemoteParam

namespace RemoteFunction

/-- The parameters under some directives in order. -/
def directParams (function : String) : List Directive → List RemoteParam →
    Except RemoteFault (List RemoteParam)
  | [], params => .ok params
  | directive :: rest, params =>
    if directive.kind.namesParams then
      match RemoteParam.directAll directive.kind directive.arguments params with
      | .ok params => directParams function rest params
      | .error name => .error (.missingParam function directive.kind name)
    else directParams function rest params

/-- The remote function that a function is under its notes. -/
def ofFunction (f : Function) : Except RemoteFault RemoteFunction :=
  match RemoteParam.ofParams 0 f.params.params with
  | .error index => .error (.unnamedParam f.name index)
  | .ok params =>
    let directives := f.notes.flatMap Directive.ofNote
    match directParams f.name directives params with
    | .error fault => .error fault
    | .ok params =>
      let has (kind : DirectiveKind) : Bool := directives.any (·.kind = kind)
      if has .event && has .inlineResponse then .error (.eventWithInlineResponse f.name)
      else
        let returned :=
          if f.result.isVoid || has .ignoreReturn then []
          else [⟨resultName, f.result, .output, false⟩]
        .ok ⟨.of f.name, f.result, params ++ returned, has .event, has .inlineResponse⟩

/-- The remote function with the given name in a catalog. -/
def lookup (catalog : Catalog) (name : String) : Except RemoteFault RemoteFunction :=
  match catalog.functionNamed? name with
  | some f => ofFunction f
  | none => .error (.unknownFunction name)

/-- The parameters that are sent to the handler. -/
def inputs (remote : RemoteFunction) : List RemoteParam :=
  remote.params.filter (·.direction.isInput)

/-- The parameters that are sent back. -/
def outputs (remote : RemoteFunction) : List RemoteParam :=
  remote.params.filter (·.direction.isOutput)

/-- The parameter that carries the returned value. -/
def returned? (remote : RemoteFunction) : Option RemoteParam :=
  remote.params.find? (·.name = resultName)

/-- Whether an answer is sent back. -/
def hasResponse (remote : RemoteFunction) : Bool :=
  !remote.isEvent && !remote.outputs.isEmpty

end RemoteFunction

namespace Catalog

/-- The names of the remote functions in a catalog, each once: annotated functions, then those
behind the names of handlers and response functions, then those behind the names of result
structures, then those that placeholders name. -/
def remoteNames (catalog : Catalog) : List String :=
  let annotated := (catalog.functions.filter fun f => !f.notes.isEmpty).map fun f =>
    (RemoteNames.stem? f.name).getD f.name
  let served := (catalog.functions.filter fun f =>
    Text.endsWith handlerBack f.name || Text.endsWith responseBack f.name).filterMap fun f =>
      RemoteNames.stem? f.name
  let answered := catalog.structures.filterMap fun s => RemoteNames.stemBefore? resultBack s.name
  let marked := (catalog.placeholders.filter (·.name = remoteMarker)).filterMap fun p =>
    p.note.firstArgument?
  (annotated ++ served ++ answered ++ marked).foldl insertName []

end Catalog

end RemoteCalls
