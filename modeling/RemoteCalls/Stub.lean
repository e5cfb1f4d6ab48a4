import RemoteCalls.Remote
import RemoteCalls.Stub.Blocks

/-!
# Stubs

The text of the code around a remote function: a header with the result structure and the
prototypes, the client function, the handler, and the registration of the handler. Each block of a
body stands between two comments, by which it can be found again. Structures, placeholders and notes
have a text as well.
-/

namespace RemoteCalls

namespace RemoteParam

/-- Whether a parameter is passed by its address: a pointer that is no string. -/
def byAddress (param : RemoteParam) : Bool :=
  0 < param.type.shape.pointers && !param.isString

/-- The type in which a parameter is kept by the handler: that of the value a pointer leads to, and
for a string the pointer itself. -/
def storageType (param : RemoteParam) : CType :=
  let shape := param.type.shape
  if param.byAddress && param.name != resultName then
    param.type.withShape { shape with pointers := shape.pointers - 1, isConst := false }
  else param.type

/-- The ways in which a value is sent. -/
inductive Wire where
  | string
  | buffer
  | bool
  | unsigned
  | signed
deriving DecidableEq, Repr

/-- The back of the encoding and decoding functions for a way of sending. -/
def Wire.text : Wire → String
  | string => "str"
  | buffer => "buffer"
  | bool => "bool"
  | unsigned => "uint"
  | signed => "int"

/-- How a value of a type with the given name is sent. -/
def Wire.ofName (name : String) : Wire :=
  if name = "bool" ∨ name = "_Bool" then bool
  else if Text.beginsWith "unsigned" name || Text.beginsWith "uint" name || name == "size_t" then
    unsigned
  else if Text.beginsWith "int" name || Text.endsWith "int" name || Text.endsWith "long" name ||
      Text.endsWith "short" name || name == "char" || Text.beginsWith "signed" name then
    signed
  else buffer

/-- How a parameter is sent. -/
def wire (param : RemoteParam) : Wire :=
  if param.isString then .string
  else if param.storageType.isPointer then .buffer
  else
    match param.storageType with
    | .base (.builtin name) _ | .base (.named name) _ => .ofName name
    | .base (.enum _) _ => .signed
    | _ => .buffer

/-- The value of a parameter in the client function. -/
def value (param : RemoteParam) : String :=
  if param.byAddress then "(*" ++ param.name ++ ")" else param.name

/-- The line that sends a parameter to the handler. -/
def encodeLine (param : RemoteParam) : String :=
  match param.wire with
  | .buffer =>
    "ser_encode_buffer(&_ctx.encoder, " ++ param.name ++ ", sizeof(" ++ param.value ++ "));"
  | wire => "ser_encode_" ++ wire.text ++ "(&_ctx.encoder, " ++ param.value ++ ");"

/-- The line that reads a parameter in the handler. -/
def decodeLine (param : RemoteParam) : String :=
  "ser_decode_" ++ param.wire.text ++ "(_dec, &" ++ param.name ++ ");"

/-- A parameter as an argument of the function that the handler calls. -/
def argument (param : RemoteParam) : String :=
  (if param.byAddress then "&" else "") ++
    (if param.direction = .output then "_res." else "") ++ param.name

end RemoteParam

namespace RemoteFunction

/-- Whether the client function waits for the answer and reads it itself. -/
def readsResponse (remote : RemoteFunction) : Bool :=
  remote.inlineResponse && remote.hasResponse

/-- The lines of the header. -/
def headerLines (indent : String) (remote : RemoteFunction) : List String :=
  (if remote.hasResponse then
    ["struct " ++ remote.names.result ++ " \x7b"] ++
      remote.outputs.map (fun param =>
        indent ++ param.storageType.declare param.name ++ ";") ++
      ["\x7d;", ""] ++
      (if remote.inlineResponse then []
        else ["void " ++ remote.names.response ++ "(struct " ++ remote.names.result ++ " *res);"])
    else []) ++
    ["void " ++ remote.names.handler ++ "(struct rpc_decoder *_dec);"]

/-- The lines that declare what the client function uses. -/
def clientLocals (remote : RemoteFunction) : List String :=
  ["struct rpc_encoder _ctx;"] ++
    (if remote.readsResponse then
      ["struct rpc_decoder _rsp;", "struct " ++ remote.names.result ++ " _res;"]
    else
      match remote.returned? with
      | some param => [param.type.declare resultName ++ " = \x7b0\x7d;"]
      | none => [])

/-- The lines that send the inputs. -/
def clientEncode (remote : RemoteFunction) : List String :=
  (remote.inputs.filter (·.name ≠ resultName)).map (·.encodeLine)

/-- The line that makes the call. -/
def clientSend (remote : RemoteFunction) : List String :=
  let name := "\"" ++ remote.names.function ++ "\""
  if remote.isEvent then ["nrf_rpc_event_send(&_ctx, " ++ name ++ ");"]
  else
    let response :=
      if remote.inlineResponse then "&_rsp"
      else if remote.hasResponse then remote.names.response
      else "NULL"
    ["nrf_rpc_cmd_send(&_ctx, " ++ name ++ ", " ++ response ++ ");"]

/-- The lines that read the answer and hand the outputs on. -/
def clientDecode (remote : RemoteFunction) : List String :=
  if remote.readsResponse then
    remote.outputs.map (fun param =>
        "ser_decode_" ++ param.wire.text ++ "(&_rsp, &_res." ++ param.name ++ ");") ++
      (remote.outputs.filter (·.name ≠ resultName)).map fun param =>
        param.value ++ " = _res." ++ param.name ++ ";"
  else []

/-- The line that returns the value. -/
def clientReturn (remote : RemoteFunction) : List String :=
  match remote.returned? with
  | some _ =>
    if remote.readsResponse then ["return _res." ++ resultName ++ ";"]
    else ["return " ++ resultName ++ ";"]
  | none => []

/-- The lines that declare what the handler uses. -/
def handlerLocals (remote : RemoteFunction) : List String :=
  (if remote.hasResponse then ["struct " ++ remote.names.result ++ " _res;"] else []) ++
    (remote.params.filter (·.direction ≠ .output)).map fun param =>
      param.storageType.declare param.name ++ ";"

/-- The lines that read the inputs. -/
def handlerDecode (remote : RemoteFunction) : List String :=
  remote.inputs.map (·.decodeLine)

/-- The line that calls the function. -/
def handlerExecute (remote : RemoteFunction) : List String :=
  let arguments := (remote.params.filter (·.name ≠ resultName)).map (·.argument)
  let call := remote.names.function ++ "(" ++ ", ".intercalate arguments ++ ");"
  if remote.returned?.isSome && remote.hasResponse then ["_res." ++ resultName ++ " = " ++ call]
  else [call]

/-- The lines that send the answer. -/
def handlerResponse (remote : RemoteFunction) : List String :=
  if remote.isEvent then []
  else if remote.hasResponse then
    (remote.params.filter (·.direction = .both)).map (fun param =>
        "_res." ++ param.name ++ " = " ++ param.name ++ ";") ++
      ["nrf_rpc_rsp_send(&_res, sizeof(_res));"]
  else ["nrf_rpc_rsp_send_void();"]

/-- The lines of a block in the client function, if it belongs there. -/
def clientBlock? (remote : RemoteFunction) : Block → Option (List String)
  | .locals => some remote.clientLocals
  | .encode => some remote.clientEncode
  | .send => some remote.clientSend
  | .decode => some remote.clientDecode
  | .result => some remote.clientReturn
  | _ => none

/-- The lines of a block in the handler, if it belongs there. -/
def handlerBlock? (remote : RemoteFunction) : Block → Option (List String)
  | .locals => some remote.handlerLocals
  | .decode => some remote.handlerDecode
  | .execute => some remote.handlerExecute
  | .response => some remote.handlerResponse
  | _ => none

end RemoteFunction

namespace Stub

/-- The comment in front of a block. -/
def beginMark (block : Block) : String :=
  "/* Autogenerated: " ++ block.name ++ " */"

/-- The comment behind a block. -/
def endMark : String := "/* Autogenerated: end */"

/-- The lines of a block between its comments. -/
def fenced (indent : String) (block : Block) (lines : List String) : List String :=
  ([beginMark block] ++ lines ++ [endMark]).map (indent ++ ·)

/-- The lines of the blocks of a body, with an empty line between two blocks. -/
def bodyLines (indent : String) (lines? : Block → Option (List String)) (blocks : List Block) :
    List String :=
  [""].intercalate
    (blocks.filterMap fun block => (lines? block).map (fenced indent block))

/-- The lines of a function with the given blocks. -/
def functionLines (indent head : String) (lines? : Block → Option (List String))
    (blocks : List Block) : List String :=
  [head, "\x7b"] ++ bodyLines indent lines? blocks ++ ["\x7d"]

/-- The lines of the code around a remote function. -/
def lines (indent : String) (blocks : CodeBlocks) (f : Function) (remote : RemoteFunction) :
    List String :=
  (if blocks.header then remote.headerLines indent ++ [""] else []) ++
    functionLines indent f.signature remote.clientBlock? blocks.body ++ [""] ++
    functionLines indent ("void " ++ remote.names.handler ++ "(struct rpc_decoder *_dec)")
      remote.handlerBlock? blocks.body ++
    (if blocks.footer then
      ["", "RPC_REGISTER_HANDLER(" ++ remote.names.function ++ ", " ++ remote.names.handler ++ ");"]
    else [])

/-- Lines as one text, each with a line break behind it. -/
def unlines (lines : List String) : String :=
  String.join (lines.map (· ++ "\n"))

/-- The text of the code around a function. -/
def ofFunction (indent : String) (blocks : CodeBlocks) (f : Function) :
    Except RemoteFault String :=
  match RemoteFunction.ofFunction f with
  | .ok remote => .ok (unlines (lines indent blocks f remote))
  | .error fault => .error fault

/-- The text of a structure. -/
def ofStructure (indent : String) (s : Structure) : String :=
  if s.isDefined then
    unlines (["struct " ++ s.name ++ " \x7b"] ++
      s.fields.map (fun field =>
        indent ++ field.type.declare field.name ++
          (match field.width with
            | some width => " : " ++ width
            | none => "") ++ ";") ++
      ["\x7d;"])
  else unlines ["struct " ++ s.name ++ ";"]

/-- The text in the place of a placeholder. -/
def ofPlaceholder (p : Placeholder) : String :=
  unlines ["/* Autogenerated: " ++ p.note.text ++ " at " ++ p.place.text ++ " */"]

/-- The text of a note. -/
def ofNote (note : Note) : String :=
  unlines ["/* " ++ note.text ++ " */"]

end Stub

/-- What text is written for. -/
inductive StubUnit where
  | function (f : Function)
  | struct (s : Structure)
  | placeholder (p : Placeholder)
  | note (note : Note)

namespace StubUnit

/-- The word for the kind of a unit. -/
def kindText : StubUnit → String
  | function _ => "function"
  | struct _ => "struct"
  | placeholder _ => "placeholder"
  | note _ => "annotation"

/-- The name of a unit. -/
def name : StubUnit → String
  | function f => f.name
  | struct s => s.name
  | placeholder p => p.name
  | note n => n.name

/-- The notes of a unit; a note carries itself. -/
def notes : StubUnit → List Note
  | function f => f.notes
  | struct s => s.notes
  | placeholder p => [p.note]
  | note n => [n]

end StubUnit

/-- A writer of stubs, which indents with the given text and counts the remote functions that it
has written. -/
structure StubWriter where
  indent : String
  written : Nat
deriving DecidableEq, Repr

namespace StubWriter

/-- A writer that has written nothing yet. -/
def start (indent : String) : StubWriter := ⟨indent, 0⟩

/-- The indentation where nothing else is said. -/
def defaultIndent : String := "\t"

/-- The text of a unit, and the writer behind it. -/
def write (writer : StubWriter) (blocks : CodeBlocks) (unit : StubUnit) :
    Except RemoteFault String × StubWriter :=
  match unit with
  | .function f =>
    match Stub.ofFunction writer.indent blocks f with
    | .ok text => (.ok text, { writer with written := writer.written + 1 })
    | .error fault => (.error fault, writer)
  | .struct s => (.ok (Stub.ofStructure writer.indent s), writer)
  | .placeholder p => (.ok (Stub.ofPlaceholder p), writer)
  | .note note => (.ok (Stub.ofNote note), writer)

end StubWriter

end RemoteCalls
