import RemoteCalls.Text.Blank

/-!
# Code blocks

The blocks of a generated function body, and a selection of them with or without the header and the
footer around the functions.
-/

namespace RemoteCalls

/-- One block of a generated function body. -/
inductive Block where
  | locals
  | encode
  | send
  | decode
  | execute
  | response
  | result
deriving DecidableEq, Repr

/-- Why there is no selection of blocks. -/
inductive BlockFault where
  | emptyBody
  | unknownBlock (name : String)
deriving DecidableEq, Repr

/-- The message for a selection that makes no sense. -/
def BlockFault.message : BlockFault → String
  | emptyBody => "code blocks need at least one body block"
  | unknownBlock name => "unknown code block '" ++ name ++ "'"

namespace Block

/-- All blocks in their natural order. -/
def all : List Block := [locals, encode, send, decode, execute, response, result]

/-- The name of a block. -/
def name : Block → String
  | locals => "locals"
  | encode => "encode"
  | send => "send"
  | decode => "decode"
  | execute => "execute"
  | response => "response"
  | result => "return"

/-- The block of the given name, with or without blanks around it. -/
def ofName (text : String) : Except BlockFault Block :=
  match all.find? (·.name = Text.trimmed text) with
  | some block => .ok block
  | none => .error (.unknownBlock text)

end Block

/-- A selection of code: the header, the footer, and at least one block of the bodies. -/
structure CodeBlocks where
  header : Bool
  footer : Bool
  body : List Block
  body_ne_nil : body ≠ []
deriving DecidableEq, Repr

namespace CodeBlocks

/-- Everything, in natural order. -/
def all : CodeBlocks := ⟨true, true, Block.all, by decide⟩

/-- A selection of blocks, of which there has to be one. -/
def of (header footer : Bool) (body : List Block) : Except BlockFault CodeBlocks :=
  if h : body ≠ [] then .ok ⟨header, footer, body, h⟩ else .error .emptyBody

/-- A selection of blocks by their names. -/
def ofNames (header footer : Bool) (names : List String) : Except BlockFault CodeBlocks :=
  match names.mapM Block.ofName with
  | .ok body => of header footer body
  | .error fault => .error fault

end CodeBlocks

end RemoteCalls
