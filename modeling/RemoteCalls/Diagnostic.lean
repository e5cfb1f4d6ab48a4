import RemoteCalls.Declaration
import RemoteCalls.Files
import RemoteCalls.Token.Segment

/-!
# Diagnostics

What is said about a file that cannot be read on, or about a declaration that has no meaning here:
a place, a reason, and the kind of the declaration if it is about one. The reasons are values; their
wording is in one place.
-/

namespace RemoteCalls

/-- What was looked for when something else was found. -/
inductive Expectation where
  | noteName
  | typeSpecifier
  | identifier
  | expression
  | declaratorEnd
  | variadicEnd
  | parameterEnd
  | declarationEnd
  | memberEnd
deriving DecidableEq, Repr

/-- The phrase for what was looked for. -/
def Expectation.text : Expectation → String
  | noteName => "annotation name after '@'"
  | typeSpecifier => "type specifier"
  | identifier => "identifier"
  | expression => "expression"
  | declaratorEnd => "')' to close declarator"
  | variadicEnd => "')' after '...'"
  | parameterEnd => "',' or ')' in parameter list"
  | declarationEnd => "';' after declaration"
  | memberEnd => "';' after struct member"

/-- Why a file or a declaration is reported. -/
inductive Reason where
  | unclosed (construct : Unclosed)
  | unbalanced
  | unbalancedInitializer
  | unbalancedGroup (opener : Token)
  | includeDepth (limit : Nat) (header : String)
  | unreadableHeader (header : Path) (fault : ReadFault)
  | strayBrace
  | expected (what : Expectation) (found : Token)
  | tagExpected (keyword : Token)
  | nameExpected
  | wordAfterType (word : String)
  | twoTypes
  | functionMember
  | declarator (fault : DeclaratorFault)
  | detached (note : Note)
  | dangling (note : Note)
  | redefinition (name : String) (first : Place)
  | stated (text : String)
deriving DecidableEq, Repr

/-- The wording of a reason. -/
def Reason.text : Reason → String
  | unclosed construct => construct.message
  | unbalanced => "unbalanced delimiter reaches end of file"
  | unbalancedInitializer => "unbalanced delimiter in initializer reaches end of file"
  | unbalancedGroup opener => "unbalanced '" ++ opener.text ++ "' reaches end of file"
  | includeDepth limit header =>
    "include depth limit of " ++ toString limit ++ " exceeded at '" ++ header ++ "'"
  | unreadableHeader header fault => "cannot read '" ++ header.text ++ "': " ++ fault.message
  | strayBrace => "unbalanced '\x7d' at file scope"
  | expected what found => "expected " ++ what.text ++ ", found " ++ found.describe
  | tagExpected keyword => "expected tag name or '\x7b' after '" ++ keyword.text ++ "'"
  | nameExpected => "expected identifier in declarator"
  | wordAfterType word => "unexpected '" ++ word ++ "' after type name"
  | twoTypes => "two types in one declaration"
  | functionMember => "function declared as a struct member"
  | declarator fault => fault.message
  | detached note =>
    "annotation '" ++ note.text ++ "' is separated from its declaration by a blank line"
  | dangling note =>
    "annotation '" ++ note.text ++ "' is not followed by a declaration"
  | redefinition name first =>
    "redefinition of '" ++ name ++ "' (first defined at " ++ first.text ++ ")"
  | stated text => text

/-- A report on a place. With a subject it is about a declaration of that kind, which is left out;
without one the file cannot be read on there. -/
structure Diagnostic where
  place : Place
  subject : Option DeclKind
  reason : Reason
deriving DecidableEq, Repr

namespace Diagnostic

/-- A report as one line. -/
def text (d : Diagnostic) : String :=
  d.place.text ++ ": " ++
    (match d.subject with
      | some kind => "malformed " ++ kind.text ++ " declaration: "
      | none => "") ++
    d.reason.text

end Diagnostic

end RemoteCalls
