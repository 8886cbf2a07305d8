import ContractLens.CommandLine.Arguments
import ContractLens.CommandLine.Report
import ContractLens.CommandLine.TokenTable
import ContractLens.Declaration.Search
import ContractLens.Grammar.Program
import ContractLens.Server
import ContractLens.Syntax.Export
import ContractLens.Syntax.Tree

/-!
# Running commands

What a command line writes, given the texts that its paths lead to.  A command
succeeds with a text, or fails with an error.
-/

namespace ContractLens.CommandLine

inductive ReadError where
  | notFound
  | permissionDenied
  | notADirectory
  | isADirectory
  | notText
  deriving DecidableEq, Repr

def ReadError.message : ReadError → String
  | notFound => "No such file or directory (os error 2)"
  | permissionDenied => "Permission denied (os error 13)"
  | notADirectory => "Not a directory (os error 20)"
  | isADirectory => "Is a directory (os error 21)"
  | notText => "stream did not contain valid UTF-8"

/-- The text that the bytes of a file spell. -/
def textOfBytes (bytes : ByteArray) : Except ReadError String :=
  match String.fromUTF8? bytes with
  | some text => .ok text
  | none => .error .notText

inductive CommandError where
  | read (path : String) (error : ReadError)
  | parse (path text : String) (error : ParseError)
  | definition (error : ResolutionError)
  | noSuchPosition (coordinate : Coordinate)
  deriving DecidableEq, Repr

/-- What a failed command writes: a line, or the report of a refused source. -/
inductive Failure where
  | line (text : String)
  | report (report : ErrorReport)
  deriving DecidableEq, Repr

def CommandError.failure : CommandError → Failure
  | read path error => .line s!"error: error reading file '{path}': {error.message}\n"
  | parse path text error => .report (.of path text error)
  | definition error => .line s!"error: {error.message}\n"
  | noSuchPosition coordinate =>
      .line s!"error: {coordinate.line}:{coordinate.character} is not a position in the file\n"

/-- A program as it is written: as JSON, or as a tree with the counts below it. -/
def programText (program : Program) (json : Bool) : String :=
  if json then
    program.toJson.render 0 ++ "\n"
  else
    let stateVariables := program.contracts.flatMap Contract.stateVariables
    let functions := program.contracts.flatMap Contract.functions
    program.render ++
      s!"\nContracts: {program.contracts.length}, state variables: {stateVariables.length}, " ++
      s!"functions: {functions.length}\n"

/-- The coordinate of the declaration of the name at a coordinate. -/
def declarationCoordinate (program : Program) (index : LineIndex) (coordinate : Coordinate) :
    Except CommandError Coordinate :=
  match index.offset? coordinate with
  | none => .error (.noSuchPosition coordinate)
  | some target =>
      match program.declarationAt target with
      | .error error => .error (.definition error)
      | .ok declared =>
          match index.coordinate? declared with
          | none => .error (.definition .unknownPosition)
          | some found => .ok found

def definitionText (path text : String) (coordinate : Coordinate) :
    Except CommandError String :=
  match parse text with
  | (.error error, _) => .error (.parse path text error)
  | (.ok program, index) =>
      (declarationCoordinate program index coordinate).map fun found =>
        s!"{path}:{found.line}:{found.character}\n"

def parseText (path text : String) (json : Bool) : Except CommandError String :=
  match (parse text).1 with
  | .error error => .error (.parse path text error)
  | .ok program => .ok (programText program json)

def Command.path? : Command → Option String
  | lex path => some path
  | parse path _ => some path
  | definition path _ _ => some path
  | lsp => none
  | completions _ => none

/--
What a command writes, where `read` gives the text at a path.  Serving an
editor writes nothing until a request comes in, and completion scripts are not
written here.
-/
def Command.run (read : String → Except ReadError String) : Command → Except CommandError String
  | lex path => (source path).map tokenTable
  | parse path json => (source path).bind fun text => parseText path text json
  | definition path line character =>
      (source path).bind fun text => definitionText path text ⟨line, character⟩
  | lsp => .ok ""
  | completions _ => .ok ""
where
  source (path : String) : Except CommandError String :=
    (read path).mapError (.read path)

/-- How a run ends: its exit code, what it writes, and how it fails. -/
structure Ending where
  exitCode : UInt8
  output : String
  failure? : Option Failure
  deriving DecidableEq, Repr

def versionLine : String :=
  s!"{Server.name} {Server.version}\n"

def Invocation.path? : Invocation → Option String
  | command request => request.path?
  | _ => none

def Invocation.run (read : String → Except ReadError String) : Invocation → Ending
  | version => ⟨0, versionLine, none⟩
  | misuse => ⟨2, "", none⟩
  | command request =>
      match request.run read with
      | .ok output => ⟨0, output, none⟩
      | .error error => ⟨1, "", some error.failure⟩

def run (read : String → Except ReadError String) (words : List String) : Ending :=
  (Invocation.ofWords words).run read

end ContractLens.CommandLine
