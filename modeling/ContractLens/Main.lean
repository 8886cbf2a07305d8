import ContractLens.CommandLine.Run

/-!
# The program

Reads the file that the command line names, runs the command, and writes what
it gives.  All decisions are made in the modules below this one.
-/

namespace ContractLens

open CommandLine

def readError : IO.Error → ReadError
  | .permissionDenied .. => .permissionDenied
  | .inappropriateType _ code _ => if code = 20 then .notADirectory else .isADirectory
  | _ => .notFound

def readText (path : String) : IO (Except ReadError String) := do
  try
    return textOfBytes (← IO.FS.readBinFile path)
  catch error =>
    return .error (readError error)

def CommandLine.Failure.lines : Failure → String
  | .line text => text
  | .report details => s!"Error: {details.message}\n  at {details.place}: {details.label}\n"

end ContractLens

open ContractLens ContractLens.CommandLine in
/-- Run a command line. -/
def main (words : List String) : IO UInt32 := do
  let invocation := Invocation.ofWords words
  let text ←
    match invocation.path? with
    | some path => readText path
    | none => pure (.error .notFound)
  let ending := invocation.run fun _ => text
  (← IO.getStdout).putStr ending.output
  if let some failure := ending.failure? then
    (← IO.getStderr).putStr failure.lines
  return ending.exitCode.toUInt32
