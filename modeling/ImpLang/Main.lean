import ImpLang.CommandLine

namespace ImpLang.Main

def limits : Limits := {}

/-- The obstacle that a failure to open a file tells of. -/
def obstacle? : IO.Error → Option Script.Obstacle
  | .noFileOrDirectory .. => some .missing
  | .inappropriateType _ 20 _ => some .throughFile
  | .invalidArgument _ 36 _ => some .nameTooLong
  | _ => none

def openPath (path : String) : IO (Except Script.Obstacle IO.FS.Handle) := do
  try
    return .ok (← IO.FS.Handle.mk path .read)
  catch e =>
    match obstacle? e with
    | some obstacle => return .error obstacle
    | none => throw e

def readSource (path : String) : IO Script.Lookup := do
  match ← openPath path with
  | .error obstacle => return .error obstacle
  | .ok handle =>
    try
      let bytes ← handle.readBinToEnd
      return .ok (.file (bytes.toList.map UInt8.toNat))
    catch
      | .inappropriateType .. => return .ok .directory
      | e => throw e

partial def converse (debug : Bool) (session : Session) : IO Unit := do
  let stdin ← IO.getStdin
  let stdout ← IO.getStdout
  stdout.putStr Repl.prompt
  stdout.flush
  let line ← stdin.getLine
  if line.isEmpty then
    IO.println farewell
  else
    let line := if line.back = '\n' then String.ofList line.toList.dropLast else line
    let answer := Repl.respond limits debug session line
    stdout.putStr (traceText answer.trace)
    match answer.outcome with
    | .error e =>
      stdout.putStr (CommandLine.writtenText (Repl.begun line))
      throw (IO.userError e.message)
    | .ok a =>
      stdout.putStr (CommandLine.writtenText a.written)
      if a.finished then return () else converse debug a.session

def report (outcome : Except Fault CommandLine.Outcome) : IO UInt32 := do
  match outcome with
  | .error e => throw (IO.userError e.message)
  | .ok outcome =>
    IO.print outcome.stdout
    IO.eprint outcome.stderr
    return (outcome.code.getD 0).toUInt32

def onScript (path : String) (act : Script.Lookup → Except Fault CommandLine.Outcome) :
    IO UInt32 := do
  match ← openPath (CommandLine.tidyPath path) with
  | .error obstacle => report (CommandLine.unreachableScript path obstacle)
  | .ok _ => report (act (← readSource path))

end ImpLang.Main

open ImpLang ImpLang.Main in
def main (arguments : List String) : IO UInt32 := do
  match (CommandLine.request arguments).task with
  | .finish outcome => report (.ok outcome)
  | .runScript path debug => onScript path (CommandLine.runScript limits path debug)
  | .showScript path debug => onScript path (CommandLine.showScript limits path debug)
  | .converse debug =>
    IO.print (CommandLine.writtenText (Repl.greeting debug))
    converse debug {}
    return 0
