import ImpLang.CommandLine.Arguments
import ImpLang.CommandLine.Path
import ImpLang.Repl
import ImpLang.Script

/-!
The program as it is called from a command line: it runs a script, shows the trees of a script, or
holds a dialogue. What the file system holds and what is typed in are given, so the whole run is a
function of them.
-/

namespace ImpLang.CommandLine

def programVersion : String := "Imp v1.0.0"

def usage : String :=
  "usage: imp [-h] [--parse] [--debug] [--version] [script]\n"

def helpText : String :=
  usage ++ "
Imp - an interpreter for a small imperative language

positional arguments:
  script      Imp script file to execute

options:
  -h, --help  show this help message and exit
  --parse     Parse file and show the AST (for debugging)
  --debug     Trace parsing, evaluation and execution
  --version   show program's version number and exit

Examples:
  imp                        # Interactive mode
  imp script.imp             # Run a script, one statement per line
  imp --parse script.imp     # Parse and show the AST of each statement
  imp --debug script.imp     # Run with evaluation tracing
        \n"

/-- What a call of the program leaves: its exit code, unless it simply ran to its end, and what it
wrote. -/
structure Outcome where
  code : Option Nat
  stdout : String
  stderr : String
  deriving DecidableEq, Repr

def refused (message : String) : Outcome :=
  ⟨some 2, "", usage ++ "imp: error: " ++ message ++ "\n"⟩

inductive Task where
  | finish (outcome : Outcome)
  | runScript (path : String) (debug : Bool)
  | showScript (path : String) (debug : Bool)
  | converse (debug : Bool)

/-- The task that a request sets. An empty script name counts as none. -/
def Request.task : Request → Task
  | .help => .finish ⟨some 0, helpText, ""⟩
  | .version => .finish ⟨some 0, programVersion ++ "\n", ""⟩
  | .misuse message => .finish (refused message)
  | .run settings =>
    let path := settings.script.getD ""
    if path = "" then
      if settings.parse then .finish (refused "--parse needs a script file")
      else .converse settings.debug
    else if settings.parse then .showScript path settings.debug
    else .runScript path settings.debug

def writtenText (texts : List String) : String :=
  String.join (texts.map fun text => text ++ "\n")

def noSuchScript (path : String) : Outcome :=
  ⟨some 1, "Error: Script file '" ++ path ++ "' does not exist\n", ""⟩

def unreachableScript (path : String) : Script.Obstacle → Except Fault Outcome
  | .missing | .throughFile => .ok (noSuchScript path)
  | .nameTooLong => .error (.nameTooLong (tidyPath path))

/-- Runs a script: its trace comes before everything it writes. -/
def runScript (limits : Limits) (path : String) (debug : Bool) (lookup : Script.Lookup) :
    Except Fault Outcome :=
  match Script.run limits debug path lookup with
  | ⟨trace, .ok result⟩ =>
    .ok ⟨some result.code, traceText trace ++ writtenText result.written, ""⟩
  | ⟨_, .error e⟩ => .error e

def showScript (limits : Limits) (path : String) (debug : Bool) (lookup : Script.Lookup) :
    Except Fault Outcome :=
  match Script.parse limits debug path lookup with
  | ⟨trace, .ok stmts⟩ => do
    let shown ← Script.treeLines limits stmts
    return ⟨some 0, traceText trace ++ shown, ""⟩
  | ⟨trace, .error (.rejected report)⟩ =>
    .ok ⟨some 1, traceText trace ++ writtenText [report.format], ""⟩
  | ⟨_, .error e⟩ => .error e

/-- Does something with a script, provided that its tidied path leads somewhere. The script is then
read by its path as written, which may still fail: a slash after the name of a file is tidied away
for the first look only. -/
def withScript (path : String) (tidied : Except Script.Obstacle Unit)
    (act : Except Fault Outcome) : Except Fault Outcome :=
  match tidied with
  | .error obstacle => unreachableScript path obstacle
  | .ok () => act

def runDialogue (limits : Limits) (debug : Bool) (lines : List String) : Except Fault Outcome :=
  let talk := Repl.dialogue limits debug lines
  match talk.fault with
  | some e => .error e
  | none => .ok ⟨none, String.join (talk.shown.map Repl.Display.text), ""⟩

def run (limits : Limits) (find : String → Script.Lookup) (input : String)
    (arguments : List String) : Except Fault Outcome :=
  let isThere (path : String) : Except Script.Obstacle Unit :=
    (find (tidyPath path)).map fun _ => ()
  match (request arguments).task with
  | .finish outcome => .ok outcome
  | .runScript path debug =>
    withScript path (isThere path) (runScript limits path debug (find path))
  | .showScript path debug =>
    withScript path (isThere path) (showScript limits path debug (find path))
  | .converse debug => runDialogue limits debug (Text.streamLines input)

end ImpLang.CommandLine
