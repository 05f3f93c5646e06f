import ImpLang.Repl.Completion
import ImpLang.Session

/-!
Commands: lines that start with a colon look at the session and never change it. Bindings are listed
one to a line, and a binding that cannot be shown leaves nothing of its listing but the heading.
-/

namespace ImpLang

open Traced

namespace Listing

def width : Int := 60

def lines (bindings : Bindings String) (empty : String) : List String :=
  if bindings.isEmpty then ["  " ++ empty]
  else bindings.map fun (name, text) => "  " ++ name ++ " = " ++ Text.shorten text width

def texts {α : Type} (display : α → Except Fault String) :
    Bindings α → Except Fault (Bindings String)
  | [] => .ok []
  | (name, a) :: rest => do
    let text ← display a
    let others ← texts display rest
    return (name, text) :: others

end Listing

namespace Command

def isCommand (line : String) : Bool :=
  (Text.trim line).toList.head? == some ':'

/-- The command and its argument: a trimmed line is cut at its first space. -/
def split (line : String) : String × String :=
  let cs := (Text.trim line).toList
  (String.ofList (cs.takeWhile (· != ' ')), String.ofList ((cs.dropWhile (· != ' ')).drop 1))

def showTree (limits : Limits) (debug : Bool) (argument : String) : Traced (List String) :=
  match readStatement limits debug argument standardInput with
  | ⟨trace, .ok stmt⟩ =>
    ⟨trace, (stmt.prettyWithin limits.depth).map fun lines => [Text.trimLineFeeds lines]⟩
  | ⟨trace, .error (.rejected report)⟩ => ⟨trace, .ok [report.format]⟩
  | ⟨trace, .error e⟩ => ⟨trace, .error e⟩

/-- What a command writes before it looks at the session. It stays written if there is a fault. -/
def heading (line : String) : List String :=
  let command := (split line).1
  if command = ":env" then ["Variables:"]
  else if command = ":procs" then ["Procedures:"]
  else []

def body (limits : Limits) (debug : Bool) (session : Session) (line : String) :
    Traced (List String) :=
  let (command, argument) := split line
  if command = ":parse" then showTree limits debug argument
  else if command = ":env" then do
    let bindings ← result (Listing.texts (Val.displayWithin limits.depth) session.vars)
    return Listing.lines bindings "(no bindings)"
  else if command = ":procs" then do
    let bindings ← result (Listing.texts (Stmt.renderWithin limits.depth) session.procedures)
    return Listing.lines bindings "(no procedures)"
  else if command = ":help" then return helpLines
  else return ["Unknown command: " ++ command ++ " (try :help)"]

def run (limits : Limits) (debug : Bool) (session : Session) (line : String) :
    Traced (List String) := do
  let texts ← body limits debug session line
  return heading line ++ texts

end Command

end ImpLang
