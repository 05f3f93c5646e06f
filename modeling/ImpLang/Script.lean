import ImpLang.Session
import ImpLang.Text.Utf8

namespace ImpLang.Script

open Traced

inductive Obstacle where
  | missing
  /-- There is a file where a directory would have to be. -/
  | throughFile
  | nameTooLong
  deriving DecidableEq, Repr

inductive Source where
  | directory
  | file (bytes : List Nat)
  deriving DecidableEq, Repr

abbrev Lookup := Except Obstacle Source

inductive ReadError where
  | missing
  | unreadable (fault : Fault)
  | undecodable (error : Text.Utf8Error)

/-- The lines of the file that was looked up by a path. All common line ends count as line feeds. -/
def linesOf (path : String) : Lookup → Except ReadError (List String)
  | .error .missing => .error .missing
  | .error .throughFile => .error (.unreadable (.notDirectory path))
  | .error .nameTooLong => .error (.unreadable (.nameTooLong path))
  | .ok .directory => .error (.unreadable (.isDirectory path))
  | .ok (.file bytes) =>
    match Text.decodeUtf8 bytes with
    | .error e => .error (.undecodable e)
    | .ok cs => .ok ((Text.splitLines (Text.unifyLineEnds cs)).map String.ofList)

structure Result where
  code : Nat
  written : List String

/-- Runs a script. Nothing is written before the last line has been run. -/
def run (limits : Limits) (debug : Bool) (path : String) (lookup : Lookup) : Traced Result :=
  match linesOf path lookup with
  | .error .missing => return ⟨1, ["Error: Script file '" ++ path ++ "' not found"]⟩
  | .error (.unreadable e) => fault e
  | .error (.undecodable e) =>
    return ⟨1, ["Error: Cannot decode file '" ++ path ++ "': " ++ e.message]⟩
  | .ok lines => do
    let (texts, _) ← Session.runAll limits debug {} lines
    return ⟨0, texts⟩

def parse (limits : Limits) (debug : Bool) (path : String) (lookup : Lookup) :
    Traced (List Stmt) :=
  match linesOf path lookup with
  | .error .missing => fault (.rejected { message := "File not found: " ++ path })
  | .error (.unreadable e) => fault e
  | .error (.undecodable e) =>
    fault (.rejected { message := "Cannot decode file " ++ path ++ ": " ++ e.message })
  | .ok lines =>
    mapList (fun line => readStatement limits debug line path)
      (lines.filter fun line => !Text.isBlankLine line)

def treeLines (limits : Limits) (stmts : List Stmt) : Except Fault String := do
  let trees ← stmts.mapM fun s => s.prettyWithin limits.depth
  return "Parsed " ++ Text.numeral stmts.length ++ " statements:\n" ++
    String.ofList (List.replicate 50 '=') ++ "\n" ++
    String.join (trees.mapIdx fun i lines =>
      "\nStatement " ++ Text.numeral (i + 1 : Nat) ++ ":\n" ++ lines)

end ImpLang.Script
