import ImpLang.Exec
import ImpLang.Parse
import ImpLang.Tree.Height

/-!
Sessions: inputs are parsed and run one line after another. A rejected line and a line that runs too
deep are answered with a text and leave the session as it was.
-/

namespace ImpLang

open Traced

/-- How deeply texts may be nested, and how many levels down programs may run and trees and values
may be written. Both stand for one stack of calls.

The levels of the depth are weighed by what is done on them. Those of the nesting are not: every
form counts as a pair of parentheses does, for which the default is exact. The arguments of an
application, sequences, procedures and conditionals use up the stack at rates of their own, so for
them the default only approximates how many can stand in one another, which is between 250 and 1000
in all forms. -/
structure Limits where
  nesting : Nat := 399
  depth : Nat := 9985

def farewell : String := "Bye!"

structure Reply where
  text : String
  session : Session
  finished : Bool

/-- Records something that was parsed, provided that its record can be written: the number of levels
below it has to stay within the limit. Without recording there is nothing to write. -/
def noteParsed (limits : Limits) (debug : Bool) (height : Nat) (event : Event) : Traced Unit :=
  if debug && limits.depth ≤ height then fault .tooDeep else note debug event

def readStatement (limits : Limits) (debug : Bool) (line filename : String) : Traced Stmt := do
  let stmt ← result (parseStatement limits.nesting line filename)
  noteParsed limits debug (stmt.height .record) (.parsedStmt stmt)
  return stmt

def readExpression (limits : Limits) (debug : Bool) (line filename : String) : Traced Exp := do
  let e ← result (parseExpression limits.nesting line filename)
  noteParsed limits debug (e.height .record) (.parsedExp e)
  return e

/-- Runs a statement at the top level, where a quit statement ends the session. -/
def Session.runStmt (limits : Limits) (debug : Bool) (session : Session) : Stmt → Traced Reply
  | .quit => return ⟨farewell, session, true⟩
  | stmt =>
    let run : Traced Reply := do
      let effect ← exec debug limits.depth stmt session
      return ⟨effect.output, effect.session, false⟩
    run.recover fun
      | .tooDeep => some ⟨Complaint.display Complaint.recursionLimit, session, false⟩
      | _ => none

def Session.step (limits : Limits) (debug : Bool) (session : Session) (line : String) :
    Traced Reply :=
  match readStatement limits debug line standardInput with
  | ⟨trace, .ok stmt⟩ =>
    let reply := session.runStmt limits debug stmt
    ⟨trace ++ reply.trace, reply.outcome⟩
  | ⟨trace, .error (.rejected report)⟩ => ⟨trace, .ok ⟨report.format, session, false⟩⟩
  | ⟨trace, .error e⟩ => ⟨trace, .error e⟩

/-- Runs lines until a quit statement or the last of them, skipping blank ones. It gives the
answers and the session that is left. -/
def Session.runAll (limits : Limits) (debug : Bool) :
    Session → List String → Traced (List String × Session)
  | session, [] => return ([], session)
  | session, line :: rest =>
    if Text.isBlankLine line then Session.runAll limits debug session rest
    else do
      let reply ← session.step limits debug line
      if reply.finished then return ([reply.text], reply.session)
      else do
        let (texts, last) ← Session.runAll limits debug reply.session rest
        return (reply.text :: texts, last)

end ImpLang
