import ImpLang.Eval
import ImpLang.Value.Display

/-!
Execution of statements. A statement reads and changes the session, which holds the declared
procedures and the variables, and puts out a text. Levels of the given depth are taken as in the
evaluation of expressions.
-/

namespace ImpLang

open Traced

structure Session where
  procedures : Bindings Stmt := []
  vars : Env := []

/-- What a statement did: the text it put out and the session it left. -/
structure Effect where
  output : String
  session : Session

def execList (run : Stmt → Session → Traced Effect) : List Stmt → Session → Traced Effect
  | [], session => return ⟨"", session⟩
  | stmt :: rest, session => do
    let first ← run stmt session
    let others ← execList run rest first.session
    return ⟨first.output ++ others.output, others.session⟩

/-- Executes a statement within the given depth.

A procedure runs on the caller's variables with its parameters laid over them, and what it leaves
there stays. Arguments are evaluated only if the procedure is declared. A quit statement does
nothing here: only at the top level does it end the session. -/
def exec (debug : Bool) : Nat → Stmt → Session → Traced Effect
  | 0, _, _ => fault .tooDeep
  | depth + 1, stmt, session => do
    note debug (.executing stmt)
    match stmt with
    | .print e => do
      let value ← eval debug depth e session.vars
      let text ← result (value.displayWithin depth)
      return ⟨text, session⟩
    | .set x e => do
      let value ← eval debug depth e session.vars
      return ⟨"", { session with vars := session.vars.insert x value }⟩
    | .ite condition thenBranch elseBranch =>
      match depth with
      | 0 => fault .tooDeep
      | depth + 1 => do
        match ← eval debug depth condition session.vars with
        | .bool b => exec debug depth (if b then thenBranch else elseBranch) session
        | _ => return ⟨Complaint.display Complaint.notBool, session⟩
    | .procedure name _ _ =>
      return ⟨"", { session with procedures := session.procedures.insert name stmt }⟩
    | .call name args =>
      match depth with
      | 0 => fault .tooDeep
      | depth + 1 =>
        match session.procedures.get? name with
        | none => return ⟨"Procedure " ++ name ++ " undefined", session⟩
        | some (.procedure _ params body) => do
          let values ←
            match depth with
            | 0 => fault .tooDeep
            | depth + 1 => mapList (fun e => eval debug depth e session.vars) args
          let new := Bindings.ofArguments params values
          exec debug depth body { session with vars := session.vars.insertAll new }
        | some _ => fault (.notProcedure name)
    | .seq stmts =>
      match depth with
      | 0 => fault .tooDeep
      | depth + 1 => execList (exec debug depth) stmts session
    | .quit => return ⟨"", session⟩
    | .foreign thing => fault (.notStatement thing.text)

end ImpLang
