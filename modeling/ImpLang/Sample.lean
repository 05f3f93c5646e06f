import ImpLang.Session

/-!
Texts on their own, outside of the lines of a session: expressions that are evaluated over given
variables, statements that are executed over a given session, and a sample that shows the parser at
work.
-/

namespace ImpLang

open Traced

def evalText (limits : Limits) (debug : Bool) (text : String) (env : Env) : Traced Val := do
  let e ← readExpression limits debug text standardInput
  eval debug limits.depth e env

/-- Binds names to the values of expressions, each of which sees the names before it. -/
def envOfTexts (limits : Limits) : Env → List (String × String) → Except Fault Env
  | env, [] => .ok env
  | env, (name, text) :: rest => do
    let value ← (evalText limits false text env).outcome
    envOfTexts limits (env.insert name value) rest

/-- Parses and executes a statement, a quit statement like any other. -/
def Session.execText (limits : Limits) (debug : Bool) (session : Session) (text : String) :
    Traced Effect := do
  let stmt ← readStatement limits debug text standardInput
  exec debug limits.depth stmt session

namespace Sample

def source : String :=
  "do x := 5; print apply fn [y] y * x end (2); od;"

/-- The tree of the sample and the source text rendered from it, behind the trace of the parser. -/
def body (limits : Limits) : Traced String := do
  let stmt ← readStatement limits true source standardInput
  let text ← result stmt.render
  return stmt.pretty ++ "\n" ++ text ++ "\n"

def text (limits : Limits) : String :=
  match body limits with
  | ⟨trace, .ok shown⟩ => traceText trace ++ shown
  | ⟨trace, .error e⟩ => traceText trace ++ "Parse error: " ++ e.message ++ "\n"

end Sample

end ImpLang
