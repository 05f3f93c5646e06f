import ImpLang.Repl.Command

namespace ImpLang.Repl

open Traced

def prompt : String := "> "

def greeting (debug : Bool) : List String :=
  "Welcome to your interpreter!" :: if debug then ["Debug mode enabled"] else []

structure Answer where
  written : List String
  session : Session
  finished : Bool

/-- What stays written of the answer to a line if there is a fault: the heading of a command. -/
def begun (line : String) : List String :=
  if Command.isCommand line then Command.heading line else []

def respond (limits : Limits) (debug : Bool) (session : Session) (line : String) :
    Traced Answer :=
  if Command.isCommand line then do
    let written ← Command.run limits debug session line
    return ⟨written, session, false⟩
  else do
    let reply ← session.step limits debug line
    return ⟨[reply.text], reply.session, reply.finished⟩

inductive Display where
  | prompt
  | trace (event : Event)
  | write (text : String)

def Display.text : Display → String
  | .prompt => Repl.prompt
  | .trace event => event.line ++ "\n"
  | .write text => text ++ "\n"

def Display.written? : Display → Option String
  | .write text => some text
  | _ => none

def Display.event? : Display → Option Event
  | .trace event => some event
  | _ => none

def Display.prompt? : Display → Option String
  | .prompt => some Repl.prompt
  | _ => none

/-- A dialogue: what appeared, how many lines were left unread, the last session, and the fault
that ended it, if any. -/
structure Transcript where
  shown : List Display
  unread : Nat
  session : Session
  fault : Option Fault

/-- The dialogue over the given lines, after which the input ends. -/
def converse (limits : Limits) (debug : Bool) : Session → List String → Transcript
  | session, [] => ⟨[.prompt, .write farewell], 0, session, none⟩
  | session, line :: rest =>
    let answer := respond limits debug session line
    let before := .prompt :: answer.trace.map .trace
    match answer.outcome with
    | .error e => ⟨before ++ (begun line).map .write, rest.length, session, some e⟩
    | .ok a =>
      let shown := before ++ a.written.map .write
      if a.finished then ⟨shown, rest.length, a.session, none⟩
      else
        let others := converse limits debug a.session rest
        { others with shown := shown ++ others.shown }

def dialogue (limits : Limits) (debug : Bool) (lines : List String) : Transcript :=
  let talk := converse limits debug {} lines
  { talk with shown := (greeting debug).map .write ++ talk.shown }

end ImpLang.Repl
