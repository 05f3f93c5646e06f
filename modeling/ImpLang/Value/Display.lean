import ImpLang.Tree.Render
import ImpLang.Value

/-!
The printed form of values. A closure shows its parameters, its body as source text and the
bindings it captured, in their order. It is one level down to the body and four to a value that was
captured.
-/

namespace ImpLang.Val

open Writing

mutual

def write : Val → Writing String
  | .int n => result (Text.writtenNumeral n)
  | .bool b => return if b then "True" else "False"
  | .closure params body captured => do
    let body ← below 1 body.write
    let entries ← below 4 (writeEntries captured)
    return "<[" ++ ", ".intercalate params ++ "], " ++ body ++ ", \x7b" ++
      ", ".intercalate entries ++ "\x7d>"
  | .exn message => return Complaint.display message
  | .foreign thing => result (.error (.notValue thing.text))

def writeEntries : List (String × Val) → Writing (List String)
  | [] => return []
  | (x, v) :: rest => do
    let v ← v.write
    let rest ← writeEntries rest
    return (x ++ ": " ++ v) :: rest

end

/-- The printed form of a value, however many levels it takes. -/
def display (v : Val) : Except Fault String :=
  v.write.outcome

def displayEntries (entries : List (String × Val)) : Except Fault (List String) :=
  (writeEntries entries).outcome

def displayBindings (env : Env) : Except Fault String := do
  let entries ← displayEntries env
  return ", ".intercalate entries

def displayWithin (depth : Nat) (v : Val) : Except Fault String :=
  v.write.within depth

theorem display_closure (params : List String) (body : Exp) (captured : List (String × Val)) :
    (closure params body captured).display = (do
      let body ← body.render
      let entries ← displayEntries captured
      return "<[" ++ ", ".intercalate params ++ "], " ++ body ++ ", \x7b" ++
        ", ".intercalate entries ++ "\x7d>") := by
  simp [display, displayEntries, Exp.render, write]

@[simp]
theorem displayEntries_nil : displayEntries [] = .ok [] := rfl

theorem displayEntries_cons (x : String) (v : Val) (rest : List (String × Val)) :
    displayEntries ((x, v) :: rest) = (do
      let v ← v.display
      let rest ← displayEntries rest
      return (x ++ ": " ++ v) :: rest) := by
  simp [display, displayEntries, writeEntries]

/-- The limit is kept in the order of writing, the body first: what was captured only matters if the
body was written. -/
theorem displayWithin_closure (depth : Nat) (params : List String) (body : Exp)
    (captured : List (String × Val)) :
    (closure params body captured).displayWithin (depth + 1) = (do
      let body ← body.renderWithin depth
      let entries ← (writeEntries captured).within (depth - 3)
      return "<[" ++ ", ".intercalate params ++ "], " ++ body ++ ", \x7b" ++
        ", ".intercalate entries ++ "\x7d>") := by
  simp only [displayWithin, Exp.renderWithin, write, within_bind, within_below,
    within_pure (Nat.succ_pos depth), Nat.add_sub_cancel, Nat.reduceSubDiff]
  rfl

end ImpLang.Val
