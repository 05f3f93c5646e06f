import ImpLang.Fault
import ImpLang.Tree.Describe

/-!
How far down a tree reaches when it is written out. The ways to write a tree take different numbers
of levels on the way to a part, and a tree that reaches further down than there are levels is not
written at all.
-/

namespace ImpLang

/-- How many levels it is from a node down to its parts. -/
structure Descent where
  /-- A part on its own. -/
  part : Nat
  /-- An item of a list of parts. -/
  item : Nat
  /-- An expression that a let binds to a name. -/
  bound : Nat

namespace Descent

/-- Writing a record: three levels to a part, one more through a list, and again one more through a
pair of a name and an expression. -/
def record : Descent := ⟨3, 4, 5⟩

def lines : Descent := ⟨1, 1, 1⟩

end Descent

namespace Exp

mutual

def height (d : Descent) : Exp → Nat
  | .int _ | .bool _ | .var _ | .foreign _ => 0
  | .fn _ body => d.part + body.height d
  | .letIn bindings body => max (d.bound + heightBindings d bindings) (d.part + body.height d)
  | .apply f args => max (d.part + f.height d) (d.item + heightList d args)
  | .ite c t e => d.part + max (c.height d) (max (t.height d) (e.height d))
  | .binary _ l r => d.part + max (l.height d) (r.height d)
  | .unknownOp _ _ l r => d.part + max (l.height d) (r.height d)

def heightList (d : Descent) : List Exp → Nat
  | [] => 0
  | e :: rest => max (e.height d) (heightList d rest)

def heightBindings (d : Descent) : List (String × Exp) → Nat
  | [] => 0
  | (_, e) :: rest => max (e.height d) (heightBindings d rest)

end

def recordWithin (depth : Nat) (e : Exp) : Except Fault String :=
  if e.height .record < depth then .ok e.record else .error .tooDeep

end Exp

namespace Stmt

mutual

def height (d : Descent) : Stmt → Nat
  | .quit | .foreign _ => 0
  | .set _ e => d.part + e.height d
  | .print e => d.part + e.height d
  | .ite c t e => d.part + max (c.height d) (max (t.height d) (e.height d))
  | .procedure _ _ body => d.part + body.height d
  | .call _ args => d.item + Exp.heightList d args
  | .seq stmts => d.item + heightList d stmts

def heightList (d : Descent) : List Stmt → Nat
  | [] => 0
  | s :: rest => max (s.height d) (heightList d rest)

end

def recordWithin (depth : Nat) (s : Stmt) : Except Fault String :=
  if s.height .record < depth then .ok s.record else .error .tooDeep

def prettyWithin (depth : Nat) (s : Stmt) : Except Fault String :=
  if s.height .lines < depth then .ok s.pretty else .error .tooDeep

end Stmt

end ImpLang
