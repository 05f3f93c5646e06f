import ImpLang.Tree.Describe

/-!
Nodes: whatever may stand in a tree made by hand. A node can be taken for an expression or for a
statement; what it is not, it becomes a foreign object of.
-/

namespace ImpLang

inductive Node where
  | exp (e : Exp)
  | stmt (s : Stmt)
  | plain (thing : Foreign)

namespace Node

def asExp : Node → Exp
  | .exp e => e
  | .stmt s => .foreign (.ofStmt s)
  | .plain thing => .foreign thing

def asStmt : Node → Stmt
  | .exp e => .foreign (.ofExp e)
  | .stmt s => s
  | .plain thing => .foreign thing

def record : Node → String
  | .exp e => e.record
  | .stmt s => s.record
  | .plain thing => thing.text

def outline : Node → Outline
  | .exp e => e.outline
  | .stmt s => s.outline
  | .plain thing => thing.outline

end Node

end ImpLang
