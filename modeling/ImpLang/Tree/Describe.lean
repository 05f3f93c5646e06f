import ImpLang.Text.Quoted
import ImpLang.Text.Decimal
import ImpLang.Tree

namespace ImpLang

def recordText (type : String) (fields : List (String × String)) : String :=
  type ++ "(" ++ ", ".intercalate (fields.map fun (name, value) => name ++ "=" ++ value) ++ ")"

/-- A tuple: a single element is followed by a comma. -/
def tupleText : List String → String
  | [item] => "(" ++ item ++ ",)"
  | items => "(" ++ ", ".intercalate items ++ ")"

def flagText (b : Bool) : String :=
  if b then "True" else "False"

def namesText (names : List String) : String :=
  tupleText (names.map Text.quoted)

def OpKind.nodeType : OpKind → String
  | .arith => "IntOpExp"
  | .logic => "BoolOpExp"
  | .compare => "CompOpExp"

def labelText (type detail : String) : String :=
  type ++ "(" ++ detail ++ ")"

namespace Exp

def nodeType : Exp → String
  | .int _ => "IntExp"
  | .bool _ => "BoolExp"
  | .var _ => "VarExp"
  | .fn _ _ => "FunExp"
  | .letIn _ _ => "LetExp"
  | .apply _ _ => "AppExp"
  | .ite _ _ _ => "IfExp"
  | .binary op _ _ => op.kind.nodeType
  | .unknownOp kind _ _ _ => kind.nodeType
  | .foreign thing => thing.outline.type

mutual

def record : Exp → String
  | .int n => recordText "IntExp" [("value", Text.numeral n)]
  | .bool b => recordText "BoolExp" [("value", flagText b)]
  | .var x => recordText "VarExp" [("name", Text.quoted x)]
  | .fn params body => recordText "FunExp" [("params", namesText params), ("body", body.record)]
  | .letIn bindings body =>
    recordText "LetExp" [("bindings", tupleText (recordBindings bindings)), ("body", body.record)]
  | .apply f args =>
    recordText "AppExp" [("function", f.record), ("args", tupleText (recordList args))]
  | .ite c t e =>
    recordText "IfExp"
      [("condition", c.record), ("then_branch", t.record), ("else_branch", e.record)]
  | .binary op l r =>
    recordText op.kind.nodeType
      [("op", Text.quoted op.symbol), ("left", l.record), ("right", r.record)]
  | .unknownOp kind symbol l r =>
    recordText kind.nodeType
      [("op", Text.quoted symbol), ("left", l.record), ("right", r.record)]
  | .foreign thing => thing.text

def recordList : List Exp → List String
  | [] => []
  | e :: rest => e.record :: recordList rest

def recordBindings : List (String × Exp) → List String
  | [] => []
  | (x, e) :: rest => tupleText [Text.quoted x, e.record] :: recordBindings rest

end

mutual

def outline : Exp → Outline
  | .int n => .node "IntExp" (labelText "IntExp" (Text.numeral n)) []
  | .bool b => .node "BoolExp" (labelText "BoolExp" (flagText b)) []
  | .var x => .node "VarExp" (labelText "VarExp" (Text.quoted x)) []
  | .fn params body =>
    .node "FunExp" (labelText "FunExp" ("[" ++ ", ".intercalate params ++ "]"))
      [("body", body.outline)]
  | .letIn bindings body =>
    .node "LetExp" "LetExp" (outlineBindings bindings ++ [("body", body.outline)])
  | .apply f args => .node "AppExp" "AppExp" (("function", f.outline) :: outlineArgs 0 args)
  | .ite c t e =>
    .node "IfExp" "IfExp" [("condition", c.outline), ("then", t.outline), ("else", e.outline)]
  | .binary op l r =>
    .node op.kind.nodeType (labelText op.kind.nodeType (Text.quoted op.symbol))
      [("left", l.outline), ("right", r.outline)]
  | .unknownOp kind symbol l r =>
    .node kind.nodeType (labelText kind.nodeType (Text.quoted symbol))
      [("left", l.outline), ("right", r.outline)]
  | .foreign thing => thing.outline

def outlineArgs (index : Nat) : List Exp → List (String × Outline)
  | [] => []
  | e :: rest => ("arg" ++ Text.numeral index, e.outline) :: outlineArgs (index + 1) rest

def outlineBindings : List (String × Exp) → List (String × Outline)
  | [] => []
  | (x, e) :: rest => (x, e.outline) :: outlineBindings rest

end

end Exp

namespace Stmt

def nodeType : Stmt → String
  | .set _ _ => "SetStmt"
  | .print _ => "PrintStmt"
  | .quit => "QuitStmt"
  | .ite _ _ _ => "IfStmt"
  | .procedure _ _ _ => "ProcedureStmt"
  | .call _ _ => "CallStmt"
  | .seq _ => "SeqStmt"
  | .foreign thing => thing.outline.type

mutual

def record : Stmt → String
  | .set x e => recordText "SetStmt" [("name", Text.quoted x), ("exp", e.record)]
  | .print e => recordText "PrintStmt" [("exp", e.record)]
  | .quit => recordText "QuitStmt" []
  | .ite c t e =>
    recordText "IfStmt"
      [("condition", c.record), ("then_branch", t.record), ("else_branch", e.record)]
  | .procedure f params body =>
    recordText "ProcedureStmt"
      [("name", Text.quoted f), ("params", namesText params), ("body", body.record)]
  | .call f args =>
    recordText "CallStmt" [("name", Text.quoted f), ("args", tupleText (Exp.recordList args))]
  | .seq stmts => recordText "SeqStmt" [("stmts", tupleText (recordList stmts))]
  | .foreign thing => thing.text

def recordList : List Stmt → List String
  | [] => []
  | s :: rest => s.record :: recordList rest

end

mutual

def outline : Stmt → Outline
  | .set x e => .node "SetStmt" (labelText "SetStmt" (Text.quoted x)) [("exp", e.outline)]
  | .print e => .node "PrintStmt" "PrintStmt" [("exp", e.outline)]
  | .quit => .node "QuitStmt" "QuitStmt" []
  | .ite c t e =>
    .node "IfStmt" "IfStmt" [("condition", c.outline), ("then", t.outline), ("else", e.outline)]
  | .procedure f params body =>
    .node "ProcedureStmt"
      (labelText "ProcedureStmt" (Text.quoted f ++ ", [" ++ ", ".intercalate params ++ "]"))
      [("body", body.outline)]
  | .call f args =>
    .node "CallStmt" (labelText "CallStmt" (Text.quoted f)) (Exp.outlineArgs 0 args)
  | .seq stmts => .node "SeqStmt" "SeqStmt" (outlineList 0 stmts)
  | .foreign thing => thing.outline

def outlineList (index : Nat) : List Stmt → List (String × Outline)
  | [] => []
  | s :: rest => (Text.numeral index, s.outline) :: outlineList (index + 1) rest

end

def pretty (s : Stmt) : String :=
  s.outline.pretty 0 ""

end Stmt

def Exp.pretty (e : Exp) : String :=
  e.outline.pretty 0 ""

namespace Foreign

def ofInt (n : Int) : Foreign :=
  ⟨Text.numeral n, .leaf "int"⟩

def ofBool (b : Bool) : Foreign :=
  ⟨flagText b, .leaf "bool"⟩

def ofText (s : String) : Foreign :=
  ⟨Text.quoted s, .leaf "str"⟩

def absent : Foreign :=
  ⟨"None", .leaf "NoneType"⟩

def ofExp (e : Exp) : Foreign :=
  ⟨e.record, e.outline⟩

def ofStmt (s : Stmt) : Foreign :=
  ⟨s.record, s.outline⟩

end Foreign

end ImpLang
