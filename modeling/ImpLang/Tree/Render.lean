import ImpLang.Tree.Describe
import ImpLang.Writing

/-!
Rendering a tree as source text. Every binary operation is put in parentheses, so that the text
parses back to the same tree whatever the precedence of the operators.

It is one level down to a part, and three to a part that stands in a list.
-/

namespace ImpLang

open Writing

namespace Exp

mutual

def write : Exp → Writing String
  | .int n => result (Text.writtenNumeral n)
  | .bool b => return if b then "true" else "false"
  | .var x => return x
  | .fn params body => do
    let body ← below 1 body.write
    return "fn [" ++ ", ".intercalate params ++ "] " ++ body ++ " end"
  | .letIn bindings body => do
    let bindings ← below 3 (writeBindings bindings)
    let body ← below 1 body.write
    return "let [" ++ "; ".intercalate bindings ++ "] " ++ body ++ " end"
  -- the arguments are written before what they are given to
  | .apply f args => do
    let args ← below 3 (writeList args)
    let f ← below 1 f.write
    return "apply " ++ f ++ " (" ++ ", ".intercalate args ++ ")"
  | .ite c t e => do
    let c ← below 1 c.write
    let t ← below 1 t.write
    let e ← below 1 e.write
    return "if " ++ c ++ " then " ++ t ++ " else " ++ e ++ " fi"
  | .binary op l r => do
    let l ← below 1 l.write
    let r ← below 1 r.write
    return "(" ++ l ++ " " ++ op.symbol ++ " " ++ r ++ ")"
  | .unknownOp _ symbol l r => do
    let l ← below 1 l.write
    let r ← below 1 r.write
    return "(" ++ l ++ " " ++ symbol ++ " " ++ r ++ ")"
  | .foreign thing => result (.error (.unrenderableExp thing.text))

def writeList : List Exp → Writing (List String)
  | [] => return []
  | e :: rest => do
    let e ← e.write
    let rest ← writeList rest
    return e :: rest

def writeBindings : List (String × Exp) → Writing (List String)
  | [] => return []
  | (x, e) :: rest => do
    let e ← e.write
    let rest ← writeBindings rest
    return (x ++ " := " ++ e) :: rest

end

/-- The source text of an expression, however many levels it takes. -/
def render (e : Exp) : Except Fault String :=
  e.write.outcome

def renderList (es : List Exp) : Except Fault (List String) :=
  (writeList es).outcome

def renderBindings (bindings : List (String × Exp)) : Except Fault (List String) :=
  (writeBindings bindings).outcome

def renderWithin (depth : Nat) (e : Exp) : Except Fault String :=
  e.write.within depth

theorem render_fn (params : List String) (body : Exp) :
    (fn params body).render = (do
      let body ← body.render
      return "fn [" ++ ", ".intercalate params ++ "] " ++ body ++ " end") := by
  simp [render, write]

theorem render_letIn (bindings : List (String × Exp)) (body : Exp) :
    (letIn bindings body).render = (do
      let bindings ← renderBindings bindings
      let body ← body.render
      return "let [" ++ "; ".intercalate bindings ++ "] " ++ body ++ " end") := by
  simp [render, renderBindings, write]

theorem render_apply (f : Exp) (args : List Exp) :
    (apply f args).render = (do
      let args ← renderList args
      let f ← f.render
      return "apply " ++ f ++ " (" ++ ", ".intercalate args ++ ")") := by
  simp [render, renderList, write]

theorem render_ite (c t e : Exp) :
    (ite c t e).render = (do
      let c ← c.render
      let t ← t.render
      let e ← e.render
      return "if " ++ c ++ " then " ++ t ++ " else " ++ e ++ " fi") := by
  simp [render, write]

theorem render_binary (op : Op) (l r : Exp) :
    (binary op l r).render = (do
      let l ← l.render
      let r ← r.render
      return "(" ++ l ++ " " ++ op.symbol ++ " " ++ r ++ ")") := by
  simp [render, write]

theorem render_unknownOp (kind : OpKind) (symbol : String) (l r : Exp) :
    (unknownOp kind symbol l r).render = (do
      let l ← l.render
      let r ← r.render
      return "(" ++ l ++ " " ++ symbol ++ " " ++ r ++ ")") := by
  simp [render, write]

@[simp]
theorem renderList_nil : renderList [] = .ok [] := rfl

theorem renderList_cons (e : Exp) (rest : List Exp) :
    renderList (e :: rest) = (do
      let e ← e.render
      let rest ← renderList rest
      return e :: rest) := by
  simp [render, renderList, writeList]

@[simp]
theorem renderBindings_nil : renderBindings [] = .ok [] := rfl

theorem renderBindings_cons (x : String) (e : Exp) (rest : List (String × Exp)) :
    renderBindings ((x, e) :: rest) = (do
      let e ← e.render
      let rest ← renderBindings rest
      return (x ++ " := " ++ e) :: rest) := by
  simp [render, renderBindings, writeBindings]

end Exp

namespace Stmt

mutual

def write : Stmt → Writing String
  | .set x e => do
    let e ← below 1 e.write
    return x ++ " := " ++ e ++ ";"
  | .print e => do
    let e ← below 1 e.write
    return "print " ++ e ++ ";"
  | .quit => return "quit;"
  | .ite c t e => do
    let c ← below 1 c.write
    let t ← below 1 t.write
    let e ← below 1 e.write
    return "if " ++ c ++ " then " ++ t ++ " else " ++ e ++ " fi"
  | .procedure f params body => do
    let body ← below 1 body.write
    return "procedure " ++ f ++ "(" ++ ", ".intercalate params ++ ") " ++ body ++ " endproc"
  | .call f args => do
    let args ← below 3 (Exp.writeList args)
    return "call " ++ f ++ "(" ++ ", ".intercalate args ++ ");"
  | .seq stmts => do
    let stmts ← below 3 (writeList stmts)
    return "do " ++ " ".intercalate stmts ++ " od;"
  | .foreign thing => result (.error (.unrenderableStmt thing.text))

def writeList : List Stmt → Writing (List String)
  | [] => return []
  | s :: rest => do
    let s ← s.write
    let rest ← writeList rest
    return s :: rest

end

/-- The source text of a statement, however many levels it takes. -/
def render (s : Stmt) : Except Fault String :=
  s.write.outcome

def renderList (stmts : List Stmt) : Except Fault (List String) :=
  (writeList stmts).outcome

def renderWithin (depth : Nat) (s : Stmt) : Except Fault String :=
  s.write.within depth

theorem render_set (x : String) (e : Exp) :
    (set x e).render = (do
      let e ← e.render
      return x ++ " := " ++ e ++ ";") := by
  simp [render, Exp.render, write]

theorem render_print (e : Exp) :
    (print e).render = (do
      let e ← e.render
      return "print " ++ e ++ ";") := by
  simp [render, Exp.render, write]

theorem render_ite (c : Exp) (t e : Stmt) :
    (ite c t e).render = (do
      let c ← c.render
      let t ← t.render
      let e ← e.render
      return "if " ++ c ++ " then " ++ t ++ " else " ++ e ++ " fi") := by
  simp [render, Exp.render, write]

theorem render_procedure (f : String) (params : List String) (body : Stmt) :
    (procedure f params body).render = (do
      let body ← body.render
      return "procedure " ++ f ++ "(" ++ ", ".intercalate params ++ ") " ++ body ++
        " endproc") := by
  simp [render, write]

theorem render_call (f : String) (args : List Exp) :
    (call f args).render = (do
      let args ← Exp.renderList args
      return "call " ++ f ++ "(" ++ ", ".intercalate args ++ ");") := by
  simp [render, Exp.renderList, write]

theorem render_seq (stmts : List Stmt) :
    (seq stmts).render = (do
      let stmts ← renderList stmts
      return "do " ++ " ".intercalate stmts ++ " od;") := by
  simp [render, renderList, write]

theorem renderList_cons (s : Stmt) (rest : List Stmt) :
    renderList (s :: rest) = (do
      let s ← s.render
      let rest ← renderList rest
      return s :: rest) := by
  simp [render, renderList, writeList]

end Stmt

end ImpLang
