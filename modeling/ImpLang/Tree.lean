import ImpLang.Outline

/-!
The trees of the language: operators, expressions and statements.

Two forms of expression and one of statement never come from parsing. They let a tree made by hand
hold a defect, an operator symbol outside its table or an object that is no expression or no
statement, so that what each operation says about the defect can be stated.
-/

namespace ImpLang

inductive OpKind where
  | arith
  | logic
  | compare
  deriving DecidableEq, Repr

inductive Op where
  | add
  | sub
  | mul
  | div
  | and
  | or
  | lt
  | gt
  | le
  | ge
  | ne
  | eq
  deriving DecidableEq, Repr

namespace Op

def symbol : Op → String
  | add => "+"
  | sub => "-"
  | mul => "*"
  | div => "/"
  | and => "and"
  | or => "or"
  | lt => "<"
  | gt => ">"
  | le => "<="
  | ge => ">="
  | ne => "/="
  | eq => "=="

def kind : Op → OpKind
  | add | sub | mul | div => .arith
  | and | or => .logic
  | lt | gt | le | ge | ne | eq => .compare

def all : List Op :=
  [add, sub, mul, div, and, or, lt, gt, le, ge, ne, eq]

def find? (kind : OpKind) (symbol : String) : Option Op :=
  all.find? fun op => op.kind = kind && op.symbol = symbol

end Op

/-- An object that stands where an expression, a statement or a value belongs and is none. All that
can be told of it is how it is written and its outline. -/
structure Foreign where
  text : String
  outline : Outline
  deriving DecidableEq

inductive Exp where
  | int (value : Int)
  | bool (value : Bool)
  | var (name : String)
  | fn (params : List String) (body : Exp)
  | letIn (bindings : List (String × Exp)) (body : Exp)
  | apply (function : Exp) (args : List Exp)
  | ite (condition thenBranch elseBranch : Exp)
  | binary (op : Op) (left right : Exp)
  | unknownOp (kind : OpKind) (symbol : String) (left right : Exp)
  | foreign (thing : Foreign)
  deriving Inhabited

/-- A binary operation of a table, whether or not the table has the symbol. -/
def Exp.operation (table : OpKind) (symbol : String) (left right : Exp) : Exp :=
  match Op.find? table symbol with
  | some op => .binary op left right
  | none => .unknownOp table symbol left right

theorem Exp.operation_symbol (op : Op) : operation op.kind op.symbol = binary op := by
  cases op <;> rfl

inductive Stmt where
  | set (name : String) (exp : Exp)
  | print (exp : Exp)
  | quit
  | ite (condition : Exp) (thenBranch elseBranch : Stmt)
  | procedure (name : String) (params : List String) (body : Stmt)
  | call (name : String) (args : List Exp)
  | seq (stmts : List Stmt)
  | foreign (thing : Foreign)
  deriving Inhabited

def reservedWords : List String :=
  ["if", "then", "else", "fi", "fn", "end", "let", "apply", "true", "false", "and", "or", "quit",
   "print", "procedure", "endproc", "call", "do", "od"]

end ImpLang
