import ImpLang.Parse.Token
import ImpLang.Text.Decimal

/-!
The grammar. Each form that starts with a keyword is committed once the keyword has been read. The
operators bind in five levels, from products to disjunctions, and all group to the left.

The parsers of one level are given the parsers for the expressions and statements inside them, so
the only recursion is on the number of levels that are still allowed.
-/

namespace ImpLang.Grammar

open ImpLang.Parser ImpLang.Token

def intLiteral : Parser Exp := do
  let digits ← integer
  if digits.length ≤ Text.maxDigits then return .int (Text.ofDigits digits)
  else fail (.literalTooLong digits.length)

def boolLiteral : Parser Exp :=
  either
    (do keyword "true"; return .bool true)
    (do keyword "false"; return .bool false)

def variableExp : Parser Exp := do
  let x ← identifier
  return .var x

def parameters : Parser (List String) :=
  listOf (literal ",") identifier

def arguments (expression : Parser Exp) : Parser (List Exp) :=
  listOf (literal ",") expression

def binding (expression : Parser Exp) : Parser (String × Exp) := do
  let x ← identifier
  literal ":="
  let e ← expression
  return (x, e)

def fnExp (expression : Parser Exp) : Parser Exp := do
  keyword "fn"
  commit do
    literal "["
    let params ← parameters
    literal "]"
    let body ← expression
    keyword "end"
    return .fn params body

def ifExp (expression : Parser Exp) : Parser Exp := do
  keyword "if"
  commit do
    let condition ← expression
    keyword "then"
    let thenBranch ← expression
    keyword "else"
    let elseBranch ← expression
    keyword "fi"
    return .ite condition thenBranch elseBranch

def letExp (expression : Parser Exp) : Parser Exp := do
  keyword "let"
  commit do
    literal "["
    let bindings ← listOf (literal ";") (binding expression)
    literal "]"
    let body ← expression
    keyword "end"
    return .letIn bindings body

def applyExp (expression : Parser Exp) : Parser Exp := do
  keyword "apply"
  commit do
    let function ← expression
    literal "("
    let args ← arguments expression
    literal ")"
    return .apply function args

def parenthesized (expression : Parser Exp) : Parser Exp := do
  literal "("
  let e ← expression
  literal ")"
  return e

def atom (expression : Parser Exp) : Parser Exp :=
  firstOf intLiteral
    [fnExp expression, ifExp expression, letExp expression, boolLiteral, applyExp expression,
     variableExp, parenthesized expression]

/-- Operators of one level between operands of the level below it. Their symbols are looked up in
the table that the level is given, which need not be the one they come from. -/
def level (operand : Parser Exp) (operator : Parser Op) (table : OpKind) : Parser Exp :=
  chain operand operator fun op => Exp.operation table op.symbol

def operations (expression : Parser Exp) : Parser Exp :=
  level
    (level
      (level
        (level
          (level (atom expression) productOp .arith)
          sumOp .arith)
        comparisonOp .compare)
      (wordOp .and) .logic)
    (wordOp .or) .logic

/-- An expression that is nested at most so many levels deep. Every form that holds an expression
takes one level, as a pair of parentheses does. This only approximates a stack of calls, on which an
argument of an application takes more room than the condition of a conditional. -/
def expression : Nat → Parser Exp
  | 0 => fail .tooDeep
  | nesting + 1 => named "Expected an expression" (operations (expression nesting))

def quitStmt : Parser Stmt := do
  keyword "quit"
  commit do
    literal ";"
    return .quit

def printStmt (expression : Parser Exp) : Parser Stmt := do
  keyword "print"
  commit do
    let e ← expression
    literal ";"
    return .print e

def ifStmt (expression : Parser Exp) (statement : Parser Stmt) : Parser Stmt := do
  keyword "if"
  commit do
    let condition ← expression
    keyword "then"
    let thenBranch ← statement
    keyword "else"
    let elseBranch ← statement
    keyword "fi"
    return .ite condition thenBranch elseBranch

def procedureStmt (statement : Parser Stmt) : Parser Stmt := do
  keyword "procedure"
  commit do
    let name ← identifier
    literal "("
    let params ← parameters
    literal ")"
    let body ← statement
    keyword "endproc"
    return .procedure name params body

def callStmt (expression : Parser Exp) : Parser Stmt := do
  keyword "call"
  commit do
    let name ← identifier
    literal "("
    let args ← arguments expression
    literal ")"
    literal ";"
    return .call name args

def seqStmt (statement : Parser Stmt) : Parser Stmt := do
  keyword "do"
  commit do
    let first ← statement
    let others ← many statement
    keyword "od"
    literal ";"
    return .seq (first :: others)

/-- An assignment. No keyword leads it, so it is tried last and never committed. -/
def setStmt (expression : Parser Exp) : Parser Stmt := do
  let name ← identifier
  literal ":="
  let e ← expression
  literal ";"
  return .set name e

def statements (expression : Parser Exp) (statement : Parser Stmt) : Parser Stmt :=
  firstOf quitStmt
    [printStmt expression, ifStmt expression statement, procedureStmt statement,
     callStmt expression, seqStmt statement, setStmt expression]

/-- A statement that is nested at most so many levels deep. As for expressions, one level is taken
whatever the form is, be it a sequence, a procedure or a conditional. -/
def statement : Nat → Parser Stmt
  | 0 => fail .tooDeep
  | nesting + 1 =>
    named "Expected a statement" (statements (expression nesting) (statement nesting))

end ImpLang.Grammar
