import ImpLang.Parse.Report
import ImpLang.Text.Quoted

namespace ImpLang

/-- Why an operation has no answer. -/
inductive Fault where
  | rejected (report : Report)
  /-- A literal has more digits than are read. -/
  | literalTooLong (digits : Nat)
  /-- An integer has more digits than are written. -/
  | numeralTooLong
  | tooDeep
  | notExpression (object : String)
  | notStatement (object : String)
  | notValue (object : String)
  | unknownOperator (symbol : String)
  /-- The procedure table holds something else under this name. -/
  | notProcedure (name : String)
  | unrenderableExp (object : String)
  | unrenderableStmt (object : String)
  | isDirectory (path : String)
  /-- A path leads on from a file as if it were a directory. -/
  | notDirectory (path : String)
  /-- A path, or a name in it, is longer than any can be. -/
  | nameTooLong (path : String)
  deriving DecidableEq

def Fault.message : Fault → String
  | .rejected report => report.format
  | .literalTooLong digits =>
    "Exceeds the limit (" ++ Text.numeral Text.maxDigits ++
      " digits) for integer string conversion: value has " ++ Text.numeral digits ++
      " digits; use sys.set_int_max_str_digits() to increase the limit"
  | .numeralTooLong =>
    "Exceeds the limit (" ++ Text.numeral Text.maxDigits ++
      " digits) for integer string conversion; use sys.set_int_max_str_digits() to increase " ++
      "the limit"
  | .tooDeep => ""
  | .notExpression object => "Not an expression: " ++ object
  | .notStatement object => "Not a statement: " ++ object
  | .notValue object => "Not a value: " ++ object
  | .unknownOperator symbol => "Unknown operator: " ++ symbol
  | .notProcedure name => "Procedure table holds a non-procedure under " ++ name
  | .unrenderableExp object => "Not an expression: " ++ object
  | .unrenderableStmt object => "Not a statement: " ++ object
  | .isDirectory path => "[Errno 21] Is a directory: " ++ Text.quoted path
  | .notDirectory path => "[Errno 20] Not a directory: " ++ Text.quoted path
  | .nameTooLong path => "[Errno 36] File name too long: " ++ Text.quoted path

def Text.writtenNumeral (n : Int) : Except Fault String :=
  if Text.hasNumeral n then .ok (Text.numeral n) else .error .numeralTooLong

end ImpLang
