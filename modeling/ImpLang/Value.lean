import ImpLang.Tree.Describe
import ImpLang.Tree.Equality

/-!
The values that expressions evaluate to. A failure of the program, such as a division by zero, is
itself a value and travels like any other.
-/

namespace ImpLang

/-- Values. A closure keeps the bindings that were in force where it was made. -/
inductive Val where
  | int (value : Int)
  | bool (value : Bool)
  | closure (params : List String) (body : Exp) (captured : List (String × Val))
  | exn (message : String)
  | foreign (thing : Foreign)
  deriving Inhabited

namespace Complaint

def unbound : String := "No match in env"

def divisionByZero : String := "Division by 0"

def cannotLift : String := "Cannot lift"

def notBool : String := "Condition is not a Bool"

def notClosure : String := "Apply to non-closure"

/-- A statement runs too deep. No value carries this message: it only answers a line. -/
def recursionLimit : String := "Recursion limit exceeded"

def display (message : String) : String :=
  "exn: " ++ message

end Complaint

abbrev Env := Bindings Val

namespace Val

def typeName : Val → String
  | .int _ => "IntVal"
  | .bool _ => "BoolVal"
  | .closure _ _ _ => "CloVal"
  | .exn _ => "ExnVal"
  | .foreign thing => thing.outline.type

def unbound : Val := .exn Complaint.unbound

def divisionByZero : Val := .exn Complaint.divisionByZero

def cannotLift : Val := .exn Complaint.cannotLift

def notBool : Val := .exn Complaint.notBool

def notClosure : Val := .exn Complaint.notClosure

mutual

/-- Two values are the same, where captured bindings count as maps: their order is ignored. -/
def same : Val → Val → Bool
  | .int m, .int n => m == n
  | .bool b, .bool c => b == c
  | .closure ps e env, .closure qs f env' =>
    ps == qs && e == f && env.length == env'.length && sameEntries env env'
  | .exn m, .exn n => m == n
  | .foreign x, .foreign y => x == y
  | _, _ => false

def sameEntries : List (String × Val) → Env → Bool
  | [], _ => true
  | (x, v) :: rest, other =>
    (match other.get? x with
      | some w => v.same w
      | none => false) &&
      sameEntries rest other

end

end Val

end ImpLang
