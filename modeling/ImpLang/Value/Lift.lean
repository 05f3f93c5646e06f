import ImpLang.Fault
import ImpLang.Value

/-!
Operators on values. Arithmetic and comparisons take integers, the connectives take truth values,
and anything else is a failure value. Division rounds down, and a zero divisor is reported whatever
is divided.
-/

namespace ImpLang

def Op.lift : Op → Val → Val → Val
  | .add, .int m, .int n => .int (m + n)
  | .sub, .int m, .int n => .int (m - n)
  | .mul, .int m, .int n => .int (m * n)
  | .div, x, .int n =>
    if n = 0 then .divisionByZero
    else
      match x with
      | .int m => .int (m.fdiv n)
      | _ => .cannotLift
  | .and, .bool a, .bool b => .bool (a && b)
  | .or, .bool a, .bool b => .bool (a || b)
  | .lt, .int m, .int n => .bool (decide (m < n))
  | .gt, .int m, .int n => .bool (decide (m > n))
  | .le, .int m, .int n => .bool (decide (m ≤ n))
  | .ge, .int m, .int n => .bool (decide (m ≥ n))
  | .ne, .int m, .int n => .bool (decide (m ≠ n))
  | .eq, .int m, .int n => .bool (decide (m = n))
  | _, _, _ => .cannotLift

def OpKind.lift (kind : OpKind) (symbol : String) (x y : Val) : Except Fault Val :=
  match Op.find? kind symbol with
  | some op => .ok (op.lift x y)
  | none => .error (.unknownOperator symbol)

end ImpLang
