import ImpLang.Trace
import ImpLang.Value.Lift

/-!
Evaluation of expressions. Each evaluation takes one level of a depth that is given in advance, and
so does each way to the parts of a conditional, an application or a let, with one level more to
expressions that stand in a list. When the levels are used up the evaluation has no answer.
-/

namespace ImpLang

open Traced

/-- Evaluates an expression within the given depth.

Arguments are evaluated where the application stands, and only if a closure is applied; they are
laid over the bindings the closure captured. All bindings of a let see the outer variables. Of a
conditional only the selected branch is evaluated. -/
def eval (debug : Bool) : Nat → Exp → Env → Traced Val
  | 0, _, _ => fault .tooDeep
  | depth + 1, exp, env => do
    note debug (.evaluating exp)
    match exp with
    | .int n => return .int n
    | .bool b => return .bool b
    | .var x => return (env.get? x).getD .unbound
    | .fn params body => return .closure params body env
    | .letIn bindings body =>
      match depth with
      | 0 => fault .tooDeep
      | depth + 1 => do
        let values ←
          match depth with
          | 0 => fault .tooDeep
          | depth + 1 => mapList (fun (_, e) => eval debug depth e env) bindings
        let new := Bindings.ofArguments (bindings.map Prod.fst) values
        eval debug depth body (env.insertAll new)
    | .apply function args =>
      match depth with
      | 0 => fault .tooDeep
      | depth + 1 => do
        match ← eval debug depth function env with
        | .closure params body captured => do
          let values ←
            match depth with
            | 0 => fault .tooDeep
            | depth + 1 => mapList (fun e => eval debug depth e env) args
          let new := Bindings.ofArguments params values
          eval debug depth body (Bindings.insertAll captured new)
        | _ => return .notClosure
    | .ite condition thenBranch elseBranch =>
      match depth with
      | 0 => fault .tooDeep
      | depth + 1 => do
        match ← eval debug depth condition env with
        | .bool b => eval debug depth (if b then thenBranch else elseBranch) env
        | _ => return .notBool
    | .binary op left right => do
      let x ← eval debug depth left env
      let y ← eval debug depth right env
      return op.lift x y
    | .unknownOp kind symbol left right => do
      let x ← eval debug depth left env
      let y ← eval debug depth right env
      result (kind.lift symbol x y)
    | .foreign thing => fault (.notExpression thing.text)

end ImpLang
