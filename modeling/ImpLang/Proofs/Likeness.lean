import ImpLang.Eval
import ImpLang.Proofs.Induction
import ImpLang.Proofs.Overlay
import ImpLang.Proofs.Preservation
import Mathlib.Data.List.Forall2

/-! Values that evaluation cannot tell apart. A scope says which names count in an expression. Two
closures are alike if they have the same parameters and the same body, and what they captured is
alike for every name that counts in the body. Where the names that count in an expression stand for
alike values, evaluation takes the same levels and gives alike values. -/
namespace ImpLang

open Traced

/-- Which names count in an expression. A name that counts in a part counts in the whole, except
in the body of a let that binds it. A parameter is no such exception, since it need not be given an
argument. -/
structure Scope where
  counts : Exp → String → Prop
  var : ∀ x, counts (.var x) x
  fn : ∀ {params body x}, counts body x → counts (.fn params body) x
  bound : ∀ {bindings body b x}, b ∈ bindings → counts b.2 x → counts (.letIn bindings body) x
  letBody : ∀ {bindings body x}, counts body x → x ∉ bindings.map Prod.fst →
    counts (.letIn bindings body) x
  function : ∀ {f args x}, counts f x → counts (.apply f args) x
  argument : ∀ {f args e x}, e ∈ args → counts e x → counts (.apply f args) x
  condition : ∀ {c t e x}, counts c x → counts (.ite c t e) x
  branch : ∀ {c t e x} (b : Bool), counts (if b then t else e) x → counts (.ite c t e) x
  left : ∀ {op l r x}, counts l x → counts (.binary op l r) x
  right : ∀ {op l r x}, counts r x → counts (.binary op l r) x
  leftOf : ∀ {kind symbol l r x}, counts l x → counts (.unknownOp kind symbol l r) x
  rightOf : ∀ {kind symbol l r x}, counts r x → counts (.unknownOp kind symbol l r) x

/-- Evaluation cannot tell the values apart, if only the names in scope count. -/
inductive Val.Alike (scope : Scope) : Val → Val → Prop
  | int (n : Int) : Alike scope (.int n) (.int n)
  | bool (b : Bool) : Alike scope (.bool b) (.bool b)
  | exn (message : String) : Alike scope (.exn message) (.exn message)
  | foreign (thing : Foreign) : Alike scope (.foreign thing) (.foreign thing)
  | closure {params : List String} {body : Exp} {captured captured' : List (String × Val)}
      (h : ∀ x, scope.counts body x →
        Option.Rel (Alike scope) (Bindings.get? captured x) (Bindings.get? captured' x)) :
      Alike scope (.closure params body captured) (.closure params body captured')

/-- The names that count in the expression stand for alike values. -/
def Env.Alike (scope : Scope) (e : Exp) (env env' : Env) : Prop :=
  ∀ x, scope.counts e x → Option.Rel (Val.Alike scope) (env.get? x) (env'.get? x)

inductive Agree {α β : Type} (R : α → β → Prop) : Except Fault α → Except Fault β → Prop
  | ok {a : α} {b : β} (h : R a b) : Agree R (.ok a) (.ok b)
  | fault (e : Fault) : Agree R (.error e) (.error e)

section Agree

variable {α β γ δ : Type} {R : α → β → Prop} {S : γ → δ → Prop}

theorem Agree.refl (x : Except Fault α) : Agree Eq x x := by
  cases x with
  | ok a => exact .ok rfl
  | error e => exact .fault e

theorem Agree.imp {R' : α → β → Prop} {x : Except Fault α} {y : Except Fault β} (h : Agree R x y)
    (himp : ∀ a b, x = .ok a → y = .ok b → R a b → R' a b) : Agree R' x y := by
  cases h with
  | ok h => exact .ok (himp _ _ rfl rfl h)
  | fault e => exact .fault e

theorem Agree.bind_outcome {x : Traced α} {y : Traced β} {f : α → Traced γ} {g : β → Traced δ}
    (h : Agree R x.outcome y.outcome) (hfg : ∀ a b, R a b → Agree S (f a).outcome (g b).outcome) :
    Agree S (x >>= f).outcome (y >>= g).outcome := by
  rw [outcome_bind, outcome_bind]
  generalize x.outcome = o at h ⊢
  generalize y.outcome = o' at h ⊢
  cases h with
  | ok h => exact hfg _ _ h
  | fault e => exact .fault e

theorem Agree.mapList {f : γ → Traced α} {g : γ → Traced β} {cs : List γ}
    (h : ∀ c ∈ cs, Agree R (f c).outcome (g c).outcome) :
    Agree (fun as bs => as.length = cs.length ∧ List.Forall₂ R as bs)
      (mapList f cs).outcome (mapList g cs).outcome := by
  induction cs with
  | nil => exact .ok ⟨rfl, .nil⟩
  | cons c cs ih =>
    obtain ⟨hc, hcs⟩ := List.forall_mem_cons.mp h
    refine hc.bind_outcome fun a b hab => (ih hcs).bind_outcome fun as bs has => ?_
    exact .ok ⟨congrArg Nat.succ has.1, .cons hab has.2⟩

end Agree

/-- Related values that are bound to the same names stay related, name by name. -/
theorem Bindings.rel_insertAll {α : Type} {R : α → α → Prop} {values values' : List α}
    (hvalues : List.Forall₂ R values values') (params : List String) {base base' : Bindings α}
    {x : String}
    (hbase : x ∉ keys (params.zip values) → Option.Rel R (base.get? x) (base'.get? x)) :
    Option.Rel R ((base.insertAll (params.zip values)).get? x)
      ((base'.insertAll (params.zip values')).get? x) := by
  induction hvalues generalizing params base base' with
  | nil =>
    rw [List.zip_nil_right]
    exact hbase (by simp)
  | cons hv _ ih =>
    cases params with
    | nil => exact hbase (by simp)
    | cons p params =>
      apply ih
      intro hx
      rw [get?_insert, get?_insert]
      split_ifs with hpx
      · exact .some hv
      · exact hbase (by simp [Ne.symm hpx, hx])

theorem Op.lift_closure_left (op : Op) (w : Val) (params : List String) (body : Exp)
    (captured captured' : Env) : op.lift (.closure params body captured) w =
      op.lift (.closure params body captured') w := by
  cases op <;> cases w <;> rfl

theorem Op.lift_closure_right (op : Op) (v : Val) (params : List String) (body : Exp)
    (captured : Env) : op.lift v (.closure params body captured) = .cannotLift := by
  cases op <;> cases v <;> rfl

namespace Val.Alike

variable {scope : Scope} {v v' w w' : Val}

theorem refl (scope : Scope) (v : Val) : Alike scope v v := by
  induction v using Val.induction with
  | int n => exact .int n
  | bool b => exact .bool b
  | exn message => exact .exn message
  | foreign thing => exact .foreign thing
  | closure params body captured ih =>
    refine .closure fun x _ => ?_
    cases hget : Bindings.get? captured x with
    | none => exact .none
    | some v => exact .some (ih _ (Bindings.mem_of_get?_eq_some hget))

theorem rel_self (scope : Scope) (o : Option Val) : Option.Rel (Alike scope) o o := by
  cases o with
  | none => exact .none
  | some v => exact .some (.refl scope v)

/-- Operators treat all closures in the same way. -/
theorem lift (op : Op) (hv : Alike scope v v') (hw : Alike scope w w') :
    Alike scope (op.lift v w) (op.lift v' w') := by
  have hleft : op.lift v w = op.lift v' w := by
    cases hv with
    | closure h => exact op.lift_closure_left w _ _ _ _
    | _ => rfl
  have hright : op.lift v' w = op.lift v' w' := by
    cases hw with
    | closure h => rw [op.lift_closure_right, op.lift_closure_right]
    | _ => rfl
  rw [hleft, hright]
  exact .refl scope _

theorem getD {o o' : Option Val} (h : Option.Rel (Alike scope) o o') (v : Val) :
    Alike scope (o.getD v) (o'.getD v) := by
  cases h with
  | some h => exact h
  | none => exact .refl scope v

end Val.Alike

/-- Where the names that count stand for alike values, evaluation gives alike values, or runs too
deep in both places. -/
theorem eval_alike (scope : Scope) (debug : Bool) (depth : Nat) {e : Exp} {env env' : Env}
    (h : env.Alike scope e env') :
    Agree (Val.Alike scope) (eval debug depth e env).outcome (eval debug depth e env').outcome := by
  induction depth using Nat.strongRecOn generalizing e env env' with
  | ind depth ih =>
    cases depth with
    | zero => exact .fault _
    | succ depth =>
      rw [eval.eq_def, eval.eq_def debug (depth + 1) e env']
      refine Agree.bind_outcome (R := Eq) (.ok rfl) fun _ _ _ => ?_
      cases e with
      | int n => exact .ok (.int n)
      | bool b => exact .ok (.bool b)
      | var x => exact .ok (.getD (h x (scope.var x)) _)
      | fn params body => exact .ok (.closure fun x hx => h x (scope.fn hx))
      | foreign thing => exact .fault _
      | binary op left right =>
        refine (ih depth (by omega) fun x hx => h x (scope.left hx)).bind_outcome fun v v' hv => ?_
        refine (ih depth (by omega) fun x hx => h x (scope.right hx)).bind_outcome fun w w' hw => ?_
        exact .ok (hv.lift op hw)
      | unknownOp kind symbol left right =>
        refine (ih depth (by omega) fun x hx => h x (scope.leftOf hx)).bind_outcome
          fun v v' hv => ?_
        refine (ih depth (by omega) fun x hx => h x (scope.rightOf hx)).bind_outcome
          fun w w' hw => ?_
        rw [outcome_result, outcome_result, OpKind.lift, OpKind.lift]
        cases Op.find? kind symbol with
        | none => exact .fault _
        | some op => exact .ok (hv.lift op hw)
      | ite c t e =>
        cases depth with
        | zero => exact .fault _
        | succ depth =>
          refine (ih depth (by omega) fun x hx => h x (scope.condition hx)).bind_outcome
            fun v v' hv => ?_
          cases hv with
          | bool b => exact ih depth (by omega) fun x hx => h x (scope.branch b hx)
          | _ => exact .ok (.refl scope _)
      | letIn bindings body =>
        cases depth with
        | zero => exact .fault _
        | succ depth =>
          cases depth with
          | zero => exact .fault _
          | succ depth =>
            have hbound := Agree.mapList fun b hb =>
              ih depth (by omega) fun x hx => h x (scope.bound hb hx)
            refine hbound.bind_outcome fun values values' hvalues => ?_
            obtain ⟨hlength, hvalues⟩ := hvalues
            refine ih (depth + 1) (by omega) fun x hx => ?_
            rw [Bindings.insertAll_ofArguments, Bindings.insertAll_ofArguments]
            -- every name of the let has a value, so a name that falls through is none of them
            refine Bindings.rel_insertAll hvalues _ fun hnot => h x (scope.letBody hx ?_)
            rwa [Bindings.keys, List.map_fst_zip (by simp [hlength])] at hnot
      | apply f args =>
        cases depth with
        | zero => exact .fault _
        | succ depth =>
          refine (ih depth (by omega) fun x hx => h x (scope.function hx)).bind_outcome
            fun v v' hv => ?_
          cases hv with
          | closure hcaptured =>
            cases depth with
            | zero => exact .fault _
            | succ depth =>
              have hargs := Agree.mapList fun e he =>
                ih depth (by omega) fun x hx => h x (scope.argument he hx)
              refine hargs.bind_outcome fun values values' hvalues => ?_
              refine ih (depth + 1) (by omega) fun x hx => ?_
              rw [Bindings.insertAll_ofArguments, Bindings.insertAll_ofArguments]
              -- a parameter without an argument falls through to what was captured
              exact Bindings.rel_insertAll hvalues.2 _ fun _ => hcaptured x hx
          | _ => exact .ok (.refl scope _)

end ImpLang
