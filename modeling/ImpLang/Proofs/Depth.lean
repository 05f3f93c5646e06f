import ImpLang.Exec
import Mathlib.Tactic.Common

namespace ImpLang

open Traced

section Settles

variable {α β : Type} {x x' : Traced α}

/-- Unless the first computation ran too deep, the second is the same. -/
def Traced.Settles (x x' : Traced α) : Prop :=
  x.outcome ≠ .error .tooDeep → x' = x

theorem Traced.Settles.refl (x : Traced α) : Settles x x :=
  fun _ => rfl

theorem Traced.Settles.of_tooDeep (h : x.outcome = .error .tooDeep) : Settles x x' :=
  fun hne => absurd h hne

theorem Traced.Settles.bind_of_ok (hx : Settles x x') {f f' : α → Traced β}
    (hf : ∀ a, x.outcome = .ok a → Settles (f a) (f' a)) : Settles (x >>= f) (x' >>= f') := by
  intro hne
  have hfirst : x.outcome ≠ .error .tooDeep := by
    intro hdeep
    apply hne
    rw [outcome_bind, hdeep]
    rfl
  rw [hx hfirst]
  obtain ⟨trace, outcome⟩ := x
  cases outcome with
  | error e => rfl
  | ok a =>
    have hsecond : (f a).outcome ≠ .error .tooDeep := hne
    change (⟨trace ++ (f' a).trace, (f' a).outcome⟩ : Traced β) =
      ⟨trace ++ (f a).trace, (f a).outcome⟩
    rw [hf a rfl hsecond]

theorem Traced.Settles.bind (hx : Settles x x') {f f' : α → Traced β}
    (hf : ∀ a, Settles (f a) (f' a)) : Settles (x >>= f) (x' >>= f') :=
  hx.bind_of_ok fun a _ => hf a

theorem Traced.Settles.mapList {f f' : α → Traced β} (h : ∀ a, Settles (f a) (f' a))
    (as : List α) : Settles (mapList f as) (mapList f' as) := by
  induction as with
  | nil => exact .refl _
  | cons a as ih => exact (h a).bind fun b => ih.bind fun bs => .refl _

end Settles

/-- Where a level is taken, the limit with fewer levels decides whether the other one is asked. -/
theorem Traced.Settles.level {α : Type} {x x' : Traced α} (hx : x.outcome = .error .tooDeep)
    {f f' : Nat → Traced α} {depth depth' : Nat} : depth ≤ depth' →
    (∀ d d', d < depth → d ≤ d' → Settles (f d) (f' d')) →
    Settles (match depth with | 0 => x | d + 1 => f d)
      (match depth' with | 0 => x' | d + 1 => f' d) := by
  intro hle hf
  cases depth with
  | zero => exact .of_tooDeep hx
  | succ d =>
    cases depth' with
    | zero => omega
    | succ d' => exact hf d d' (by omega) (by omega)

theorem eval_settles (debug : Bool) {depth depth' : Nat} (hle : depth ≤ depth') (e : Exp)
    (env : Env) : Settles (eval debug depth e env) (eval debug depth' e env) := by
  -- by strong induction, since the parts of a form stand one, two or three levels down
  induction depth using Nat.strongRecOn generalizing depth' e env with
  | ind depth ih =>
    cases depth with
    | zero => exact .of_tooDeep rfl
    | succ depth =>
      obtain ⟨depth', rfl⟩ := Nat.exists_eq_succ_of_ne_zero (Nat.ne_zero_of_lt hle)
      have hle : depth ≤ depth' := Nat.le_of_succ_le_succ hle
      rw [eval.eq_def, eval.eq_def debug (depth' + 1)]
      refine .bind (.refl _) fun _ => ?_
      cases e with
      | int n => exact .refl _
      | bool b => exact .refl _
      | var x => exact .refl _
      | fn params body => exact .refl _
      | foreign thing => exact .refl _
      | binary op left right =>
        refine .bind (ih depth (by omega) hle left env) fun x => ?_
        exact .bind (ih depth (by omega) hle right env) fun y => .refl _
      | unknownOp kind symbol left right =>
        refine .bind (ih depth (by omega) hle left env) fun x => ?_
        exact .bind (ih depth (by omega) hle right env) fun y => .refl _
      | ite c t e =>
        dsimp only
        refine .level rfl hle fun d d' hd hdd' => ?_
        refine .bind (ih d (by omega) hdd' c env) fun v => ?_
        cases v with
        | bool b => exact ih d (by omega) hdd' _ env
        | _ => exact .refl _
      | letIn bindings body =>
        dsimp only
        refine .level rfl hle fun d d' hd hdd' => ?_
        refine .level rfl hdd' fun k k' hk hkk' => ?_
        have hvalues := Settles.mapList (fun b : String × Exp => ih k (by omega) hkk' b.2 env)
        exact (hvalues bindings).bind fun values => ih d (by omega) hdd' body _
      | apply f args =>
        dsimp only
        refine .level rfl hle fun d d' hd hdd' => ?_
        refine .bind (ih d (by omega) hdd' f env) fun v => ?_
        cases v with
        | closure params body captured =>
          refine .level rfl hdd' fun k k' hk hkk' => ?_
          have hvalues := Settles.mapList (fun e => ih k (by omega) hkk' e env) args
          exact hvalues.bind fun values => ih d (by omega) hdd' body _
        | _ => exact .refl _

theorem Val.displayWithin_settles {depth depth' : Nat} (hle : depth ≤ depth') (v : Val) :
    Settles (result (v.displayWithin depth)) (result (v.displayWithin depth')) := by
  unfold Val.displayWithin Writing.within
  by_cases h : v.write.reach < depth
  · rw [if_pos h, if_pos (Nat.lt_of_lt_of_le h hle)]
    exact .refl _
  · rw [if_neg h]
    exact .of_tooDeep rfl

theorem execList_settles {run run' : Stmt → Session → Traced Effect}
    (h : ∀ s session, Settles (run s session) (run' s session)) (stmts : List Stmt)
    (session : Session) : Settles (execList run stmts session) (execList run' stmts session) := by
  induction stmts generalizing session with
  | nil => exact .refl _
  | cons s stmts ih =>
    exact (h s session).bind fun first => (ih first.session).bind fun others => .refl _

theorem exec_settles (debug : Bool) {depth depth' : Nat} (hle : depth ≤ depth') (s : Stmt)
    (session : Session) : Settles (exec debug depth s session) (exec debug depth' s session) := by
  induction depth using Nat.strongRecOn generalizing depth' s session with
  | ind depth ih =>
    cases depth with
    | zero => exact .of_tooDeep rfl
    | succ depth =>
      obtain ⟨depth', rfl⟩ := Nat.exists_eq_succ_of_ne_zero (Nat.ne_zero_of_lt hle)
      have hle : depth ≤ depth' := Nat.le_of_succ_le_succ hle
      rw [exec.eq_def, exec.eq_def debug (depth' + 1)]
      refine .bind (.refl _) fun _ => ?_
      cases s with
      | quit => exact .refl _
      | procedure f params body => exact .refl _
      | foreign thing => exact .refl _
      | set x e => exact .bind (eval_settles debug hle e _) fun v => .refl _
      | print e =>
        refine .bind (eval_settles debug hle e _) fun v => ?_
        exact .bind (v.displayWithin_settles hle) fun text => .refl _
      | ite c t e =>
        dsimp only
        refine .level rfl hle fun d d' hd hdd' => ?_
        refine .bind (eval_settles debug hdd' c _) fun v => ?_
        cases v with
        | bool b => exact ih d (by omega) hdd' _ session
        | _ => exact .refl _
      | call f args =>
        dsimp only
        refine .level rfl hle fun d d' hd hdd' => ?_
        cases session.procedures.get? f with
        | none => exact .refl _
        | some stmt =>
          cases stmt with
          | procedure g params body =>
            refine .level rfl hdd' fun k k' hk hkk' => ?_
            have hvalues := Settles.mapList (fun e => eval_settles debug hkk' e session.vars) args
            exact hvalues.bind fun values => ih d (by omega) hdd' body _
          | _ => exact .refl _
      | seq stmts =>
        dsimp only
        refine .level rfl hle fun d d' hd hdd' => ?_
        exact execList_settles (fun s session => ih d (by omega) hdd' s session) stmts session

end ImpLang
