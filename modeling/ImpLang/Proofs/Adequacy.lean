import ImpLang.Proofs.Depth
import ImpLang.Proofs.Overlay
import ImpLang.Proofs.Semantics

namespace ImpLang

open Traced

theorem Traced.mapList_eq_ok_iff {α β : Type} {f : α → Traced β} {as : List α} {bs : List β} :
    (mapList f as).outcome = .ok bs ↔ List.Forall₂ (fun a b => (f a).outcome = .ok b) as bs := by
  induction as generalizing bs with
  | nil =>
    change Except.ok [] = Except.ok bs ↔ _
    simp [eq_comm]
  | cons a as ih =>
    rw [mapList, List.forall₂_cons_left_iff, outcome_bind_eq_ok_iff]
    refine exists_congr fun b => ?_
    rw [outcome_bind_eq_ok_iff]
    constructor
    · rintro ⟨hb, bs', hbs, h⟩
      cases h
      exact ⟨bs', hb, ih.mp hbs, rfl⟩
    · rintro ⟨bs', hb, hbs, rfl⟩
      exact ⟨hb, bs', ih.mpr hbs, rfl⟩

section Eval

variable {debug : Bool} {depth : Nat} {env : Env} {v : Val}

theorem eval_of_le {depth' : Nat} (hle : depth ≤ depth') {e : Exp}
    (h : (eval debug depth e env).outcome = .ok v) : (eval debug depth' e env).outcome = .ok v := by
  have hsettled : (eval debug depth e env).outcome ≠ .error .tooDeep := by simp [h]
  rw [eval_settles debug hle e env hsettled, h]

theorem eval_letIn_eq_ok_iff {bindings : List (String × Exp)} {body : Exp} :
    (eval debug depth (.letIn bindings body) env).outcome = .ok v ↔ ∃ d values, depth = d + 3 ∧
      List.Forall₂ (fun (b : String × Exp) w => (eval debug d b.2 env).outcome = .ok w)
        bindings values ∧
      (eval debug (d + 1) body (env.insertAll ((bindings.map Prod.fst).zip values))).outcome =
        .ok v := by
  match depth with
  | 0 | 1 | 2 =>
    constructor
    · intro h
      cases h
    · rintro ⟨d, values, hdepth, -⟩
      omega
  | d + 3 =>
    rw [eval, outcome_bind, outcome_note]
    change (mapList _ bindings >>= _).outcome = _ ↔ _
    rw [outcome_bind_eq_ok_iff]
    constructor
    · rintro ⟨values, hvalues, hbody⟩
      dsimp only at hbody
      rw [Bindings.insertAll_ofArguments] at hbody
      exact ⟨d, values, rfl, mapList_eq_ok_iff.mp hvalues, hbody⟩
    · rintro ⟨d', values, hdepth, hvalues, hbody⟩
      obtain rfl : d = d' := by omega
      rw [← Bindings.insertAll_ofArguments] at hbody
      exact ⟨values, mapList_eq_ok_iff.mpr hvalues, hbody⟩

theorem eval_apply_eq_ok_iff {f : Exp} {args : List Exp} :
    (eval debug depth (.apply f args) env).outcome = .ok v ↔
      (∃ d params body captured values, depth = d + 3 ∧
        (eval debug (d + 1) f env).outcome = .ok (.closure params body captured) ∧
        List.Forall₂ (fun e w => (eval debug d e env).outcome = .ok w) args values ∧
        (eval debug (d + 1) body (Bindings.insertAll captured (params.zip values))).outcome =
          .ok v) ∨
      ∃ d w, depth = d + 2 ∧ (eval debug d f env).outcome = .ok w ∧
        (∀ params body captured, w ≠ .closure params body captured) ∧ v = .notClosure := by
  match depth with
  | 0 | 1 =>
    constructor
    · intro h
      cases h
    · rintro (⟨d, params, body, captured, values, hdepth, -⟩ | ⟨d, w, hdepth, -⟩) <;> omega
  | depth + 2 =>
    rw [eval, outcome_bind, outcome_note]
    change (eval debug depth f env >>= _).outcome = _ ↔ _
    rw [outcome_bind_eq_ok_iff]
    constructor
    · rintro ⟨w, hw, h⟩
      cases w with
      | closure params body captured =>
        cases depth with
        -- at this depth the function itself has no value
        | zero => cases hw
        | succ d =>
          obtain ⟨values, hvalues, hbody⟩ := outcome_bind_eq_ok_iff.mp h
          dsimp only at hbody
          rw [Bindings.insertAll_ofArguments] at hbody
          exact .inl
            ⟨d, params, body, captured, values, rfl, hw, mapList_eq_ok_iff.mp hvalues, hbody⟩
      | _ =>
        cases h
        exact .inr ⟨depth, _, rfl, hw, by simp, rfl⟩
    · rintro (⟨d, params, body, captured, values, hdepth, hf, hvalues, hbody⟩ |
        ⟨d, w, hdepth, hf, hw, rfl⟩)
      · obtain rfl : depth = d + 1 := by omega
        rw [← Bindings.insertAll_ofArguments] at hbody
        exact ⟨_, hf, outcome_bind_eq_ok_iff.mpr ⟨values, mapList_eq_ok_iff.mpr hvalues, hbody⟩⟩
      · obtain rfl : depth = d := by omega
        refine ⟨w, hf, ?_⟩
        cases w with
        | closure params body captured => exact absurd rfl (hw params body captured)
        | _ => rfl

theorem eval_ite_eq_ok_iff {c t e : Exp} :
    (eval debug depth (.ite c t e) env).outcome = .ok v ↔ ∃ d w, depth = d + 2 ∧
      (eval debug d c env).outcome = .ok w ∧
      ((∃ b, w = .bool b ∧ (eval debug d (if b then t else e) env).outcome = .ok v) ∨
        (∀ b, w ≠ .bool b) ∧ v = .notBool) := by
  match depth with
  | 0 | 1 =>
    constructor
    · intro h
      cases h
    · rintro ⟨d, w, hdepth, -⟩
      omega
  | depth + 2 =>
    rw [eval, outcome_bind, outcome_note]
    change (eval debug depth c env >>= _).outcome = _ ↔ _
    rw [outcome_bind_eq_ok_iff]
    constructor
    · rintro ⟨w, hw, h⟩
      refine ⟨depth, w, rfl, hw, ?_⟩
      cases w with
      | bool b => exact .inl ⟨b, rfl, h⟩
      | _ =>
        cases h
        exact .inr ⟨by simp, rfl⟩
    · rintro ⟨d, w, hdepth, hc, hw⟩
      obtain rfl : depth = d := by omega
      refine ⟨w, hc, ?_⟩
      rcases hw with ⟨b, rfl, h⟩ | ⟨hw, rfl⟩
      · exact h
      · cases w with
        | bool b => exact absurd rfl (hw b)
        | _ => rfl

theorem eval_binary_eq_ok_iff {op : Op} {l r : Exp} :
    (eval debug depth (.binary op l r) env).outcome = .ok v ↔ ∃ d x y, depth = d + 1 ∧
      (eval debug d l env).outcome = .ok x ∧ (eval debug d r env).outcome = .ok y ∧
      op.Gives x y v := by
  match depth with
  | 0 =>
    constructor
    · intro h
      cases h
    · rintro ⟨d, x, y, hdepth, -⟩
      omega
  | depth + 1 =>
    rw [eval, outcome_bind, outcome_note]
    change (eval debug depth l env >>= _).outcome = _ ↔ _
    rw [outcome_bind_eq_ok_iff]
    constructor
    · rintro ⟨x, hx, h⟩
      obtain ⟨y, hy, h⟩ := outcome_bind_eq_ok_iff.mp h
      exact ⟨depth, x, y, rfl, hx, hy, Op.gives_iff.mpr (Except.ok.inj h)⟩
    · rintro ⟨d, x, y, hdepth, hx, hy, hv⟩
      obtain rfl : depth = d := by omega
      refine ⟨x, hx, outcome_bind_eq_ok_iff.mpr ⟨y, hy, ?_⟩⟩
      exact congrArg Except.ok (Op.gives_iff.mp hv)

theorem OpKind.lift_eq_ok_iff {kind : OpKind} {symbol : String} {x y : Val} :
    kind.lift symbol x y = .ok v ↔ ∃ op, Op.find? kind symbol = some op ∧ op.Gives x y v := by
  unfold OpKind.lift
  cases Op.find? kind symbol with
  | none => simp
  | some op => simp [Op.gives_iff]

theorem eval_unknownOp_eq_ok_iff {kind : OpKind} {symbol : String} {l r : Exp} :
    (eval debug depth (.unknownOp kind symbol l r) env).outcome = .ok v ↔ ∃ d x y op,
      depth = d + 1 ∧ (eval debug d l env).outcome = .ok x ∧ (eval debug d r env).outcome = .ok y ∧
      Op.find? kind symbol = some op ∧ op.Gives x y v := by
  match depth with
  | 0 =>
    constructor
    · intro h
      cases h
    · rintro ⟨d, x, y, op, hdepth, -⟩
      omega
  | depth + 1 =>
    rw [eval, outcome_bind, outcome_note]
    change (eval debug depth l env >>= _).outcome = _ ↔ _
    rw [outcome_bind_eq_ok_iff]
    constructor
    · rintro ⟨x, hx, h⟩
      obtain ⟨y, hy, h⟩ := outcome_bind_eq_ok_iff.mp h
      obtain ⟨op, hop, hv⟩ := OpKind.lift_eq_ok_iff.mp h
      exact ⟨depth, x, y, op, rfl, hx, hy, hop, hv⟩
    · rintro ⟨d, x, y, op, hdepth, hx, hy, hop, hv⟩
      obtain rfl : depth = d := by omega
      exact ⟨x, hx, outcome_bind_eq_ok_iff.mpr ⟨y, hy, OpKind.lift_eq_ok_iff.mpr ⟨op, hop, hv⟩⟩⟩

/-- What evaluation gives follows from the rules. -/
theorem Evaluates.of_eval {e : Exp} (h : (eval debug depth e env).outcome = .ok v) :
    Evaluates e env v := by
  -- the parts of an expression are evaluated one to three levels further down
  induction depth using Nat.strongRecOn generalizing e env v with
  | ind depth ih =>
    cases e with
    | int n =>
      cases depth with
      | zero => cases h
      | succ depth =>
        cases h
        exact .int n env
    | bool b =>
      cases depth with
      | zero => cases h
      | succ depth =>
        cases h
        exact .bool b env
    | var x =>
      cases depth with
      | zero => cases h
      | succ depth =>
        cases hget : env.get? x with
        | none =>
          rw [eval, outcome_bind, outcome_note] at h
          cases h
          rw [hget]
          exact .unbound hget
        | some w =>
          rw [eval, outcome_bind, outcome_note] at h
          cases h
          rw [hget]
          exact .bound hget
    | fn params body =>
      cases depth with
      | zero => cases h
      | succ depth =>
        cases h
        exact .fn params body env
    | letIn bindings body =>
      obtain ⟨d, values, rfl, hvalues, hbody⟩ := eval_letIn_eq_ok_iff.mp h
      obtain ⟨hlength, hbound⟩ := List.forall₂_iff_zip.mp hvalues
      exact .letIn hlength (fun b w hmem => ih d (by omega) (hbound hmem)) (ih _ (by omega) hbody)
    | apply f args =>
      rcases eval_apply_eq_ok_iff.mp h with
        ⟨d, params, body, captured, values, rfl, hf, hvalues, hbody⟩ | ⟨d, w, rfl, hf, hw, rfl⟩
      · obtain ⟨hlength, hargs⟩ := List.forall₂_iff_zip.mp hvalues
        exact .apply (ih _ (by omega) hf) hlength (fun e w hmem => ih d (by omega) (hargs hmem))
          (ih _ (by omega) hbody)
      · exact .notClosure (ih d (by omega) hf) hw
    | ite c t e =>
      obtain ⟨d, w, rfl, hc, ⟨b, rfl, hbranch⟩ | ⟨hw, rfl⟩⟩ := eval_ite_eq_ok_iff.mp h
      · exact .ite (ih d (by omega) hc) (ih d (by omega) hbranch)
      · exact .notBool (ih d (by omega) hc) hw
    | binary op l r =>
      obtain ⟨d, x, y, rfl, hl, hr, hv⟩ := eval_binary_eq_ok_iff.mp h
      exact .binary (ih d (by omega) hl) (ih d (by omega) hr) hv
    | unknownOp kind symbol l r =>
      obtain ⟨d, x, y, op, rfl, hl, hr, hop, hv⟩ := eval_unknownOp_eq_ok_iff.mp h
      exact .symbol hop (ih d (by omega) hl) (ih d (by omega) hr) hv
    | foreign thing =>
      cases depth with
      | zero => cases h
      | succ depth => cases h

/-- Some depth is enough for all expressions of a list at once. -/
theorem exists_eval_all {α : Type} (part : α → Exp) {as : List α} {values : List Val}
    (hlength : as.length = values.length)
    (h : ∀ a w, (a, w) ∈ as.zip values →
      ∃ depth, (eval debug depth (part a) env).outcome = .ok w) :
    ∃ depth, List.Forall₂ (fun a w => (eval debug depth (part a) env).outcome = .ok w)
      as values := by
  induction as generalizing values with
  | nil =>
    obtain rfl := List.length_eq_zero_iff.mp hlength.symm
    exact ⟨0, .nil⟩
  | cons a as ih =>
    obtain ⟨w, values, rfl⟩ := List.exists_cons_of_length_eq_add_one hlength.symm
    obtain ⟨d₁, hw⟩ := h a w (by simp)
    obtain ⟨d₂, hvalues⟩ := ih (Nat.succ.inj hlength) fun a' w' hmem => h a' w' (by simp [hmem])
    refine ⟨max d₁ d₂, .cons (eval_of_le (Nat.le_max_left d₁ d₂) hw) ?_⟩
    exact hvalues.imp fun _ _ => eval_of_le (Nat.le_max_right d₁ d₂)

/-- What follows from the rules is evaluated, given enough levels. -/
theorem Evaluates.exists_eval (debug : Bool) {e : Exp} (h : Evaluates e env v) :
    ∃ depth, (eval debug depth e env).outcome = .ok v := by
  -- on the derivation: to the largest depth that a premise needs come the levels of the form
  induction h with
  | int n env => exact ⟨1, rfl⟩
  | bool b env => exact ⟨1, rfl⟩
  | @bound x env v hget =>
    refine ⟨1, ?_⟩
    change Except.ok ((env.get? x).getD .unbound) = _
    rw [hget]
    rfl
  | @unbound x env hget =>
    refine ⟨1, ?_⟩
    change Except.ok ((env.get? x).getD .unbound) = _
    rw [hget]
    rfl
  | fn params body env => exact ⟨1, rfl⟩
  | letIn hlength _ _ ihs ih =>
    obtain ⟨d₁, hvalues⟩ := exists_eval_all Prod.snd hlength ihs
    obtain ⟨d₂, hbody⟩ := ih
    refine ⟨max d₁ d₂ + 3, eval_letIn_eq_ok_iff.mpr ⟨_, _, rfl, ?_, eval_of_le (by omega) hbody⟩⟩
    exact hvalues.imp fun _ _ => eval_of_le (by omega)
  | apply _ hlength _ _ ihf ihs ih =>
    obtain ⟨d₁, hf⟩ := ihf
    obtain ⟨d₂, hvalues⟩ := exists_eval_all id hlength ihs
    obtain ⟨d₃, hbody⟩ := ih
    refine ⟨max d₁ (max d₂ d₃) + 3, eval_apply_eq_ok_iff.mpr (.inl ⟨_, _, _, _, _, rfl,
      eval_of_le (by omega) hf, ?_, eval_of_le (by omega) hbody⟩)⟩
    exact hvalues.imp fun _ _ => eval_of_le (by omega)
  | notClosure _ hw ihf =>
    obtain ⟨d, hf⟩ := ihf
    exact ⟨d + 2, eval_apply_eq_ok_iff.mpr (.inr ⟨d, _, rfl, hf, hw, rfl⟩)⟩
  | ite _ _ ihc ih =>
    obtain ⟨d₁, hc⟩ := ihc
    obtain ⟨d₂, h⟩ := ih
    exact ⟨max d₁ d₂ + 2, eval_ite_eq_ok_iff.mpr ⟨_, _, rfl, eval_of_le (Nat.le_max_left d₁ d₂) hc,
      .inl ⟨_, rfl, eval_of_le (Nat.le_max_right d₁ d₂) h⟩⟩⟩
  | notBool _ hw ihc =>
    obtain ⟨d, hc⟩ := ihc
    exact ⟨d + 2, eval_ite_eq_ok_iff.mpr ⟨d, _, rfl, hc, .inr ⟨hw, rfl⟩⟩⟩
  | binary _ _ hv ihl ihr =>
    obtain ⟨d₁, hl⟩ := ihl
    obtain ⟨d₂, hr⟩ := ihr
    exact ⟨max d₁ d₂ + 1, eval_binary_eq_ok_iff.mpr ⟨_, _, _, rfl,
      eval_of_le (Nat.le_max_left d₁ d₂) hl, eval_of_le (Nat.le_max_right d₁ d₂) hr, hv⟩⟩
  | symbol hop _ _ hv ihl ihr =>
    obtain ⟨d₁, hl⟩ := ihl
    obtain ⟨d₂, hr⟩ := ihr
    exact ⟨max d₁ d₂ + 1, eval_unknownOp_eq_ok_iff.mpr ⟨_, _, _, _, rfl,
      eval_of_le (Nat.le_max_left d₁ d₂) hl, eval_of_le (Nat.le_max_right d₁ d₂) hr, hop, hv⟩⟩

end Eval

section Exec

variable {debug : Bool} {depth : Nat} {session : Session} {effect : Effect}

theorem exec_of_le {depth' : Nat} (hle : depth ≤ depth') {s : Stmt}
    (h : (exec debug depth s session).outcome = .ok effect) :
    (exec debug depth' s session).outcome = .ok effect := by
  have hsettled : (exec debug depth s session).outcome ≠ .error .tooDeep := by simp [h]
  rw [exec_settles debug hle s session hsettled, h]

theorem Val.displayWithin_eq_ok_iff {v : Val} {text : String} :
    v.displayWithin depth = .ok text ↔
      v.write.reach < depth ∧ v.PrintedForm Text.Short text := by
  rw [← display_eq_ok_iff]
  exact Writing.within_eq_ok_iff

theorem exec_print_eq_ok_iff {e : Exp} :
    (exec debug depth (.print e) session).outcome = .ok effect ↔ ∃ d v text, depth = d + 1 ∧
      (eval debug d e session.vars).outcome = .ok v ∧ v.write.reach < d ∧
      v.PrintedForm Text.Short text ∧ effect = ⟨text, session⟩ := by
  match depth with
  | 0 =>
    constructor
    · intro h
      cases h
    · rintro ⟨d, v, text, hdepth, -⟩
      omega
  | depth + 1 =>
    rw [exec, outcome_bind, outcome_note]
    change (eval debug depth e session.vars >>= _).outcome = _ ↔ _
    rw [outcome_bind_eq_ok_iff]
    constructor
    · rintro ⟨v, hv, h⟩
      obtain ⟨text, htext, h⟩ := outcome_bind_eq_ok_iff.mp h
      obtain ⟨hreach, hform⟩ := Val.displayWithin_eq_ok_iff.mp htext
      cases h
      exact ⟨depth, v, text, rfl, hv, hreach, hform, rfl⟩
    · rintro ⟨d, v, text, hdepth, hv, hreach, hform, rfl⟩
      obtain rfl : depth = d := by omega
      refine ⟨v, hv, outcome_bind_eq_ok_iff.mpr ⟨text, ?_, rfl⟩⟩
      exact Val.displayWithin_eq_ok_iff.mpr ⟨hreach, hform⟩

theorem exec_set_eq_ok_iff {x : String} {e : Exp} :
    (exec debug depth (.set x e) session).outcome = .ok effect ↔ ∃ d v, depth = d + 1 ∧
      (eval debug d e session.vars).outcome = .ok v ∧
      effect = ⟨"", { session with vars := session.vars.insert x v }⟩ := by
  match depth with
  | 0 =>
    constructor
    · intro h
      cases h
    · rintro ⟨d, v, hdepth, -⟩
      omega
  | depth + 1 =>
    rw [exec, outcome_bind, outcome_note]
    change (eval debug depth e session.vars >>= _).outcome = _ ↔ _
    rw [outcome_bind_eq_ok_iff]
    constructor
    · rintro ⟨v, hv, h⟩
      cases h
      exact ⟨depth, v, rfl, hv, rfl⟩
    · rintro ⟨d, v, hdepth, hv, rfl⟩
      obtain rfl : depth = d := by omega
      exact ⟨v, hv, rfl⟩

theorem exec_ite_eq_ok_iff {c : Exp} {t e : Stmt} :
    (exec debug depth (.ite c t e) session).outcome = .ok effect ↔ ∃ d w, depth = d + 2 ∧
      (eval debug d c session.vars).outcome = .ok w ∧
      ((∃ b, w = .bool b ∧
          (exec debug d (if b then t else e) session).outcome = .ok effect) ∨
        (∀ b, w ≠ .bool b) ∧ effect = ⟨"exn: Condition is not a Bool", session⟩) := by
  match depth with
  | 0 | 1 =>
    constructor
    · intro h
      cases h
    · rintro ⟨d, w, hdepth, -⟩
      omega
  | depth + 2 =>
    rw [exec, outcome_bind, outcome_note]
    change (eval debug depth c session.vars >>= _).outcome = _ ↔ _
    rw [outcome_bind_eq_ok_iff]
    constructor
    · rintro ⟨w, hw, h⟩
      refine ⟨depth, w, rfl, hw, ?_⟩
      cases w with
      | bool b => exact .inl ⟨b, rfl, h⟩
      | _ =>
        cases h
        exact .inr ⟨by simp, rfl⟩
    · rintro ⟨d, w, hdepth, hc, hw⟩
      obtain rfl : depth = d := by omega
      refine ⟨w, hc, ?_⟩
      rcases hw with ⟨b, rfl, h⟩ | ⟨hw, rfl⟩
      · exact h
      · cases w with
        | bool b => exact absurd rfl (hw b)
        | _ => rfl

theorem exec_call_eq_ok_iff {f : String} {args : List Exp} :
    (exec debug depth (.call f args) session).outcome = .ok effect ↔
      (∃ d g params body values, depth = d + 3 ∧
        session.procedures.get? f = some (.procedure g params body) ∧
        List.Forall₂ (fun e w => (eval debug d e session.vars).outcome = .ok w) args values ∧
        (exec debug (d + 1) body
          { session with vars := session.vars.insertAll (params.zip values) }).outcome =
            .ok effect) ∨
      ∃ d, depth = d + 2 ∧ session.procedures.get? f = none ∧
        effect = ⟨"Procedure " ++ f ++ " undefined", session⟩ := by
  match depth with
  | 0 | 1 =>
    constructor
    · intro h
      cases h
    · rintro (⟨d, g, params, body, values, hdepth, -⟩ | ⟨d, hdepth, -⟩) <;> omega
  | depth + 2 =>
    rw [exec, outcome_bind, outcome_note]
    dsimp only [bind, Except.bind]
    constructor
    · intro h
      cases hget : session.procedures.get? f with
      | none =>
        rw [hget] at h
        cases h
        exact .inr ⟨depth, rfl, rfl, rfl⟩
      | some s =>
        rw [hget] at h
        cases s with
        | procedure g params body =>
          cases depth with
          | zero => cases h
          | succ d =>
            obtain ⟨values, hvalues, hbody⟩ := outcome_bind_eq_ok_iff.mp h
            rw [Bindings.insertAll_ofArguments] at hbody
            exact .inl ⟨d, g, params, body, values, rfl, rfl, mapList_eq_ok_iff.mp hvalues, hbody⟩
        | _ => cases h
    · rintro (⟨d, g, params, body, values, hdepth, hget, hvalues, hbody⟩ | ⟨d, -, hget, rfl⟩)
      · obtain rfl : depth = d + 1 := by omega
        rw [hget]
        rw [← Bindings.insertAll_ofArguments] at hbody
        exact outcome_bind_eq_ok_iff.mpr ⟨values, mapList_eq_ok_iff.mpr hvalues, hbody⟩
      · rw [hget]
        rfl

/-- A sequence is its first statement and then the sequence of the others, at the same depth. -/
theorem exec_cons_eq_ok_iff {s : Stmt} {rest : List Stmt} :
    (exec debug depth (.seq (s :: rest)) session).outcome = .ok effect ↔
      ∃ d first others, depth = d + 2 ∧ (exec debug d s session).outcome = .ok first ∧
        (exec debug depth (.seq rest) first.session).outcome = .ok others ∧
        effect = ⟨first.output ++ others.output, others.session⟩ := by
  match depth with
  | 0 | 1 =>
    constructor
    · intro h
      cases h
    · rintro ⟨d, first, others, hdepth, -⟩
      omega
  | depth + 2 =>
    rw [exec, outcome_bind, outcome_note]
    change (exec debug depth s session >>= _).outcome = _ ↔ _
    rw [outcome_bind_eq_ok_iff]
    constructor
    · rintro ⟨first, hfirst, h⟩
      obtain ⟨others, hothers, h⟩ := outcome_bind_eq_ok_iff.mp h
      cases h
      exact ⟨depth, first, others, rfl, hfirst, hothers, rfl⟩
    · rintro ⟨d, first, others, hdepth, hfirst, hothers, rfl⟩
      obtain rfl : depth = d := by omega
      exact ⟨first, hfirst, outcome_bind_eq_ok_iff.mpr ⟨others, hothers, rfl⟩⟩

/-- What execution does follows from the rules, and it prints no integer that is too long. -/
theorem Executes.of_exec {s : Stmt} (h : (exec debug depth s session).outcome = .ok effect) :
    Executes Text.Short s session effect := by
  induction depth using Nat.strongRecOn generalizing s session effect with
  | ind depth ih =>
    cases s with
    | print e =>
      obtain ⟨d, v, text, rfl, hv, -, hform, rfl⟩ := exec_print_eq_ok_iff.mp h
      exact .print (.of_eval hv) hform
    | set x e =>
      obtain ⟨d, v, rfl, hv, rfl⟩ := exec_set_eq_ok_iff.mp h
      exact .set (.of_eval hv)
    | ite c t e =>
      obtain ⟨d, w, rfl, hc, ⟨b, rfl, hbranch⟩ | ⟨hw, rfl⟩⟩ := exec_ite_eq_ok_iff.mp h
      · exact .ite (.of_eval hc) (ih d (by omega) hbranch)
      · exact .notBool (.of_eval hc) hw
    | quit =>
      cases depth with
      | zero => cases h
      | succ depth =>
        cases h
        exact .quit session
    | procedure f params body =>
      cases depth with
      | zero => cases h
      | succ depth =>
        cases h
        exact .procedure f params body session
    | call f args =>
      rcases exec_call_eq_ok_iff.mp h with
        ⟨d, g, params, body, values, rfl, hget, hvalues, hbody⟩ | ⟨d, rfl, hget, rfl⟩
      · obtain ⟨hlength, hargs⟩ := List.forall₂_iff_zip.mp hvalues
        exact .call hget hlength (fun e w hmem => .of_eval (hargs hmem)) (ih _ (by omega) hbody)
      · exact .undefined hget
    | seq stmts =>
      -- the statements are all executed at one depth, so their list is gone through on its own
      induction stmts generalizing session effect with
      | nil =>
        match depth with
        | 0 | 1 => cases h
        | depth + 2 =>
          cases h
          exact .nil session
      | cons s rest ihrest =>
        obtain ⟨d, first, others, hdepth, hfirst, hothers, rfl⟩ := exec_cons_eq_ok_iff.mp h
        exact .cons (ih d (by omega) hfirst) (ihrest hothers)
    | foreign thing =>
      cases depth with
      | zero => cases h
      | succ depth => cases h

/-- What follows from the rules is executed, given enough levels, unless an integer to be printed is
too long. -/
theorem Executes.exists_exec (debug : Bool) {s : Stmt}
    (h : Executes Text.Short s session effect) :
    ∃ depth, (exec debug depth s session).outcome = .ok effect := by
  induction h with
  | @print e session v text he hv =>
    obtain ⟨d, he⟩ := he.exists_eval debug
    -- the text of a value takes levels of its own
    refine ⟨d + v.write.reach + 2, exec_print_eq_ok_iff.mpr
      ⟨d + v.write.reach + 1, v, text, rfl, eval_of_le (by omega) he, by omega, hv, rfl⟩⟩
  | set he =>
    obtain ⟨d, he⟩ := he.exists_eval debug
    exact ⟨d + 1, exec_set_eq_ok_iff.mpr ⟨d, _, rfl, he, rfl⟩⟩
  | ite hc _ ih =>
    obtain ⟨d₁, hc⟩ := hc.exists_eval debug
    obtain ⟨d₂, h⟩ := ih
    exact ⟨max d₁ d₂ + 2, exec_ite_eq_ok_iff.mpr ⟨_, _, rfl,
      eval_of_le (Nat.le_max_left d₁ d₂) hc,
      .inl ⟨_, rfl, exec_of_le (Nat.le_max_right d₁ d₂) h⟩⟩⟩
  | notBool hc hw =>
    obtain ⟨d, hc⟩ := hc.exists_eval debug
    exact ⟨d + 2, exec_ite_eq_ok_iff.mpr ⟨d, _, rfl, hc, .inr ⟨hw, rfl⟩⟩⟩
  | quit session => exact ⟨1, rfl⟩
  | procedure f params body session => exact ⟨1, rfl⟩
  | undefined hget => exact ⟨2, exec_call_eq_ok_iff.mpr (.inr ⟨0, rfl, hget, rfl⟩)⟩
  | call hget hlength hargs _ ih =>
    obtain ⟨d₁, hvalues⟩ := exists_eval_all id hlength fun e w hmem =>
      (hargs e w hmem).exists_eval debug
    obtain ⟨d₂, hbody⟩ := ih
    refine ⟨max d₁ d₂ + 3, exec_call_eq_ok_iff.mpr (.inl ⟨_, _, _, _, _, rfl, hget, ?_,
      exec_of_le (by omega) hbody⟩)⟩
    exact hvalues.imp fun _ _ => eval_of_le (by omega)
  | nil session => exact ⟨2, rfl⟩
  | cons _ _ ihs ihrest =>
    obtain ⟨d₁, hfirst⟩ := ihs
    obtain ⟨d₂, hothers⟩ := ihrest
    exact ⟨max d₁ d₂ + 2, exec_cons_eq_ok_iff.mpr ⟨_, _, _, rfl,
      exec_of_le (Nat.le_max_left d₁ d₂) hfirst, exec_of_le (by omega) hothers, rfl⟩⟩

end Exec

/-- Evaluation and execution, given enough levels, are exactly what the rules say. Execution prints
no integer with more digits than are written, so only derivations without one count. -/
theorem computes_iff_derives (debug : Bool) :
    (∀ e env v, Evaluates e env v ↔ ∃ depth, (eval debug depth e env).outcome = .ok v) ∧
    (∀ s session effect, Executes Text.Short s session effect ↔
      ∃ depth, (exec debug depth s session).outcome = .ok effect) := by
  constructor
  · intro e env v
    constructor
    · intro h
      exact h.exists_eval debug
    · rintro ⟨depth, h⟩
      exact .of_eval h
  · intro s session effect
    constructor
    · intro h
      exact h.exists_exec debug
    · rintro ⟨depth, h⟩
      exact .of_exec h

end ImpLang
