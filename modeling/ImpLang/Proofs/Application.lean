import ImpLang.Proofs.Depth

/-! A let is the function of its names, applied to what it binds them to. The function captures the
variables that the let sees, so that both lay the same bindings over the same variables; what the
application spends on its function the let spends on its bindings. -/
namespace ImpLang

open Traced

theorem Traced.mapList_map {α β γ : Type} (f : β → Traced γ) (g : α → β) (as : List α) :
    mapList f (as.map g) = mapList (fun a => f (g a)) as := by
  induction as with
  | nil => rfl
  | cons a as ih =>
    rw [List.map_cons, mapList, mapList, ih]

section LetIn

variable {debug : Bool} {depth depth' : Nat} {bindings : List (String × Exp)} {body : Exp}
  {env : Env}

theorem outcome_eval_letIn (debug : Bool) (depth : Nat) (bindings : List (String × Exp))
    (body : Exp) (env : Env) :
    (eval debug (depth + 3) (.letIn bindings body) env).outcome =
      (mapList (fun b : String × Exp => eval debug depth b.2 env) bindings >>= fun values =>
        eval debug (depth + 1) body
          (env.insertAll (.ofArguments (bindings.map Prod.fst) values))).outcome := by
  rw [eval, outcome_bind, outcome_note]
  rfl

/-- A function that is applied where it stands needs no more than one level for itself. -/
theorem outcome_eval_apply_fn (debug : Bool) (depth : Nat) (params : List String) (body : Exp)
    (args : List Exp) (env : Env) :
    (eval debug (depth + 3) (.apply (.fn params body) args) env).outcome =
      (mapList (fun e => eval debug depth e env) args >>= fun values =>
        eval debug (depth + 1) body (env.insertAll (.ofArguments params values))).outcome := by
  have hfn : (eval debug (depth + 1) (.fn params body) env).outcome =
      .ok (.closure params body env) := by
    rw [eval, outcome_bind, outcome_note]
    rfl
  rw [eval.eq_def]
  simp only [outcome_bind, outcome_note, hfn]
  exact outcome_bind _ _

theorem outcome_eval_letIn_eq_apply (debug : Bool) (depth : Nat) (bindings : List (String × Exp))
    (body : Exp) (env : Env) :
    (eval debug depth (.letIn bindings body) env).outcome =
      (eval debug depth (.apply (.fn (bindings.map Prod.fst) body) (bindings.map Prod.snd))
        env).outcome := by
  match depth with
  | 0 | 1 => rfl
  | 2 =>
    have hlet : (eval debug 2 (.letIn bindings body) env).outcome = .error .tooDeep := rfl
    have hfn : (eval debug 0 (.fn (bindings.map Prod.fst) body) env).outcome =
        .error .tooDeep := rfl
    rw [hlet, eval.eq_def]
    simp only [outcome_bind, outcome_note, hfn]
    rfl
  | depth + 3 =>
    rw [outcome_eval_letIn, outcome_eval_apply_fn, mapList_map]

/-- A let and the function of its names, applied to what the names are bound to, come to the same
value, or to the same fault, in any variables and within any two depths that are enough for both.
The same value means the same captured variables in the same order. -/
theorem letIn_agrees_with_apply
    (hlet : (eval debug depth (.letIn bindings body) env).outcome ≠ .error .tooDeep)
    (happly : (eval debug depth' (.apply (.fn (bindings.map Prod.fst) body)
      (bindings.map Prod.snd)) env).outcome ≠ .error .tooDeep) :
    (eval debug depth (.letIn bindings body) env).outcome =
      (eval debug depth' (.apply (.fn (bindings.map Prod.fst) body)
        (bindings.map Prod.snd)) env).outcome := by
  rw [← outcome_eval_letIn_eq_apply] at happly ⊢
  rcases Nat.le_total depth depth' with hle | hle
  · rw [eval_settles debug hle _ env hlet]
  · rw [eval_settles debug hle _ env happly]

/-- A name is bound twice and a name is bound already; what is bound sees the outer variables, and
the closure captures the names in the order in which they were first bound. -/
theorem letIn_agrees_with_apply_repeated :
    (eval false 6 (.letIn [("z", .var "x"), ("x", .int 2), ("z", .var "y")] (.fn [] (.var "z")))
      [("y", .int 5), ("x", .int 7)]).outcome =
        .ok (.closure [] (.var "z") [("y", .int 5), ("x", .int 2), ("z", .int 5)]) ∧
    (eval false 60 (.apply (.fn ["z", "x", "z"] (.fn [] (.var "z")))
      [.var "x", .int 2, .var "y"]) [("y", .int 5), ("x", .int 7)]).outcome =
        .ok (.closure [] (.var "z") [("y", .int 5), ("x", .int 2), ("z", .int 5)]) := by
  have hvalue : (eval false 6 (.letIn [("z", .var "x"), ("x", .int 2), ("z", .var "y")]
      (.fn [] (.var "z"))) [("y", .int 5), ("x", .int 7)]).outcome =
        .ok (.closure [] (.var "z") [("y", .int 5), ("x", .int 2), ("z", .int 5)]) := rfl
  have hlet : (eval false 6 (.letIn [("z", .var "x"), ("x", .int 2), ("z", .var "y")]
      (.fn [] (.var "z"))) [("y", .int 5), ("x", .int 7)]).outcome ≠ .error .tooDeep := by
    rw [hvalue]
    nofun
  have happly : (eval false 60 (.apply (.fn ["z", "x", "z"] (.fn [] (.var "z")))
      [.var "x", .int 2, .var "y"]) [("y", .int 5), ("x", .int 7)]).outcome ≠
        .error .tooDeep := by
    rw [outcome_eval_apply_fn]
    nofun
  exact ⟨hvalue, (letIn_agrees_with_apply hlet happly).symm.trans hvalue⟩

end LetIn

end ImpLang
