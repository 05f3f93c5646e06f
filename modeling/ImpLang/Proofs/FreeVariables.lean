import ImpLang.Proofs.Likeness

namespace ImpLang

namespace Exp

mutual

/-- The names that the expression can look up where it stands. A let binds its names in the body for
certain. The parameters of a function count all the same: one that is given no argument stands for
what it stood for where the function was made. -/
def free : Exp → List String
  | .int _ | .bool _ | .foreign _ => []
  | .var x => [x]
  | .fn _ body => body.free
  | .letIn bindings body =>
    freeBindings bindings ++ body.free.filter fun x => x ∉ bindings.map Prod.fst
  | .apply function args => function.free ++ freeList args
  | .ite condition thenBranch elseBranch => condition.free ++ thenBranch.free ++ elseBranch.free
  | .binary _ left right | .unknownOp _ _ left right => left.free ++ right.free

def freeList : List Exp → List String
  | [] => []
  | e :: rest => e.free ++ freeList rest

def freeBindings : List (String × Exp) → List String
  | [] => []
  | (_, e) :: rest => e.free ++ freeBindings rest

end

theorem mem_freeList {args : List Exp} {x : String} :
    x ∈ freeList args ↔ ∃ e ∈ args, x ∈ e.free := by
  induction args with
  | nil => simp [freeList]
  | cons e args ih => simp [freeList, ih]

theorem mem_freeBindings {bindings : List (String × Exp)} {x : String} :
    x ∈ freeBindings bindings ↔ ∃ b ∈ bindings, x ∈ b.2.free := by
  induction bindings with
  | nil => simp [freeBindings]
  | cons b bindings ih => simp [freeBindings, ih]

theorem mem_free_letIn {bindings : List (String × Exp)} {body : Exp} {x : String} :
    x ∈ (Exp.letIn bindings body).free ↔
      (∃ b ∈ bindings, x ∈ b.2.free) ∨ x ∈ body.free ∧ x ∉ bindings.map Prod.fst := by
  rw [free, List.mem_append, mem_freeBindings, List.mem_filter, decide_eq_true_eq]

def reach : Scope where
  counts e x := x ∈ e.free
  var x := List.mem_singleton.mpr rfl
  fn h := h
  bound hb h := mem_free_letIn.mpr (.inl ⟨_, hb, h⟩)
  letBody h hnot := mem_free_letIn.mpr (.inr ⟨h, hnot⟩)
  function h := List.mem_append_left _ h
  argument he h := List.mem_append_right _ (mem_freeList.mpr ⟨_, he, h⟩)
  condition h := List.mem_append_left _ (List.mem_append_left _ h)
  branch b h := by
    cases b with
    | true => exact List.mem_append_left _ (List.mem_append_right _ h)
    | false => exact List.mem_append_right _ h
  left h := List.mem_append_left _ h
  right h := List.mem_append_right _ h
  leftOf h := List.mem_append_left _ h
  rightOf h := List.mem_append_right _ h

end Exp

/-- The same integer, truth value or failure, or closures with the same parameters and the same
body. -/
def Val.Matches : Val → Val → Prop
  | .closure params body _, .closure params' body' _ => params = params' ∧ body = body'
  | v, w => v = w

theorem Val.Alike.matches {scope : Scope} {v w : Val} (h : Alike scope v w) : v.Matches w := by
  cases h with
  | closure h => exact ⟨rfl, rfl⟩
  | _ => rfl

/-- Evaluation depends only on the names that an expression can reach. -/
theorem eval_agree_of_free (debug : Bool) (depth : Nat) (e : Exp) (env env' : Env)
    (h : ∀ x ∈ e.free, env.get? x = env'.get? x) :
    Agree Val.Matches (eval debug depth e env).outcome (eval debug depth e env').outcome := by
  have halike : env.Alike Exp.reach e env' := by
    intro x hx
    rw [h x hx]
    exact Val.Alike.rel_self Exp.reach _
  exact (eval_alike Exp.reach debug depth halike).imp fun _ _ _ _ => Val.Alike.matches

-- a parameter is no sure binder: without an argument it is looked up in what was captured
example : (eval false 4 (.apply (.fn ["x"] (.var "x")) []) [("x", .int 1)]).outcome =
    .ok (.int 1) := by
  cbv

/-- A let around a function. The name that it binds stands for something else outside, where the
expression cannot reach it. -/
def addBound : Exp :=
  .letIn [("x", .var "y")] (.fn ["p"] (.binary .add (.var "x") (.var "p")))

theorem eval_agree_of_free_addBound :
    addBound.free = ["y", "p"] ∧
    Agree Val.Matches (eval false 4 addBound [("y", .int 3), ("x", .bool true)]).outcome
      (eval false 4 addBound [("z", .int 1), ("y", .int 3)]).outcome := by
  have hfree : addBound.free = ["y", "p"] := by decide
  refine ⟨hfree, eval_agree_of_free false 4 addBound _ _ fun x hx => ?_⟩
  rw [hfree] at hx
  rcases List.mem_pair.mp hx with rfl | rfl
  · rfl
  · rfl

end ImpLang
