import ImpLang.Value

namespace ImpLang

theorem Exp.induction {P : Exp → Prop} (int : ∀ n, P (.int n)) (bool : ∀ b, P (.bool b))
    (var : ∀ x, P (.var x)) (fn : ∀ params body, P body → P (.fn params body))
    (letIn : ∀ bindings body, (∀ b ∈ bindings, P b.2) → P body → P (.letIn bindings body))
    (apply : ∀ f args, P f → (∀ e ∈ args, P e) → P (.apply f args))
    (ite : ∀ c t e, P c → P t → P e → P (.ite c t e))
    (binary : ∀ op l r, P l → P r → P (.binary op l r))
    (unknownOp : ∀ kind symbol l r, P l → P r → P (.unknownOp kind symbol l r))
    (foreign : ∀ thing, P (.foreign thing)) (e : Exp) : P e :=
  @Exp.rec P (fun bindings => ∀ b ∈ bindings, P b.2) (fun args => ∀ e ∈ args, P e) (fun b => P b.2)
    int bool var fn letIn apply ite binary unknownOp foreign
    (List.forall_mem_nil _) (fun _ _ hb hbs => List.forall_mem_cons.mpr ⟨hb, hbs⟩)
    (List.forall_mem_nil _) (fun _ _ he hes => List.forall_mem_cons.mpr ⟨he, hes⟩)
    (fun _ _ he => he) e

theorem Stmt.induction {P : Stmt → Prop} (set : ∀ x e, P (.set x e)) (print : ∀ e, P (.print e))
    (quit : P .quit) (ite : ∀ c t e, P t → P e → P (.ite c t e))
    (procedure : ∀ f params body, P body → P (.procedure f params body))
    (call : ∀ f args, P (.call f args)) (seq : ∀ stmts, (∀ s ∈ stmts, P s) → P (.seq stmts))
    (foreign : ∀ thing, P (.foreign thing)) (s : Stmt) : P s :=
  @Stmt.rec P (fun stmts => ∀ s ∈ stmts, P s)
    set print quit ite procedure call seq foreign
    (List.forall_mem_nil _) (fun _ _ hs hstmts => List.forall_mem_cons.mpr ⟨hs, hstmts⟩) s

theorem Val.induction {P : Val → Prop} (int : ∀ n, P (.int n)) (bool : ∀ b, P (.bool b))
    (closure : ∀ params body captured, (∀ b ∈ captured, P b.2) → P (.closure params body captured))
    (exn : ∀ message, P (.exn message)) (foreign : ∀ thing, P (.foreign thing)) (v : Val) : P v :=
  @Val.rec P (fun captured => ∀ b ∈ captured, P b.2) (fun b => P b.2)
    int bool closure exn foreign
    (List.forall_mem_nil _) (fun _ _ hb hbs => List.forall_mem_cons.mpr ⟨hb, hbs⟩)
    (fun _ _ hv => hv) v

end ImpLang
