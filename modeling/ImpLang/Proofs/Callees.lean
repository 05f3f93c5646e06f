import ImpLang.Proofs.Likeness
import ImpLang.Proofs.Occurrence
import Mathlib.Data.Set.Insert

/-! Procedures that cannot be called do not matter. Which procedure a call runs is decided when it
runs, and the table changes on the way. A set of names that holds everything the statement calls,
and everything that the procedures it names call, is closed under all this, so two runs that start
with the same procedures under these names stay together. -/
namespace ImpLang

open Traced

def Stmt.CallsOnly (names : Set String) (s : Stmt) : Prop :=
  ∀ f args, .call f args ∈ s.actions → f ∈ names

variable {names : Set String} {session session' : Session} {s t : Stmt}

theorem Stmt.CallsOnly.mono (h : s.CallsOnly names) (hsubset : t.actions ⊆ s.actions) :
    t.CallsOnly names :=
  fun f args hmem => h f args (hsubset hmem)

/-- The procedures under these names call no others, as far as they are declared. -/
def Session.Closed (names : Set String) (session : Session) : Prop :=
  ∀ f ∈ names, ∀ g params body, session.procedures.get? f = some (.procedure g params body) →
    (Stmt.procedure g params body).CallsOnly names

/-- The sessions have the same variables and, under these names, the same procedures. -/
structure Session.AgreeOn (names : Set String) (session session' : Session) : Prop where
  vars : session.vars = session'.vars
  procedures : ∀ f ∈ names, session.procedures.get? f = session'.procedures.get? f

structure Effect.AgreeOn (names : Set String) (effect effect' : Effect) : Prop where
  output : effect.output = effect'.output
  session : effect.session.AgreeOn names effect'.session
  closed : effect.session.Closed names

theorem Session.AgreeOn.bind (h : session.AgreeOn names session') (new : Env) :
    AgreeOn names { session with vars := session.vars.insertAll new }
      { session' with vars := session'.vars.insertAll new } :=
  ⟨congrArg (Bindings.insertAll · new) h.vars, h.procedures⟩

theorem Session.AgreeOn.declare (h : session.AgreeOn names session') (f : String) (s : Stmt) :
    AgreeOn names { session with procedures := session.procedures.insert f s }
      { session' with procedures := session'.procedures.insert f s } := by
  refine ⟨h.vars, fun g hg => ?_⟩
  change (session.procedures.insert f s).get? g = (session'.procedures.insert f s).get? g
  rw [Bindings.get?_insert, Bindings.get?_insert, h.procedures g hg]

/-- A declaration whose calls are in the set leaves the names closed. -/
theorem Session.Closed.declare (h : session.Closed names) {f : String}
    (hs : s.CallsOnly names) :
    Closed names { session with procedures := session.procedures.insert f s } := by
  intro g hg g' params body hget
  change (session.procedures.insert f s).get? g = _ at hget
  rw [Bindings.get?_insert] at hget
  split_ifs at hget
  · cases hget
    exact hs
  · exact h g hg g' params body hget

/-- Statements that keep two runs together keep them together one after another. -/
theorem execList_agreeOn {run : Stmt → Session → Traced Effect} {stmts : List Stmt}
    (hrun : ∀ s ∈ stmts, ∀ session session' : Session, session.AgreeOn names session' →
      session.Closed names →
      Agree (Effect.AgreeOn names) (run s session).outcome (run s session').outcome)
    (h : session.AgreeOn names session') (hclosed : session.Closed names) :
    Agree (Effect.AgreeOn names) (execList run stmts session).outcome
      (execList run stmts session').outcome := by
  induction stmts generalizing session session' with
  | nil => exact .ok ⟨rfl, h, hclosed⟩
  | cons s stmts ih =>
    obtain ⟨hs, hstmts⟩ := List.forall_mem_cons.mp hrun
    rw [execList, execList]
    refine (hs session session' h hclosed).bind_outcome fun first first' hfirst => ?_
    refine (ih hstmts hfirst.session hfirst.closed).bind_outcome fun others others' hothers => ?_
    refine .ok ⟨?_, hothers.session, hothers.closed⟩
    change first.output ++ others.output = first'.output ++ others'.output
    rw [hfirst.output, hothers.output]

/-- Two runs of a statement stay together if they start so. -/
theorem exec_agreeOn (debug : Bool) (depth : Nat) (hs : s.CallsOnly names)
    (h : session.AgreeOn names session') (hclosed : session.Closed names) :
    Agree (Effect.AgreeOn names) (exec debug depth s session).outcome
      (exec debug depth s session').outcome := by
  -- the body of a procedure is no part of the call, but it runs at a smaller depth
  induction depth using Nat.strongRecOn generalizing s session session' with
  | ind depth ih =>
    cases depth with
    | zero => exact .fault _
    | succ depth =>
      obtain ⟨procedures, vars⟩ := session
      obtain ⟨procedures', vars'⟩ := session'
      obtain rfl : vars = vars' := h.vars
      rw [exec.eq_def, exec.eq_def debug (depth + 1) s ⟨procedures', vars⟩]
      refine Agree.bind_outcome (.refl _) fun _ _ _ => ?_
      cases s with
      | quit => exact .ok ⟨rfl, h, hclosed⟩
      | foreign thing => exact .fault _
      | procedure f params body =>
        exact .ok ⟨rfl, h.declare f _, hclosed.declare hs⟩
      | print e =>
        refine Agree.bind_outcome (.refl _) fun v _ hv => ?_
        subst hv
        refine Agree.bind_outcome (.refl _) fun text _ htext => ?_
        exact .ok ⟨htext, h, hclosed⟩
      | set x e =>
        refine Agree.bind_outcome (.refl _) fun v _ hv => ?_
        subst hv
        exact .ok ⟨rfl, h.bind [(x, v)], hclosed⟩
      | ite c t e =>
        cases depth with
        | zero => exact .fault _
        | succ depth =>
          refine Agree.bind_outcome (.refl _) fun v _ hv => ?_
          subst hv
          cases v with
          | bool b =>
            exact ih depth (by omega) (hs.mono (Stmt.actions_branch_subset b c t e)) h hclosed
          | _ => exact .ok ⟨rfl, h, hclosed⟩
      | call f args =>
        cases depth with
        | zero => exact .fault _
        | succ depth =>
          -- both tables hold the same under a name of the set, and it calls names of the set only
          have hf : f ∈ names := hs f args List.mem_cons_self
          have hget : procedures.get? f = procedures'.get? f := h.procedures f hf
          dsimp only
          rw [← hget]
          cases hdecl : procedures.get? f with
          | none => exact .ok ⟨rfl, h, hclosed⟩
          | some d =>
            cases d with
            | procedure g params body =>
              cases depth with
              | zero => exact .fault _
              | succ depth =>
                refine Agree.bind_outcome (.refl _) fun values _ hvalues => ?_
                subst hvalues
                have hbody := (hclosed f hf g params body hdecl).mono
                  (Stmt.actions_body_subset g params body)
                exact ih (depth + 1) (by omega) hbody (h.bind _) hclosed
            | _ => exact .fault _
      | seq stmts =>
        cases depth with
        | zero => exact .fault _
        | succ depth =>
          refine execList_agreeOn (fun t ht session session' h hclosed => ?_) h hclosed
          exact ih depth (by omega) (hs.mono (Stmt.actions_member_subset ht)) h hclosed

/-- Procedures that cannot be called do not matter. If a set of names holds all that the statement
calls, and all that the procedures declared under these names call, then the statement does the same
whatever is declared under other names. -/
theorem exec_agree_of_callees (debug : Bool) (depth : Nat) (names : Set String) (s : Stmt)
    (procedures procedures' : Bindings Stmt) (env : Env) (hs : s.CallsOnly names)
    (hclosed : ∀ f ∈ names, ∀ g params body, procedures.get? f = some (.procedure g params body) →
      (Stmt.procedure g params body).CallsOnly names)
    (hagree : ∀ f ∈ names, procedures.get? f = procedures'.get? f) :
    Agree (fun effect effect' => effect.output = effect'.output ∧
        effect.session.vars = effect'.session.vars ∧
        ∀ f ∈ names, effect.session.procedures.get? f = effect'.session.procedures.get? f)
      (exec debug depth s ⟨procedures, env⟩).outcome
      (exec debug depth s ⟨procedures', env⟩).outcome := by
  have hstart : Session.AgreeOn names ⟨procedures, env⟩ ⟨procedures', env⟩ := ⟨rfl, hagree⟩
  refine (exec_agreeOn debug depth hs hstart hclosed).imp fun effect effect' _ _ h => ?_
  exact ⟨h.output, h.session.vars, h.session.procedures⟩

/-- A procedure that declares another one and calls it. -/
def reporting : Stmt :=
  .procedure "p" ["n"] (.seq [.procedure "q" [] (.print (.var "n")), .call "q" []])

def report : Stmt :=
  .seq [.call "p" [.int 3], .call "q" []]

theorem exec_agree_of_callees_report : ∃ effect,
    (exec false 12 report
      ⟨[("r", .procedure "r" ["z"] (.call "s" [])), ("p", reporting)], []⟩).outcome = .ok effect ∧
    "33" = effect.output ∧ [("n", .int 3)] = effect.session.vars ∧
    some (.procedure "q" [] (.print (.var "n"))) = effect.session.procedures.get? "q" := by
  -- in the other run there is no `r` that could call `s`
  have hrun : (exec false 12 report
      ⟨[("p", reporting), ("s", .procedure "s" [] .quit)], []⟩).outcome =
      .ok ⟨"33", [("p", reporting), ("s", .procedure "s" [] .quit),
        ("q", .procedure "q" [] (.print (.var "n")))], [("n", .int 3)]⟩ := rfl
  have hreport : report.CallsOnly {"p", "q"} := by
    intro f args hmem
    have hcall : f = "p" ∧ args = [.int 3] ∨ f = "q" ∧ args = [] := by
      simpa [report, Stmt.actions, Stmt.actionsList] using hmem
    exact hcall.imp And.left And.left
  have hreporting : reporting.CallsOnly {"p", "q"} := by
    simp [reporting, Stmt.CallsOnly, Stmt.actions, Stmt.actionsList]
  have hagree := exec_agree_of_callees false 12 {"p", "q"} report
    [("p", reporting), ("s", .procedure "s" [] .quit)]
    [("r", .procedure "r" ["z"] (.call "s" [])), ("p", reporting)] [] hreport
    (by
      rintro f (rfl | rfl) g params body hget
      · cases hget
        exact hreporting
      · cases hget)
    (by
      rintro f (rfl | rfl)
      · rfl
      · rfl)
  rw [hrun] at hagree
  generalize (exec false 12 report _).outcome = o at hagree ⊢
  cases hagree with
  | ok h => exact ⟨_, rfl, h.1, h.2.1, h.2.2 "q" (by simp)⟩

end ImpLang
