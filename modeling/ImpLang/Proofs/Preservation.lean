import ImpLang.Exec
import ImpLang.Proofs.Overlay
import ImpLang.Proofs.RoundTrip

/-! Evaluation and execution keep values, variables and procedures well-formed. On a well-formed
tree they never come upon an object or an operator that is none, so the only faults left are limits.
-/
namespace ImpLang

open Traced

/-- Faults that only a tree, a value or a table made by hand can cause. -/
def Fault.isInternal : Fault → Bool
  | .notExpression _ | .notStatement _ | .notValue _ | .unknownOperator _ | .notProcedure _ |
    .unrenderableExp _ | .unrenderableStmt _ => true
  | .rejected _ | .literalTooLong _ | .numeralTooLong | .tooDeep | .isDirectory _ |
    .notDirectory _ | .nameTooLong _ => false

section Ensures

variable {α β : Type} {P : α → Prop} {Q : β → Prop}

inductive Ensures (P : α → Prop) : Except Fault α → Prop
  | ok {a : α} (h : P a) : Ensures P (.ok a)
  | error {e : Fault} (h : e.isInternal = false) : Ensures P (.error e)

theorem Ensures.result {a : α} (h : Ensures P (.ok a)) : P a := by
  cases h with
  | ok h => exact h

theorem Ensures.fault {e : Fault} (h : Ensures P (.error e)) : e.isInternal = false := by
  cases h with
  | error h => exact h

theorem Ensures.bind {x : Except Fault α} {f : α → Except Fault β} (hx : Ensures P x)
    (hf : ∀ a, P a → Ensures Q (f a)) : Ensures Q (x >>= f) := by
  cases hx with
  | error h => exact .error h
  | ok h => exact hf _ h

theorem Ensures.bind_outcome {x : Traced α} {f : α → Traced β} (hx : Ensures P x.outcome)
    (hf : ∀ a, P a → Ensures Q (f a).outcome) : Ensures Q (x >>= f).outcome := by
  rw [outcome_bind]
  exact hx.bind hf

theorem Ensures.note (debug : Bool) (event : Event) :
    Ensures (fun _ => True) (note debug event).outcome :=
  .ok trivial

theorem Ensures.mapList {f : β → Traced α} {bs : List β}
    (h : ∀ b ∈ bs, Ensures P (f b).outcome) :
    Ensures (fun as => ∀ a ∈ as, P a) (mapList f bs).outcome := by
  induction bs with
  | nil => exact .ok (List.forall_mem_nil _)
  | cons b bs ih =>
    obtain ⟨hb, hbs⟩ := List.forall_mem_cons.mp h
    refine hb.bind_outcome fun a ha => (ih hbs).bind_outcome fun as has => ?_
    exact .ok (List.forall_mem_cons.mpr ⟨ha, has⟩)

end Ensures

/-- The messages of the failures that evaluation gives as values. -/
def Complaint.ofEvaluation : List String :=
  [unbound, divisionByZero, cannotLift, notBool, notClosure]

example : Complaint.recursionLimit ∉ Complaint.ofEvaluation := by decide

/-- Closures hold well-formed bodies and bindings all the way down, and failures carry messages of
evaluation. -/
inductive Val.WellFormed : Val → Prop
  | int (n : Int) : WellFormed (.int n)
  | bool (b : Bool) : WellFormed (.bool b)
  | closure {params : List String} {body : Exp} {captured : List (String × Val)}
      (hparams : ∀ x ∈ params, IsName x) (hbody : body.WellFormed)
      (hnodup : (Bindings.keys captured).Nodup) (hnames : ∀ b ∈ captured, IsName b.1)
      (hvalues : ∀ b ∈ captured, WellFormed b.2) : WellFormed (.closure params body captured)
  | exn {message : String} (hmessage : message ∈ Complaint.ofEvaluation) :
      WellFormed (.exn message)

namespace Bindings

variable {α : Type} {P : String → α → Prop}

structure Legal (P : String → α → Prop) (bs : Bindings α) : Prop where
  nodup : bs.keys.Nodup
  names : ∀ b ∈ bs, IsName b.1
  entries : ∀ b ∈ bs, P b.1 b.2

theorem mem_insert {bs : Bindings α} {x : String} {v : α} {b : String × α}
    (h : b ∈ bs.insert x v) : b = (x, v) ∨ b ∈ bs := by
  induction bs with
  | nil => exact .inl (List.mem_singleton.mp h)
  | cons b' rest ih =>
    obtain ⟨y, w⟩ := b'
    unfold insert at h
    split_ifs at h with hyx
    · rcases List.mem_cons.mp h with rfl | hmem
      · exact .inl (by rw [hyx])
      · exact .inr (List.mem_cons_of_mem _ hmem)
    · rcases List.mem_cons.mp h with rfl | hmem
      · exact .inr List.mem_cons_self
      · exact (ih hmem).imp_right (List.mem_cons_of_mem _)

theorem Legal.of_get? {bs : Bindings α} (h : Legal P bs) {x : String} {v : α}
    (hget : bs.get? x = some v) : P x v :=
  h.entries _ (mem_of_get?_eq_some hget)

theorem Legal.nil : Legal P [] :=
  ⟨List.nodup_nil, by simp, by simp⟩

theorem Legal.insert {bs : Bindings α} (h : Legal P bs) {x : String} {v : α} (hx : IsName x)
    (hv : P x v) : Legal P (bs.insert x v) := by
  refine ⟨nodup_keys_insert h.nodup x v, fun b hb => ?_, fun b hb => ?_⟩
  · rcases mem_insert hb with rfl | hmem
    · exact hx
    · exact h.names b hmem
  · rcases mem_insert hb with rfl | hmem
    · exact hv
    · exact h.entries b hmem

theorem Legal.insertAll {bs new : Bindings α} (h : Legal P bs) (hnames : ∀ b ∈ new, IsName b.1)
    (hentries : ∀ b ∈ new, P b.1 b.2) : Legal P (bs.insertAll new) := by
  induction new generalizing bs with
  | nil => exact h
  | cons b new ih =>
    obtain ⟨hname, hnames⟩ := List.forall_mem_cons.mp hnames
    obtain ⟨hentry, hentries⟩ := List.forall_mem_cons.mp hentries
    exact ih (h.insert hname hentry) hnames hentries

end Bindings

def Env.WellFormed (env : Env) : Prop :=
  Bindings.Legal (fun _ v => v.WellFormed) env

theorem Env.WellFormed.ofArguments {params : List String} {values : List Val}
    (hparams : ∀ x ∈ params, IsName x) (hvalues : ∀ v ∈ values, v.WellFormed) :
    Env.WellFormed (Bindings.ofArguments params values) := by
  refine Bindings.Legal.nil.insertAll (fun b hb => ?_) fun b hb => ?_
  · exact hparams b.1 (List.of_mem_zip hb).1
  · exact hvalues b.2 (List.of_mem_zip hb).2

theorem Env.WellFormed.insertAll {env new : Env} (h : env.WellFormed) (hnew : new.WellFormed) :
    Env.WellFormed (env.insertAll new) :=
  Bindings.Legal.insertAll h hnew.names hnew.entries

theorem Op.lift_wellFormed (op : Op) (x y : Val) : (op.lift x y).WellFormed := by
  have hlift : Val.cannotLift.WellFormed := .exn (by decide)
  unfold Op.lift
  split
  case h_4 =>
    split_ifs
    · exact .exn (by decide)
    · split
      · exact .int _
      · exact hlift
  all_goals first | exact .int _ | exact .bool _ | exact hlift

/-- Evaluation gives a well-formed value. -/
theorem eval_wellFormed (debug : Bool) (depth : Nat) {e : Exp} {env : Env} (he : e.WellFormed)
    (henv : env.WellFormed) : Ensures Val.WellFormed (eval debug depth e env).outcome := by
  -- the parts of an expression are evaluated one to three levels further down
  induction depth using Nat.strongRecOn generalizing e env with
  | ind depth ih =>
    cases depth with
    | zero => exact .error rfl
    | succ depth =>
      cases he with
      | int hn => exact .bind_outcome (.note _ _) fun _ _ => .ok (.int _)
      | bool b => exact .bind_outcome (.note _ _) fun _ _ => .ok (.bool b)
      | @var x hx =>
        refine .bind_outcome (.note _ _) fun _ _ => ?_
        cases hget : env.get? x with
        | none =>
          have hvalue : Val.unbound.WellFormed := .exn (by decide)
          simpa [hget] using Ensures.ok hvalue
        | some v =>
          have hvalue : v.WellFormed := Bindings.Legal.of_get? henv hget
          simpa [hget] using Ensures.ok hvalue
      | fn hparams hbody =>
        have hvalue := Val.WellFormed.closure hparams hbody henv.nodup henv.names henv.entries
        exact .bind_outcome (.note _ _) fun _ _ => .ok hvalue
      | letIn hnames hbindings hbody =>
        cases depth with
        | zero => exact .error rfl
        | succ depth =>
          rw [eval]
          refine .bind_outcome (.note _ _) fun _ _ => ?_
          cases depth with
          | zero => exact .error rfl
          | succ depth =>
            refine .bind_outcome (.mapList fun b hb => ih depth (by omega) (hbindings b hb) henv)
              fun values hvalues => ih (depth + 1) (by omega) hbody (henv.insertAll ?_)
            refine .ofArguments (fun x hx => ?_) hvalues
            obtain ⟨b, hb, rfl⟩ := List.mem_map.mp hx
            exact hnames b hb
      | apply hf hargs =>
        cases depth with
        | zero => exact .error rfl
        | succ depth =>
          rw [eval]
          refine .bind_outcome (.note _ _) fun _ _ => ?_
          refine .bind_outcome (ih depth (by omega) hf henv) fun f hf => ?_
          cases hf with
          | int n => exact .ok (.exn (by decide))
          | bool b => exact .ok (.exn (by decide))
          | exn hmessage => exact .ok (.exn (by decide))
          | closure hparams hbody hnodup hnames hvalues =>
            cases depth with
            | zero => exact .error rfl
            | succ depth =>
              have hcaptured : Env.WellFormed _ := ⟨hnodup, hnames, hvalues⟩
              refine .bind_outcome (.mapList fun e he => ih depth (by omega) (hargs e he) henv)
                fun values hvalues => ih (depth + 1) (by omega) hbody (hcaptured.insertAll ?_)
              exact .ofArguments hparams hvalues
      | ite hc ht he =>
        cases depth with
        | zero => exact .error rfl
        | succ depth =>
          rw [eval]
          refine .bind_outcome (.note _ _) fun _ _ => ?_
          refine .bind_outcome (ih depth (by omega) hc henv) fun v hv => ?_
          cases hv with
          | bool b =>
            cases b with
            | true => exact ih depth (by omega) ht henv
            | false => exact ih depth (by omega) he henv
          | int n => exact .ok (.exn (by decide))
          | closure => exact .ok (.exn (by decide))
          | exn hmessage => exact .ok (.exn (by decide))
      | binary op hl hr =>
        refine .bind_outcome (.note _ _) fun _ _ => ?_
        refine .bind_outcome (ih depth (by omega) hl henv) fun x _ => ?_
        exact .bind_outcome (ih depth (by omega) hr henv) fun y _ => .ok (op.lift_wellFormed x y)

theorem Ensures.writtenNumeral (n : Int) : Ensures (fun _ => True) (Text.writtenNumeral n) := by
  unfold Text.writtenNumeral
  split_ifs
  · exact .ok trivial
  · exact .error rfl

/-- Running out of levels is no internal fault. -/
theorem Ensures.within {α : Type} {P : α → Prop} {x : Writing α} (h : Ensures P x.outcome)
    (depth : Nat) : Ensures P (x.within depth) := by
  rcases x.within_eq_or depth with hdeep | hsame
  · rw [hdeep]
    exact .error rfl
  · rwa [hsame]

namespace Val

theorem displayEntries_ensures {entries : List (String × Val)}
    (h : ∀ b ∈ entries, Ensures (fun _ => True) b.2.display) :
    Ensures (fun _ => True) (displayEntries entries) := by
  induction entries with
  | nil => exact .ok trivial
  | cons b entries ih =>
    obtain ⟨hb, hentries⟩ := List.forall_mem_cons.mp h
    rw [displayEntries_cons]
    exact hb.bind fun _ _ => (ih hentries).bind fun _ _ => .ok trivial

/-- Only an integer with too many digits keeps a well-formed value from being shown. -/
theorem WellFormed.display {v : Val} (h : v.WellFormed) :
    Ensures (fun _ => True) v.display := by
  induction h with
  | int n => exact .writtenNumeral n
  | bool b => exact .ok trivial
  | exn hmessage => exact .ok trivial
  | closure _ hbody _ _ _ ih =>
    obtain ⟨text, hrenders⟩ := hbody.renders
    rw [display_closure, hrenders.render_eq]
    exact (displayEntries_ensures ih).bind fun _ _ => .ok trivial

theorem WellFormed.displayWithin {v : Val} (h : v.WellFormed) (depth : Nat) :
    Ensures (fun _ => True) (v.displayWithin depth) :=
  h.display.within depth

end Val

/-- The session is one that inputs can lead to: a procedure is declared under its own name. -/
structure Session.WellFormed (session : Session) : Prop where
  procedures : session.procedures.Legal fun f stmt =>
    stmt.WellFormed ∧ ∃ params body, stmt = .procedure f params body
  vars : session.vars.WellFormed

theorem Session.WellFormed.initial : Session.WellFormed {} :=
  ⟨.nil, Bindings.Legal.nil⟩

theorem execList_wellFormed {run : Stmt → Session → Traced Effect} {stmts : List Stmt}
    (h : ∀ s ∈ stmts, ∀ session : Session, session.WellFormed →
      Ensures (fun effect => effect.session.WellFormed) (run s session).outcome)
    {session : Session} (hsession : session.WellFormed) :
    Ensures (fun effect => effect.session.WellFormed) (execList run stmts session).outcome := by
  induction stmts generalizing session with
  | nil => exact .ok hsession
  | cons s stmts ih =>
    obtain ⟨hs, hstmts⟩ := List.forall_mem_cons.mp h
    rw [execList]
    refine .bind_outcome (hs session hsession) fun first hfirst => ?_
    exact .bind_outcome (ih hstmts hfirst) fun _ hothers => .ok hothers

/-- Execution leaves a well-formed session. -/
theorem exec_wellFormed (debug : Bool) (depth : Nat) {s : Stmt} {session : Session}
    (hs : s.WellFormed) (hsession : session.WellFormed) :
    Ensures (fun effect => effect.session.WellFormed) (exec debug depth s session).outcome := by
  induction depth using Nat.strongRecOn generalizing s session with
  | ind depth ih =>
    cases depth with
    | zero => exact .error rfl
    | succ depth =>
      cases hs with
      | quit => exact .bind_outcome (.note _ _) fun _ _ => .ok hsession
      | print he =>
        refine .bind_outcome (.note _ _) fun _ _ => ?_
        refine .bind_outcome (eval_wellFormed debug depth he hsession.vars) fun v hv => ?_
        exact .bind_outcome (hv.displayWithin depth) fun _ _ => .ok hsession
      | set hx he =>
        refine .bind_outcome (.note _ _) fun _ _ => ?_
        refine .bind_outcome (eval_wellFormed debug depth he hsession.vars) fun v hv => ?_
        exact .ok ⟨hsession.procedures, Bindings.Legal.insert hsession.vars hx hv⟩
      | procedure hf hparams hbody =>
        refine .bind_outcome (.note _ _) fun _ _ => ?_
        have hproc := Stmt.WellFormed.procedure hf hparams hbody
        exact .ok ⟨hsession.procedures.insert hf ⟨hproc, _, _, rfl⟩, hsession.vars⟩
      | ite hc ht he =>
        cases depth with
        | zero => exact .error rfl
        | succ depth =>
          rw [exec]
          refine .bind_outcome (.note _ _) fun _ _ => ?_
          refine .bind_outcome (eval_wellFormed debug depth hc hsession.vars) fun v hv => ?_
          cases hv with
          | bool b =>
            cases b with
            | true => exact ih depth (by omega) ht hsession
            | false => exact ih depth (by omega) he hsession
          | int n => exact .ok hsession
          | closure => exact .ok hsession
          | exn hmessage => exact .ok hsession
      | @call f args hf hargs =>
        cases depth with
        | zero => exact .error rfl
        | succ depth =>
          rw [exec]
          refine .bind_outcome (.note _ _) fun _ _ => ?_
          cases hget : session.procedures.get? f with
          | none => exact .ok hsession
          | some stmt =>
            -- the table holds a procedure under the name, so the call cannot go wrong
            obtain ⟨hstmt, params, body, rfl⟩ := hsession.procedures.of_get? hget
            cases hstmt with
            | procedure _ hparams hbody =>
              cases depth with
              | zero => exact .error rfl
              | succ depth =>
                refine .bind_outcome (.mapList fun e he =>
                  eval_wellFormed debug depth (hargs e he) hsession.vars) fun values hvalues => ?_
                have hnew := Env.WellFormed.ofArguments hparams hvalues
                exact ih (depth + 1) (by omega) hbody
                  ⟨hsession.procedures, hsession.vars.insertAll hnew⟩
      | seq hne hstmts =>
        cases depth with
        | zero => exact .error rfl
        | succ depth =>
          rw [exec]
          refine .bind_outcome (.note _ _) fun _ _ => ?_
          exact execList_wellFormed
            (fun s hs session hsession => ih depth (by omega) (hstmts s hs) hsession) hsession

end ImpLang
