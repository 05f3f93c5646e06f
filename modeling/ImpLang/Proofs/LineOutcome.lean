import ImpLang.Session
import Mathlib.Tactic.Common

namespace ImpLang

open Traced

def Limits.Records (limits : Limits) (debug : Bool) (s : Stmt) : Prop :=
  debug = true → s.height .record < limits.depth

/-- The ways in which a line can come to its outcome. -/
inductive LineOutcome (limits : Limits) (debug : Bool) (session : Session) (line : String) :
    Except Fault Reply → Prop
  | rejected {report : Report}
      (hread : parseStatement limits.nesting line standardInput = .error (.rejected report)) :
      LineOutcome limits debug session line (.ok ⟨report.format, session, false⟩)
  | unread {e : Fault} (hread : parseStatement limits.nesting line standardInput = .error e)
      (he : ∀ report, e ≠ .rejected report) : LineOutcome limits debug session line (.error e)
  | unrecorded {s : Stmt} (hread : parseStatement limits.nesting line standardInput = .ok s)
      (hrecord : ¬ limits.Records debug s) : LineOutcome limits debug session line (.error .tooDeep)
  | quit (hread : parseStatement limits.nesting line standardInput = .ok .quit) :
      LineOutcome limits debug session line (.ok ⟨farewell, session, true⟩)
  | ran {s : Stmt} {effect : Effect}
      (hread : parseStatement limits.nesting line standardInput = .ok s) (hquit : s ≠ .quit)
      (hrecord : limits.Records debug s)
      (hexec : (exec debug limits.depth s session).outcome = .ok effect) :
      LineOutcome limits debug session line (.ok ⟨effect.output, effect.session, false⟩)
  | tooDeep {s : Stmt} (hread : parseStatement limits.nesting line standardInput = .ok s)
      (hquit : s ≠ .quit) (hexec : (exec debug limits.depth s session).outcome = .error .tooDeep) :
      LineOutcome limits debug session line
        (.ok ⟨Complaint.display Complaint.recursionLimit, session, false⟩)
  | stopped {s : Stmt} {e : Fault}
      (hread : parseStatement limits.nesting line standardInput = .ok s) (hquit : s ≠ .quit)
      (hexec : (exec debug limits.depth s session).outcome = .error e) (he : e ≠ .tooDeep) :
      LineOutcome limits debug session line (.error e)

variable {limits : Limits} {debug : Bool} {session : Session} {line filename : String}

theorem readStatement_of_error {e : Fault}
    (h : parseStatement limits.nesting line filename = .error e) :
    readStatement limits debug line filename = ⟨[], .error e⟩ := by
  unfold readStatement
  rw [h]
  rfl

theorem readStatement_of_ok {s : Stmt}
    (h : parseStatement limits.nesting line filename = .ok s) :
    readStatement limits debug line filename = (do
      noteParsed limits debug (s.height .record) (.parsedStmt s)
      return s) := by
  unfold readStatement
  rw [h]
  rfl

theorem noteParsed_of_records {s : Stmt} (h : limits.Records debug s) (event : Event) :
    noteParsed limits debug (s.height .record) event = note debug event := by
  unfold noteParsed
  rw [if_neg]
  intro hdeep
  rw [Bool.and_eq_true, decide_eq_true_eq] at hdeep
  have hlt := h hdeep.1
  omega

theorem noteParsed_of_not_records {s : Stmt} (h : ¬ limits.Records debug s) (event : Event) :
    noteParsed limits debug (s.height .record) event = fault .tooDeep := by
  unfold noteParsed
  rw [if_pos]
  rw [Bool.and_eq_true, decide_eq_true_eq]
  by_contra hdeep
  apply h
  intro hdebug
  by_contra hle
  exact hdeep ⟨hdebug, by omega⟩

/-- What is executed answers with its effect, and only running too deep is recovered from. -/
theorem Session.runStmt_of_ne_quit {s : Stmt} (h : s ≠ .quit) :
    session.runStmt limits debug s =
      Traced.recover (do
        let effect ← exec debug limits.depth s session
        return ⟨effect.output, effect.session, false⟩) fun
          | .tooDeep => some ⟨Complaint.display Complaint.recursionLimit, session, false⟩
          | _ => none := by
  cases s with
  | quit => exact absurd rfl h
  | _ => rfl

/-- Every line comes to its outcome in one of these ways. -/
theorem Session.step_lineOutcome (limits : Limits) (debug : Bool) (session : Session)
    (line : String) :
    LineOutcome limits debug session line (session.step limits debug line).outcome := by
  unfold Session.step
  cases hread : parseStatement limits.nesting line standardInput with
  | error e =>
    rw [readStatement_of_error hread]
    cases e with
    | rejected report => exact .rejected hread
    | _ => exact .unread hread (by simp)
  | ok s =>
    by_cases hrecord : limits.Records debug s
    · rw [readStatement_of_ok hread, noteParsed_of_records hrecord]
      by_cases hquit : s = .quit
      · subst hquit
        exact .quit hread
      · change LineOutcome limits debug session line (session.runStmt limits debug s).outcome
        rw [Session.runStmt_of_ne_quit hquit]
        generalize hx : exec debug limits.depth s session = x
        obtain ⟨steps, outcome⟩ := x
        have hexec : (exec debug limits.depth s session).outcome = outcome := by rw [hx]
        cases outcome with
        | ok effect => exact .ran hread hquit hrecord hexec
        | error e =>
          cases e with
          | tooDeep => exact .tooDeep hread hquit hexec
          | _ => exact .stopped hread hquit hexec (by simp)
    · rw [readStatement_of_ok hread, noteParsed_of_not_records hrecord]
      exact .unrecorded hread hrecord

theorem Session.step_of_exec {s : Stmt} {effect : Effect}
    (hread : parseStatement limits.nesting line standardInput = .ok s) (hquit : s ≠ .quit)
    (hrecord : limits.Records debug s)
    (hexec : (exec debug limits.depth s session).outcome = .ok effect) :
    (session.step limits debug line).outcome = .ok ⟨effect.output, effect.session, false⟩ := by
  unfold Session.step
  rw [readStatement_of_ok hread, noteParsed_of_records hrecord]
  change (session.runStmt limits debug s).outcome = _
  rw [Session.runStmt_of_ne_quit hquit]
  have hran : (do
      let effect ← exec debug limits.depth s session
      return (⟨effect.output, effect.session, false⟩ : Reply) : Traced Reply).outcome =
        .ok ⟨effect.output, effect.session, false⟩ := by
    rw [outcome_bind, hexec]
    rfl
  unfold Traced.recover
  rw [hran]
  exact hran

end ImpLang
