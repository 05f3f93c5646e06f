import ImpLang.Proofs.LineOutcome
import ImpLang.Proofs.LongLiteral
import ImpLang.Proofs.SessionInvariant

namespace ImpLang

open Traced

section FailsBy

variable {α β : Type} {P Q : Fault → Prop} {x : Traced α}

def Traced.FailsBy (P : Fault → Prop) (x : Traced α) : Prop :=
  ∀ ⦃e⦄, x.outcome = .error e → P e

theorem Traced.FailsBy.mono (h : FailsBy P x) (himp : ∀ e, P e → Q e) : FailsBy Q x :=
  fun e he => himp e (h he)

theorem Traced.FailsBy.of_ok {a : α} (h : x.outcome = .ok a) : FailsBy P x := by
  intro e he
  rw [h] at he
  cases he

theorem Traced.FailsBy.of_error {e : Fault} (h : x.outcome = .error e) (he : P e) :
    FailsBy P x := by
  intro e' he'
  rw [h] at he'
  cases he'
  exact he

theorem Traced.FailsBy.bind (hx : FailsBy P x) {f : α → Traced β}
    (hf : ∀ a, x.outcome = .ok a → FailsBy P (f a)) : FailsBy P (x >>= f) := by
  intro e he
  rcases outcome_bind_eq_error_iff.mp he with hfirst | ⟨a, ha, hsecond⟩
  · exact hx hfirst
  · exact hf a ha hsecond

theorem Traced.FailsBy.mapList {f : α → Traced β} {as : List α}
    (h : ∀ a ∈ as, FailsBy P (f a)) : FailsBy P (mapList f as) := by
  induction as with
  | nil => exact .of_ok rfl
  | cons a as ih =>
    obtain ⟨ha, has⟩ := List.forall_mem_cons.mp h
    exact ha.bind fun b _ => (ih has).bind fun bs _ => .of_ok rfl

end FailsBy

theorem eval_failsBy (debug : Bool) (depth : Nat) (e : Exp) (env : Env) :
    FailsBy (fun f => f = .tooDeep ∨ f.isInternal = true) (eval debug depth e env) := by
  have hdeep {α : Type} : FailsBy (fun f => f = .tooDeep ∨ f.isInternal = true)
      (fault .tooDeep : Traced α) := .of_error rfl (.inl rfl)
  -- every call inside goes to a smaller depth, though not always to the next one
  induction depth using Nat.strongRecOn generalizing e env with
  | ind depth ih =>
    cases depth with
    | zero => exact hdeep
    | succ depth =>
      rw [eval.eq_def]
      refine .bind (.of_ok rfl) fun _ _ => ?_
      cases e with
      | int n => exact .of_ok rfl
      | bool b => exact .of_ok rfl
      | var x => exact .of_ok rfl
      | fn params body => exact .of_ok rfl
      | foreign thing => exact .of_error rfl (.inr rfl)
      | binary op left right =>
        refine .bind (ih depth (by omega) left env) fun x _ => ?_
        exact .bind (ih depth (by omega) right env) fun y _ => .of_ok rfl
      | unknownOp kind symbol left right =>
        refine .bind (ih depth (by omega) left env) fun x _ => ?_
        refine .bind (ih depth (by omega) right env) fun y _ => ?_
        unfold OpKind.lift
        split
        · exact .of_ok rfl
        · exact .of_error rfl (.inr rfl)
      | ite c t e =>
        cases depth with
        | zero => exact hdeep
        | succ depth =>
          refine .bind (ih depth (by omega) c env) fun v _ => ?_
          cases v with
          | bool b => exact ih depth (by omega) _ env
          | _ => exact .of_ok rfl
      | letIn bindings body =>
        cases depth with
        | zero => exact hdeep
        | succ depth =>
          -- the bound expressions take a level that the body does not
          cases depth with
          | zero => exact hdeep.bind fun _ _ => ih 0 (by omega) body _
          | succ depth =>
            refine .bind (.mapList fun b _ => ih depth (by omega) b.2 env) fun values _ => ?_
            exact ih (depth + 1) (by omega) body _
      | apply f args =>
        cases depth with
        | zero => exact hdeep
        | succ depth =>
          refine .bind (ih depth (by omega) f env) fun v _ => ?_
          cases v with
          | closure params body captured =>
            cases depth with
            | zero => exact hdeep.bind fun _ _ => ih 0 (by omega) body _
            | succ depth =>
              refine .bind (.mapList fun e _ => ih depth (by omega) e env) fun values _ => ?_
              exact ih (depth + 1) (by omega) body _
          | _ => exact .of_ok rfl

theorem eval_failsBy_tooDeep (debug : Bool) (depth : Nat) {e : Exp} {env : Env}
    (he : e.WellFormed) (henv : env.WellFormed) :
    FailsBy (· = .tooDeep) (eval debug depth e env) := by
  intro f hf
  have hensures := eval_wellFormed debug depth he henv
  rw [hf] at hensures
  -- on well-formed trees the internal faults are ruled out already
  rcases eval_failsBy debug depth e env hf with hdeep | hinternal
  · exact hdeep
  · rw [hensures.fault] at hinternal
    exact Bool.noConfusion hinternal

namespace Val

/-- The integer is the value, or stands somewhere in what the value captured. -/
inductive Holds (n : Int) : Val → Prop
  | int : Holds n (.int n)
  | captured {params : List String} {body : Exp} {captured : List (String × Val)}
      {b : String × Val} (hb : b ∈ captured) (h : Holds n b.2) :
      Holds n (.closure params body captured)

def TooLong (v : Val) : Prop :=
  ∃ n, v.Holds n ∧ Text.hasNumeral n = false

theorem displayEntries_fault {entries : List (String × Val)} {e : Fault}
    (h : displayEntries entries = .error e) : ∃ b ∈ entries, b.2.display = .error e := by
  induction entries with
  | nil => cases h
  | cons b entries ih =>
    rw [displayEntries_cons] at h
    cases hb : b.2.display with
    | error e' =>
      rw [hb] at h
      cases h
      exact ⟨b, List.mem_cons_self, hb⟩
    | ok text =>
      rw [hb] at h
      cases hrest : displayEntries entries with
      | error e' =>
        rw [hrest] at h
        cases h
        obtain ⟨b', hmem, hb'⟩ := ih hrest
        exact ⟨b', List.mem_cons_of_mem _ hmem, hb'⟩
      | ok texts =>
        rw [hrest] at h
        cases h

theorem WellFormed.display_fault {v : Val} (h : v.WellFormed) {e : Fault}
    (he : v.display = .error e) : e = .numeralTooLong ∧ v.TooLong := by
  induction h generalizing e with
  | int n =>
    change Text.writtenNumeral n = .error e at he
    rw [Text.writtenNumeral] at he
    split_ifs at he with hn
    cases he
    exact ⟨rfl, n, .int, by simpa using hn⟩
  | bool b => cases he
  | exn hmessage => cases he
  | @closure params body captured _ hbody _ _ _ ih =>
    obtain ⟨text, hrenders⟩ := hbody.renders
    rw [display_closure, hrenders.render_eq] at he
    cases hentries : displayEntries captured with
    | ok texts =>
      rw [hentries] at he
      cases he
    | error e' =>
      rw [hentries] at he
      cases he
      -- the body is always rendered, so the fault is that of a captured value
      obtain ⟨b, hb, hdisplay⟩ := displayEntries_fault hentries
      obtain ⟨he', n, hn, hlong⟩ := ih b hb hdisplay
      exact ⟨he', n, .captured hb hn, hlong⟩

theorem WellFormed.displayWithin_fault {v : Val} (h : v.WellFormed) {depth : Nat} {e : Fault}
    (he : v.displayWithin depth = .error e) :
    e = .tooDeep ∨ e = .numeralTooLong ∧ v.TooLong := by
  rcases v.write.within_eq_or depth with hdeep | hsame
  · exact .inl (Except.error.inj (he.symm.trans hdeep))
  · exact .inr (h.display_fault (hsame.symm.trans he))

end Val

/-- Within the depth, execution of the statement comes to print the value. -/
inductive Prints (debug : Bool) : Nat → Stmt → Session → Val → Prop
  | print {depth : Nat} {e : Exp} {session : Session} {v : Val}
      (h : (eval debug depth e session.vars).outcome = .ok v) :
      Prints debug (depth + 1) (.print e) session v
  | ite {depth : Nat} {c : Exp} {t e : Stmt} {session : Session} {b : Bool} {v : Val}
      (hc : (eval debug depth c session.vars).outcome = .ok (.bool b))
      (h : Prints debug depth (if b then t else e) session v) :
      Prints debug (depth + 2) (.ite c t e) session v
  | call {depth : Nat} {f g : String} {args : List Exp} {params : List String} {body : Stmt}
      {session : Session} {values : List Val} {v : Val}
      (hget : session.procedures.get? f = some (.procedure g params body))
      (hargs : (mapList (fun e => eval debug depth e session.vars) args).outcome = .ok values)
      (h : Prints debug (depth + 1) body
        { session with vars := session.vars.insertAll (.ofArguments params values) } v) :
      Prints debug (depth + 3) (.call f args) session v
  | seq {depth : Nat} {before after : List Stmt} {s : Stmt} {session : Session} {effect : Effect}
      {v : Val} (hbefore : (execList (exec debug depth) before session).outcome = .ok effect)
      (h : Prints debug depth s effect.session v) :
      Prints debug (depth + 2) (.seq (before ++ s :: after)) session v

theorem execList_fault {run : Stmt → Session → Traced Effect} {stmts : List Stmt}
    {session : Session} {e : Fault} (h : (execList run stmts session).outcome = .error e) :
    ∃ before s after effect, stmts = before ++ s :: after ∧
      (execList run before session).outcome = .ok effect ∧
      (run s effect.session).outcome = .error e := by
  induction stmts generalizing session with
  | nil => cases h
  | cons s stmts ih =>
    rw [execList] at h
    rcases outcome_bind_eq_error_iff.mp h with hs | ⟨first, hs, h⟩
    · exact ⟨[], s, stmts, ⟨"", session⟩, rfl, rfl, hs⟩
    · rcases outcome_bind_eq_error_iff.mp h with hrest | ⟨others, -, h⟩
      · obtain ⟨before, s', after, effect, rfl, hbefore, hs'⟩ := ih hrest
        refine ⟨s :: before, s', after, ⟨first.output ++ effect.output, effect.session⟩, rfl, ?_,
          hs'⟩
        exact outcome_bind_eq_ok_iff.mpr
          ⟨first, hs, outcome_bind_eq_ok_iff.mpr ⟨effect, hbefore, rfl⟩⟩
      · cases h

def PrintsTooLong (debug : Bool) (depth : Nat) (s : Stmt) (session : Session) : Prop :=
  ∃ v, Prints debug depth s session v ∧ v.TooLong

/-- Execution stops because it runs too deep or because of an integer it comes to print. -/
theorem exec_failsBy (debug : Bool) (depth : Nat) {s : Stmt} {session : Session}
    (hs : s.WellFormed) (hsession : session.WellFormed) :
    FailsBy (fun e => e = .tooDeep ∨ e = .numeralTooLong ∧ PrintsTooLong debug depth s session)
      (exec debug depth s session) := by
  induction depth using Nat.strongRecOn generalizing s session with
  | ind depth ih =>
    cases depth with
    | zero => exact .of_error rfl (.inl rfl)
    | succ depth =>
      rw [exec.eq_def]
      refine .bind (.of_ok rfl) fun _ _ => ?_
      cases hs with
      | quit => exact .of_ok rfl
      | procedure hf hparams hbody => exact .of_ok rfl
      | set hx he =>
        have heval := eval_failsBy_tooDeep debug depth he hsession.vars
        exact (heval.mono fun _ => .inl).bind fun v _ => .of_ok rfl
      | print he =>
        have heval := eval_failsBy_tooDeep debug depth he hsession.vars
        refine (heval.mono fun _ => .inl).bind fun v hv => ?_
        have hvalue := eval_wellFormed debug depth he hsession.vars
        rw [hv] at hvalue
        -- the one place where a digit limit can stop the execution
        refine .bind (fun e hdisplay => ?_) fun text _ => .of_ok rfl
        rcases hvalue.result.displayWithin_fault hdisplay with hdeep | ⟨hlong, hv'⟩
        · exact .inl hdeep
        · exact .inr ⟨hlong, v, .print hv, hv'⟩
      | @ite c t e hc ht he =>
        cases depth with
        | zero => exact .of_error rfl (.inl rfl)
        | succ depth =>
          have heval := eval_failsBy_tooDeep debug depth hc hsession.vars
          refine (heval.mono fun _ => .inl).bind fun v hv => ?_
          cases v with
          | bool b =>
            have hbranch : (if b then t else e).WellFormed := by cases b <;> assumption
            refine (ih depth (by omega) hbranch hsession).mono fun f hf => hf.imp_right ?_
            rintro ⟨hlong, v, hprints, hv'⟩
            exact ⟨hlong, v, .ite hv hprints, hv'⟩
          | _ => exact .of_ok rfl
      | @call f args hf hargs =>
        cases depth with
        | zero => exact .of_error rfl (.inl rfl)
        | succ depth =>
          dsimp only
          cases hget : session.procedures.get? f with
          | none => exact .of_ok rfl
          | some stmt =>
            obtain ⟨hstmt, params, body, rfl⟩ := hsession.procedures.of_get? hget
            cases hstmt with
            | procedure _ hparams hbody =>
              cases depth with
              | zero => exact .of_error rfl (.inl rfl)
              | succ depth =>
                have heval := FailsBy.mapList fun e he =>
                  eval_failsBy_tooDeep debug depth (hargs e he) hsession.vars
                refine (heval.mono fun _ => .inl).bind fun values hvalues => ?_
                -- the body runs on well-formed variables again
                have hwf := Ensures.mapList fun e he =>
                  eval_wellFormed debug depth (hargs e he) hsession.vars
                rw [hvalues] at hwf
                have hnew := Env.WellFormed.ofArguments hparams hwf.result
                have hcalled : Session.WellFormed
                    { session with vars := session.vars.insertAll (.ofArguments params values) } :=
                  ⟨hsession.procedures, hsession.vars.insertAll hnew⟩
                refine (ih (depth + 1) (by omega) hbody hcalled).mono fun f hf => hf.imp_right ?_
                rintro ⟨hlong, v, hprints, hv'⟩
                exact ⟨hlong, v, .call hget hvalues hprints, hv'⟩
      | @seq stmts hne hstmts =>
        cases depth with
        | zero => exact .of_error rfl (.inl rfl)
        | succ depth =>
          intro e he
          -- the first statement that fails runs in what those before it left
          obtain ⟨before, s, after, effect, rfl, hbefore, hs⟩ := execList_fault he
          obtain ⟨hwf, hwf'⟩ := List.forall_mem_append.mp hstmts
          have hstate := execList_wellFormed
            (fun s hs session hsession => exec_wellFormed debug depth (hwf s hs) hsession) hsession
          rw [hbefore] at hstate
          refine (ih depth (by omega) (hwf' s List.mem_cons_self) hstate.result hs).imp_right ?_
          rintro ⟨hlong, v, hprints, hv'⟩
          exact ⟨hlong, v, .seq hbefore hprints, hv'⟩

/-- In every session that lines lead to, a line is answered, or it has a run of digits that is too
long for a literal, or it prints an integer with too many digits. Traces add that the record of the
line has to be written. -/
theorem step_answered_or_digit_limit (limits : Limits) (debug : Bool) (lines texts : List String)
    (session : Session)
    (hrun : (Session.runAll limits debug {} lines).outcome = .ok (texts, session)) (line : String) :
    (∃ reply, (session.step limits debug line).outcome = .ok reply) ∨
    (∃ n, (session.step limits debug line).outcome = .error (.literalTooLong n) ∧
      LongRun line.toList n) ∨
    ((session.step limits debug line).outcome = .error .numeralTooLong ∧
      ∃ s, parseStatement limits.nesting line standardInput = .ok s ∧
        PrintsTooLong debug limits.depth s session) ∨
    (debug = true ∧ (session.step limits debug line).outcome = .error .tooDeep ∧
      ∃ s, parseStatement limits.nesting line standardInput = .ok s ∧
        limits.depth ≤ s.height .record) := by
  have hsession : session.WellFormed := by
    have hfinal := Session.WellFormed.initial.runAll limits debug lines
    rw [hrun] at hfinal
    exact hfinal.result
  have hline := session.step_lineOutcome limits debug line
  generalize (session.step limits debug line).outcome = outcome at hline ⊢
  -- four of the ways give an answer, and each of the others is one of the limits
  cases hline with
  | rejected hread => exact .inl ⟨_, rfl⟩
  | quit hread => exact .inl ⟨_, rfl⟩
  | ran hread hquit hrecord hexec => exact .inl ⟨_, rfl⟩
  | tooDeep hread hquit hexec => exact .inl ⟨_, rfl⟩
  | unread hread he =>
    rcases Parser.parseAll_fault hread with ⟨report, rfl⟩ | ⟨n, rfl⟩
    · exact absurd rfl (he report)
    · exact .inr (.inl ⟨n, rfl, longRun_of_parseStatement hread⟩)
  | @unrecorded s hread hrecord =>
    unfold Limits.Records at hrecord
    push Not at hrecord
    exact .inr (.inr (.inr ⟨hrecord.1, rfl, s, hread, hrecord.2⟩))
  | @stopped s e hread hquit hexec he =>
    have hs := wellFormed_of_parseStatement hread
    rcases exec_failsBy debug limits.depth hs hsession hexec with hdeep | ⟨rfl, hlong⟩
    · exact absurd hdeep he
    · exact .inr (.inr (.inl ⟨rfl, s, hread, hlong⟩))

def cubing : Session :=
  { vars := [("f", .closure ["x"]
      (.binary .mul (.binary .mul (.var "x") (.var "x")) (.var "x")) [])] }

/-- Prints the 729th power of a number with eight digits. -/
def cubedSixTimes : String :=
  "print apply f (apply f (apply f (apply f (apply f (apply f (99999999))))));"

theorem runAll_cubing :
    (Session.runAll {} false {} ["f := fn [x] x*x*x end;"]).outcome = .ok ([""], cubing) := rfl

theorem step_cubedSixTimes : (cubing.step {} false cubedSixTimes).outcome.isOk = false := by
  decide +kernel

theorem step_answered_or_digit_limit_cubed :
    (Session.runAll {} false {} ["f := fn [x] x*x*x end;"]).outcome = .ok ([""], cubing) ∧
    (cubing.step {} false cubedSixTimes).outcome = .error .numeralTooLong ∧
    ∃ s, parseStatement 399 cubedSixTimes standardInput = .ok s ∧
      PrintsTooLong false 9985 s cubing := by
  refine ⟨runAll_cubing, ?_⟩
  have hshort : ShortRuns cubedSixTimes := .of_length_le (by decide)
  have hfault := step_cubedSixTimes
  rcases step_answered_or_digit_limit {} false _ _ cubing runAll_cubing cubedSixTimes with
    ⟨reply, hreply⟩ | ⟨n, -, hlong⟩ | hprints | ⟨hdebug, -⟩
  · rw [hreply] at hfault
    exact Bool.noConfusion hfault
  · exact absurd hlong (hshort.not_longRun n)
  · exact hprints
  · exact Bool.noConfusion hdebug

/-- Not every line is answered. -/
theorem not_every_line_is_answered :
    ¬ ∀ lines texts session, (Session.runAll {} false {} lines).outcome = .ok (texts, session) →
      ∀ line, ∃ reply, (session.step {} false line).outcome = .ok reply := by
  intro h
  obtain ⟨reply, hreply⟩ := h _ _ cubing runAll_cubing cubedSixTimes
  have hfault := step_cubedSixTimes
  rw [hreply] at hfault
  exact Bool.noConfusion hfault

end ImpLang
