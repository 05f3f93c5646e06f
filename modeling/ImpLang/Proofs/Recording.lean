import ImpLang.Proofs.LineOutcome
import ImpLang.Repl

namespace ImpLang

open Traced

section Silences

variable {α β : Type} {x y : Traced α}

/-- The second computation comes to the outcome of the first and records nothing. -/
def Traced.Silences (x y : Traced α) : Prop :=
  y = ⟨[], x.outcome⟩

theorem Traced.Silences.pure (a : α) : Silences (Pure.pure a) (Pure.pure a) :=
  rfl

theorem Traced.Silences.fault (e : Fault) : Silences (fault e : Traced α) (fault e) :=
  rfl

theorem Traced.Silences.result (outcome : Except Fault α) :
    Silences (result outcome) (result outcome) :=
  rfl

theorem Traced.Silences.note (debug : Bool) (event : Event) :
    Silences (note debug event) (note false event) :=
  rfl

theorem Traced.Silences.outcome_eq (h : Silences x y) : x.outcome = y.outcome := by
  rw [Silences] at h
  rw [h]

theorem Traced.Silences.trace_eq (h : Silences x y) : y.trace = [] := by
  rw [Silences] at h
  rw [h]

theorem Traced.Silences.bind (hx : Silences x y) {f g : α → Traced β}
    (hf : ∀ a, Silences (f a) (g a)) : Silences (x >>= f) (y >>= g) := by
  obtain ⟨trace, outcome⟩ := x
  obtain rfl : y = ⟨[], outcome⟩ := hx
  cases outcome with
  | error e => rfl
  | ok a =>
    have hga : g a = ⟨[], (f a).outcome⟩ := hf a
    change (⟨[] ++ (g a).trace, (g a).outcome⟩ : Traced β) = ⟨[], (f a).outcome⟩
    rw [hga]
    rfl

theorem Traced.Silences.mapList {f g : α → Traced β} (h : ∀ a, Silences (f a) (g a))
    (as : List α) : Silences (mapList f as) (mapList g as) := by
  induction as with
  | nil => exact .pure []
  | cons a as ih => exact (h a).bind fun b => ih.bind fun bs => .pure _

theorem Traced.Silences.recover (h : Silences x y) (handler : Fault → Option α) :
    Silences (x.recover handler) (y.recover handler) := by
  obtain ⟨trace, outcome⟩ := x
  obtain rfl : y = ⟨[], outcome⟩ := h
  cases outcome with
  | ok a => rfl
  | error e =>
    unfold Traced.recover
    dsimp only
    cases handler e <;> rfl

end Silences

/-- Every construct only passes on whether to record, and notes the evaluation first. -/
theorem eval_silences (debug : Bool) (depth : Nat) (e : Exp) (env : Env) :
    Silences (eval debug depth e env) (eval false depth e env) := by
  -- the parts of a form stand up to three levels down, so one step of depth is not enough
  induction depth using Nat.strongRecOn generalizing e env with
  | ind depth ih =>
    cases depth with
    | zero => exact .fault _
    | succ depth =>
      rw [eval.eq_def, eval.eq_def false]
      refine .bind (.note debug _) fun _ => ?_
      cases e with
      | int n => exact .pure _
      | bool b => exact .pure _
      | var x => exact .pure _
      | fn params body => exact .pure _
      | foreign thing => exact .fault _
      | binary op left right =>
        refine .bind (ih depth (by omega) left env) fun x => ?_
        exact .bind (ih depth (by omega) right env) fun y => .pure _
      | unknownOp kind symbol left right =>
        refine .bind (ih depth (by omega) left env) fun x => ?_
        exact .bind (ih depth (by omega) right env) fun y => .result _
      | ite c t e =>
        cases depth with
        | zero => exact .fault _
        | succ depth =>
          refine .bind (ih depth (by omega) c env) fun v => ?_
          cases v with
          | bool b => exact ih depth (by omega) _ env
          | _ => exact .pure _
      | letIn bindings body =>
        cases depth with
        | zero => exact .fault _
        | succ depth =>
          cases depth with
          | zero => exact .bind (.fault _) fun _ => ih 0 (by omega) body _
          | succ depth =>
            have hvalues := Silences.mapList
              (fun b : String × Exp => ih depth (by omega) b.2 env) bindings
            exact hvalues.bind fun _ => ih (depth + 1) (by omega) body _
      | apply f args =>
        cases depth with
        | zero => exact .fault _
        | succ depth =>
          refine .bind (ih depth (by omega) f env) fun v => ?_
          cases v with
          | closure params body captured =>
            cases depth with
            | zero => exact .bind (.fault _) fun _ => ih 0 (by omega) body _
            | succ depth =>
              refine .bind (.mapList (fun e => ih depth (by omega) e env) _) fun _ => ?_
              exact ih (depth + 1) (by omega) body _
          | _ => exact .pure _

theorem execList_silences {run run' : Stmt → Session → Traced Effect}
    (h : ∀ s session, Silences (run s session) (run' s session)) (stmts : List Stmt)
    (session : Session) :
    Silences (execList run stmts session) (execList run' stmts session) := by
  induction stmts generalizing session with
  | nil => exact .pure _
  | cons s stmts ih =>
    exact (h s session).bind fun first => (ih first.session).bind fun others => .pure _

theorem exec_silences (debug : Bool) (depth : Nat) (s : Stmt) (session : Session) :
    Silences (exec debug depth s session) (exec false depth s session) := by
  induction depth using Nat.strongRecOn generalizing s session with
  | ind depth ih =>
    cases depth with
    | zero => exact .fault _
    | succ depth =>
      rw [exec.eq_def, exec.eq_def false]
      refine .bind (.note debug _) fun _ => ?_
      cases s with
      | quit => exact .pure _
      | procedure f params body => exact .pure _
      | foreign thing => exact .fault _
      | set x e => exact .bind (eval_silences debug depth e _) fun v => .pure _
      | print e =>
        refine .bind (eval_silences debug depth e _) fun v => ?_
        exact .bind (.result _) fun text => .pure _
      | ite c t e =>
        cases depth with
        | zero => exact .fault _
        | succ depth =>
          refine .bind (eval_silences debug depth c _) fun v => ?_
          cases v with
          | bool b => exact ih depth (by omega) _ session
          | _ => exact .pure _
      | call f args =>
        cases depth with
        | zero => exact .fault _
        | succ depth =>
          dsimp only
          cases session.procedures.get? f with
          | none => exact .pure _
          | some stmt =>
            cases stmt with
            | procedure g params body =>
              cases depth with
              | zero => exact .bind (.fault _) fun _ => ih 0 (by omega) body _
              | succ depth =>
                have hvalues := Silences.mapList
                  (fun e => eval_silences debug depth e session.vars) args
                exact hvalues.bind fun values => ih (depth + 1) (by omega) body _
            | _ => exact .fault _
      | seq stmts =>
        cases depth with
        | zero => exact .fault _
        | succ depth =>
          exact execList_silences (fun s session => ih depth (by omega) s session) stmts session

/-- While recording is on, the record of the statement that the text holds can be written, if it
holds one. -/
def Limits.RecordsText (limits : Limits) (debug : Bool) (text : String) : Prop :=
  ∀ s, parseStatement limits.nesting text standardInput = .ok s → limits.Records debug s

instance (limits : Limits) (debug : Bool) (text : String) :
    Decidable (limits.RecordsText debug text) :=
  match h : parseStatement limits.nesting text standardInput with
  | .ok s =>
    decidable_of_iff (debug = true → s.height .record < limits.depth) <| by
      simp only [Limits.RecordsText, Limits.Records, h, Except.ok.injEq, forall_eq']
  | .error e => isTrue <| by
      intro s hs
      rw [h] at hs
      cases hs

theorem Limits.recordsText_false (limits : Limits) (text : String) :
    limits.RecordsText false text := by
  intro s _ hdebug
  cases hdebug

section Lines

variable {limits : Limits} {debug : Bool} {line : String}

theorem readStatement_silences (h : limits.RecordsText debug line) :
    Silences (readStatement limits debug line standardInput)
      (readStatement limits false line standardInput) := by
  cases hread : parseStatement limits.nesting line standardInput with
  | error e =>
    rw [readStatement_of_error hread, readStatement_of_error hread]
    exact .fault e
  | ok s =>
    have hplain : limits.Records false s := limits.recordsText_false line s hread
    rw [readStatement_of_ok hread, readStatement_of_ok hread, noteParsed_of_records (h s hread),
      noteParsed_of_records hplain]
    exact .bind (.note debug _) fun _ => .pure s

theorem Session.runStmt_silences (debug : Bool) (session : Session) (s : Stmt) :
    Silences (session.runStmt limits debug s) (session.runStmt limits false s) := by
  by_cases hquit : s = .quit
  · rw [hquit]
    exact .pure _
  · rw [runStmt_of_ne_quit hquit, runStmt_of_ne_quit hquit]
    exact .recover (.bind (exec_silences debug limits.depth s session) fun effect => .pure _) _

theorem Session.step_silences (session : Session) (h : limits.RecordsText debug line) :
    Silences (session.step limits debug line) (session.step limits false line) := by
  have hread := readStatement_silences h
  unfold step
  generalize readStatement limits debug line standardInput = x at hread
  generalize readStatement limits false line standardInput = y at hread
  obtain ⟨trace, outcome⟩ := x
  obtain rfl : y = ⟨[], outcome⟩ := hread
  cases outcome with
  | ok s =>
    have hrun : session.runStmt limits false s = ⟨[], (session.runStmt limits debug s).outcome⟩ :=
      session.runStmt_silences debug s
    dsimp only
    rw [hrun]
    rfl
  | error e => cases e <;> rfl

theorem Session.runAll_silences (session : Session) {lines : List String}
    (h : ∀ line ∈ lines, limits.RecordsText debug line) :
    Silences (session.runAll limits debug lines) (session.runAll limits false lines) := by
  induction lines generalizing session with
  | nil => exact .pure _
  | cons line rest ih =>
    obtain ⟨hline, hrest⟩ := List.forall_mem_cons.mp h
    unfold runAll
    split_ifs
    · exact ih session hrest
    · refine .bind (session.step_silences hline) fun reply => ?_
      split_ifs
      · exact .pure _
      · exact .bind (ih reply.session hrest) fun run => .pure _

def Limits.RecordsLine (limits : Limits) (debug : Bool) (line : String) : Prop :=
  limits.RecordsText debug line ∧ limits.RecordsText debug (Command.split line).2

instance (limits : Limits) (debug : Bool) (line : String) :
    Decidable (limits.RecordsLine debug line) :=
  inferInstanceAs (Decidable (_ ∧ _))

theorem Command.showTree_silences {argument : String} (h : limits.RecordsText debug argument) :
    Silences (showTree limits debug argument) (showTree limits false argument) := by
  have hread := readStatement_silences h
  unfold showTree
  generalize readStatement limits debug argument standardInput = x at hread
  generalize readStatement limits false argument standardInput = y at hread
  obtain ⟨trace, outcome⟩ := x
  obtain rfl : y = ⟨[], outcome⟩ := hread
  cases outcome with
  | ok s => rfl
  | error e => cases e <;> rfl

theorem Command.run_silences (session : Session)
    (h : limits.RecordsText debug (Command.split line).2) :
    Silences (Command.run limits debug session line) (Command.run limits false session line) := by
  refine .bind ?_ fun texts => .pure _
  unfold Command.body
  dsimp only
  split_ifs
  · exact showTree_silences h
  · exact .bind (.result _) fun bindings => .pure _
  · exact .bind (.result _) fun bindings => .pure _
  · exact .pure _
  · exact .pure _

theorem Repl.respond_silences (session : Session) (h : limits.RecordsLine debug line) :
    Silences (respond limits debug session line) (respond limits false session line) := by
  unfold respond
  split_ifs
  · exact .bind (Command.run_silences session h.2) fun written => .pure _
  · exact .bind (session.step_silences h.1) fun reply => .pure _

def Repl.withoutEvents (shown : List Display) : List Display :=
  shown.filter fun d => d.event?.isNone

@[simp]
theorem Repl.withoutEvents_append (shown shown' : List Display) :
    withoutEvents (shown ++ shown') = withoutEvents shown ++ withoutEvents shown' :=
  List.filter_append _ _

@[simp]
theorem Repl.withoutEvents_prompt (shown : List Display) :
    withoutEvents (.prompt :: shown) = .prompt :: withoutEvents shown := rfl

@[simp]
theorem Repl.withoutEvents_events (events : List Event) :
    withoutEvents (events.map .trace) = [] := by
  simp [withoutEvents, Display.event?]

@[simp]
theorem Repl.withoutEvents_texts (texts : List String) :
    withoutEvents (texts.map .write) = texts.map .write := by
  simp [withoutEvents, Display.event?]

theorem Repl.event?_of_mem_withoutEvents {shown : List Display} {d : Display}
    (h : d ∈ withoutEvents shown) : d.event? = none := by
  simpa using (List.mem_filter.mp h).2

/-- A dialogue goes on in the same way, with the events in between. -/
theorem Repl.converse_silences (session : Session) {lines : List String}
    (h : ∀ line ∈ lines, limits.RecordsLine debug line) :
    converse limits false session lines =
      { converse limits debug session lines with
        shown := withoutEvents (converse limits debug session lines).shown } := by
  induction lines generalizing session with
  | nil => rfl
  | cons line rest ih =>
    obtain ⟨hline, hrest⟩ := List.forall_mem_cons.mp h
    have hanswer := respond_silences session hline
    unfold converse
    generalize respond limits debug session line = x at hanswer
    generalize respond limits false session line = y at hanswer
    obtain ⟨events, outcome⟩ := x
    obtain rfl : y = ⟨[], outcome⟩ := hanswer
    cases outcome with
    | error e => simp
    | ok a =>
      cases hfinished : a.finished with
      | true => simp [hfinished]
      | false => simp [hfinished, ih a.session hrest]

end Lines

/-- Recording changes nothing but the record. While it is off nothing is recorded. While it is on,
lines that are run as a list have the same answers and leave the same session, or end in the same
fault; and a dialogue shows the same texts and prompts, but for the note that recording is on, and
ends in the same way. It is assumed that the records of the statements can be written. -/
theorem recording_changes_nothing (limits : Limits) (lines : List String) :
    (∀ session : Session, (session.runAll limits false lines).trace = []) ∧
    (∀ d ∈ (Repl.dialogue limits false lines).shown, d.event? = none) ∧
    ((∀ line ∈ lines, limits.RecordsText true line) → ∀ session : Session,
      (session.runAll limits true lines).outcome = (session.runAll limits false lines).outcome) ∧
    ((∀ line ∈ lines, limits.RecordsLine true line) → ∃ shown,
      (Repl.dialogue limits false lines).shown =
        .write "Welcome to your interpreter!" :: shown ∧
      Repl.withoutEvents (Repl.dialogue limits true lines).shown =
        .write "Welcome to your interpreter!" :: .write "Debug mode enabled" :: shown ∧
      (Repl.dialogue limits true lines).session = (Repl.dialogue limits false lines).session ∧
      (Repl.dialogue limits true lines).unread = (Repl.dialogue limits false lines).unread ∧
      (Repl.dialogue limits true lines).fault = (Repl.dialogue limits false lines).fault) := by
  refine ⟨fun session => ?_, ?_, fun h session => ?_, fun h => ?_⟩
  · exact (session.runAll_silences fun line _ => limits.recordsText_false line).trace_eq
  · have hrecords : ∀ line ∈ lines, limits.RecordsLine false line := fun line _ =>
      ⟨limits.recordsText_false line, limits.recordsText_false _⟩
    have hplain := Repl.converse_silences {} hrecords
    intro d hd
    rw [Repl.dialogue, hplain] at hd
    rcases List.mem_append.mp hd with hgreeting | hshown
    · obtain ⟨text, -, rfl⟩ := List.mem_map.mp hgreeting
      rfl
    · exact Repl.event?_of_mem_withoutEvents hshown
  · exact (session.runAll_silences h).outcome_eq
  · have htalk := Repl.converse_silences {} h
    refine ⟨Repl.withoutEvents (Repl.converse limits true {} lines).shown, ?_, rfl, ?_⟩
    · rw [Repl.dialogue, htalk]
      rfl
    · rw [Repl.dialogue, Repl.dialogue, htalk]
      exact ⟨rfl, rfl, rfl⟩

/-- A declaration that runs too deep when it is called, a command that shows a tree, and the end. -/
def recordedLines : List String :=
  ["procedure p(a) call p(a + 1); endproc", "call p(1);", ":parse print 1;", "print 7 / 0;",
   "quit;"]

theorem recording_changes_nothing_tooDeep :
    (∀ line ∈ recordedLines, (Limits.mk 9 20).RecordsLine true line) ∧
    (Session.runAll ⟨9, 20⟩ true {} recordedLines).trace.length = 41 ∧
    (Session.runAll ⟨9, 20⟩ true {} recordedLines).outcome =
      (Session.runAll ⟨9, 20⟩ false {} recordedLines).outcome ∧
    (Repl.withoutEvents (Repl.dialogue ⟨9, 20⟩ true recordedLines).shown).filterMap
        Repl.Display.written? =
      ["Welcome to your interpreter!", "Debug mode enabled", "", "exn: Recursion limit exceeded",
       "PrintStmt\n  exp: IntExp(1)", "exn: Division by 0", "Bye!"] := by
  have hlines : ∀ line ∈ recordedLines, (Limits.mk 9 20).RecordsLine true line := by
    decide +kernel
  obtain ⟨-, -, hrun, htalk⟩ := recording_changes_nothing ⟨9, 20⟩ recordedLines
  obtain ⟨shown, hplain, hrecorded, -⟩ := htalk hlines
  have hwritten : (Repl.dialogue ⟨9, 20⟩ false recordedLines).shown.filterMap
      Repl.Display.written? =
        ["Welcome to your interpreter!", "", "exn: Recursion limit exceeded",
         "PrintStmt\n  exp: IntExp(1)", "exn: Division by 0", "Bye!"] := by decide +kernel
  refine ⟨hlines, by decide +kernel, hrun (fun line hmem => (hlines line hmem).1) {}, ?_⟩
  rw [hplain] at hwritten
  rw [hrecorded]
  have htexts := (List.cons.inj hwritten).2
  exact congrArg (["Welcome to your interpreter!", "Debug mode enabled"] ++ ·) htexts

end ImpLang
