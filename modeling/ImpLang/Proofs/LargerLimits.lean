import ImpLang.Proofs.Acceptance
import ImpLang.Proofs.Depth
import ImpLang.Proofs.Drivers
import ImpLang.Proofs.LineOutcome
import ImpLang.Proofs.LongLiteral
import ImpLang.Proofs.Parallel

namespace ImpLang

def Comparison.same : Comparison where
  cursors := Eq
  reports := Eq
  renamed := by
    intro r r' h message
    rw [h]
  chosen := by
    intro r r' s s' h h'
    rw [h, h']

theorem Comparison.agree_same {α : Type} (answer : Except Failure (α × Cursor)) :
    Comparison.same.Agree answer answer := by
  cases answer with
  | ok r => exact .ok rfl
  | error e =>
    cases e with
    | soft offset message => exact .soft rfl
    | fatal offset message => exact .fatal rfl
    | tooDeep => exact .limit
    | literalTooLong digits => exact .tooLong digits

namespace Parser

variable {α : Type} {p p' : Parser α}

theorem parallel_same (p : Parser α) : Parallel .same p p := by
  intro c c' hc
  obtain rfl : c = c' := hc
  exact Comparison.agree_same (p c)

theorem tokens_same : Comparison.same.Tokens :=
  ⟨fun _ _ => parallel_same _, fun _ _ => parallel_same _, parallel_same _, parallel_same _,
    parallel_same _⟩

/-- Unless the first parser was stopped by the nesting limit, the second gives the same. -/
def Settles (p p' : Parser α) : Prop :=
  ∀ c, p c ≠ .error .tooDeep → p' c = p c

theorem Parallel.settles (h : Parallel .same p p') : Settles p p' := by
  intro c hne
  have hagree : Comparison.same.Agree (p c) (p' c) := h rfl
  generalize p c = answer, p' c = answer' at hagree hne
  cases hagree with
  | limit => exact absurd rfl hne
  | ok hd =>
    obtain rfl := hd
    rfl
  | soft hr =>
    cases hr
    rfl
  | fatal hr =>
    cases hr
    rfl
  | tooLong digits => rfl

theorem Settles.parseAll (h : Settles p p') {text filename : String}
    (hdeep : p.parseAll text filename ≠ .error (.rejected (.nestedTooDeeply filename))) :
    p'.parseAll text filename = p.parseAll text filename := by
  have hstart := h (Cursor.start (Text.expandTabs text.toList))
    fun hp => hdeep (parseAll_eq_nestedTooDeeply_iff.mpr hp)
  have hwhole : (do let a ← p'; Token.endOfText; return a : Parser α)
        (Cursor.start (Text.expandTabs text.toList)) =
      (do let a ← p; Token.endOfText; return a : Parser α)
        (Cursor.start (Text.expandTabs text.toList)) := by
    change Parser.bind p' _ _ = Parser.bind p _ _
    unfold Parser.bind
    rw [hstart]
  unfold Parser.parseAll Parser.run
  dsimp only
  rw [hwhole]

end Parser

open Traced

variable {limits limits' : Limits} {debug : Bool} {session : Session} {line : String}

def limitAnswers : List String :=
  ["Parse error: Input is nested too deeply", "exn: Recursion limit exceeded"]

/-- The texts that lines are answered with, up to the end of the session or to a line that gets no
answer. Blank lines are skipped. -/
def Session.answers (limits : Limits) (debug : Bool) : Session → List String → List String
  | _, [] => []
  | session, line :: rest =>
    if Text.isBlankLine line then Session.answers limits debug session rest
    else
      match (session.step limits debug line).outcome with
      | .error _ => []
      | .ok reply =>
        reply.text :: if reply.finished then [] else Session.answers limits debug reply.session rest

theorem Session.answers_of_isBlankLine (h : Text.isBlankLine line = true) (rest : List String) :
    session.answers limits debug (line :: rest) = session.answers limits debug rest := by
  rw [answers, if_pos h]

theorem Session.answers_of_step {reply : Reply} (hblank : Text.isBlankLine line = false)
    (hstep : (session.step limits debug line).outcome = .ok reply) (rest : List String) :
    session.answers limits debug (line :: rest) = reply.text ::
      if reply.finished then [] else reply.session.answers limits debug rest := by
  rw [answers, if_neg (by simp [hblank]), hstep]

/-- When no fault ends the run, the answers are what is printed. -/
theorem Session.answers_of_runAll {lines texts : List String} {last : Session}
    (h : (session.runAll limits debug lines).outcome = .ok (texts, last)) :
    session.answers limits debug lines = texts := by
  induction lines generalizing session texts with
  | nil =>
    cases h
    rfl
  | cons line rest ih =>
    cases hblank : Text.isBlankLine line with
    | true =>
      rw [answers_of_isBlankLine hblank]
      rw [runAll_of_isBlankLine hblank] at h
      exact ih h
    | false =>
      obtain ⟨reply, hstep, hends⟩ := of_runAll_cons hblank h
      rw [answers_of_step hblank hstep]
      rcases hends with ⟨hfinished, rfl, -⟩ | ⟨hfinished, others, rfl, hrun⟩
      · rw [hfinished]
        rfl
      · rw [hfinished, ← ih hrun]
        rfl

theorem Limits.Records.mono {s : Stmt} (h : limits.Records debug s)
    (hdepth : limits.depth ≤ limits'.depth) : limits'.Records debug s :=
  fun hdebug => (h hdebug).trans_le hdepth

theorem Session.step_of_records {s : Stmt}
    (hread : parseStatement limits.nesting line standardInput = .ok s)
    (hrecord : limits.Records debug s) :
    session.step limits debug line = (do
      note debug (.parsedStmt s)
      session.runStmt limits debug s) := by
  unfold Session.step
  rw [readStatement_of_ok hread, noteParsed_of_records hrecord]
  cases debug <;> rfl

theorem Session.runStmt_settles (hdepth : limits.depth ≤ limits'.depth) {s : Stmt}
    (h : s ≠ .quit → (exec debug limits.depth s session).outcome ≠ .error .tooDeep) :
    session.runStmt limits' debug s = session.runStmt limits debug s := by
  by_cases hquit : s = .quit
  · rw [hquit]
    rfl
  · rw [runStmt_of_ne_quit hquit, runStmt_of_ne_quit hquit,
      exec_settles debug hdepth s session (h hquit)]

theorem Session.step_of_tooDeep {s : Stmt}
    (hread : parseStatement limits.nesting line standardInput = .ok s) (hquit : s ≠ .quit)
    (hrecord : limits.Records debug s)
    (hexec : (exec debug limits.depth s session).outcome = .error .tooDeep) :
    (session.step limits debug line).outcome =
      .ok ⟨Complaint.display Complaint.recursionLimit, session, false⟩ := by
  rw [step_of_records hread hrecord, runStmt_of_ne_quit hquit, outcome_bind]
  generalize exec debug limits.depth s session = x at hexec
  obtain ⟨steps, outcome⟩ := x
  cases hexec
  rfl

/-- One line: unless it is answered by a limit, or its record cannot be written, larger limits make
no difference to it. -/
theorem Session.step_settles (hnesting : limits.nesting ≤ limits'.nesting)
    (hdepth : limits.depth ≤ limits'.depth)
    (hanswer : ∀ reply, (session.step limits debug line).outcome = .ok reply →
      reply.text ∉ limitAnswers) :
    Settles (session.step limits debug line) (session.step limits' debug line) := by
  intro hne
  -- had the nesting limit stopped the first reading, the answer would say so
  have hread' : parseStatement limits'.nesting line standardInput =
      parseStatement limits.nesting line standardInput := by
    refine (Grammar.parallel_statement Parser.tokens_same hnesting).settles.parseAll fun hdeep => ?_
    have hstep : (session.step limits debug line).outcome =
        .ok ⟨(Report.nestedTooDeeply standardInput).format, session, false⟩ := by
      unfold Session.step
      rw [readStatement_of_error hdeep]
    have hmem : (Report.nestedTooDeeply standardInput).format ∈ limitAnswers := by decide
    exact hanswer _ hstep hmem
  cases hread : parseStatement limits.nesting line standardInput with
  | error e =>
    unfold Session.step
    rw [readStatement_of_error hread, readStatement_of_error (hread'.trans hread)]
    cases e <;> rfl
  | ok s =>
    have hrecord : limits.Records debug s := by
      by_contra hnot
      apply hne
      unfold Session.step
      rw [readStatement_of_ok hread, noteParsed_of_not_records hnot]
      rfl
    have hexec : s ≠ .quit → (exec debug limits.depth s session).outcome ≠ .error .tooDeep := by
      intro hquit hdeep
      have hmem : Complaint.display Complaint.recursionLimit ∈ limitAnswers := by decide
      exact hanswer _ (step_of_tooDeep hread hquit hrecord hdeep) hmem
    rw [step_of_records hread hrecord, step_of_records (hread'.trans hread) (hrecord.mono hdepth),
      runStmt_settles hdepth hexec]

theorem Session.runAll_settles (hnesting : limits.nesting ≤ limits'.nesting)
    (hdepth : limits.depth ≤ limits'.depth) {lines : List String}
    (hanswers : ∀ text ∈ session.answers limits debug lines, text ∉ limitAnswers) :
    Settles (session.runAll limits debug lines) (session.runAll limits' debug lines) := by
  induction lines generalizing session with
  | nil => exact .refl _
  | cons line rest ih =>
    cases hblank : Text.isBlankLine line with
    | true =>
      rw [answers_of_isBlankLine hblank] at hanswers
      rw [runAll_of_isBlankLine hblank, runAll_of_isBlankLine hblank]
      exact ih hanswers
    | false =>
      rw [runAll, runAll, if_neg (by simp [hblank]), if_neg (by simp [hblank])]
      have hanswer (reply : Reply) (hstep : (session.step limits debug line).outcome = .ok reply) :
          reply.text ∉ limitAnswers := by
        rw [answers_of_step hblank hstep] at hanswers
        exact (List.forall_mem_cons.mp hanswers).1
      -- about the lines after this one the answers tell only for the reply that was given
      refine (step_settles hnesting hdepth hanswer).bind_of_ok fun reply hstep => ?_
      rw [answers_of_step hblank hstep] at hanswers
      cases hfinished : reply.finished with
      | true => exact .refl _
      | false =>
        rw [hfinished] at hanswers
        exact (ih (List.forall_mem_cons.mp hanswers).2).bind fun _ => .refl _

/-- Without traces no fault is due to the limits: what runs too deep is answered. -/
theorem Session.step_ne_tooDeep (limits : Limits) (session : Session) (line : String) :
    (session.step limits false line).outcome ≠ .error .tooDeep := by
  intro hdeep
  have houtcome := session.step_lineOutcome limits false line
  rw [hdeep] at houtcome
  cases houtcome with
  | unread hread _ =>
    rcases Parser.parseAll_fault hread with ⟨report, h⟩ | ⟨n, h⟩
    · cases h
    · cases h
  | unrecorded _ hrecord => exact hrecord fun h => Bool.noConfusion h
  | stopped _ _ _ he => exact he rfl

theorem Session.runAll_ne_tooDeep (limits : Limits) (session : Session) (lines : List String) :
    (session.runAll limits false lines).outcome ≠ .error .tooDeep := by
  induction lines generalizing session with
  | nil => simp [runAll]
  | cons line rest ih =>
    cases hblank : Text.isBlankLine line with
    | true =>
      rw [runAll_of_isBlankLine hblank]
      exact ih session
    | false =>
      intro hdeep
      rw [runAll, if_neg (by simp [hblank])] at hdeep
      rcases outcome_bind_eq_error_iff.mp hdeep with hstep | ⟨reply, -, hrest⟩
      · exact session.step_ne_tooDeep limits line hstep
      · split_ifs at hrest
        · cases hrest
        · rcases outcome_bind_eq_error_iff.mp hrest with hrun | ⟨run, -, hpure⟩
          · exact ih reply.session hrun
          · cases hpure

/-- The limits decide whether there is an answer, and never which: if no line is answered by a
limit, larger limits give the same answers and the same session, or the same fault. Only while
traces are on can a limit be hit without an answer, in the record of a line. -/
theorem runAll_eq_of_larger_limits (limits limits' : Limits)
    (hnesting : limits.nesting ≤ limits'.nesting) (hdepth : limits.depth ≤ limits'.depth)
    (debug : Bool) (session : Session) (lines : List String)
    (hanswers : ∀ text ∈ session.answers limits debug lines, text ∉ limitAnswers) :
    session.runAll limits' debug lines = session.runAll limits debug lines ∨
      debug = true ∧ (session.runAll limits debug lines).outcome = .error .tooDeep := by
  by_cases hdeep : (session.runAll limits debug lines).outcome = .error .tooDeep
  · cases debug with
    | true => exact .inr ⟨rfl, hdeep⟩
    | false => exact absurd hdeep (session.runAll_ne_tooDeep limits lines)
  · exact .inl (Session.runAll_settles hnesting hdepth hanswers hdeep)

/-- A function that is given itself to call, a blank line and the end of the session. -/
def factorialLines : List String :=
  ["f := fn [g, n] if n == 0 then 1 else n * apply g (g, n - 1) fi end;", "",
   "print apply f (f, 5);", "quit;"]

theorem runAll_eq_of_larger_limits_factorial :
    (Session.runAll {} false {} factorialLines).outcome.map Prod.fst =
      .ok ["", "120", "Bye!"] := by
  have hsmall : (Session.runAll ⟨9, 40⟩ false {} factorialLines).outcome.map Prod.fst =
      .ok ["", "120", "Bye!"] := by decide +kernel
  have hanswers : Session.answers ⟨9, 40⟩ false {} factorialLines = ["", "120", "Bye!"] := by
    cases hrun : (Session.runAll ⟨9, 40⟩ false {} factorialLines).outcome with
    | error e =>
      rw [hrun] at hsmall
      cases hsmall
    | ok run =>
      rw [hrun] at hsmall
      exact (Session.answers_of_runAll hrun).trans (Except.ok.inj hsmall)
  rcases runAll_eq_of_larger_limits ⟨9, 40⟩ {} (by decide) (by decide) false {} factorialLines
    (by rw [hanswers]; decide) with h | ⟨hdebug, -⟩
  · rw [h]
    exact hsmall
  · cases hdebug

end ImpLang
