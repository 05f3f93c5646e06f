import ImpLang.Proofs.Drivers
import ImpLang.Proofs.Unanswered
import ImpLang.Script

namespace ImpLang

open Traced

section Map

variable {α β : Type} {x : Except Fault α} {f : α → β}

theorem Except.map_eq_ok_iff {b : β} : x.map f = .ok b ↔ ∃ a, x = .ok a ∧ f a = b := by
  cases x with
  | error e => simp [Except.map]
  | ok a => simp [Except.map]

theorem Except.map_eq_error_iff {e : Fault} : x.map f = .error e ↔ x = .error e := by
  cases x with
  | error e => simp [Except.map]
  | ok a => simp [Except.map]

end Map

section Runs

variable {limits : Limits} {debug : Bool} {session : Session} {lines : List String}

theorem Session.runAll_of_step {line : String} {reply : Reply}
    (hblank : Text.isBlankLine line = false)
    (hstep : (session.step limits debug line).outcome = .ok reply) (rest : List String) :
    (Session.runAll limits debug session (line :: rest)).outcome =
      if reply.finished then .ok ([reply.text], reply.session)
      else (Session.runAll limits debug reply.session rest).outcome.map fun run =>
        (reply.text :: run.1, run.2) := by
  rw [Session.outcome_runAll_cons hblank, hstep]
  rfl

/-- More lines are run in the session that the first ones leave, unless one of these ended it. -/
theorem Session.runAll_append {texts : List String} {last : Session}
    (h : (Session.runAll limits debug session lines).outcome = .ok (texts, last))
    (more : List String) :
    (Session.runAll limits debug session (lines ++ more)).outcome =
      if lines.any (quits limits.nesting) then .ok (texts, last)
      else (Session.runAll limits debug last more).outcome.map fun others =>
        (texts ++ others.1, others.2) := by
  induction lines generalizing session texts with
  | nil =>
    cases h
    change _ = (Session.runAll limits debug last more).outcome.map id
    rw [List.nil_append]
    cases (Session.runAll limits debug last more).outcome <;> rfl
  | cons line lines ih =>
    rw [List.cons_append, List.any_cons]
    cases hblank : Text.isBlankLine line with
    | true =>
      rw [Session.runAll_of_isBlankLine hblank] at h ⊢
      rw [ih h, quits_of_isBlankLine hblank, Bool.false_or]
    | false =>
      obtain ⟨reply, hstep, hends⟩ := Session.of_runAll_cons hblank h
      rw [Session.runAll_of_step hblank hstep, ← (Session.step_reference hstep lines).1]
      rcases hends with ⟨hfinished, rfl, rfl⟩ | ⟨hfinished, others, rfl, hrun⟩
      · rw [hfinished, Bool.true_or, if_pos rfl, if_pos rfl]
      · -- the answer to the line stands in front of all others on both sides
        rw [hfinished, Bool.false_or, if_neg Bool.false_ne_true, ih hrun]
        split_ifs
        · rfl
        · cases (Session.runAll limits debug last more).outcome <;> rfl

/-- A run that gives no answers has answered the lines before the one that gets none. -/
theorem Session.exists_line_of_runAll_error {e : Fault}
    (h : (Session.runAll limits debug session lines).outcome = .error e) :
    ∃ before line after texts last, lines = before ++ line :: after ∧
      before.any (quits limits.nesting) = false ∧
      (Session.runAll limits debug session before).outcome = .ok (texts, last) ∧
      (last.step limits debug line).outcome = .error e := by
  induction lines generalizing session with
  | nil => cases h
  | cons line rest ih =>
    cases hblank : Text.isBlankLine line with
    | true =>
      rw [Session.runAll_of_isBlankLine hblank] at h
      obtain ⟨before, line', after, texts, last, rfl, hquits, hbefore, hline⟩ := ih h
      refine ⟨line :: before, line', after, texts, last, rfl, ?_, ?_, hline⟩
      · rw [List.any_cons, quits_of_isBlankLine hblank, hquits, Bool.false_or]
      · rw [Session.runAll_of_isBlankLine hblank, hbefore]
    | false =>
      cases hstep : (session.step limits debug line).outcome with
      | error e' =>
        rw [Session.outcome_runAll_cons hblank, hstep] at h
        cases h
        exact ⟨[], line, rest, [], session, rfl, rfl, rfl, hstep⟩
      | ok reply =>
        rw [Session.runAll_of_step hblank hstep] at h
        split_ifs at h with hfinished
        -- the line joins those before the one at fault, and its answer joins theirs
        obtain ⟨before, line', after, texts, last, rfl, hquits, hbefore, hline⟩ :=
          ih (Except.map_eq_error_iff.mp h)
        refine ⟨line :: before, line', after, reply.text :: texts, last, rfl, ?_, ?_, hline⟩
        · rw [List.any_cons, ← (Session.step_reference hstep before).1, hquits, Bool.or_false]
          simpa using hfinished
        · rw [Session.runAll_of_step hblank hstep, if_neg hfinished, hbefore]
          rfl

/-- A limit on digits is exceeded or, while traces are on, the record of a line is too deep. -/
def Fault.ExceedsLimit (debug : Bool) (e : Fault) : Prop :=
  (∃ n, e = .literalTooLong n) ∨ e = .numeralTooLong ∨ debug = true ∧ e = .tooDeep

/-- A line is only ever left without an answer for one of these limits. -/
theorem Session.WellFormed.step_failsBy (h : session.WellFormed) (limits : Limits) (debug : Bool)
    (line : String) : FailsBy (Fault.ExceedsLimit debug) (session.step limits debug line) := by
  intro e he
  have hline := session.step_lineOutcome limits debug line
  rw [he] at hline
  cases hline with
  | unread hread hrejected =>
    rcases Parser.parseAll_fault hread with ⟨report, rfl⟩ | hlong
    · exact absurd rfl (hrejected report)
    · exact .inl hlong
  | unrecorded hread hrecord =>
    have hdebug : debug = true := by
      by_contra hoff
      exact hrecord fun hon => absurd hon hoff
    exact .inr (.inr ⟨hdebug, rfl⟩)
  | stopped hread hquit hexec hdeep =>
    have hs := wellFormed_of_parseStatement hread
    rcases exec_failsBy debug limits.depth hs h hexec with heq | ⟨hlong, -⟩
    · exact absurd heq hdeep
    · exact .inr (.inl hlong)

end Runs

namespace Repl

variable {limits : Limits} {debug : Bool}

theorem exists_shown_converse (limits : Limits) (debug : Bool) (session : Session)
    (lines : List String) :
    ∃ others, (converse limits debug session lines).shown = .prompt :: others := by
  cases lines with
  | nil => exact ⟨_, rfl⟩
  | cons line rest =>
    cases hanswer : (respond limits debug session line).outcome with
    | error e =>
      rw [converse, hanswer]
      exact ⟨_, rfl⟩
    | ok a =>
      rw [(converse_of_ok hanswer rest).2.2]
      exact ⟨_, rfl⟩

/-- All that a dialogue shows but the farewell, a dialogue over more lines shows at its start. -/
theorem dropLast_shown_converse (limits : Limits) (debug : Bool) (session : Session)
    (lines more : List String) :
    (converse limits debug session lines).shown.dropLast <+:
      (converse limits debug session (lines ++ more)).shown := by
  induction lines generalizing session with
  | nil =>
    obtain ⟨others, hshown⟩ := exists_shown_converse limits debug session more
    rw [List.nil_append, hshown]
    exact ⟨others, rfl⟩
  | cons line rest ih =>
    rw [List.cons_append]
    cases hanswer : (respond limits debug session line).outcome with
    | error e =>
      -- without an answer the dialogue ends here, whatever lines would follow
      rw [converse, converse, hanswer]
      exact List.dropLast_prefix _
    | ok a =>
      rw [(converse_of_ok hanswer rest).2.2, (converse_of_ok hanswer (rest ++ more)).2.2]
      cases a.finished with
      | true => exact List.dropLast_prefix _
      | false =>
        obtain ⟨others, hshown⟩ := exists_shown_converse limits debug a.session rest
        have hne : (converse limits debug a.session rest).shown ≠ [] := by simp [hshown]
        change List.dropLast (_ ++ (converse limits debug a.session rest).shown) <+:
          _ ++ (converse limits debug a.session (rest ++ more)).shown
        rw [List.dropLast_append_of_ne_nil hne, List.prefix_append_right_inj]
        exact ih a.session

theorem dropLast_shown_dialogue (limits : Limits) (debug : Bool) (lines more : List String) :
    (dialogue limits debug lines).shown.dropLast <+:
      (dialogue limits debug (lines ++ more)).shown := by
  obtain ⟨others, hshown⟩ := exists_shown_converse limits debug {} lines
  have hne : (converse limits debug {} lines).shown ≠ [] := by simp [hshown]
  rw [dialogue, dialogue, List.dropLast_append_of_ne_nil hne, List.prefix_append_right_inj]
  exact dropLast_shown_converse limits debug {} lines more

end Repl

namespace Script

variable {limits : Limits} {debug : Bool} {path : String} {first whole : Lookup}
  {lines more : List String} {result : Result}

/-- The texts that a run has written when it ends, with a result or with a fault. The answers are
written after the last line, and a fault comes before that. -/
def writtenBy (run : Traced Result) : List String :=
  match run.outcome with
  | .ok result => result.written
  | .error _ => []

theorem outcome_run (h : linesOf path first = .ok lines) :
    (run limits debug path first).outcome =
      (Session.runAll limits debug {} lines).outcome.map fun answers => ⟨0, answers.1⟩ := by
  unfold run
  rw [h]
  change (Session.runAll limits debug {} lines >>= _).outcome = _
  rw [outcome_bind]
  cases (Session.runAll limits debug {} lines).outcome <;> rfl

theorem exists_session_of_run (hfirst : linesOf path first = .ok lines)
    (hresult : (run limits debug path first).outcome = .ok result) :
    ∃ session, (Session.runAll limits debug {} lines).outcome = .ok (result.written, session) := by
  rw [outcome_run hfirst] at hresult
  obtain ⟨⟨texts, session⟩, hrun, rfl⟩ := Except.map_eq_ok_iff.mp hresult
  exact ⟨session, hrun⟩

/-- A longer script goes on where the shorter one ended, behind its answers. -/
theorem outcome_run_append {texts : List String} {session : Session}
    (hrun : (Session.runAll limits debug {} lines).outcome = .ok (texts, session))
    (hwhole : linesOf path whole = .ok (lines ++ more)) :
    (run limits debug path whole).outcome =
      if lines.any (quits limits.nesting) then .ok ⟨0, texts⟩
      else (Session.runAll limits debug session more).outcome.map fun others =>
        ⟨0, texts ++ others.1⟩ := by
  rw [outcome_run hwhole, Session.runAll_append hrun]
  split_ifs
  · rfl
  · cases (Session.runAll limits debug session more).outcome <;> rfl

/-- A longer script that is answered to its end has written the answers of the shorter one first. -/
theorem prefix_of_run_append (hfirst : linesOf path first = .ok lines)
    (hwhole : linesOf path whole = .ok (lines ++ more))
    (hresult : (run limits debug path first).outcome = .ok result) {longer : Result}
    (hlonger : (run limits debug path whole).outcome = .ok longer) :
    result.written <+: longer.written := by
  obtain ⟨session, hrun⟩ := exists_session_of_run hfirst hresult
  rw [outcome_run_append hrun hwhole] at hlonger
  split_ifs at hlonger
  · cases hlonger
    exact List.prefix_refl _
  · obtain ⟨others, -, rfl⟩ := Except.map_eq_ok_iff.mp hlonger
    exact List.prefix_append _ _

/-- A longer script that is not answered to its end has a line without an answer among the new ones,
and the answers of the shorter script are the first of those that come before it. -/
theorem exists_line_of_run_append (hfirst : linesOf path first = .ok lines)
    (hwhole : linesOf path whole = .ok (lines ++ more))
    (hresult : (run limits debug path first).outcome = .ok result) {e : Fault}
    (hlonger : (run limits debug path whole).outcome = .error e) :
    ∃ before line after texts session, more = before ++ line :: after ∧
      (lines ++ before).any (quits limits.nesting) = false ∧
      (Session.runAll limits debug {} (lines ++ before)).outcome = .ok (texts, session) ∧
      result.written <+: texts ∧ (session.step limits debug line).outcome = .error e := by
  obtain ⟨middle, hrun⟩ := exists_session_of_run hfirst hresult
  rw [outcome_run_append hrun hwhole] at hlonger
  split_ifs at hlonger with hquits
  obtain ⟨before, line, after, texts, session, rfl, hbefore, hothers, hline⟩ :=
    Session.exists_line_of_runAll_error (Except.map_eq_error_iff.mp hlonger)
  refine ⟨before, line, after, result.written ++ texts, session, rfl, ?_, ?_,
    List.prefix_append _ _, hline⟩
  · rw [List.any_append, hbefore, Bool.or_false]
    simpa using hquits
  · rw [Session.runAll_append hrun, if_neg hquits, hothers]
    rfl

/-- What a longer script keeps of the answers that its first lines get as a script of their own. It
writes them first if it is answered to its end, and otherwise it writes nothing at all. It is not
answered to its end only if one of the further lines exceeds a limit in the session that all lines
before it lead to, where the answers were there already. A dialogue over the same lines has shown
by then all that it shows over the first ones, the farewell excepted. -/
theorem run_longer (hfirst : linesOf path first = .ok lines)
    (hwhole : linesOf path whole = .ok (lines ++ more))
    (hresult : (run limits debug path first).outcome = .ok result) :
    (result.written <+: writtenBy (run limits debug path whole) ↔
      result.written = [] ∨ ∃ longer, (run limits debug path whole).outcome = .ok longer) ∧
    (∀ e, (run limits debug path whole).outcome = .error e →
      writtenBy (run limits debug path whole) = [] ∧ e.ExceedsLimit debug ∧
      ∃ before line after texts session, more = before ++ line :: after ∧
        (lines ++ before).any (quits limits.nesting) = false ∧
        (Session.runAll limits debug {} (lines ++ before)).outcome = .ok (texts, session) ∧
        result.written <+: texts ∧ (session.step limits debug line).outcome = .error e) ∧
    (Repl.dialogue limits debug lines).shown.dropLast <+:
      (Repl.dialogue limits debug (lines ++ more)).shown := by
  refine ⟨?_, fun e he => ?_, Repl.dropLast_shown_dialogue limits debug lines more⟩
  · unfold writtenBy
    cases hlonger : (run limits debug path whole).outcome with
    | ok longer => simp [prefix_of_run_append hfirst hwhole hresult hlonger]
    | error e => simp
  · obtain ⟨before, line, after, texts, session, hmore, hquits, hrun, hwritten, hline⟩ :=
      exists_line_of_run_append hfirst hwhole hresult he
    -- only well-formed sessions are reached, and in these a line fails for a limit or not at all
    have hsession : session.WellFormed := by
      have hfinal := Session.WellFormed.initial.runAll limits debug (lines ++ before)
      rw [hrun] at hfinal
      exact hfinal.result
    refine ⟨?_, hsession.step_failsBy limits debug line hline, before, line, after, texts, session,
      hmore, hquits, hrun, hwritten, hline⟩
    rw [writtenBy, he]

def asciiFile (lines : List String) : Lookup :=
  .ok (.file (("\n".intercalate lines).toList.map Char.toNat))

def cubingLines : List String := ["f := fn [x] x*x*x end;", "print 1;"]

theorem linesOf_cubing : linesOf "script.imp" (asciiFile cubingLines) = .ok cubingLines := rfl

theorem runAll_cubingLines :
    (Session.runAll {} false {} cubingLines).outcome = .ok (["", "1"], cubing) := rfl

theorem run_cubing :
    (run {} false "script.imp" (asciiFile cubingLines)).outcome = .ok ⟨0, ["", "1"]⟩ := by
  rw [outcome_run linesOf_cubing, runAll_cubingLines]
  rfl

theorem linesOf_cubed :
    linesOf "script.imp" (asciiFile (cubingLines ++ [cubedSixTimes])) =
      .ok (cubingLines ++ [cubedSixTimes]) := by rfl

/-- The cube at the end has too many digits to be printed. -/
theorem run_cubed : ∃ e, (run {} false "script.imp"
    (asciiFile (cubingLines ++ [cubedSixTimes]))).outcome = .error e := by
  have hgoes : cubingLines.any (quits 399) = false := rfl
  have hblank : Text.isBlankLine cubedSixTimes = false := by decide +kernel
  have hfault := step_cubedSixTimes
  rw [outcome_run_append runAll_cubingLines linesOf_cubed, hgoes, if_neg Bool.false_ne_true,
    Session.outcome_runAll_cons hblank]
  cases hstep : (cubing.step {} false cubedSixTimes).outcome with
  | ok reply =>
    rw [hstep] at hfault
    exact Bool.noConfusion hfault
  | error e => exact ⟨e, rfl⟩

/-- The answers were there when the cube came to be printed, and they are not written. -/
theorem run_longer_cubed :
    (run {} false "script.imp" (asciiFile cubingLines)).outcome = .ok ⟨0, ["", "1"]⟩ ∧
    writtenBy (run {} false "script.imp" (asciiFile (cubingLines ++ [cubedSixTimes]))) = [] ∧
    (∃ before line after texts session e, [cubedSixTimes] = before ++ line :: after ∧
      (Session.runAll {} false {} (cubingLines ++ before)).outcome = .ok (texts, session) ∧
      ["", "1"] <+: texts ∧ (session.step {} false line).outcome = .error e ∧
      e.ExceedsLimit false) ∧
    (Repl.dialogue {} false cubingLines).shown.dropLast <+:
      (Repl.dialogue {} false (cubingLines ++ [cubedSixTimes])).shown := by
  obtain ⟨-, hlost, htalk⟩ := run_longer linesOf_cubing linesOf_cubed run_cubing
  obtain ⟨e, he⟩ := run_cubed
  obtain ⟨hnone, hlimit, before, line, after, texts, session, hmore, -, hrun, hwritten, hline⟩ :=
    hlost e he
  exact ⟨run_cubing, hnone,
    ⟨before, line, after, texts, session, e, hmore, hrun, hwritten, hline, hlimit⟩, htalk⟩

/-- Not every answer of a script is kept when the script goes on. -/
theorem not_every_answer_is_kept :
    ¬ ∀ (lines more : List String) (first whole : Lookup) (result : Result),
      linesOf "script.imp" first = .ok lines → linesOf "script.imp" whole = .ok (lines ++ more) →
      (run {} false "script.imp" first).outcome = .ok result →
      result.written <+: writtenBy (run {} false "script.imp" whole) := by
  intro h
  have hkept := h _ _ _ _ _ linesOf_cubing linesOf_cubed run_cubing
  obtain ⟨e, he⟩ := run_cubed
  rw [writtenBy, he] at hkept
  exact absurd (List.prefix_nil.mp hkept) (by simp)

end Script

end ImpLang
