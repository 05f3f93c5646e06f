import ImpLang.Proofs.LineOutcome
import ImpLang.Proofs.LongLiteral
import ImpLang.Repl

/-! Lines can be run as a list, entered one by one or typed at the prompt. All that these ways of
running leave behind is what the accepted statements do. They disagree on which lines they hand to
the parser, so what has to be shown is that the lines withheld from it are never accepted. -/
namespace ImpLang

open Traced
open Token (isWordChar)

section Opening

variable {nesting : Nat} {line filename : String} {s : Stmt}

/-- Every statement begins with a keyword or a name. -/
theorem Phrase.Statement.exists_word {ts : List Lexeme} (h : Phrase.Statement ts s) :
    ∃ t us, ts = t :: us ∧ t.isWord = true := by
  obtain ⟨h⟩ := h
  cases h with
  | quit => exact ⟨_, _, rfl, rfl⟩
  | print h => exact ⟨_, _, rfl, rfl⟩
  | ite hc ht he => exact ⟨_, _, rfl, rfl⟩
  | procedure hps hbody => exact ⟨_, _, rfl, rfl⟩
  | call hargs => exact ⟨_, _, rfl, rfl⟩
  | seq hfirst hothers => exact ⟨_, _, rfl, rfl⟩
  | set h => exact ⟨_, _, rfl, rfl⟩

theorem exists_letter_of_parseStatement (h : parseStatement nesting line filename = .ok s) :
    ∃ blanks ch rest, line.toList = blanks ++ ch :: rest ∧
      (∀ b ∈ blanks, Cursor.isSeparator b = true) ∧ ch.isAlpha = true := by
  obtain ⟨ts, hts, hspells, -⟩ := (Grammar.sound_statement nesting).of_parseAll h
  obtain ⟨t, us, rfl, hword⟩ := hts.exists_word
  obtain ⟨blanks, rest, hline, hblanks, hstands, -⟩ := hspells
  obtain ⟨ch, chs, htext⟩ := hstands.proper.exists_text
  refine ⟨blanks, ch, chs ++ rest, ?_, hblanks, ?_⟩
  · rw [hline, htext, List.cons_append]
  · have hhead := hstands.proper.isAlpha_head
    rw [htext, hword] at hhead
    exact hhead

theorem isBlankLine_of_parseStatement (h : parseStatement nesting line filename = .ok s) :
    Text.isBlankLine line = false := by
  obtain ⟨blanks, ch, rest, hline, -, hch⟩ := exists_letter_of_parseStatement h
  have hword := Text.isBlank_eq_false_of_isWordChar (isWordChar_of_isAlpha hch)
  rw [Text.isBlankLine, List.all_eq_false]
  exact ⟨ch, by simp [hline], by simp [hword]⟩

theorem isCommand_of_parseStatement (h : parseStatement nesting line filename = .ok s) :
    Command.isCommand line = false := by
  obtain ⟨blanks, ch, rest, hline, hblanks, hch⟩ := exists_letter_of_parseStatement h
  have hword := Text.isBlank_eq_false_of_isWordChar (isWordChar_of_isAlpha hch)
  have hne : ch ≠ ':' := by
    rintro rfl
    exact absurd hch (by decide)
  have hblank : ∀ b ∈ blanks, Text.isBlank b = true := fun b hb =>
    Text.isBlank_of_isSeparator (hblanks b hb)
  rw [Command.isCommand, Text.toList_trim hline hblank hword]
  simpa using hne

/-- A blank line has no literal, so the parser rejects it like any other text that is no
statement. -/
theorem exists_rejected_of_isBlankLine (nesting : Nat) (h : Text.isBlankLine line = true) :
    ∃ report, parseStatement nesting line filename = .error (.rejected report) := by
  cases hparse : parseStatement nesting line filename with
  | ok s =>
    rw [isBlankLine_of_parseStatement hparse] at h
    exact Bool.noConfusion h
  | error e =>
    rcases Parser.parseAll_fault hparse with ⟨report, rfl⟩ | ⟨n, rfl⟩
    · exact ⟨report, rfl⟩
    · obtain ⟨run, hrun, hdigits, hlength, hlong⟩ := longRun_of_parseStatement hparse
      have hne : run ≠ [] := by
        rintro rfl
        rw [← hlength, List.length_nil] at hlong
        omega
      obtain ⟨ch, hch⟩ := List.exists_mem_of_ne_nil run hne
      have hblank := List.all_eq_true.mp h ch (hrun.subset hch)
      have hword := isWordChar_of_isAsciiDigit (hdigits ch hch)
      rw [Text.isBlank_eq_false_of_isWordChar hword] at hblank
      exact Bool.noConfusion hblank

end Opening

/-- The statement that a line holds, if it is accepted. -/
def statement? (nesting : Nat) (line : String) : Option Stmt :=
  (parseStatement nesting line standardInput).toOption

/-- The statements of the lines that are accepted, up to the first that ends the session. -/
def program (nesting : Nat) (lines : List String) : List Stmt :=
  (lines.filterMap (statement? nesting)).takeWhile (· ≠ .quit)

/-- The session that a statement leaves. A statement that runs too deep is passed over. -/
def Session.after (limits : Limits) (debug : Bool) (session : Session) (s : Stmt) :
    Except Fault Session :=
  match (exec debug limits.depth s session).outcome with
  | .ok effect => .ok effect.session
  | .error .tooDeep => .ok session
  | .error e => .error e

/-- The session that the accepted statements leave when they are executed in order. -/
def Session.reference (limits : Limits) (debug : Bool) (session : Session) (lines : List String) :
    Except Fault Session :=
  (program limits.nesting lines).foldlM (Session.after limits debug) session

def quits (nesting : Nat) (line : String) : Bool :=
  statement? nesting line = some .quit

/-- The lines up to the first that ends the session, and that one. -/
def upToQuit (nesting : Nat) (lines : List String) : List String :=
  lines.take (lines.findIdx (quits nesting) + 1)

/-- Lines that are entered one by one, whatever the answers are. It gives the answers and the
session that is left. -/
def Session.feed (limits : Limits) (debug : Bool) :
    Session → List String → Except Fault (List String × Session)
  | session, [] => .ok ([], session)
  | session, line :: rest => do
    let reply ← (session.step limits debug line).outcome
    let (texts, last) ← Session.feed limits debug reply.session rest
    return (reply.text :: texts, last)

section Reference

variable {limits : Limits} {debug : Bool} {session : Session} {line : String}

theorem Session.reference_of_none (h : statement? limits.nesting line = none)
    (rest : List String) :
    session.reference limits debug (line :: rest) = session.reference limits debug rest := by
  unfold reference program
  rw [List.filterMap_cons_none h]

theorem Session.reference_of_quit (h : statement? limits.nesting line = some .quit)
    (rest : List String) : session.reference limits debug (line :: rest) = .ok session := by
  unfold reference program
  rw [List.filterMap_cons_some h]
  rfl

theorem Session.reference_of_some {s : Stmt} (h : statement? limits.nesting line = some s)
    (hquit : s ≠ .quit) (rest : List String) :
    session.reference limits debug (line :: rest) =
      session.after limits debug s >>= fun next => next.reference limits debug rest := by
  unfold reference program
  rw [List.filterMap_cons_some h, List.takeWhile_cons_of_pos (by simpa using hquit),
    List.foldlM_cons]

/-- What an answered line does to the session and to the reference. -/
theorem Session.step_reference {reply : Reply}
    (h : (session.step limits debug line).outcome = .ok reply) (rest : List String) :
    reply.finished = quits limits.nesting line ∧
    session.reference limits debug (line :: rest) =
      if reply.finished then .ok reply.session else reply.session.reference limits debug rest := by
  have hline := session.step_lineOutcome limits debug line
  rw [h] at hline
  have hparsed {s : Stmt} (hread : parseStatement limits.nesting line standardInput = .ok s) :
      statement? limits.nesting line = some s := by
    rw [statement?, hread]
    rfl
  have hgoes {s : Stmt} (hs : statement? limits.nesting line = some s) (hquit : s ≠ .quit) :
      false = quits limits.nesting line := by
    simp [quits, hs, hquit]
  generalize hreply : (Except.ok reply : Except Fault Reply) = outcome at hline
  -- three of the ways give no answer
  cases hline with
  | unread hread he => cases hreply
  | unrecorded hread hrecord => cases hreply
  | stopped hread hquit hexec he => cases hreply
  | rejected hread =>
    cases hreply
    have hnone : statement? limits.nesting line = none := by
      rw [statement?, hread]
      rfl
    exact ⟨by simp [quits, hnone], Session.reference_of_none hnone rest⟩
  | quit hread =>
    cases hreply
    exact ⟨by simp [quits, hparsed hread], Session.reference_of_quit (hparsed hread) rest⟩
  | @ran s effect hread hquit hrecord hexec =>
    cases hreply
    have hafter : session.after limits debug s = .ok effect.session := by
      rw [Session.after, hexec]
    refine ⟨hgoes (hparsed hread) hquit, ?_⟩
    rw [Session.reference_of_some (hparsed hread) hquit, hafter]
    rfl
  | @tooDeep s hread hquit hexec =>
    cases hreply
    have hafter : session.after limits debug s = .ok session := by
      rw [Session.after, hexec]
    refine ⟨hgoes (hparsed hread) hquit, ?_⟩
    rw [Session.reference_of_some (hparsed hread) hquit, hafter]
    rfl

end Reference

section Runs

variable {limits : Limits} {debug : Bool} {session : Session} {line : String}
  {lines rest : List String}

theorem statement?_of_isBlankLine {nesting : Nat} (h : Text.isBlankLine line = true) :
    statement? nesting line = none := by
  obtain ⟨report, hread⟩ := exists_rejected_of_isBlankLine nesting h
  rw [statement?, hread]
  rfl

theorem quits_of_isBlankLine {nesting : Nat} (h : Text.isBlankLine line = true) :
    quits nesting line = false := by
  simp [quits, statement?_of_isBlankLine h]

theorem statement?_of_isCommand {nesting : Nat} (h : Command.isCommand line = true) :
    statement? nesting line = none := by
  cases hread : parseStatement nesting line standardInput with
  | error e =>
    rw [statement?, hread]
    rfl
  | ok s =>
    rw [isCommand_of_parseStatement hread] at h
    exact Bool.noConfusion h

theorem Session.runAll_of_isBlankLine (h : Text.isBlankLine line = true) :
    Session.runAll limits debug session (line :: rest) =
      Session.runAll limits debug session rest := by
  rw [runAll, if_pos h]

theorem Session.outcome_runAll_cons (h : Text.isBlankLine line = false) :
    (Session.runAll limits debug session (line :: rest)).outcome =
      (session.step limits debug line).outcome >>= fun reply =>
        if reply.finished then .ok ([reply.text], reply.session)
        else (Session.runAll limits debug reply.session rest).outcome.map fun run =>
          (reply.text :: run.1, run.2) := by
  rw [runAll, if_neg (by simp [h]), outcome_bind]
  congr 1
  funext reply
  split
  · rfl
  · rw [outcome_bind]
    cases (Session.runAll limits debug reply.session rest).outcome <;> rfl

theorem Session.of_runAll_cons {texts : List String} {last : Session}
    (hblank : Text.isBlankLine line = false)
    (h : (Session.runAll limits debug session (line :: rest)).outcome = .ok (texts, last)) :
    ∃ reply, (session.step limits debug line).outcome = .ok reply ∧
      (reply.finished = true ∧ texts = [reply.text] ∧ last = reply.session ∨
        reply.finished = false ∧ ∃ others, texts = reply.text :: others ∧
          (Session.runAll limits debug reply.session rest).outcome = .ok (others, last)) := by
  rw [runAll, if_neg (by simp [hblank])] at h
  obtain ⟨reply, hstep, h⟩ := outcome_bind_eq_ok_iff.mp h
  refine ⟨reply, hstep, ?_⟩
  split_ifs at h with hfinished
  · cases h
    exact .inl ⟨hfinished, rfl, rfl⟩
  · obtain ⟨run, hrun, h⟩ := outcome_bind_eq_ok_iff.mp h
    cases h
    exact .inr ⟨by simpa using hfinished, run.1, rfl, hrun⟩

/-- Running lines as a list leaves what their statements leave. -/
theorem Session.reference_of_runAll {texts : List String} {last : Session}
    (h : (Session.runAll limits debug session lines).outcome = .ok (texts, last)) :
    session.reference limits debug lines = .ok last := by
  induction lines generalizing session texts with
  | nil =>
    cases h
    rfl
  | cons line rest ih =>
    cases hblank : Text.isBlankLine line with
    | true =>
      rw [Session.runAll_of_isBlankLine hblank] at h
      rw [Session.reference_of_none (statement?_of_isBlankLine hblank)]
      exact ih h
    | false =>
      obtain ⟨reply, hstep, ⟨hfinished, -, rfl⟩ | ⟨hfinished, others, -, hrest⟩⟩ :=
        Session.of_runAll_cons hblank h
      · rw [(Session.step_reference hstep rest).2, hfinished]
        rfl
      · rw [(Session.step_reference hstep rest).2, hfinished]
        exact ih hrest

theorem upToQuit_of_quits {nesting : Nat} (h : quits nesting line = true) :
    upToQuit nesting (line :: rest) = [line] := by
  simp [upToQuit, List.findIdx_cons, h]

theorem upToQuit_of_not_quits {nesting : Nat} (h : quits nesting line = false) :
    upToQuit nesting (line :: rest) = line :: upToQuit nesting rest := by
  simp [upToQuit, List.findIdx_cons, h]

theorem Session.feed_of_step {reply : Reply}
    (h : (session.step limits debug line).outcome = .ok reply) (rest : List String) :
    session.feed limits debug (line :: rest) =
      (reply.session.feed limits debug rest).map fun run => (reply.text :: run.1, run.2) := by
  rw [feed, h]
  change (reply.session.feed limits debug rest >>= _) = _
  cases reply.session.feed limits debug rest <;> rfl

theorem Session.feed_of_error {e : Fault}
    (h : (session.step limits debug line).outcome = .error e) (rest : List String) :
    session.feed limits debug (line :: rest) = .error e := by
  rw [feed, h]
  rfl

theorem Session.step_of_isBlankLine (limits : Limits) (debug : Bool) (session : Session)
    (h : Text.isBlankLine line = true) :
    ∃ text, (session.step limits debug line).outcome = .ok ⟨text, session, false⟩ := by
  obtain ⟨report, hread⟩ := exists_rejected_of_isBlankLine limits.nesting h
  refine ⟨report.format, ?_⟩
  rw [Session.step, readStatement_of_error hread]

/-- Lines entered one by one, up to the one that ends the session, leave what they leave as a list,
and fail where the list does. -/
theorem Session.feed_upToQuit (limits : Limits) (debug : Bool) (session : Session)
    (lines : List String) :
    (session.feed limits debug (upToQuit limits.nesting lines)).map Prod.snd =
      (Session.runAll limits debug session lines).outcome.map Prod.snd := by
  have hsnd (text : String) (x : Except Fault (List String × Session)) :
      (x.map fun run => (text :: run.1, run.2)).map Prod.snd = x.map Prod.snd := by
    cases x <;> rfl
  induction lines generalizing session with
  | nil => rfl
  | cons line rest ih =>
    cases hblank : Text.isBlankLine line with
    | true =>
      -- the list skips the line, and entered on its own it is rejected
      obtain ⟨text, hstep⟩ := session.step_of_isBlankLine limits debug hblank
      have hquits : quits limits.nesting line = false := quits_of_isBlankLine hblank
      rw [upToQuit_of_not_quits hquits, Session.feed_of_step hstep, hsnd, ih,
        Session.runAll_of_isBlankLine hblank]
    | false =>
      rw [Session.outcome_runAll_cons hblank]
      cases hstep : (session.step limits debug line).outcome with
      | error e =>
        have hfeed := Session.feed_of_error hstep
        cases hquits : quits limits.nesting line with
        | true => rw [upToQuit_of_quits hquits, hfeed]; rfl
        | false => rw [upToQuit_of_not_quits hquits, hfeed]; rfl
      | ok reply =>
        have hfinished := (Session.step_reference hstep rest).1
        change _ = Except.map Prod.snd (if reply.finished then _ else _)
        cases hquits : quits limits.nesting line with
        | true =>
          rw [upToQuit_of_quits hquits, Session.feed_of_step hstep, hfinished, hquits]
          rfl
        | false =>
          rw [upToQuit_of_not_quits hquits, Session.feed_of_step hstep, hfinished, hquits, hsnd, ih]
          exact (hsnd reply.text _).symm

theorem Session.reference_of_feed {texts : List String} {last : Session}
    (h : session.feed limits debug (upToQuit limits.nesting lines) = .ok (texts, last)) :
    session.reference limits debug lines = .ok last := by
  have hlast := session.feed_upToQuit limits debug lines
  rw [h] at hlast
  cases hrun : (Session.runAll limits debug session lines).outcome with
  | error e =>
    rw [hrun] at hlast
    cases hlast
  | ok run =>
    rw [hrun] at hlast
    cases hlast
    exact Session.reference_of_runAll hrun

end Runs

namespace Repl

variable {limits : Limits} {debug : Bool} {session : Session} {line : String}
  {lines : List String}

theorem of_respond {a : Answer} (h : (respond limits debug session line).outcome = .ok a) :
    Command.isCommand line = true ∧ a.session = session ∧ a.finished = false ∨
    ∃ reply, (session.step limits debug line).outcome = .ok reply ∧
      a = ⟨[reply.text], reply.session, reply.finished⟩ := by
  unfold respond at h
  split_ifs at h with hcommand
  · obtain ⟨written, -, h⟩ := outcome_bind_eq_ok_iff.mp h
    cases h
    exact .inl ⟨hcommand, rfl, rfl⟩
  · obtain ⟨reply, hstep, h⟩ := outcome_bind_eq_ok_iff.mp h
    cases h
    exact .inr ⟨reply, hstep, rfl⟩

/-- What stays written of an answer that fails is how the answer begins. -/
theorem begun_prefix_written {a : Answer}
    (h : (respond limits debug session line).outcome = .ok a) : begun line <+: a.written := by
  unfold respond at h
  unfold begun
  split_ifs at h ⊢ with hcommand
  · obtain ⟨written, hrun, h⟩ := outcome_bind_eq_ok_iff.mp h
    rw [Command.run] at hrun
    obtain ⟨texts, -, hrun⟩ := outcome_bind_eq_ok_iff.mp hrun
    -- by injectivity alone: `cases` would compute the heading
    have hwritten : Command.heading line ++ texts = written := Except.ok.inj hrun
    cases h
    exact ⟨texts, hwritten⟩
  · exact List.nil_prefix

/-- A function whose body is too deep to be shown leaves the heading of the listing. -/
example :
    (dialogue ⟨20, 3⟩ false ["f := fn [x] x end;", ":env"]).shown.filterMap Display.written? =
      ["Welcome to your interpreter!", "", "Variables:"] := by
  decide +kernel

theorem converse_of_error {e : Fault}
    (h : (respond limits debug session line).outcome = .error e) (rest : List String) :
    (converse limits debug session (line :: rest)).fault = some e := by
  rw [converse, h]

/-- An answered line either ends the dialogue or leaves the rest of it to the next session. -/
theorem converse_of_ok {a : Answer} (h : (respond limits debug session line).outcome = .ok a)
    (rest : List String) :
    (converse limits debug session (line :: rest)).fault =
      (if a.finished then none else (converse limits debug a.session rest).fault) ∧
    (converse limits debug session (line :: rest)).session =
      (if a.finished then a.session else (converse limits debug a.session rest).session) ∧
    (converse limits debug session (line :: rest)).shown =
      .prompt :: (respond limits debug session line).trace.map .trace ++ a.written.map .write ++
        if a.finished then [] else (converse limits debug a.session rest).shown := by
  rw [converse, h]
  cases hfinished : a.finished with
  | true => simp [hfinished]
  | false => simp [hfinished]

/-- A dialogue leaves what the statements among its lines leave. -/
theorem reference_of_converse (h : (converse limits debug session lines).fault = none) :
    session.reference limits debug lines =
      .ok (converse limits debug session lines).session := by
  induction lines generalizing session with
  | nil => rfl
  | cons line rest ih =>
    cases hanswer : (respond limits debug session line).outcome with
    | error e =>
      rw [converse_of_error hanswer] at h
      cases h
    | ok a =>
      obtain ⟨hfault, hsession, -⟩ := converse_of_ok hanswer rest
      rw [hfault] at h
      rw [hsession]
      rcases of_respond hanswer with ⟨hcommand, hsame, hfinished⟩ | ⟨reply, hstep, rfl⟩
      · -- a command changes nothing, and it holds no statement for the reference either
        rw [Session.reference_of_none (statement?_of_isCommand hcommand), hfinished, hsame]
        rw [hfinished, hsame] at h
        exact ih h
      · rw [(Session.step_reference hstep rest).2]
        cases hfinished : reply.finished with
        | true => rfl
        | false =>
          rw [hfinished] at h
          exact ih h

theorem written_shown (events : List Event) (texts : List String) :
    (Display.prompt :: events.map Display.trace ++ texts.map Display.write).filterMap
      Display.written? = texts := by
  have htraces : (events.map Display.trace).filterMap Display.written? = [] := by
    rw [List.filterMap_map]
    exact List.filterMap_eq_nil_iff.mpr fun _ _ => rfl
  have htexts : (texts.map Display.write).filterMap Display.written? = texts := by
    rw [List.filterMap_map]
    exact List.filterMap_some
  rw [List.filterMap_append, List.filterMap_cons_none rfl, htraces, htexts, List.nil_append]

/-- Without blank lines and commands, a dialogue writes the answers that the lines get as a list,
and takes leave itself if no line does. -/
theorem written_converse
    (hlines : ∀ line ∈ lines, Text.isBlankLine line = false ∧ Command.isCommand line = false)
    {texts : List String} {last : Session}
    (h : (Session.runAll limits debug session lines).outcome = .ok (texts, last)) :
    (converse limits debug session lines).fault = none ∧
    (converse limits debug session lines).shown.filterMap Display.written? =
      texts ++ if lines.any (quits limits.nesting) then [] else [farewell] := by
  induction lines generalizing session texts with
  | nil =>
    cases h
    exact ⟨rfl, rfl⟩
  | cons line rest ih =>
    obtain ⟨⟨hblank, hcommand⟩, hrest⟩ := List.forall_mem_cons.mp hlines
    obtain ⟨reply, hstep, hends⟩ := Session.of_runAll_cons hblank h
    have hquits := (Session.step_reference hstep rest).1
    have hanswer : (respond limits debug session line).outcome =
        .ok ⟨[reply.text], reply.session, reply.finished⟩ := by
      unfold respond
      rw [if_neg (by simp [hcommand]), outcome_bind, hstep]
      rfl
    obtain ⟨hfault, -, hshown⟩ := converse_of_ok hanswer rest
    rw [hfault, hshown, List.filterMap_append, written_shown, List.any_cons, ← hquits]
    rcases hends with ⟨hfinished, rfl, -⟩ | ⟨hfinished, others, rfl, hrun⟩
    · rw [hfinished]
      exact ⟨rfl, rfl⟩
    · obtain ⟨hnone, hwritten⟩ := ih hrest hrun
      rw [hfinished]
      exact ⟨hnone, congrArg (reply.text :: ·) hwritten⟩

end Repl

/-- All ways of running lines leave the session that the accepted statements leave, and a dialogue
without blank lines and commands writes what running the lines as a list answers. -/
theorem drivers_agree (limits : Limits) (debug : Bool) (lines : List String) :
    (∀ texts session, (Session.runAll limits debug {} lines).outcome = .ok (texts, session) →
      Session.reference limits debug {} lines = .ok session) ∧
    ((Repl.dialogue limits debug lines).fault = none →
      Session.reference limits debug {} lines = .ok (Repl.dialogue limits debug lines).session) ∧
    (∀ texts session,
      Session.feed limits debug {} (upToQuit limits.nesting lines) = .ok (texts, session) →
      Session.reference limits debug {} lines = .ok session) ∧
    ((∀ line ∈ lines, Text.isBlankLine line = false ∧ Command.isCommand line = false) →
      ∀ texts session, (Session.runAll limits debug {} lines).outcome = .ok (texts, session) →
        (Repl.dialogue limits debug lines).fault = none ∧
        (Repl.dialogue limits debug lines).shown.filterMap Repl.Display.written? =
          Repl.greeting debug ++ texts ++
            if lines.any (quits limits.nesting) then [] else [farewell]) := by
  refine ⟨fun texts session => Session.reference_of_runAll, Repl.reference_of_converse,
    fun texts session => Session.reference_of_feed, fun hlines texts session h => ?_⟩
  obtain ⟨hfault, hwritten⟩ := Repl.written_converse hlines h
  refine ⟨hfault, ?_⟩
  have hgreeting : ((Repl.greeting debug).map Repl.Display.write).filterMap
      Repl.Display.written? = Repl.greeting debug := by
    rw [List.filterMap_map]
    exact List.filterMap_some
  rw [Repl.dialogue, List.filterMap_append, hgreeting, hwritten, List.append_assoc]

/-- Lines of every kind: a wide space, a command, a rejected one, one that runs too deep, and one
after the end. -/
def mixedLines : List String :=
  ["procedure p() call p(); endproc", "\u3000", "\tx := 1;", ":env", "call p();", "x := ;", "quit;",
   "x := 2;"]

theorem drivers_agree_mixed : ∃ texts session,
    (Session.runAll ⟨30, 30⟩ false {} mixedLines).outcome = .ok (texts, session) ∧
    session.vars = [("x", .int 1)] ∧ session.procedures.keys = ["p"] ∧
    Session.reference ⟨30, 30⟩ false {} mixedLines = .ok session ∧
    Session.reference ⟨30, 30⟩ false {} mixedLines =
      .ok (Repl.dialogue ⟨30, 30⟩ false mixedLines).session ∧
    (∃ answers fed, Session.feed ⟨30, 30⟩ false {} (upToQuit 30 mixedLines) = .ok (answers, fed) ∧
      Session.reference ⟨30, 30⟩ false {} mixedLines = .ok fed) ∧
    (Repl.dialogue ⟨30, 30⟩ false ["x := 1;", "print x / 0;"]).shown.filterMap
      Repl.Display.written? =
        ["Welcome to your interpreter!", "", "exn: Division by 0", "Bye!"] := by
  obtain ⟨hrun, htalk, hfeed, -⟩ := drivers_agree ⟨30, 30⟩ false mixedLines
  refine ⟨_, _, rfl, rfl, rfl, hrun _ _ rfl, htalk rfl, ⟨_, _, rfl, hfeed _ _ rfl⟩, ?_⟩
  have hplain : ∀ line ∈ ["x := 1;", "print x / 0;"],
      Text.isBlankLine line = false ∧ Command.isCommand line = false := by decide
  exact ((drivers_agree ⟨30, 30⟩ false _).2.2.2 hplain _ _ rfl).2

end ImpLang
