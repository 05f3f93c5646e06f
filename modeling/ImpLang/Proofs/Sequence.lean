import ImpLang.Proofs.Depth
import ImpLang.Proofs.Drivers
import ImpLang.Proofs.RoundTrip

namespace ImpLang

open Traced
open Token (isWordChar)

section Locality

variable {before : Option Char} {ts us : List Lexeme} {cs rest : List Char}

/-- White space in front of a text does not change what the text spells. -/
theorem Spells.after_separator (h : Spells none ts cs) {ch : Char}
    (hch : Cursor.isSeparator ch = true) : Spells (some ch) ts cs := by
  cases ts with
  | nil => exact h
  | cons t ts =>
    obtain ⟨blanks, rest, rfl, hb, hs, hrest⟩ := h
    refine ⟨blanks, rest, rfl, hb, ⟨hs.proper, ?_, hs.apart_after⟩, hrest⟩
    have hbefore := hs.apart_before
    cases hlast : blanks.getLast? with
    | none =>
      change t.clings ch = false
      exact t.clings_eq_false_of_isSeparator hch
    | some b =>
      rw [hlast] at hbefore
      exact hbefore

/-- A text goes on with another one if no word follows where it ends. -/
theorem Spells.append (h : Spells before ts cs) (hrest : rest.head?.any isWordChar = false)
    (hus : Spells none us rest) : Spells before (ts ++ us) (cs ++ rest) := by
  induction ts generalizing before cs with
  -- what is left of the text is white space, and where there is none nothing follows that clings
  | nil => exact .blanks h (hus.congr_before hrest)
  | cons t ts ih =>
    obtain ⟨blanks, rest', rfl, hb, hs, hrest'⟩ := h
    refine ⟨blanks, rest' ++ rest, by simp, hb, ⟨hs.proper, hs.apart_before, ?_⟩, ih hrest'⟩
    cases rest' with
    | nil => exact any_eq_false_of_imp (fun _ => isWordChar_of_clings) hrest
    | cons ch rest' => exact hs.apart_after

end Locality

def sequenceLine (texts : List String) : String :=
  "do " ++ " ".intercalate texts ++ " od;"

section Reading

variable {nesting : Nat} {filename : String} {texts : List String} {stmts : List Stmt}

theorem toList_intercalate_space (hne : texts ≠ []) :
    (" ".intercalate texts).toList ++ [' '] = texts.flatMap fun text => text.toList ++ [' '] := by
  induction texts with
  | nil => exact absurd rfl hne
  | cons text texts ih =>
    cases texts with
    | nil => simp
    | cons text' texts =>
      have hrest := ih (by simp)
      rw [List.flatMap_cons, ← hrest, String.intercalate_cons_cons]
      simp

theorem toList_sequenceLine (hne : texts ≠ []) : (sequenceLine texts).toList =
    "do".toList ++ ' ' :: (texts.flatMap (fun text => text.toList ++ [' ']) ++ "od;".toList) := by
  rw [← toList_intercalate_space hne, sequenceLine]
  simp

/-- Texts that are accepted one by one spell their statements in a row. -/
theorem spells_statements
    (h : List.Forall₂ (fun text s => parseStatement nesting text filename = .ok s) texts stmts)
    {vs : List Lexeme} {rest : List Char} (hvs : Spells (some ' ') vs rest) :
    ∃ us, Phrase.Many Phrase.Statement us stmts ∧
      (∀ ds, .number ds ∈ us → ds.length ≤ Text.maxDigits) ∧
      Spells (some ' ') (us ++ vs)
        (texts.flatMap (fun text => text.toList ++ [' ']) ++ rest) := by
  induction h with
  | nil => exact ⟨[], .nil, by simp, hvs⟩
  | cons hread _ ih =>
    obtain ⟨ts, hts, hspells, hshort⟩ := (Grammar.sound_statement nesting).of_parseAll hread
    obtain ⟨us, hus, hshort', hrest⟩ := ih
    refine ⟨ts ++ us, .cons hts hus, ?_, ?_⟩
    · intro ds hds
      exact (List.mem_append.mp hds).elim (hshort ds) (hshort' ds)
    · -- the text stands between two spaces, its own and that of the text before it
      rw [List.flatMap_cons, List.append_assoc, List.append_assoc, List.append_assoc]
      exact (hspells.after_separator rfl).append rfl hrest.blank

/-- Between `do` and `od` the texts are read as they are on their own. -/
theorem parseStatement_sequenceLine (hne : texts ≠ [])
    (h : List.Forall₂ (fun text s => parseStatement nesting text filename = .ok s) texts stmts)
    (hdeep : parseStatement nesting (sequenceLine texts) filename ≠
      .error (.rejected (.nestedTooDeeply filename))) :
    parseStatement nesting (sequenceLine texts) filename = .ok (.seq stmts) := by
  have hclose : Spells (some ' ') [.keyword "od", .symbol ";"] "od;".toList := by
    have hod := (Written.keyword (w := "od") (by decide)).joined (s := ";") (by decide) .nil
    have hend : Spells (some ' ') ([.keyword "od", .symbol ";"] ++ []) ("od;".toList ++ []) :=
      hod.spells rfl rfl (by simp [Spells])
    exact hend
  obtain ⟨us, hus, hshort, hspells⟩ := spells_statements h hclose
  cases hus with
  | nil =>
    cases h
    exact absurd rfl hne
  | @cons ts us s stmts hs hstmts =>
    have hline : Spells none (.keyword "do" :: (ts ++ (us ++ [.keyword "od", .symbol ";"])))
        (sequenceLine texts).toList := by
      rw [toList_sequenceLine hne, ← List.append_assoc]
      exact (Written.keyword (w := "do") (by decide)).spells rfl rfl hspells.blank
    apply (Grammar.complete_statement nesting).parseAll trivial (.intro (.seq hs hstmts)) hline
    · intro ds hds
      apply hshort
      simpa using hds
    · exact hdeep

end Reading

section Running

variable {limits : Limits} {debug : Bool} {session : Session} {line : String}

theorem Stmt.height_le_heightList (d : Descent) {s : Stmt} {stmts : List Stmt} (h : s ∈ stmts) :
    s.height d ≤ Stmt.heightList d stmts := by
  induction stmts with
  | nil => cases h
  | cons s' stmts ih =>
    rw [Stmt.heightList]
    rcases List.mem_cons.mp h with rfl | hmem
    · omega
    · have hle := ih hmem
      omega

theorem Limits.Records.of_seq {stmts : List Stmt} (h : limits.Records debug (.seq stmts)) {s : Stmt}
    (hs : s ∈ stmts) : limits.Records debug s := by
  intro hdebug
  have hseq := h hdebug
  have hle := Stmt.height_le_heightList .record hs
  rw [Stmt.height] at hseq
  omega

/-- The line is nested too deeply to be read, or it runs too deep. -/
def Session.Overruns (limits : Limits) (debug : Bool) (session : Session) (line : String) : Prop :=
  parseStatement limits.nesting line standardInput =
      .error (.rejected (.nestedTooDeeply standardInput)) ∨
    ∃ s, parseStatement limits.nesting line standardInput = .ok s ∧
      (exec debug limits.depth s session).outcome = .error .tooDeep

theorem exec_seq_eq_ok {depth : Nat} {stmts : List Stmt} {effect : Effect}
    (h : (exec debug depth (.seq stmts) session).outcome = .ok effect) :
    ∃ d ≤ depth, (execList (exec debug d) stmts session).outcome = .ok effect := by
  cases depth with
  | zero => cases h
  | succ depth =>
    cases depth with
    | zero => cases h
    | succ depth => exact ⟨depth, by omega, h⟩

/-- What a list of statements does within fewer levels, their lines do one by one. -/
theorem Session.feed_of_execList {depth : Nat} (hdepth : depth ≤ limits.depth)
    {texts : List String} {stmts : List Stmt}
    (hread : List.Forall₂ (fun text s => parseStatement limits.nesting text standardInput = .ok s ∧
      s ≠ .quit) texts stmts)
    (hrecord : ∀ s ∈ stmts, limits.Records debug s) {effect : Effect}
    (h : (execList (exec debug depth) stmts session).outcome = .ok effect) :
    ∃ answers, session.feed limits debug texts = .ok (answers, effect.session) ∧
      effect.output = String.join answers := by
  induction hread generalizing session effect with
  | nil =>
    cases h
    exact ⟨[], rfl, rfl⟩
  | @cons text s texts stmts hs _ ih =>
    obtain ⟨hrecord, hrecords⟩ := List.forall_mem_cons.mp hrecord
    rw [execList] at h
    obtain ⟨first, hfirst, h⟩ := outcome_bind_eq_ok_iff.mp h
    obtain ⟨others, hothers, h⟩ := outcome_bind_eq_ok_iff.mp h
    cases h
    -- more levels change nothing, since the statement did not run too deep
    have hsettled : exec debug limits.depth s session = exec debug depth s session := by
      apply exec_settles debug hdepth
      rw [hfirst]
      simp
    rw [← hsettled] at hfirst
    have hstep := Session.step_of_exec hs.1 hs.2 hrecord hfirst
    obtain ⟨answers, hfeed, hjoin⟩ := ih hrecords hothers
    refine ⟨first.output :: answers, ?_, ?_⟩
    · rw [Session.feed_of_step hstep, hfeed]
      rfl
    · rw [String.join_cons, ← hjoin]

end Running

/-- A line with a sequence is accepted as the statements that its texts are on their own, and
running it does what the texts do when they are entered one by one. -/
theorem sequenceLine_eq_lines (limits : Limits) (debug : Bool) (texts : List String)
    (stmts : List Stmt) (hne : texts ≠ [])
    (hread : List.Forall₂ (fun text s => parseStatement limits.nesting text standardInput = .ok s ∧
      s ≠ .quit) texts stmts) :
    (parseStatement limits.nesting (sequenceLine texts) standardInput ≠
        .error (.rejected (.nestedTooDeeply standardInput)) →
      parseStatement limits.nesting (sequenceLine texts) standardInput = .ok (.seq stmts)) ∧
    ((Text.expandTabs (sequenceLine texts).toList).length < limits.nesting →
      parseStatement limits.nesting (sequenceLine texts) standardInput = .ok (.seq stmts)) ∧
    ∀ (session : Session) (reply : Reply), ¬ session.Overruns limits debug (sequenceLine texts) →
      (session.step limits debug (sequenceLine texts)).outcome = .ok reply →
      ∃ answers, session.feed limits debug texts = .ok (answers, reply.session) ∧
        reply.text = String.join answers ∧ reply.finished = false := by
  have hparse := parseStatement_sequenceLine hne (hread.imp fun text s h => h.1)
  refine ⟨hparse, ?_, ?_⟩
  · intro hlength
    exact hparse ((Grammar.within_statement limits.nesting).parseAll_ne hlength standardInput)
  · intro session reply hlimit hreply
    have hseq := hparse fun hdeep => hlimit (.inl hdeep)
    have hline := session.step_lineOutcome limits debug (sequenceLine texts)
    rw [hreply] at hline
    cases hline with
    | rejected hread' => rw [hseq] at hread'; cases hread'
    | quit hread' => rw [hseq] at hread'; cases hread'
    | tooDeep hread' _ hexec => exact absurd (.inr ⟨_, hread', hexec⟩) hlimit
    | ran hread' _ hrecord hexec =>
      rw [hseq] at hread'
      cases hread'
      obtain ⟨depth, hdepth, hlist⟩ := exec_seq_eq_ok hexec
      obtain ⟨answers, hfeed, hjoin⟩ :=
        Session.feed_of_execList hdepth hread (fun s hs => hrecord.of_seq hs) hlist
      exact ⟨answers, hfeed, hjoin, rfl⟩

theorem sequenceLine_eq_lines_tabs :
    sequenceLine ["\tx :=\t8/ 2; ", "print x\n/=2;"] = "do \tx :=\t8/ 2;  print x\n/=2; od;" ∧
    parseStatement 99 "do \tx :=\t8/ 2;  print x\n/=2; od;" standardInput =
      .ok (.seq [.set "x" (.binary .div (.int 8) (.int 2)),
        .print (.binary .ne (.var "x") (.int 2))]) ∧
    ∃ answers, Session.feed ⟨99, 30⟩ true {} ["\tx :=\t8/ 2; ", "print x\n/=2;"] =
        .ok (answers, { vars := [("x", .int 4)] }) ∧
      "True" = String.join answers := by
  have hread : List.Forall₂ (fun text s => parseStatement 99 text standardInput = .ok s ∧
      s ≠ .quit) ["\tx :=\t8/ 2; ", "print x\n/=2;"]
      [.set "x" (.binary .div (.int 8) (.int 2)), .print (.binary .ne (.var "x") (.int 2))] :=
    .cons ⟨rfl, by decide⟩ (.cons ⟨rfl, by decide⟩ .nil)
  obtain ⟨-, hparse, hrun⟩ := sequenceLine_eq_lines ⟨99, 30⟩ true _ _ (by simp) hread
  have hseq := hparse (by decide)
  have hlimit : ¬ Session.Overruns ⟨99, 30⟩ true {}
      (sequenceLine ["\tx :=\t8/ 2; ", "print x\n/=2;"]) := by
    rintro (hdeep | ⟨s, hs, hexec⟩)
    · rw [hseq] at hdeep
      cases hdeep
    · rw [hseq] at hs
      cases hs
      cases hexec
  obtain ⟨answers, hfeed, hjoin, -⟩ := hrun {} _ hlimit rfl
  exact ⟨rfl, hseq, answers, hfeed, hjoin⟩

end ImpLang
