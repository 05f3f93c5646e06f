import ImpLang.Proofs.Embedding
import ImpLang.Proofs.Excerpt

/-! Statements that lack their last semicolon. Everything before it is read, and then the semicolon
is missed at the end of the text. A form that a keyword leads is committed by then, and its report
asks for the semicolon. An assignment is not: its failure goes on as that of any statement, so the
report asks for a statement and gives no hint. -/
namespace ImpLang

open Token ImpLang.Parser

/-- The lexeme that a text with a semicolon at its end ends with is that semicolon. -/
theorem Spells.exists_semicolon {before : Option Char} {ts : List Lexeme} {cs : List Char}
    (h : Spells before ts (cs ++ [';'])) : ∃ us, ts = us ++ [.symbol ";"] := by
  rcases List.eq_nil_or_concat' ts with rfl | ⟨us, t, rfl⟩
  · exact absurd (h ';' (by simp)) (by decide)
  · have hproper : t.Proper := h.proper (by simp)
    obtain ⟨front, blanks, hcs, -, -⟩ := h.exists_last (by decide)
    have hlast : t.text.getLast? = some ';' := by
      have hends := congrArg List.getLast? hcs
      obtain ⟨last, hl⟩ := Option.isSome_iff_exists.mp
        (List.getLast?_isSome.mpr hproper.text_ne_nil)
      simpa [List.getLast?_append, hl] using hends.symm
    have hmem : ';' ∈ t.text := List.mem_of_getLast? hlast
    cases t with
    | number ds => exact absurd (hproper.2 _ hmem) (by decide)
    | name x => exact absurd (hproper.2.1 _ hmem) (by decide)
    | keyword w => exact absurd (isAlpha_of_mem_reservedWords hproper _ hmem) (by decide)
    | symbol s =>
      have hone : ∀ s ∈ symbols, s.toList.getLast? = some ';' → s = ";" := by decide
      exact ⟨us, by rw [hone s hproper hlast]⟩

def Stmt.assigns : Stmt → Bool
  | .set _ _ => true
  | _ => false

/-- What a report asks for if the semicolon of the statement is missing. -/
def Stmt.wanted (s : Stmt) : String :=
  if s.assigns then "Expected a statement" else "Expected ';'"

def Report.semicolonHint : String :=
  "Statements end with ';' (procedure and if statements end with 'endproc' and 'fi')"

/-- At the end of the text every symbol is missed. -/
theorem Cursor.At.literal_of_nil {c : Cursor} {s : String} (h : c.At []) (hs : s.toList ≠ []) :
    Token.literal s c = .error (.soft c.finish ("Expected " ++ inQuotes s)) := by
  have hskip := skip_eq (c := c) (List.append_nil _).symm h.spells rfl
  have hrest : c.skip.rest = [] := by rw [hskip]
  have hplace : c.skip.position = c.finish := by
    rw [← c.finish_skip, finish, hrest, List.length_nil, Nat.add_zero]
  have hnot : s.toList.isPrefixOf c.skip.rest = false := by
    rw [hrest]
    cases hcs : s.toList with
    | nil => exact absurd hcs hs
    | cons ch cs => rfl
  simp only [Token.literal, hnot, hplace, Bool.false_eq_true, ↓reduceIte]

namespace Parser

variable {α β : Type} {p q : Parser α} {c : Cursor} {failure : Nat → Failure}

/-- The parser fails at the end of the text, unless the text is nested too deeply. -/
def FailsAtEnd (failure : Nat → Failure) (p : Parser α) (c : Cursor) : Prop :=
  p c = .error .tooDeep ∨ p c = .error (failure c.finish)

/-- What is read before the failure is read inside the text, so its end stays the same. -/
theorem FailsAtEnd.bind {f : α → Parser β} {a : α} {us : List Lexeme} (hp : Yields p c a us)
    (hinside : Obeys insideLaw p) (hf : ∀ c', c'.At us → FailsAtEnd failure (f a) c') :
    FailsAtEnd failure (p >>= f) c := by
  rcases hp with hdeep | ⟨c', hok, hat⟩
  · exact .inl (bind_of_error hdeep)
  · have hfinish : c'.finish = c.finish := hinside.moves hok
    rw [FailsAtEnd, bind_of_ok hok, ← hfinish]
    exact hf c' hat

theorem FailsAtEnd.bind_left {f : α → Parser β} (h : FailsAtEnd failure p c) :
    FailsAtEnd failure (p >>= f) c :=
  h.imp bind_of_error bind_of_error

theorem FailsAtEnd.commit {message : String} (h : FailsAtEnd (.soft · message) p c) :
    FailsAtEnd (.fatal · message) (commit p) c := by
  rcases h with hdeep | hsoft
  · exact .inl (by simp only [Parser.commit, hdeep])
  · exact .inr (by simp only [Parser.commit, hsoft])

theorem FailsAtEnd.either_left {message : String} (h : FailsAtEnd (.fatal · message) p c) :
    FailsAtEnd (.fatal · message) (either p q) c := by
  rcases h with hdeep | hfatal
  · exact .inl (either_of_tooDeep hdeep)
  · exact .inr (by simp only [either, hfatal])

theorem FailsAtEnd.either_right {message : String} (hp : p.Soft c)
    (h : FailsAtEnd (.fatal · message) q c) : FailsAtEnd (.fatal · message) (either p q) c :=
  h.imp (fun hdeep => either_of_soft hp hdeep (by simp))
    (fun hfatal => either_of_soft hp hfatal (by simp))

def FailsFrom (bound : Nat) (p : Parser α) (c : Cursor) : Prop :=
  p c = .error .tooDeep ∨ ∃ offset message, bound ≤ offset ∧ p c = .error (.soft offset message)

/-- Of two soft failures the one that came further is kept. -/
theorem FailsFrom.either_right {bound : Nat} (hp : p.Soft c) (h : FailsFrom bound q c) :
    FailsFrom bound (either p q) c := by
  rcases h with hdeep | ⟨offset', message', hle, hq⟩
  · exact .inl (either_of_soft hp hdeep (by simp))
  · obtain ⟨offset, message, hp⟩ := hp
    right
    simp only [either, hp, hq]
    split_ifs with hlt
    · exact ⟨offset', message', hle, rfl⟩
    · exact ⟨offset, message, by omega, rfl⟩

/-- No failure comes further than the end. -/
theorem FailsFrom.named {message : String} (h : FailsFrom c.finish p c) (hp : Obeys insideLaw p) :
    FailsAtEnd (.soft · message) (named message p) c := by
  rcases h with hdeep | ⟨offset, message', hle, hsoft⟩
  · exact .inl (by simp only [Parser.named, hdeep])
  · have hinside : offset ≤ c.finish := hp.fails hsoft offset rfl
    obtain rfl : offset = c.finish := by omega
    exact .inr (by simp only [Parser.named, hsoft])

theorem FailsAtEnd.named_fatal {message message' : String} (h : FailsAtEnd (.fatal · message) p c) :
    FailsAtEnd (.fatal · message) (named message' p) c := by
  rcases h with hdeep | hfatal
  · exact .inl (by simp only [named, hdeep])
  · exact .inr (by simp only [named, hfatal])

theorem parseAll_of_failsAtEnd {text filename message : String}
    (h : FailsAtEnd (.soft · message) p (Cursor.start (Text.expandTabs text.toList)) ∨
      FailsAtEnd (.fatal · message) p (Cursor.start (Text.expandTabs text.toList)))
    (hdeep : p.parseAll text filename ≠ .error (.rejected (.nestedTooDeeply filename))) :
    p.parseAll text filename = .error (.rejected (.ofFailure text (Text.expandTabs text.toList)
      filename (Text.expandTabs text.toList).length message)) := by
  rcases h with (h | h) | (h | h)
  · exact absurd (parseAll_eq_nestedTooDeeply_iff.mpr h) hdeep
  · simp only [Parser.parseAll, run, bind_of_error h, Cursor.finish_start]
  · exact absurd (parseAll_eq_nestedTooDeeply_iff.mpr h) hdeep
  · simp only [Parser.parseAll, run, bind_of_error h, Cursor.finish_start]

end Parser

namespace Grammar

open Phrase

variable {nesting : Nat} {c : Cursor}

theorem semicolon_failsAtEnd {α : Type} (hc : c.At []) (f : Unit → Parser α) :
    FailsAtEnd (.soft · "Expected ';'") (literal ";" >>= f) c :=
  .bind_left (.inr (hc.literal_of_nil (by decide)))

theorem quitStmt_failsAtEnd (hc : c.At [.keyword "quit"]) :
    FailsAtEnd (.fatal · "Expected ';'") quitStmt c := by
  refine .bind (.of_ok hc.keyword) (obeys_insideLaw_keyword _) fun c₁ h₁ => .commit ?_
  exact semicolon_failsAtEnd h₁ _

theorem printStmt_failsAtEnd {ts : List Lexeme} {e : Exp} (he : Expression ts e)
    (hc : c.At (.keyword "print" :: ts)) :
    FailsAtEnd (.fatal · "Expected ';'") (printStmt (expression nesting)) c := by
  refine .bind (.of_ok hc.keyword) (obeys_insideLaw_keyword _) fun c₁ h₁ => .commit ?_
  rw [← List.append_nil ts] at h₁
  refine .bind (complete_expression nesting he (stops_nil 5) h₁)
    (obeys_expression tokens_insideLaw nesting) fun c₂ h₂ => ?_
  exact semicolon_failsAtEnd h₂ _

theorem callStmt_failsAtEnd {f : String} {as : List Lexeme} {args : List Exp}
    (has : Listed (.symbol ",") Expression as args)
    (hc : c.At (.keyword "call" :: .name f :: .symbol "(" :: (as ++ [.symbol ")"]))) :
    FailsAtEnd (.fatal · "Expected ';'") (callStmt (expression nesting)) c := by
  have hargs : Obeys insideLaw (arguments (expression nesting)) :=
    .listOf (obeys_insideLaw_literal _) (obeys_expression tokens_insideLaw nesting)
  refine .bind (.of_ok hc.keyword) (obeys_insideLaw_keyword _) fun c₁ h₁ => .commit ?_
  refine .bind (.of_ok h₁.identifier) obeys_insideLaw_identifier fun c₂ h₂ => ?_
  refine .bind (.of_ok h₂.literal) (obeys_insideLaw_literal _) fun c₃ h₃ => ?_
  refine .bind (yields_arguments (complete_expression nesting)
    (fun d hd => expression_balks nesting hd) has h₃) hargs fun c₄ h₄ => ?_
  refine .bind (.of_ok h₄.literal) (obeys_insideLaw_literal _) fun c₅ h₅ => ?_
  exact semicolon_failsAtEnd h₅ _

theorem seqStmt_failsAtEnd {ts rest : List Lexeme} {s : Stmt} {others : List Stmt}
    (hs : Statement ts s) (hothers : Many Statement rest others)
    (hc : c.At (.keyword "do" :: (ts ++ (rest ++ [.keyword "od"])))) :
    FailsAtEnd (.fatal · "Expected ';'") (seqStmt (statement nesting)) c := by
  have hinside := obeys_statement tokens_insideLaw nesting
  refine .bind (.of_ok hc.keyword) (obeys_insideLaw_keyword _) fun c₁ h₁ => .commit ?_
  refine .bind (complete_statement nesting hs trivial h₁) hinside fun c₂ h₂ => ?_
  refine .bind ((complete_statement nesting).many (fun _ _ _ _ => trivial) statement_ne_nil trivial
    (fun d hd => statement_balks nesting hd) hothers h₂) hinside.many fun c₃ h₃ => ?_
  refine .bind (.of_ok h₃.keyword) (obeys_insideLaw_keyword _) fun c₄ h₄ => ?_
  exact semicolon_failsAtEnd h₄ _

/-- An assignment is not committed, so its failure stays soft. -/
theorem setStmt_failsAtEnd {x : String} {ts : List Lexeme} {e : Exp} (he : Expression ts e)
    (hc : c.At (.name x :: .symbol ":=" :: ts)) :
    FailsAtEnd (.soft · "Expected ';'") (setStmt (expression nesting)) c := by
  refine .bind (.of_ok hc.identifier) obeys_insideLaw_identifier fun c₁ h₁ => ?_
  refine .bind (.of_ok h₁.literal) (obeys_insideLaw_literal _) fun c₂ h₂ => ?_
  rw [← List.append_nil ts] at h₂
  refine .bind (complete_expression nesting he (stops_nil 5) h₂)
    (obeys_expression tokens_insideLaw nesting) fun c₃ h₃ => ?_
  exact semicolon_failsAtEnd h₃ _

/-- All forms of statements that end in a semicolon miss it, those that a keyword leads fatally. -/
theorem statements_fail (nesting : Nat) {us : List Lexeme} {s : Stmt}
    (hs : Command Expression Statement (us ++ [.symbol ";"]) s) (hc : c.At us) :
    if s.assigns then FailsFrom c.finish (statements (expression nesting) (statement nesting)) c
    else FailsAtEnd (.fatal · "Expected ';'")
      (statements (expression nesting) (statement nesting)) c := by
  -- a form that another keyword leads is passed over
  have hother {α : Type} {w : String} (hw : w ∈ reservedWords)
      (hhead : us.head? ≠ some (.keyword w)) {f : Unit → Parser α} :
      (keyword w >>= f).Soft c :=
    (hc.keyword_soft hw hhead).bind
  generalize hts : us ++ [Lexeme.symbol ";"] = ts at hs
  cases hs with
  | quit =>
    obtain rfl : us = [.keyword "quit"] := List.append_cancel_right hts
    exact .either_left (quitStmt_failsAtEnd hc)
  | @print ts e he =>
    obtain rfl : us = .keyword "print" :: ts := List.append_cancel_right hts
    exact .either_right (hother (by decide) (by simp)) <|
      .either_left (printStmt_failsAtEnd he hc)
  | ite hx ht he =>
    -- a conditional ends in its keyword, and so does a declaration
    have hlast := congrArg List.getLast? hts
    simp [List.getLast?_cons] at hlast
  | procedure hps hbody =>
    have hlast := congrArg List.getLast? hts
    simp [List.getLast?_cons] at hlast
  | @call f as args has =>
    have heq : us ++ [.symbol ";"] =
        .keyword "call" :: .name f :: .symbol "(" :: (as ++ [.symbol ")"]) ++ [.symbol ";"] := by
      simpa using hts
    obtain rfl := List.append_cancel_right heq
    exact .either_right (hother (by decide) (by simp)) <|
      .either_right (hother (by decide) (by simp)) <|
      .either_right (hother (by decide) (by simp)) <|
      .either_right (hother (by decide) (by simp)) <|
      .either_left (callStmt_failsAtEnd has hc)
  | @seq ts rest s others hs hothers =>
    have heq : us ++ [.symbol ";"] =
        .keyword "do" :: (ts ++ (rest ++ [.keyword "od"])) ++ [.symbol ";"] := by
      simpa using hts
    obtain rfl := List.append_cancel_right heq
    exact .either_right (hother (by decide) (by simp)) <|
      .either_right (hother (by decide) (by simp)) <|
      .either_right (hother (by decide) (by simp)) <|
      .either_right (hother (by decide) (by simp)) <|
      .either_right (hother (by decide) (by simp)) <|
      .either_left (seqStmt_failsAtEnd hs hothers hc)
  | @set x ts e he =>
    obtain rfl : us = .name x :: .symbol ":=" :: ts := List.append_cancel_right hts
    -- tried last, and all that was tried before it has failed softly, not behind the end
    have hset : FailsFrom c.finish (setStmt (expression nesting)) c :=
      (setStmt_failsAtEnd he hc).imp id fun hsoft => ⟨_, _, le_rfl, hsoft⟩
    exact .either_right (hother (by decide) (by simp)) <|
      .either_right (hother (by decide) (by simp)) <|
      .either_right (hother (by decide) (by simp)) <|
      .either_right (hother (by decide) (by simp)) <|
      .either_right (hother (by decide) (by simp)) <|
      .either_right (hother (by decide) (by simp)) hset

theorem statement_failsAtEnd (nesting : Nat) {us : List Lexeme} {s : Stmt}
    (hs : Statement (us ++ [.symbol ";"]) s) (hc : c.At us) :
    FailsAtEnd (.soft · s.wanted) (Grammar.statement nesting) c ∨
      FailsAtEnd (.fatal · s.wanted) (Grammar.statement nesting) c := by
  cases nesting with
  | zero => exact .inl (.inl rfl)
  | succ nesting =>
    obtain ⟨hs⟩ := hs
    have hfail := statements_fail nesting hs hc
    unfold Stmt.wanted
    split_ifs at hfail ⊢
    · exact .inl (hfail.named (obeys_statements tokens_insideLaw
        (obeys_expression tokens_insideLaw nesting) (obeys_statement tokens_insideLaw nesting)))
    · exact .inr hfail.named_fatal

end Grammar

theorem Text.length_le_expandTabsFrom (column : Nat) (cs : List Char) :
    cs.length ≤ (expandTabsFrom column cs).length := by
  induction cs generalizing column with
  | nil => exact Nat.zero_le _
  | cons ch cs ih =>
    have hgap : 1 ≤ tabWidth - column % tabWidth :=
      Nat.sub_pos_of_lt (Nat.mod_lt column (by decide))
    have htab := ih (column + (tabWidth - column % tabWidth))
    have hbreak := ih 0
    have hnext := ih (column + 1)
    unfold expandTabsFrom
    dsimp only
    split_ifs
    · simp only [List.length_append, List.length_replicate, List.length_cons]
      omega
    · simp only [List.length_cons]
      omega
    · simp only [List.length_cons]
      omega

/-- At the end of the text nothing is left of the line that is shown: in the expanded text it is at
least as long. -/
theorem Report.got_ofFailure_end (text filename message : String) :
    (ofFailure text (Text.expandTabs text.toList) filename (Text.expandTabs text.toList).length
      message).got = some "end of line" := by
  obtain ⟨report, hreport⟩ : ∃ report, report = ofFailure text (Text.expandTabs text.toList)
    filename (Text.expandTabs text.toList).length message := ⟨_, rfl⟩
  obtain ⟨line, -, hexpand, -, hgot, -⟩ := ofFailure_shows hreport
  have hafter : report.after text = [] := by
    rw [hreport]
    simp [after, ofFailure, Text.lineFrom]
  have hle : line.length ≤ (report.before text).length := by
    have hlength := Text.length_le_expandTabsFrom 0 line
    rwa [← Text.expandTabs, hexpand, hafter, List.append_nil] at hlength
  rw [List.drop_eq_nil_of_le hle] at hgot
  rw [← hreport, hgot]
  rfl

/-- A text that lacks only the semicolon at the end of a statement is rejected there, at the end of
the line. The report asks for the semicolon and gives the hint for it, except for an assignment:
there it asks for a statement and gives no hint. -/
theorem missing_semicolon (nesting : Nat) (text filename : String) (s : Stmt)
    (haccepted : parseStatement nesting (text ++ ";") filename = .ok s)
    (hdeep : parseStatement nesting text filename ≠
      .error (.rejected (.nestedTooDeeply filename))) :
    ∃ report, parseStatement nesting text filename = .error (.rejected report) ∧
      report.location = (Text.expandTabs text.toList).length ∧ report.message = s.wanted ∧
      report.got = some "end of line" ∧
      report.suggestions = if s.assigns then [] else [Report.semicolonHint] := by
  obtain ⟨ts, hts, hspells, hshort⟩ := (Grammar.sound_statement nesting).of_parseAll haccepted
  rw [String.toList_append] at hspells
  obtain ⟨us, rfl⟩ := hspells.exists_semicolon
  have hat : (Cursor.start (Text.expandTabs text.toList)).At us := by
    refine ⟨spells_expandTabsFrom_iff.mpr (Spells.semicolon_iff.mp hspells), fun ds hds => ?_⟩
    exact hshort ds (List.mem_append_left _ hds)
  have hreport := parseAll_of_failsAtEnd (Grammar.statement_failsAtEnd nesting hts hat) hdeep
  have hgot := Report.got_ofFailure_end text filename s.wanted
  refine ⟨_, hreport, rfl, rfl, hgot, ?_⟩
  have hsuggest := Option.some.inj hgot
  simp only [Report.ofFailure] at hsuggest ⊢
  rw [hsuggest]
  unfold Stmt.wanted
  split_ifs <;> decide

theorem missing_semicolon_sequence : ∃ report,
    parseStatement 9 ("do x := 1;\n\tcall f(x); od\t" ++ ";") standardInput =
      .ok (.seq [.set "x" (.int 1), .call "f" [.var "x"]]) ∧
    parseStatement 9 "do x := 1;\n\tcall f(x); od\t" standardInput = .error (.rejected report) ∧
    report.location = 35 ∧ report.message = "Expected ';'" ∧ report.got = some "end of line" ∧
    report.suggestions = [Report.semicolonHint] := by
  have haccepted : parseStatement 9 ("do x := 1;\n\tcall f(x); od\t" ++ ";") standardInput =
      .ok (.seq [.set "x" (.int 1), .call "f" [.var "x"]]) := rfl
  obtain ⟨report, hreport, hlocation, hmessage, hgot, hsuggestions⟩ :=
    missing_semicolon 9 "do x := 1;\n\tcall f(x); od\t" standardInput _ haccepted
      (fun h => absurd h (by decide))
  exact ⟨report, haccepted, hreport, hlocation, hmessage, hgot, hsuggestions⟩

/-- The hint is missing for the shortest of all assignments. -/
theorem not_every_missing_semicolon_hinted : ¬ ∀ nesting text filename s report,
    parseStatement nesting (text ++ ";") filename = .ok s →
    parseStatement nesting text filename = .error (.rejected report) →
    report ≠ .nestedTooDeeply filename → Report.semicolonHint ∈ report.suggestions := by
  intro hhinted
  have haccepted : parseStatement 9 ("x := 5" ++ ";") standardInput = .ok (.set "x" (.int 5)) := rfl
  have hrejected : parseStatement 9 "x := 5" standardInput = .error (.rejected _) := rfl
  exact absurd (hhinted 9 _ standardInput _ _ haccepted hrejected (by decide)) (by decide)

end ImpLang
