import ImpLang.Proofs.LongLiteral
import ImpLang.Proofs.Place

namespace ImpLang

open Token ImpLang.Parser

namespace Cursor

def finish (c : Cursor) : Nat :=
  c.position + c.rest.length

@[simp]
theorem finish_start (cs : List Char) : (start cs).finish = cs.length :=
  Nat.zero_add cs.length

theorem position_le_finish (c : Cursor) : c.position ≤ c.finish :=
  Nat.le_add_right _ _

theorem finish_advance {c : Cursor} {count : Nat} (h : count ≤ c.rest.length) :
    (c.advance count).finish = c.finish := by
  simp only [finish, position_advance, rest_advance, List.length_drop]
  omega

@[simp]
theorem finish_skip (c : Cursor) : c.skip.finish = c.finish :=
  finish_advance (List.takeWhile_prefix _).length_le

/-- A token that stands behind the white space ends inside the text. -/
theorem finish_token {c : Cursor} {w rest : List Char} (h : c.skip.rest = w ++ rest) :
    (c.skip.advance w.length).finish = c.finish := by
  rw [finish_advance, finish_skip]
  rw [h, List.length_append]
  omega

end Cursor

/-- The offset at which a text was rejected. -/
def Failure.offset? : Failure → Option Nat
  | .soft offset _ | .fatal offset _ => some offset
  | .tooDeep | .literalTooLong _ => none

/-- Parsers stay in the text, and no offset they fail at lies behind its end. -/
def insideLaw : Law where
  moves c c' := c'.finish = c.finish
  fails c e := ∀ offset ∈ e.offset?, offset ≤ c.finish
  refl _ := rfl
  trans h h' := h'.trans h
  back hmoves hfails offset hoffset := hmoves ▸ hfails offset hoffset
  renamed h _ _ := h
  committed h := h

theorem insideLaw_fails_soft {c : Cursor} {offset : Nat} {message : String}
    (h : offset ≤ c.finish) : insideLaw.fails c (.soft offset message) := by
  intro offset' hoffset
  cases hoffset
  exact h

namespace Token

theorem skip_position_le_finish (c : Cursor) : c.skip.position ≤ c.finish :=
  c.skip.position_le_finish.trans_eq c.finish_skip

theorem obeys_insideLaw_literal (s : String) : Obeys insideLaw (literal s) := by
  constructor
  · intro c u c' h
    obtain ⟨⟨rest, hr⟩, rfl⟩ := literal_eq_ok_iff.mp h
    exact Cursor.finish_token hr
  · intro c e h
    cases literal_eq_error h
    exact insideLaw_fails_soft (skip_position_le_finish c)

theorem obeys_insideLaw_keyword (w : String) : Obeys insideLaw (keyword w) := by
  constructor
  · intro c u c' h
    obtain ⟨⟨rest, hr, -⟩, rfl⟩ := keyword_eq_ok_iff.mp h
    exact Cursor.finish_token hr
  · intro c e h
    have hskip := skip_position_le_finish c
    rcases keyword_eq_error h with rfl | rfl | ⟨⟨rest, hr⟩, rfl⟩
    · exact insideLaw_fails_soft hskip
    · exact insideLaw_fails_soft ((Nat.sub_le _ _).trans hskip)
    · -- the place behind the word, which stands in the text
      have hend : (c.skip.advance w.length).finish = c.finish := Cursor.finish_token hr.symm
      exact insideLaw_fails_soft ((c.skip.advance w.length).position_le_finish.trans_eq hend)

theorem obeys_insideLaw_identifier : Obeys insideLaw identifier := by
  constructor
  · intro c x c' h
    obtain ⟨⟨rest, hr, -⟩, rfl⟩ := identifier_eq_ok_iff_letters.mp h
    exact Cursor.finish_token hr
  · intro c e h
    rcases identifier_eq_error h with rfl | rfl
    · exact insideLaw_fails_soft c.position_le_finish
    · exact insideLaw_fails_soft (skip_position_le_finish c)

theorem obeys_insideLaw_integer : Obeys insideLaw integer := by
  constructor
  · intro c ds c' h
    obtain ⟨⟨hrun, -⟩, rfl⟩ := integer_eq_ok_iff.mp h
    obtain ⟨rest, hr, -⟩ := takeWhile_eq_iff.mp hrun
    exact Cursor.finish_token hr
  · intro c e h
    cases integer_eq_error h
    exact insideLaw_fails_soft (skip_position_le_finish c)

theorem obeys_insideLaw_endOfText : Obeys insideLaw endOfText := by
  constructor
  · intro c u c' h
    obtain ⟨-, rfl⟩ := endOfText_eq_ok_iff.mp h
    exact c.finish_skip
  · intro c e h
    cases endOfText_eq_error h
    exact insideLaw_fails_soft (skip_position_le_finish c)

end Token

theorem tokens_insideLaw : insideLaw.Tokens := by
  have hinteger : Obeys insideLaw Grammar.intLiteral :=
    Grammar.obeys_intLiteral obeys_insideLaw_integer fun digits c offset hoffset => by cases hoffset
  refine .of_each (fun s _ => obeys_insideLaw_literal s) (fun w _ => obeys_insideLaw_keyword w)
    obeys_insideLaw_identifier hinteger fun c offset hoffset => ?_
  cases hoffset

/-- A rejection other than for the nesting is the report of a failure that every law allows. -/
theorem Parser.Obeys.exists_ofFailure {α : Type} {p : Parser α} {law : Law} (hp : Obeys law p)
    (hend : Obeys law endOfText) {text filename : String} {report : Report}
    (h : p.parseAll text filename = .error (.rejected report))
    (hlocated : report ≠ .nestedTooDeeply filename) : ∃ offset message,
    law.fails (Cursor.start (Text.expandTabs text.toList)) (.fatal offset message) ∧
      report = .ofFailure text (Text.expandTabs text.toList) filename offset message := by
  have hwhole : Obeys law (do
      let a ← p
      Token.endOfText
      return a : Parser α) :=
    hp.bind fun a => hend.bind fun _ => .pure a
  unfold parseAll run at h
  dsimp only at h
  split at h
  · cases h
  · rename_i offset message hfail
    cases h
    exact ⟨offset, message, law.committed (hwhole.fails hfail), rfl⟩
  · rename_i offset message hfail
    cases h
    exact ⟨offset, message, hwhole.fails hfail, rfl⟩
  · cases h
    exact absurd rfl hlocated
  · cases h

/-- The text is rejected with this report, as an expression or as a statement, and not because it is
nested too deeply. -/
structure Rejects (nesting : Nat) (text filename : String) (report : Report) : Prop where
  rejected : parseExpression nesting text filename = .error (.rejected report) ∨
    parseStatement nesting text filename = .error (.rejected report)
  located : report ≠ .nestedTooDeeply filename

theorem Rejects.allowed {nesting : Nat} {text filename : String} {report : Report}
    (h : Rejects nesting text filename report) {law : Law} (htokens : law.Tokens)
    (hend : Obeys law endOfText) : ∃ offset message,
    law.fails (Cursor.start (Text.expandTabs text.toList)) (.fatal offset message) ∧
      report = .ofFailure text (Text.expandTabs text.toList) filename offset message := by
  rcases h.rejected with hexp | hstmt
  · exact (Grammar.obeys_expression htokens nesting).exists_ofFailure hend hexp h.located
  · exact (Grammar.obeys_statement htokens nesting).exists_ofFailure hend hstmt h.located

theorem Rejects.exists_ofFailure {nesting : Nat} {text filename : String} {report : Report}
    (h : Rejects nesting text filename report) : ∃ offset message,
    offset ≤ (Text.expandTabs text.toList).length ∧
      report = .ofFailure text (Text.expandTabs text.toList) filename offset message := by
  obtain ⟨offset, message, hfails, hreport⟩ := h.allowed tokens_insideLaw obeys_insideLaw_endOfText
  have hle := hfails offset rfl
  rw [Cursor.finish_start] at hle
  exact ⟨offset, message, hle, hreport⟩

namespace Report

/-- The text as it was given has the line of every offset of the expanded text, and expanding the
tabs of this line gives what stands there around the offset. -/
theorem exists_lineAt? (text : String) (offset : Nat) : ∃ line,
    lineAt? text (Text.placeOf (Text.expandTabs text.toList) offset).line = some line ∧
    Text.expandTabs line = Text.lineBefore (Text.expandTabs text.toList) offset ++
      Text.lineFrom (Text.expandTabs text.toList) offset := by
  obtain ⟨above, below, hlines, hcount, -⟩ :=
    Text.splitLines_at (Text.expandTabs text.toList) offset
  rw [Text.splitLines_expandTabs] at hlines
  obtain ⟨above', lower, htext, habove, hlower⟩ := List.map_eq_append_iff.mp hlines
  obtain ⟨line, below', rfl, hline, -⟩ := List.map_eq_cons_iff.mp hlower
  refine ⟨line, ?_, hline⟩
  have hlength : above'.length = (Text.placeOf (Text.expandTabs text.toList) offset).line - 1 := by
    rw [← List.length_map (f := Text.expandTabs), habove, hcount, Text.placeOf_eq]
    rfl
  have hpos : 1 ≤ (Text.placeOf (Text.expandTabs text.toList) offset).line := by
    rw [Text.placeOf_eq]
    exact Nat.le_add_left 1 _
  have hindex : (((Text.placeOf (Text.expandTabs text.toList) offset).line : Int) - 1).toNat =
      above'.length := by omega
  rw [lineAt?, if_pos (by omega), hindex, htext]
  simp

structure Inside (text : String) (report : Report) : Prop where
  location_nonneg : 0 ≤ report.location
  location_le : report.location ≤ (Text.expandTabs text.toList).length
  line_pos : 1 ≤ report.line
  line_le : report.line ≤ (Text.splitLines text.toList).length
  column_pos : 1 ≤ report.column
  place : Text.placeOf (Text.expandTabs text.toList) report.location.toNat =
    ⟨report.line.toNat, report.column.toNat⟩
  recovered : report.location =
    Text.offsetOf (Text.expandTabs text.toList) ⟨report.line.toNat, report.column.toNat⟩
  context : ∃ context, report.context = some context ∧ context ≠ ""
  got : ∃ got, report.got = some got ∧ got ≠ "unknown"

theorem caretLine_ne_empty {text : String} {line column : Int} {cs : List Char}
    (h : lineAt? text line = some cs) : caretLine text line column ≠ "" := by
  rw [caretLine, h]
  intro hempty
  have hlast := congrArg (fun s => s.toList.getLast?) hempty
  simp at hlast

theorem found_ne_unknown {text : String} {line column : Int} {cs : List Char}
    (h : lineAt? text line = some cs) : found text line column ≠ "unknown" := by
  rw [found, h]
  dsimp only
  split_ifs
  · decide
  · -- what was found starts with a quote
    intro hunknown
    have hfirst := congrArg (fun s => s.toList.head?) hunknown
    simp at hfirst

theorem inside_ofFailure {text filename message : String} {offset : Nat}
    (h : offset ≤ (Text.expandTabs text.toList).length) :
    (ofFailure text (Text.expandTabs text.toList) filename offset message).Inside text := by
  obtain ⟨line, hline, -⟩ := exists_lineAt? text offset
  have hplace := Text.placeOf_eq (Text.expandTabs text.toList) offset
  have hlines := Text.line_placeOf_le (Text.expandTabs text.toList) offset
  rw [Text.splitLines_expandTabs, List.length_map] at hlines
  exact {
    location_nonneg := Int.natCast_nonneg offset
    location_le := Int.ofNat_le.mpr h
    line_pos := by
      simp only [ofFailure, hplace]
      omega
    line_le := Int.ofNat_le.mpr hlines
    column_pos := by
      simp only [ofFailure, hplace]
      omega
    place := rfl
    recovered := congrArg Nat.cast (Text.offsetOf_placeOf h).symm
    context := ⟨_, rfl, caretLine_ne_empty hline⟩
    got := ⟨_, rfl, found_ne_unknown hline⟩ }

end Report

/-- The place of a rejection lies inside the text: its location in the expanded text, its line also
in the text as it was given, so that there is always a line to show and something found on it. -/
theorem rejection_inside (nesting : Nat) (text filename : String) (report : Report)
    (h : Rejects nesting text filename report) : report.Inside text := by
  obtain ⟨offset, message, hle, rfl⟩ := h.exists_ofFailure
  exact Report.inside_ofFailure hle

theorem rejection_inside_tabs : ∃ report,
    Rejects 9 "do\tx := 1;\r\n\tprint )\tod;" standardInput report ∧
    report.location = 31 ∧ report.line = 2 ∧ report.column = 15 ∧
    report.Inside "do\tx := 1;\r\n\tprint )\tod;" := by
  have h : Rejects 9 "do\tx := 1;\r\n\tprint )\tod;" standardInput _ := ⟨.inr rfl, by decide⟩
  exact ⟨_, h, rfl, rfl, rfl, rejection_inside 9 _ standardInput _ h⟩

end ImpLang
