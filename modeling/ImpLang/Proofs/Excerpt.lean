import ImpLang.Proofs.FailurePlace

namespace ImpLang

theorem Text.slice_natCast (low count : Nat) (cs : List Char) :
    slice low (low + count) cs = (cs.drop low).take count := by
  have hlow : boundOffset cs.length low = min low cs.length := by
    rw [boundOffset, if_neg (by omega)]
    rfl
  have hhigh : boundOffset cs.length (low + count) = min (low + count) cs.length := by
    rw [boundOffset, if_neg (by omega)]
    rfl
  rw [slice, hlow, hhigh, List.drop_take]
  rcases Nat.le_total low cs.length with hle | hle
  · rw [Nat.min_eq_left hle, List.take_eq_take_iff, List.length_drop]
    omega
  · rw [Nat.min_eq_right hle, List.drop_length, List.drop_eq_nil_of_le hle, List.take_nil,
      List.take_nil]

namespace Report

/-- What stands in the expanded text before the place of the report, on the same line. -/
def before (text : String) (report : Report) : List Char :=
  Text.lineBefore (Text.expandTabs text.toList) report.location.toNat

/-- What stands in the expanded text from the place of the report on, on the same line. -/
def after (text : String) (report : Report) : List Char :=
  Text.lineFrom (Text.expandTabs text.toList) report.location.toNat

/-- Up to ten characters in quotes, or the note that nothing is left of the line. -/
def excerpt (cs : List Char) : String :=
  let piece := Text.trim (String.ofList (cs.take 10))
  if piece = "" then "end of line" else "'" ++ piece ++ "'"

def pointed (line : List Char) (count : Nat) : String :=
  "    " ++ String.ofList line ++ "\n    " ++ Text.spaces count ++ "^"

/-- The line is shown up to the place as it is in the expanded text, and so is the character
there. -/
def Aligned (text : String) (report : Report) (line : List Char) : Prop :=
  line.take (report.before text).length = report.before text ∧
    (line.drop (report.before text).length).head? = (report.after text).head?

/-- The report says what stands at its place, and the caret stands under it. -/
structure Accurate (text : String) (report : Report) : Prop where
  got : report.got = some (excerpt (report.after text))
  caret : ∃ line, lineAt? text report.line = some line ∧
    report.context = some (pointed line (report.before text).length) ∧ report.Aligned text line

section Shown

variable {text filename message : String} {number : Int} {offset : Nat} {line : List Char}

theorem found_eq_excerpt (h : lineAt? text number = some line) (count : Nat) :
    found text number (count + 1 : Nat) = excerpt (line.drop count) := by
  have hlow : ((count + 1 : Nat) : Int) - 1 = count := by omega
  have hhigh : ((count + 1 : Nat) : Int) + 9 = count + (10 : Nat) := by omega
  rw [found, h, hlow, hhigh]
  dsimp only
  rw [Text.slice_natCast]
  rfl

theorem caretLine_eq_pointed (h : lineAt? text number = some line) (count : Nat) :
    caretLine text number (count + 1 : Nat) = pointed line count := by
  have hcount : ((count + 1 : Nat) : Int) - 1 = count := by omega
  rw [caretLine, h, hcount]
  rfl

/-- A report shows its line as it was given, and cuts out what stands there behind the column that
was found in the expanded text. -/
theorem ofFailure_shows {report : Report}
    (h : report = ofFailure text (Text.expandTabs text.toList) filename offset message) :
    ∃ line, lineAt? text report.line = some line ∧
      Text.expandTabs line = report.before text ++ report.after text ∧
      report.column = (report.before text).length + 1 ∧
      report.got = some (excerpt (line.drop (report.before text).length)) ∧
      report.context = some (pointed line (report.before text).length) := by
  subst h
  obtain ⟨line, hline, hexpand⟩ := exists_lineAt? text offset
  have hcolumn : (Text.placeOf (Text.expandTabs text.toList) offset).column =
      (Text.lineBefore (Text.expandTabs text.toList) offset).length + 1 := by
    rw [Text.placeOf_eq]
  have hgot := found_eq_excerpt hline (Text.lineBefore (Text.expandTabs text.toList) offset).length
  have hcaret :=
    caretLine_eq_pointed hline (Text.lineBefore (Text.expandTabs text.toList) offset).length
  rw [← hcolumn] at hgot hcaret
  exact ⟨line, hline, hexpand, congrArg Nat.cast hcolumn, congrArg some hgot,
    congrArg some hcaret⟩

/-- Up to the first tab a line stands as it does in the expanded text. -/
theorem stands_of_no_tab {front back : List Char} (hexpand : Text.expandTabs line = front ++ back)
    {count : Nat} (htab : '\t' ∉ line.take (front.length + count)) :
    line.take front.length = front ∧ (line.drop front.length).take count = back.take count := by
  have htake (n : Nat) (hn : n ≤ front.length + count) : line.take n = (front ++ back).take n := by
    have hno : '\t' ∉ line.take n := fun hmem => htab (List.take_subset_take_left line hn hmem)
    rw [← hexpand, Text.take_expandTabs hno]
  constructor
  · rw [htake _ (Nat.le_add_right _ _), List.take_left]
  · rw [List.take_drop, htake _ le_rfl, ← List.take_drop, List.drop_left]

theorem aligned_of_no_tab {report : Report}
    (hexpand : Text.expandTabs line = report.before text ++ report.after text)
    (htab : '\t' ∉ line.take ((report.before text).length + 1)) : report.Aligned text line := by
  obtain ⟨hbefore, hone⟩ := stands_of_no_tab hexpand htab
  refine ⟨hbefore, ?_⟩
  have hhead := congrArg List.head? hone
  rwa [List.head?_take, List.head?_take, if_neg (by decide), if_neg (by decide)] at hhead

theorem excerpt_of_no_tab {report : Report}
    (hexpand : Text.expandTabs line = report.before text ++ report.after text)
    (htab : '\t' ∉ line.take ((report.before text).length + 10)) :
    excerpt (line.drop (report.before text).length) = excerpt (report.after text) := by
  obtain ⟨-, hten⟩ := stands_of_no_tab hexpand htab
  rw [excerpt, hten, excerpt]

end Shown

end Report

/-- A report shows its line as it was given, and cuts out what stands there behind its column. The
column comes from the expanded line, so the caret stands under the place of the rejection if no tab
stands on the line up to there, and the report is accurate if no tab stands on the line up to the
end of the excerpt. -/
theorem rejection_shows (nesting : Nat) (text filename : String) (report : Report)
    (h : Rejects nesting text filename report) :
    ∃ line, Report.lineAt? text report.line = some line ∧
      Text.expandTabs line = report.before text ++ report.after text ∧
      report.column = (report.before text).length + 1 ∧
      report.got = some (Report.excerpt (line.drop (report.before text).length)) ∧
      report.context = some (Report.pointed line (report.before text).length) ∧
      ('\t' ∉ line.take ((report.before text).length + 1) → report.Aligned text line) ∧
      ('\t' ∉ line.take ((report.before text).length + 10) → report.Accurate text) := by
  obtain ⟨offset, message, -, hreport⟩ := h.exists_ofFailure
  obtain ⟨line, hline, hexpand, hcolumn, hgot, hcontext⟩ := Report.ofFailure_shows hreport
  refine ⟨line, hline, hexpand, hcolumn, hgot, hcontext, Report.aligned_of_no_tab hexpand,
    fun htab => ?_⟩
  have hnear : '\t' ∉ line.take ((report.before text).length + 1) :=
    fun hmem => htab (List.take_subset_take_left line (by omega) hmem)
  have hexcerpt := Report.excerpt_of_no_tab hexpand htab
  exact ⟨hgot.trans (congrArg some hexcerpt), line, hline, hcontext,
    Report.aligned_of_no_tab hexpand hnear⟩

theorem rejection_shows_second_line : ∃ report,
    Rejects 9 "\tif x then\nprint ) else" standardInput report ∧
    report.got = some "') else'" ∧ report.Accurate "\tif x then\nprint ) else" := by
  have h : Rejects 9 "\tif x then\nprint ) else" standardInput _ := ⟨.inr rfl, by decide⟩
  obtain ⟨line, hline, -, -, -, -, -, haccurate⟩ := rejection_shows 9 _ standardInput _ h
  refine ⟨_, h, rfl, haccurate ?_⟩
  cases hline
  decide

/-- Behind a tab the report says that nothing is left of the line, where a parenthesis stands. -/
theorem not_every_rejection_accurate : ¬ ∀ nesting text filename report,
    Rejects nesting text filename report → report.Accurate text := by
  intro haccurate
  have h : Rejects 9 "print\t)" standardInput _ := ⟨.inr rfl, by decide⟩
  have hgot := (haccurate 9 _ standardInput _ h).got
  exact absurd hgot (by decide)

end ImpLang
