import ImpLang.Proofs.Acceptance
import Mathlib.Algebra.BigOperators.Group.List.Basic
import Mathlib.Algebra.GroupWithZero.Nat

namespace ImpLang.Text

def lineBefore (cs : List Char) (offset : Nat) : List Char :=
  ((cs.take offset).reverse.takeWhile (· != '\n')).reverse

def lineFrom (cs : List Char) (offset : Nat) : List Char :=
  (cs.drop offset).takeWhile (· != '\n')

/-- The offset of a place: the lines above it, each with its line feed, and the columns before
it. -/
def offsetOf (cs : List Char) (place : Place) : Nat :=
  (((splitLines cs).take (place.line - 1)).map fun line => line.length + 1).sum +
    (place.column - 1)

theorem splitLines_cons_break (cs : List Char) : splitLines ('\n' :: cs) = [] :: splitLines cs :=
  rfl

theorem splitLines_cons {ch : Char} (hch : ch ≠ '\n') (cs : List Char) :
    ∃ line lines,
      splitLines cs = line :: lines ∧ splitLines (ch :: cs) = (ch :: line) :: lines := by
  unfold splitLines
  cases h : splitAtEach '\n' cs with
  | nil =>
    -- a text has at least one line
    cases cs with
    | nil => cases h
    | cons ch' cs =>
      unfold splitAtEach at h
      split_ifs at h
      split at h <;> cases h
  | cons line lines =>
    refine ⟨line, lines, rfl, ?_⟩
    rw [splitAtEach, if_neg hch, h]

theorem splitLines_of_not_mem {cs : List Char} (h : '\n' ∉ cs) : splitLines cs = [cs] := by
  induction cs with
  | nil => rfl
  | cons ch cs ih =>
    rw [List.mem_cons, not_or] at h
    obtain ⟨line, lines, hcs, hcons⟩ := splitLines_cons (Ne.symm h.1) cs
    rw [ih h.2] at hcs
    cases hcs
    exact hcons

/-- A line feed cuts the lines of a text in two. -/
theorem splitLines_append_break (cs ds : List Char) :
    splitLines (cs ++ '\n' :: ds) = splitLines cs ++ splitLines ds := by
  induction cs with
  | nil => rfl
  | cons ch cs ih =>
    by_cases hch : ch = '\n'
    · subst hch
      rw [List.cons_append, splitLines_cons_break, ih, splitLines_cons_break, List.cons_append]
    · obtain ⟨line, lines, hcs, hcons⟩ := splitLines_cons hch cs
      obtain ⟨line', lines', hall, hallcons⟩ := splitLines_cons hch (cs ++ '\n' :: ds)
      rw [ih, hcs, List.cons_append] at hall
      cases hall
      rw [List.cons_append, hallcons, hcons, List.cons_append]

theorem length_splitLines (cs : List Char) : (splitLines cs).length = cs.count '\n' + 1 := by
  induction cs with
  | nil => rfl
  | cons ch cs ih =>
    by_cases hch : ch = '\n'
    · subst hch
      rw [splitLines_cons_break, List.length_cons, ih, List.count_cons_self]
    · obtain ⟨line, lines, hcs, hcons⟩ := splitLines_cons hch cs
      rw [hcs] at ih
      rw [hcons, List.count_cons_of_ne hch, ← ih, List.length_cons, List.length_cons]

/-- Every line but the last has a line feed behind it. -/
theorem sum_length_splitLines (cs : List Char) :
    ((splitLines cs).map fun line => line.length + 1).sum = cs.length + 1 := by
  induction cs with
  | nil => rfl
  | cons ch cs ih =>
    by_cases hch : ch = '\n'
    · subst hch
      rw [splitLines_cons_break, List.map_cons, List.sum_cons, ih, List.length_nil,
        List.length_cons]
      omega
    · obtain ⟨line, lines, hcs, hcons⟩ := splitLines_cons hch cs
      rw [hcs, List.map_cons, List.sum_cons] at ih
      rw [hcons, List.map_cons, List.sum_cons, List.length_cons, List.length_cons]
      omega

theorem subset_of_mem_splitLines {cs line : List Char} (h : line ∈ splitLines cs) : line ⊆ cs := by
  induction cs generalizing line with
  | nil =>
    rw [List.mem_singleton.mp h]
    exact List.nil_subset _
  | cons ch cs ih =>
    by_cases hch : ch = '\n'
    · subst hch
      rw [splitLines_cons_break] at h
      rcases List.mem_cons.mp h with rfl | hmem
      · exact List.nil_subset _
      · exact List.subset_cons_of_subset _ (ih hmem)
    · obtain ⟨first, lines, hcs, hcons⟩ := splitLines_cons hch cs
      rw [hcs] at ih
      rw [hcons] at h
      rcases List.mem_cons.mp h with rfl | hmem
      · exact List.cons_subset_cons ch (ih List.mem_cons_self)
      · exact List.subset_cons_of_subset _ (ih (List.mem_cons_of_mem _ hmem))

/-- Where a run stops, either nothing is left or a line feed stands. -/
theorem takeWhile_ne_break (cs : List Char) : '\n' ∉ cs.takeWhile (· != '\n') ∧
    (cs = cs.takeWhile (· != '\n') ∨ ∃ rest, cs = cs.takeWhile (· != '\n') ++ '\n' :: rest) := by
  constructor
  · intro hmem
    have hne := List.mem_takeWhile_imp hmem
    simp at hne
  · have hsplit := List.takeWhile_append_dropWhile (p := (· != '\n')) (l := cs)
    have hhead := head?_dropWhile_any (· != '\n') cs
    cases hdrop : cs.dropWhile (· != '\n') with
    | nil =>
      rw [hdrop, List.append_nil] at hsplit
      exact .inl hsplit.symm
    | cons ch rest =>
      rw [hdrop] at hsplit hhead
      have hch : ch = '\n' := by simpa using hhead
      rw [hch] at hsplit
      exact .inr ⟨rest, hsplit.symm⟩

theorem lineBefore_cases (cs : List Char) (offset : Nat) : '\n' ∉ lineBefore cs offset ∧
    (cs.take offset = lineBefore cs offset ∨
      ∃ above, cs.take offset = above ++ '\n' :: lineBefore cs offset) := by
  obtain ⟨hnot, hcases⟩ := takeWhile_ne_break (cs.take offset).reverse
  refine ⟨by rwa [lineBefore, List.mem_reverse], ?_⟩
  rcases hcases with h | ⟨above, h⟩
  · left
    rw [lineBefore, ← h, List.reverse_reverse]
  · right
    refine ⟨above.reverse, ?_⟩
    have hturned := congrArg List.reverse h
    rw [List.reverse_reverse] at hturned
    rw [lineBefore]
    simpa using hturned

theorem lineFrom_cases (cs : List Char) (offset : Nat) : '\n' ∉ lineFrom cs offset ∧
    (cs.drop offset = lineFrom cs offset ∨
      ∃ below, cs.drop offset = lineFrom cs offset ++ '\n' :: below) :=
  takeWhile_ne_break (cs.drop offset)

/-- The lines of a text around an offset: those above it, its own line, and those below it. -/
theorem splitLines_at (cs : List Char) (offset : Nat) : ∃ above below,
    splitLines cs = above ++ (lineBefore cs offset ++ lineFrom cs offset) :: below ∧
    above.length = (cs.take offset).count '\n' ∧
    (above.map fun line => line.length + 1).sum + (lineBefore cs offset).length =
      (cs.take offset).length := by
  obtain ⟨hbefore, hfront⟩ := lineBefore_cases cs offset
  obtain ⟨hfrom, hback⟩ := lineFrom_cases cs offset
  have hline : '\n' ∉ lineBefore cs offset ++ lineFrom cs offset :=
    fun hmem => (List.mem_append.mp hmem).elim hbefore hfrom
  -- the offset's own line with the lines below it
  have hlower : ∃ below, splitLines (lineBefore cs offset ++ cs.drop offset) =
      (lineBefore cs offset ++ lineFrom cs offset) :: below := by
    rcases hback with h | ⟨rest, h⟩
    · exact ⟨[], by rw [h, splitLines_of_not_mem hline]⟩
    · refine ⟨splitLines rest, ?_⟩
      rw [h, ← List.append_assoc, splitLines_append_break, splitLines_of_not_mem hline]
      rfl
  obtain ⟨below, hbelow⟩ := hlower
  have hcs := List.take_append_drop offset cs
  rcases hfront with h | ⟨above, h⟩
  · refine ⟨[], below, ?_, ?_, ?_⟩
    · rw [h] at hcs
      rw [← hbelow, hcs]
      rfl
    · rw [h, List.count_eq_zero_of_not_mem hbefore]
      rfl
    · rw [h]
      simp
  · refine ⟨splitLines above, below, ?_, ?_, ?_⟩
    · rw [h, List.append_assoc, List.cons_append] at hcs
      rw [← hbelow, ← splitLines_append_break, hcs]
    · rw [h, length_splitLines, List.count_append, List.count_cons_self,
        List.count_eq_zero_of_not_mem hbefore]
    · rw [h, sum_length_splitLines, List.length_append, List.length_cons]
      omega

theorem placeOf_eq (cs : List Char) (offset : Nat) : placeOf cs offset =
    ⟨(cs.take offset).count '\n' + 1, (lineBefore cs offset).length + 1⟩ := by
  unfold placeOf lineBefore
  rw [List.length_reverse]

/-- An offset inside the text is found again from its line and its column. -/
theorem offsetOf_placeOf {cs : List Char} {offset : Nat} (h : offset ≤ cs.length) :
    offsetOf cs (placeOf cs offset) = offset := by
  obtain ⟨above, below, hlines, hcount, hsum⟩ := splitLines_at cs offset
  rw [placeOf_eq, offsetOf, hlines]
  dsimp only
  rw [Nat.add_sub_cancel, Nat.add_sub_cancel, ← hcount, List.take_left, hsum, List.length_take]
  omega

theorem line_placeOf_le (cs : List Char) (offset : Nat) :
    (placeOf cs offset).line ≤ (splitLines cs).length := by
  have hcount := (List.take_sublist offset cs).count_le '\n'
  rw [placeOf_eq, length_splitLines]
  dsimp only
  omega

theorem break_not_mem_expandTabsFrom {cs : List Char} (h : '\n' ∉ cs) (column : Nat) :
    '\n' ∉ expandTabsFrom column cs := by
  induction cs generalizing column with
  | nil => exact h
  | cons ch cs ih =>
    rw [List.mem_cons, not_or] at h
    unfold expandTabsFrom
    split_ifs
    · intro hmem
      rcases List.mem_append.mp hmem with hspace | hmem
      · exact absurd (List.eq_of_mem_replicate hspace) (by decide)
      · exact ih h.2 _ hmem
    · simpa [h.1] using ih h.2 0
    · simpa [h.1] using ih h.2 (column + 1)

/-- Behind a line feed the columns are counted anew. -/
theorem expandTabsFrom_append_break (column : Nat) (cs ds : List Char) :
    expandTabsFrom column (cs ++ '\n' :: ds) =
      expandTabsFrom column cs ++ '\n' :: expandTabs ds := by
  induction cs generalizing column with
  | nil => rfl
  | cons ch cs ih =>
    rw [List.cons_append, expandTabsFrom, expandTabsFrom]
    split_ifs
    · simp only [ih, List.append_assoc]
    · rw [ih, List.cons_append]
    · rw [ih, List.cons_append]

/-- The lines of the expanded text are the lines of the text, each expanded on its own. -/
theorem splitLines_expandTabs (cs : List Char) :
    splitLines (expandTabs cs) = (splitLines cs).map expandTabs := by
  -- by induction on the number of lines, with the first line cut off
  induction hn : cs.length using Nat.strongRecOn generalizing cs with
  | ind n ih =>
    by_cases hmem : '\n' ∈ cs
    · obtain ⟨line, rest, rfl, hline⟩ := List.eq_append_cons_of_mem hmem
      have hrest := ih rest.length (by simp [← hn]; omega) rest rfl
      rw [expandTabs, expandTabsFrom_append_break, splitLines_append_break, hrest,
        splitLines_append_break, splitLines_of_not_mem hline,
        splitLines_of_not_mem (break_not_mem_expandTabsFrom hline 0)]
      rfl
    · rw [splitLines_of_not_mem hmem, expandTabs,
        splitLines_of_not_mem (break_not_mem_expandTabsFrom hmem 0)]
      rfl

/-- Up to the first tab nothing is moved. -/
theorem take_expandTabs {cs : List Char} {count : Nat} (h : '\t' ∉ cs.take count) :
    (expandTabs cs).take count = cs.take count := by
  obtain ⟨column, happend⟩ := expandTabsFrom_append 0 (cs.take count) (cs.drop count)
  rw [List.take_append_drop, expandTabsFrom_of_not_mem h] at happend
  rw [expandTabs, happend]
  rcases Nat.le_total count cs.length with hle | hle
  · exact List.take_left' (List.length_take_of_le hle)
  · rw [List.drop_eq_nil_of_le hle, List.take_of_length_le hle, expandTabsFrom, List.append_nil,
      List.take_of_length_le hle]

end ImpLang.Text
