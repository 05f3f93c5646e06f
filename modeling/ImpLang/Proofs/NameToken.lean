import ImpLang.Proofs.Acceptance

/-! Where a reserved word is read as a name. A keyword must not touch any character of words, and
digits, the underscore and the dollar sign are such characters; a name is only a run of letters. So
what keeps reserved words out of the names lets one pass where it touches one of these
characters. -/
namespace ImpLang

open Token Text ImpLang.Parser

/-- The characters of words that are no letters. -/
theorem isWordChar_iff_of_not_isAlpha {ch : Char} (h : ch.isAlpha = false) :
    isWordChar ch = true ↔ isAsciiDigit ch = true ∨ ch = '_' ∨ ch = '$' := by
  simp [isWordChar, Char.isAlphanum, h, isDigit_eq_isAsciiDigit, or_assoc]

/-- Only white space is passed over before a token, so at the start of a text no character of words
stands before it. -/
theorem Cursor.any_previous_skip_start (cs : List Char) :
    (Cursor.start cs).skip.previous.any isWordChar = false := by
  obtain ⟨blanks, -, hb, -, hprevious⟩ := (Cursor.start cs).exists_blanks
  rw [hprevious]
  cases hlast : blanks.getLast? with
  | none => rfl
  | some ch => exact isWordChar_eq_false_of_isSeparator (hb ch (List.mem_of_getLast? hlast))

/-- The name that is read at the start of a text, after white space, is a whole run of letters. It
is a reserved word exactly if that run is one and a digit, an underscore or a dollar sign
follows. -/
theorem identifier_run_iff {text x : String} :
    (∃ c, Token.identifier.run text = .ok (x, c)) ↔
      ∃ blanks rest, text.toList = blanks ++ (x.toList ++ rest) ∧
        (∀ ch ∈ blanks, Cursor.isSeparator ch = true) ∧ x.toList ≠ [] ∧
        (∀ ch ∈ x.toList, ch.isAlpha = true) ∧ rest.head?.any Char.isAlpha = false ∧
        (x ∈ reservedWords → ∃ ch, rest.head? = some ch ∧
          (isAsciiDigit ch = true ∨ ch = '_' ∨ ch = '$')) := by
  have htouch {rest : List Char} (hrest : rest.head?.any Char.isAlpha = false) :
      rest.head?.any isWordChar = true ↔ ∃ ch, rest.head? = some ch ∧
        (isAsciiDigit ch = true ∨ ch = '_' ∨ ch = '$') := by
    cases hhead : rest.head? with
    | none => simp
    | some ch =>
      have hch : ch.isAlpha = false := by simpa [hhead] using hrest
      simp [isWordChar_iff_of_not_isAlpha hch]
  constructor
  · rintro ⟨c, h⟩
    obtain ⟨⟨rest', hr, hne, hx, hrest, hres⟩, -⟩ := identifier_eq_ok_iff_letters.mp h
    obtain ⟨blanks', hblanks, hb', -⟩ := (Cursor.start (expandTabs text.toList)).exists_blanks
    rw [Cursor.rest_start, hr] at hblanks
    -- a run of letters stands in the text as it does in the expanded text
    obtain ⟨blanks, rest, column, htext, hb, -, rfl⟩ := exists_run_of_expandTabsFrom_eq hne
      (fun ch hch => not_isSeparator_of_isAlpha (hx ch hch)) hb' hblanks
    rw [any_head?_expandTabsFrom rfl] at hrest
    refine ⟨blanks, rest, htext, hb, hne, hx, hrest, fun hw => (htouch hrest).mp ?_⟩
    rw [Cursor.any_previous_skip_start, any_head?_expandTabsFrom rfl] at hres
    simpa using hres hw
  · rintro ⟨blanks, rest, htext, hb, hne, hx, hrest, hres⟩
    have hw : ∀ ch ∈ x.toList, Cursor.isSeparator ch = false := fun ch hch =>
      not_isSeparator_of_isAlpha (hx ch hch)
    obtain ⟨column, hexpand⟩ := exists_expandTabsFrom_run hw 0 blanks rest
    have hskip : (Cursor.start (expandTabs text.toList)).skip.rest =
        x.toList ++ expandTabsFrom column rest := by
      obtain ⟨first, firsts, hfirst⟩ := List.exists_cons_of_ne_nil hne
      have hstart : (Cursor.start (expandTabs text.toList)).rest =
          expandTabsFrom 0 blanks ++ (x.toList ++ expandTabsFrom column rest) := by
        rw [Cursor.rest_start, expandTabs, htext, hexpand]
      rw [Cursor.skip_eq hstart (isSeparator_of_mem_expandTabsFrom hb 0)]
      simp [hfirst, hw first (by simp [hfirst])]
    refine ⟨_, identifier_eq_ok_iff_letters.mpr ⟨⟨_, hskip, hne, hx, ?_, fun hmem => .inr ?_⟩, rfl⟩⟩
    · rw [any_head?_expandTabsFrom rfl, hrest]
    · rw [any_head?_expandTabsFrom rfl]
      exact (htouch hrest).mpr (hres hmem)

/-- A digit keeps the keyword from being read, and the name ends before it. -/
theorem not_every_identifier_unreserved : ¬ ∀ (text x : String) (c : Cursor),
    Token.identifier.run text = .ok (x, c) → x ∉ reservedWords := by
  intro h
  have hrun : Token.identifier.run "true1" = .ok ("true", ⟨4, some 'e', ['1']⟩) := rfl
  exact h _ _ _ hrun (by decide)

end ImpLang
