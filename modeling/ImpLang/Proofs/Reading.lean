import ImpLang.Proofs.Combinator
import ImpLang.Proofs.Lexeme

namespace ImpLang

open Token ImpLang.Parser

namespace Cursor

theorem skip_eq {c : Cursor} {blanks rest : List Char} (h : c.rest = blanks ++ rest)
    (hb : ∀ ch ∈ blanks, isSeparator ch = true) (hr : rest.head?.any isSeparator = false) :
    c.skip = ⟨c.position + blanks.length, blanks.getLast?.or c.previous, rest⟩ := by
  have htake : c.rest.takeWhile isSeparator = blanks := by
    rw [h, takeWhile_append_eq hb hr]
  unfold skip advance
  rw [htake, h]
  simp

/-- The white space before a cursor's next lexeme. -/
theorem exists_blanks (c : Cursor) : ∃ blanks, c.rest = blanks ++ c.skip.rest ∧
    (∀ ch ∈ blanks, isSeparator ch = true) ∧ c.skip.rest.head?.any isSeparator = false ∧
    c.skip.previous = blanks.getLast?.or c.previous := by
  have hr := head?_dropWhile_any isSeparator c.rest
  have hs := skip_eq (c := c) List.takeWhile_append_dropWhile.symm
    (fun ch hc => List.mem_takeWhile_imp hc) hr
  refine ⟨c.rest.takeWhile isSeparator, ?_, fun ch hc => List.mem_takeWhile_imp hc, ?_, ?_⟩
  · rw [hs]
    exact List.takeWhile_append_dropWhile.symm
  · rw [hs]
    exact hr
  · rw [hs]

theorem advance_eq {c : Cursor} {w rest : List Char} (h : c.rest = w ++ rest) (hw : w ≠ []) :
    c.advance w.length = ⟨c.position + w.length, w.getLast?, rest⟩ := by
  unfold advance
  rw [h]
  obtain ⟨last, hl⟩ := Option.isSome_iff_exists.mp (List.getLast?_isSome.mpr hw)
  simp [hl]

/-- The cursor stands before these lexemes, none of them a number too long to be read. -/
structure At (c : Cursor) (ts : List Lexeme) : Prop where
  spells : Spells c.previous ts c.rest
  short : ∀ ds, .number ds ∈ ts → ds.length ≤ Text.maxDigits

namespace At

variable {c : Cursor} {t : Lexeme} {us : List Lexeme}

/-- Behind the white space stands the first lexeme, and behind it the others. -/
theorem skip_cons (h : c.At (t :: us)) : ∃ rest, c.skip.rest = t.text ++ rest ∧
    t.Stands c.skip.previous rest ∧ (c.skip.advance t.text.length).At us := by
  obtain ⟨blanks, rest, hc, hb, hs, hu⟩ := h.spells
  obtain ⟨ch, cs, ht⟩ := hs.proper.exists_text
  have hch : isSeparator ch = false := hs.proper.not_separator ch (by simp [ht])
  have hskip := skip_eq hc hb (by simp [ht, hch])
  have hrest : c.skip.rest = t.text ++ rest := by rw [hskip]
  refine ⟨rest, hrest, ?_, ?_, ?_⟩
  · rw [hskip]
    exact hs
  · rw [advance_eq hrest hs.proper.text_ne_nil]
    exact hu
  · intro ds hds
    exact h.short ds (List.mem_cons_of_mem _ hds)

/-- The character behind the white space is the first of the first lexeme. -/
theorem head_skip (h : c.At us) : c.skip.rest.head? = us.head?.bind fun t => t.text.head? := by
  cases us with
  | nil =>
    have hs := skip_eq (c := c) (List.append_nil _).symm h.spells rfl
    simp [hs]
  | cons t us =>
    obtain ⟨rest, hr, hs, -⟩ := h.skip_cons
    obtain ⟨ch, cs, ht⟩ := hs.proper.exists_text
    simp [hr, ht]

theorem head_skip_isAlpha (h : c.At us) :
    c.skip.rest.head?.any Char.isAlpha = us.head?.any Lexeme.isWord := by
  rw [h.head_skip]
  cases us with
  | nil => rfl
  | cons t us =>
    obtain ⟨rest, -, hs, -⟩ := h.skip_cons
    exact hs.proper.isAlpha_head

theorem head_skip_isAsciiDigit (h : c.At us) :
    c.skip.rest.head?.any Text.isAsciiDigit = us.head?.any Lexeme.isNumber := by
  rw [h.head_skip]
  cases us with
  | nil => rfl
  | cons t us =>
    obtain ⟨rest, -, hs, -⟩ := h.skip_cons
    exact hs.proper.isAsciiDigit_head

/-- There are no more lexemes than characters. -/
theorem length_le (h : c.At us) : us.length ≤ c.rest.length := by
  induction us generalizing c with
  | nil => exact Nat.zero_le _
  | cons t us ih =>
    obtain ⟨rest, hr, hs, ha⟩ := h.skip_cons
    obtain ⟨blanks, hc, -⟩ := c.exists_blanks
    have hu := ih ha
    have hpos : 0 < t.text.length := List.length_pos_iff.mpr hs.proper.text_ne_nil
    have hdrop : (c.skip.advance t.text.length).rest.length = rest.length := by simp [hr]
    rw [hc, hr]
    simp only [List.length_append, List.length_cons]
    omega

end At

end Cursor

namespace Token

variable {c c' : Cursor} {s w x : String} {us : List Lexeme} {e : Failure}

theorem literal_eq_ok_iff : literal s c = .ok ((), c') ↔
    (∃ rest, c.skip.rest = s.toList ++ rest) ∧ c' = c.skip.advance s.length := by
  unfold literal
  by_cases hp : s.toList.isPrefixOf c.skip.rest = true
  · obtain ⟨rest, hr⟩ := List.isPrefixOf_iff_prefix.mp hp
    simp only [hp, ↓reduceIte, Except.ok.injEq, Prod.mk.injEq, true_and]
    exact ⟨fun h => ⟨⟨rest, hr.symm⟩, h.symm⟩, fun h => h.2.symm⟩
  · simp only [hp, Bool.false_eq_true, ↓reduceIte, reduceCtorEq, false_iff]
    rintro ⟨⟨rest, hr⟩, -⟩
    exact hp (List.isPrefixOf_iff_prefix.mpr ⟨rest, hr.symm⟩)

theorem literal_eq_error (h : literal s c = .error e) :
    e = .soft c.skip.position ("Expected " ++ inQuotes s) := by
  unfold literal at h
  dsimp only at h
  split_ifs at h
  cases h
  rfl

theorem literal_soft (h : ¬ s.toList <+: c.skip.rest) : (literal s).Soft c := by
  have hp : s.toList.isPrefixOf c.skip.rest = false := by
    simpa [← List.isPrefixOf_iff_prefix] using h
  unfold Soft literal
  simp only [hp, Bool.false_eq_true, ↓reduceIte]
  exact ⟨_, _, rfl⟩

theorem keyword_eq_ok_iff : keyword w c = .ok ((), c') ↔
    (∃ rest, c.skip.rest = w.toList ++ rest ∧ c.skip.previous.any isWordChar = false ∧
      rest.head?.any isWordChar = false) ∧ c' = c.skip.advance w.length := by
  by_cases hp : ∃ rest, c.skip.rest = w.toList ++ rest
  · obtain ⟨rest, hr⟩ := hp
    have hpre : w.toList.isPrefixOf c.skip.rest = true :=
      List.isPrefixOf_iff_prefix.mpr ⟨rest, hr.symm⟩
    have hafter : (c.skip.advance w.length).rest = rest := by
      simp [hr, ← String.length_toList]
    -- what is left behind the word is settled by the text
    have hexists : (∃ rest, c.skip.rest = w.toList ++ rest ∧
        c.skip.previous.any isWordChar = false ∧ rest.head?.any isWordChar = false) ↔
        c.skip.previous.any isWordChar = false ∧ rest.head?.any isWordChar = false := by
      constructor
      · rintro ⟨rest', hr', hw⟩
        have heq : rest' = rest := List.append_cancel_left (hr'.symm.trans hr)
        rwa [heq] at hw
      · intro hw
        exact ⟨rest, hr, hw⟩
    rw [hexists]
    simp only [keyword, hpre, hafter, Bool.not_true, Bool.false_eq_true, ↓reduceIte]
    by_cases hb : c.skip.previous.any isWordChar = true
    · simp [hb]
    · by_cases ha : rest.head?.any isWordChar = true
      · simp [hb, ha]
      · simp [hb, ha, eq_comm]
  · have hpre : w.toList.isPrefixOf c.skip.rest = false := by
      rw [Bool.eq_false_iff]
      intro h
      obtain ⟨rest, hr⟩ := List.isPrefixOf_iff_prefix.mp h
      exact hp ⟨rest, hr.symm⟩
    simp only [keyword, hpre, Bool.not_false, ↓reduceIte, reduceCtorEq, false_iff]
    rintro ⟨⟨rest, hr, -⟩, -⟩
    exact hp ⟨rest, hr⟩

/-- A keyword is missed, or a character of words touches it before or behind. -/
theorem keyword_eq_error (h : keyword w c = .error e) :
    e = .soft c.skip.position ("Expected Keyword " ++ inQuotes w) ∨
    e = .soft (c.skip.position - 1) ("Expected Keyword " ++ inQuotes w ++
      ", keyword was immediately preceded by keyword character") ∨
    w.toList <+: c.skip.rest ∧
      e = .soft (c.skip.position + w.length) ("Expected Keyword " ++ inQuotes w ++
        ", keyword was immediately followed by keyword character") := by
  unfold keyword at h
  dsimp only at h
  split_ifs at h with hword
  · cases h
    exact .inl rfl
  · cases h
    exact .inr (.inl rfl)
  · cases h
    exact .inr (.inr ⟨List.isPrefixOf_iff_prefix.mp (by simpa using hword), rfl⟩)

/-- A keyword that is not read fails softly. -/
theorem keyword_soft (h : ∀ c', keyword w c ≠ .ok ((), c')) : (keyword w).Soft c := by
  cases hk : keyword w c with
  | ok r => exact absurd hk (h r.2)
  | error e =>
    unfold Soft
    rw [hk]
    rcases keyword_eq_error hk with rfl | rfl | ⟨-, rfl⟩
    · exact ⟨_, _, rfl⟩
    · exact ⟨_, _, rfl⟩
    · exact ⟨_, _, rfl⟩

theorem atReserved_iff : atReserved c = true ↔
    ∃ w ∈ reservedWords, ∃ c', keyword w c = .ok ((), c') := by
  unfold atReserved
  rw [List.any_eq_true]
  refine exists_congr fun w => and_congr_right fun _ => ?_
  cases hk : keyword w c with
  | error e => simp
  | ok r =>
    obtain ⟨⟨⟩, d⟩ := r
    simp

theorem identifier_eq_ok_iff : identifier c = .ok (x, c') ↔
    (atReserved c = false ∧ c.skip.rest.takeWhile Char.isAlpha = x.toList ∧ x.toList ≠ []) ∧
      c' = c.skip.advance x.length := by
  unfold identifier
  dsimp only
  split_ifs with hres hnil
  · simp [hres]
  · have hn := List.isEmpty_iff.mp hnil
    simp only [false_iff]
    rintro ⟨⟨-, ht, hx⟩, -⟩
    exact hx (ht.symm.trans hn)
  · have hne : c.skip.rest.takeWhile Char.isAlpha ≠ [] := by simpa using hnil
    have hres' : atReserved c = false := by simpa using hres
    constructor
    · intro h
      simp only [Except.ok.injEq, Prod.mk.injEq] at h
      obtain ⟨rfl, rfl⟩ := h
      exact ⟨⟨hres', by simp, by simpa using hne⟩, by simp [← String.length_toList]⟩
    · rintro ⟨⟨-, ht, -⟩, rfl⟩
      simp [ht, ← String.length_toList]

/-- At a run of letters the only keyword that can be read is the whole run. -/
theorem atReserved_iff_of_letters {rest : List Char} (hr : c.skip.rest = x.toList ++ rest)
    (hx : ∀ ch ∈ x.toList, ch.isAlpha = true) (hrest : rest.head?.any Char.isAlpha = false) :
    atReserved c = true ↔ x ∈ reservedWords ∧ c.skip.previous.any isWordChar = false ∧
      rest.head?.any isWordChar = false := by
  rw [atReserved_iff]
  constructor
  · rintro ⟨w, hw, c', hk⟩
    obtain ⟨⟨rest', hr', hbefore, hafter⟩, -⟩ := keyword_eq_ok_iff.mp hk
    have hrun := takeWhile_append_eq hx hrest
    rw [← hr, hr', takeWhile_append_eq (isAlpha_of_mem_reservedWords hw)
      (any_eq_false_of_imp (fun _ => isWordChar_of_isAlpha) hafter)] at hrun
    obtain rfl : w = x := String.toList_injective hrun
    obtain rfl : rest' = rest := List.append_cancel_left (hr'.symm.trans hr)
    exact ⟨hw, hbefore, hafter⟩
  · rintro ⟨hw, hbefore, hafter⟩
    exact ⟨x, hw, _, keyword_eq_ok_iff.mpr ⟨⟨rest, hr, hbefore, hafter⟩, rfl⟩⟩

/-- A name is a whole run of letters, and a reserved word only if a character of words touches
it. -/
theorem identifier_eq_ok_iff_letters : identifier c = .ok (x, c') ↔
    (∃ rest, c.skip.rest = x.toList ++ rest ∧ x.toList ≠ [] ∧
      (∀ ch ∈ x.toList, ch.isAlpha = true) ∧ rest.head?.any Char.isAlpha = false ∧
      (x ∈ reservedWords → c.skip.previous.any isWordChar = true ∨
        rest.head?.any isWordChar = true)) ∧ c' = c.skip.advance x.length := by
  rw [identifier_eq_ok_iff, takeWhile_eq_iff]
  refine and_congr_left fun _ => ?_
  constructor
  · rintro ⟨hres, ⟨rest, hr, hx, hrest⟩, hne⟩
    refine ⟨rest, hr, hne, hx, hrest, fun hw => ?_⟩
    by_contra hapart
    rw [not_or, Bool.not_eq_true, Bool.not_eq_true] at hapart
    rw [(atReserved_iff_of_letters hr hx hrest).mpr ⟨hw, hapart⟩] at hres
    exact Bool.noConfusion hres
  · rintro ⟨rest, hr, hne, hx, hrest, htouch⟩
    refine ⟨?_, ⟨rest, hr, hx, hrest⟩, hne⟩
    rw [Bool.eq_false_iff]
    intro hat
    obtain ⟨hw, hbefore, hafter⟩ := (atReserved_iff_of_letters hr hx hrest).mp hat
    rw [hbefore, hafter] at htouch
    simpa using htouch hw

theorem identifier_eq_error (h : identifier c = .error e) :
    e = .soft c.position unwantedMessage ∨ e = .soft c.skip.position "Expected W:(A-Za-z)" := by
  unfold identifier at h
  dsimp only at h
  split_ifs at h
  · cases h
    exact .inl rfl
  · cases h
    exact .inr rfl

theorem integer_eq_ok_iff {ds : List Char} : integer c = .ok (ds, c') ↔
    (c.skip.rest.takeWhile Text.isAsciiDigit = ds ∧ ds ≠ []) ∧
      c' = c.skip.advance ds.length := by
  unfold integer
  dsimp only
  split_ifs with hnil
  · have hn := List.isEmpty_iff.mp hnil
    simp only [false_iff]
    rintro ⟨⟨ht, hx⟩, -⟩
    exact hx (ht.symm.trans hn)
  · have hne : c.skip.rest.takeWhile Text.isAsciiDigit ≠ [] := by simpa using hnil
    constructor
    · intro h
      simp only [Except.ok.injEq, Prod.mk.injEq] at h
      obtain ⟨rfl, rfl⟩ := h
      exact ⟨⟨rfl, hne⟩, rfl⟩
    · rintro ⟨⟨rfl, -⟩, rfl⟩
      rfl

theorem integer_eq_error (h : integer c = .error e) :
    e = .soft c.skip.position "Expected an integer" := by
  unfold integer at h
  dsimp only at h
  split_ifs at h
  cases h
  rfl

theorem endOfText_eq_ok_iff {u : Unit} :
    endOfText c = .ok (u, c') ↔ c.skip.rest = [] ∧ c' = c.skip := by
  unfold endOfText
  dsimp only
  split_ifs with hend
  · simp [List.isEmpty_iff.mp hend, eq_comm]
  · have hrest : c.skip.rest ≠ [] := by simpa using hend
    simp [hrest]

theorem endOfText_eq_error (h : endOfText c = .error e) :
    e = .soft c.skip.position "Expected end of text" := by
  unfold endOfText at h
  dsimp only at h
  split_ifs at h
  cases h
  rfl

/-- Where no letter stands there is no name. -/
theorem identifier_soft (h : c.skip.rest.head?.any Char.isAlpha = false) : identifier.Soft c := by
  have hn : c.skip.rest.takeWhile Char.isAlpha = [] := takeWhile_eq_nil_of_head h
  unfold Soft identifier
  dsimp only
  split_ifs with hres hnil
  · exact ⟨_, _, rfl⟩
  · exact ⟨_, _, rfl⟩
  · simp [hn] at hnil

theorem integer_soft (h : c.skip.rest.head?.any Text.isAsciiDigit = false) : integer.Soft c := by
  have hn : c.skip.rest.takeWhile Text.isAsciiDigit = [] := takeWhile_eq_nil_of_head h
  unfold Soft integer
  simp only [hn, List.isEmpty_nil, ↓reduceIte]
  exact ⟨_, _, rfl⟩

/-- A reserved word begins with a letter, so it is not read where none stands. -/
theorem keyword_soft_of_head (hw : w ∈ reservedWords)
    (h : c.skip.rest.head?.any Char.isAlpha = false) : (keyword w).Soft c := by
  apply keyword_soft
  intro c' hk
  obtain ⟨⟨rest, hr, -⟩, -⟩ := keyword_eq_ok_iff.mp hk
  obtain ⟨ch, cs, hcs⟩ := List.exists_cons_of_ne_nil (ne_nil_of_mem_reservedWords hw)
  have ha := isAlpha_of_mem_reservedWords hw ch (by simp [hcs])
  simp [hr, hcs, ha] at h

end Token

namespace Cursor.At

variable {c : Cursor} {s w x : String} {us : List Lexeme}

theorem literal (h : c.At (.symbol s :: us)) :
    ∃ c', Token.literal s c = .ok ((), c') ∧ c'.At us := by
  obtain ⟨rest, hr, -, ha⟩ := h.skip_cons
  rw [Lexeme.text, String.length_toList] at ha
  exact ⟨_, literal_eq_ok_iff.mpr ⟨⟨rest, hr⟩, rfl⟩, ha⟩

theorem keyword (h : c.At (.keyword w :: us)) :
    ∃ c', Token.keyword w c = .ok ((), c') ∧ c'.At us := by
  obtain ⟨rest, hr, hs, ha⟩ := h.skip_cons
  rw [Lexeme.text, String.length_toList] at ha
  exact ⟨_, keyword_eq_ok_iff.mpr ⟨⟨rest, hr, hs.apart_before, hs.apart_after⟩, rfl⟩, ha⟩

/-- A keyword is read only where that very keyword is spelled: a whole word is the run of letters at
which it stands. -/
theorem keyword_soft (h : c.At us) (hw : w ∈ reservedWords)
    (hne : us.head? ≠ some (.keyword w)) : (Token.keyword w).Soft c := by
  apply Token.keyword_soft
  intro c' hk
  obtain ⟨⟨rest, hr, -, hafter⟩, -⟩ := keyword_eq_ok_iff.mp hk
  have hletters := isAlpha_of_mem_reservedWords hw
  -- the letters here are those of the keyword, so the lexeme here is a word with these letters
  have hrun : c.skip.rest.takeWhile Char.isAlpha = w.toList := by
    rw [hr]
    exact takeWhile_append_eq hletters (any_eq_false_of_imp (fun _ => isWordChar_of_isAlpha) hafter)
  obtain ⟨ch, cs, hcs⟩ := List.exists_cons_of_ne_nil (ne_nil_of_mem_reservedWords hw)
  have hword := h.head_skip_isAlpha
  rw [hr, hcs, List.cons_append, List.head?_cons, Option.any_some, hletters ch (by simp [hcs])]
    at hword
  cases us with
  | nil => exact Bool.noConfusion hword
  | cons t us =>
    obtain ⟨rest', hr', hs, -⟩ := h.skip_cons
    cases t with
    | number ds => exact Bool.noConfusion hword
    | symbol s => exact Bool.noConfusion hword
    | name x =>
      have hx : c.skip.rest.takeWhile Char.isAlpha = x.toList := by
        rw [hr']
        exact hs.takeWhile_letters rfl
      have heq : x = w := String.toList_injective (hx.symm.trans hrun)
      exact hs.proper.2.2 (heq ▸ hw)
    | keyword v =>
      have hv : c.skip.rest.takeWhile Char.isAlpha = v.toList := by
        rw [hr']
        exact hs.takeWhile_letters rfl
      have heq : v = w := String.toList_injective (hv.symm.trans hrun)
      exact hne (by simp [heq])

theorem identifier (h : c.At (.name x :: us)) :
    ∃ c', Token.identifier c = .ok (x, c') ∧ c'.At us := by
  obtain ⟨rest, hr, hs, ha⟩ := h.skip_cons
  rw [Lexeme.text, String.length_toList] at ha
  -- no reserved word is read where a name is spelled
  have hres : atReserved c = false := by
    rw [Bool.eq_false_iff]
    intro hat
    obtain ⟨w, hw, c', hk⟩ := atReserved_iff.mp hat
    obtain ⟨offset, message, hsoft⟩ := h.keyword_soft hw (by simp)
    rw [hk] at hsoft
    cases hsoft
  have hrun : c.skip.rest.takeWhile Char.isAlpha = x.toList := by
    rw [hr]
    exact hs.takeWhile_letters rfl
  exact ⟨_, identifier_eq_ok_iff.mpr ⟨⟨hres, hrun, hs.proper.1⟩, rfl⟩, ha⟩

theorem identifier_soft (h : c.At us) (hne : ∀ x, us.head? ≠ some (.name x)) :
    Token.identifier.Soft c := by
  by_cases hw : us.head?.any Lexeme.isWord = true
  · cases us with
    | nil => exact Bool.noConfusion hw
    | cons t us =>
      cases t with
      | number ds => exact Bool.noConfusion hw
      | symbol s => exact Bool.noConfusion hw
      | name x => exact absurd rfl (hne x)
      | keyword w =>
        obtain ⟨rest, -, hs, -⟩ := h.skip_cons
        obtain ⟨c', hk, -⟩ := h.keyword
        have hres : atReserved c = true := atReserved_iff.mpr ⟨w, hs.proper, c', hk⟩
        unfold Soft Token.identifier
        simp only [hres, ↓reduceIte]
        exact ⟨_, _, rfl⟩
  · apply Token.identifier_soft
    rw [h.head_skip_isAlpha]
    simpa using hw

theorem integer {ds : List Char} (h : c.At (.number ds :: us)) :
    ∃ c', Token.integer c = .ok (ds, c') ∧ c'.At us := by
  obtain ⟨rest, hr, hs, ha⟩ := h.skip_cons
  have hrun : c.skip.rest.takeWhile Text.isAsciiDigit = ds := by
    rw [hr]
    exact hs.takeWhile_digits
  exact ⟨_, integer_eq_ok_iff.mpr ⟨⟨hrun, hs.proper.1⟩, rfl⟩, ha⟩

theorem endOfText (h : c.At []) : ∃ c', Token.endOfText c = .ok ((), c') := by
  have hs := skip_eq (c := c) (List.append_nil _).symm h.spells rfl
  exact ⟨c.skip, by simp [Token.endOfText, hs]⟩

/-- A symbol is not read where the next lexeme begins with another character. -/
theorem literal_soft (h : c.At us) (hs : s.toList ≠ [])
    (hne : (us.head?.bind fun t => t.text.head?) ≠ s.toList.head?) :
    (Token.literal s).Soft c := by
  apply Token.literal_soft
  rintro ⟨rest, hr⟩
  obtain ⟨ch, cs, hcs⟩ := List.exists_cons_of_ne_nil hs
  apply hne
  rw [← h.head_skip, ← hr, hcs]
  rfl

theorem literal_soft_cons {t : Lexeme} (h : c.At (t :: us)) (hs : s.toList ≠ [])
    (hne : t.text.head? ≠ s.toList.head?) : (Token.literal s).Soft c :=
  h.literal_soft hs hne

end Cursor.At

end ImpLang
