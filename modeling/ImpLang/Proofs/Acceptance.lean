import ImpLang.Parse
import ImpLang.Proofs.Completeness
import ImpLang.Proofs.Nesting
import ImpLang.Proofs.Soundness

/-! A whole text is accepted exactly if it has a derivation. Tabs are separators before and after
they are expanded, so the expanded text spells the same lexemes as the text itself. -/
namespace ImpLang

namespace Text

theorem expandTabsFrom_append (column : Nat) (cs ds : List Char) : ∃ column',
    expandTabsFrom column (cs ++ ds) = expandTabsFrom column cs ++ expandTabsFrom column' ds := by
  induction cs generalizing column with
  | nil => exact ⟨column, rfl⟩
  | cons ch cs ih =>
    rw [List.cons_append, expandTabsFrom, expandTabsFrom]
    split_ifs
    · obtain ⟨column', h⟩ := ih (column + (tabWidth - column % tabWidth))
      exact ⟨column', by simp only [h, List.append_assoc]⟩
    · obtain ⟨column', h⟩ := ih 0
      exact ⟨column', by rw [h, List.cons_append]⟩
    · obtain ⟨column', h⟩ := ih (column + 1)
      exact ⟨column', by rw [h, List.cons_append]⟩

theorem expandTabsFrom_of_not_mem {cs : List Char} (h : '\t' ∉ cs) (column : Nat) :
    expandTabsFrom column cs = cs := by
  induction cs generalizing column with
  | nil => rfl
  | cons ch cs ih =>
    have hch : ch ≠ '\t' := fun heq => h (by simp [heq])
    have hcs : '\t' ∉ cs := fun hmem => h (List.mem_cons_of_mem _ hmem)
    simp only [expandTabsFrom, ih hcs]
    split_ifs with htab
    · exact absurd htab hch
    · rfl
    · rfl

/-- The first character stays, but a tab becomes a space. -/
theorem head?_expandTabsFrom (column : Nat) (ch : Char) (cs : List Char) :
    (expandTabsFrom column (ch :: cs)).head? = some (if ch = '\t' then ' ' else ch) := by
  have hgap : tabWidth - column % tabWidth = (tabWidth - column % tabWidth - 1) + 1 := by
    have := Nat.mod_lt column (show tabWidth > 0 by decide)
    omega
  unfold expandTabsFrom
  split_ifs
  · dsimp only
    rw [hgap, List.replicate_succ]
    rfl
  · rfl
  · rfl

theorem isSeparator_of_mem_expandTabsFrom {cs : List Char}
    (h : ∀ ch ∈ cs, Cursor.isSeparator ch = true) (column : Nat) :
    ∀ ch ∈ expandTabsFrom column cs, Cursor.isSeparator ch = true := by
  induction cs generalizing column with
  | nil => simp [expandTabsFrom]
  | cons ch cs ih =>
    obtain ⟨hch, hcs⟩ := List.forall_mem_cons.mp h
    unfold expandTabsFrom
    split_ifs
    · refine List.forall_mem_append.mpr ⟨fun ch' hmem => ?_, ih hcs _⟩
      rw [List.eq_of_mem_replicate hmem]
      rfl
    · exact List.forall_mem_cons.mpr ⟨hch, ih hcs _⟩
    · exact List.forall_mem_cons.mpr ⟨hch, ih hcs _⟩

theorem mem_expandTabsFrom {cs : List Char} {ch : Char} (h : ch ∈ cs)
    (hch : Cursor.isSeparator ch = false) (column : Nat) : ch ∈ expandTabsFrom column cs := by
  induction cs generalizing column with
  | nil => cases h
  | cons ch' cs ih =>
    unfold expandTabsFrom
    rcases List.mem_cons.mp h with rfl | hmem
    · split_ifs with htab
      · exact absurd hch (by rw [htab]; decide)
      · exact List.mem_cons_self
      · exact List.mem_cons_self
    · split_ifs
      · exact List.mem_append_right _ (ih hmem _)
      · exact List.mem_cons_of_mem _ (ih hmem _)
      · exact List.mem_cons_of_mem _ (ih hmem _)

/-- A test that does not tell tabs from spaces gives the same on the first character. -/
theorem any_head?_expandTabsFrom {p : Char → Bool} (hp : p ' ' = p '\t') (column : Nat)
    (cs : List Char) : (expandTabsFrom column cs).head?.any p = cs.head?.any p := by
  cases cs with
  | nil => rfl
  | cons ch cs =>
    rw [head?_expandTabsFrom, List.head?_cons, Option.any_some, Option.any_some]
    split_ifs with htab
    · rw [htab, hp]
    · rfl

/-- A run without separators is found in the text as it is in the expanded text. -/
theorem exists_of_expandTabsFrom_eq {w : List Char}
    (hw : ∀ ch ∈ w, Cursor.isSeparator ch = false) {column : Nat} {cs rest : List Char}
    (h : expandTabsFrom column cs = w ++ rest) :
    ∃ cs' column', cs = w ++ cs' ∧ rest = expandTabsFrom column' cs' := by
  induction w generalizing column cs with
  | nil => exact ⟨cs, column, rfl, h.symm⟩
  | cons ch w ih =>
    obtain ⟨hch, hw⟩ := List.forall_mem_cons.mp hw
    cases cs with
    | nil => cases h
    | cons ch' cs =>
      have hhead := head?_expandTabsFrom column ch' cs
      rw [h, List.cons_append, List.head?_cons, Option.some.injEq] at hhead
      have htab : ch' ≠ '\t' := by
        rintro rfl
        rw [hhead] at hch
        exact absurd hch (by decide)
      rw [if_neg htab] at hhead
      subst hhead
      have hline : ¬ (ch = '\n' || ch = '\r') = true := by
        intro hl
        simp only [Bool.or_eq_true, decide_eq_true_eq] at hl
        rcases hl with rfl | rfl <;> exact absurd hch (by decide)
      rw [expandTabsFrom, if_neg htab, if_neg hline, List.cons_append, List.cons.injEq] at h
      obtain ⟨cs', column', rfl, hrest⟩ := ih hw h.2
      exact ⟨cs', column', rfl, hrest⟩

/-- A run without separators keeps its place between white space and the text that follows. -/
theorem exists_expandTabsFrom_run {w : List Char} (hw : ∀ ch ∈ w, Cursor.isSeparator ch = false)
    (column : Nat) (blanks rest : List Char) : ∃ column',
    expandTabsFrom column (blanks ++ (w ++ rest)) =
      expandTabsFrom column blanks ++ (w ++ expandTabsFrom column' rest) := by
  have htab : '\t' ∉ w := fun hmem => absurd (hw _ hmem) (by decide)
  obtain ⟨column', h⟩ := expandTabsFrom_append column blanks (w ++ rest)
  obtain ⟨column'', h'⟩ := expandTabsFrom_append column' w rest
  rw [expandTabsFrom_of_not_mem htab] at h'
  exact ⟨column'', by rw [h, h']⟩

/-- White space and a run behind it are found in the text as they are in the expanded text. -/
theorem exists_run_of_expandTabsFrom_eq {w : List Char} (hne : w ≠ [])
    (hw : ∀ ch ∈ w, Cursor.isSeparator ch = false) {column : Nat} {cs blanks' rest' : List Char}
    (hb' : ∀ ch ∈ blanks', Cursor.isSeparator ch = true)
    (h : expandTabsFrom column cs = blanks' ++ (w ++ rest')) :
    ∃ blanks rest column', cs = blanks ++ (w ++ rest) ∧
      (∀ ch ∈ blanks, Cursor.isSeparator ch = true) ∧ blanks' = expandTabsFrom column blanks ∧
      rest' = expandTabsFrom column' rest := by
  obtain ⟨first, firsts, rfl⟩ := List.exists_cons_of_ne_nil hne
  have hfirst := hw first (by simp)
  -- the white space of the text is what becomes the white space of the expansion
  have hb : ∀ ch ∈ cs.takeWhile Cursor.isSeparator, Cursor.isSeparator ch = true :=
    fun ch hch => List.mem_takeWhile_imp hch
  obtain ⟨column', happend⟩ := expandTabsFrom_append column (cs.takeWhile Cursor.isSeparator)
    (cs.dropWhile Cursor.isSeparator)
  rw [List.takeWhile_append_dropWhile, h] at happend
  have hblanks : blanks' = expandTabsFrom column (cs.takeWhile Cursor.isSeparator) := by
    have htake := congrArg (List.takeWhile Cursor.isSeparator) happend
    rw [takeWhile_append_eq hb' (by simp [hfirst]),
      takeWhile_append_eq (isSeparator_of_mem_expandTabsFrom hb column)] at htake
    · exact htake
    · rw [any_head?_expandTabsFrom rfl]
      exact head?_dropWhile_any _ _
  subst hblanks
  obtain ⟨rest, column'', hdrop, hrest⟩ := exists_of_expandTabsFrom_eq hw
    (List.append_cancel_left happend).symm
  refine ⟨cs.takeWhile Cursor.isSeparator, rest, column'', ?_, hb, rfl, hrest⟩
  rw [← hdrop, List.takeWhile_append_dropWhile]

end Text

open Text

theorem Lexeme.clings_eq_false_of_isSeparator (t : Lexeme) {ch : Char}
    (h : Cursor.isSeparator ch = true) : t.clings ch = false := by
  by_contra hc
  rw [Bool.not_eq_false] at hc
  have hw := isWordChar_of_clings hc
  rw [isWordChar_eq_false_of_isSeparator h] at hw
  exact Bool.noConfusion hw

/-- White space before a lexeme keeps it apart; where there is none, nothing changes. -/
theorem Lexeme.apart_expandTabsFrom (t : Lexeme) (before : Option Char) {blanks : List Char}
    (hb : ∀ ch ∈ blanks, Cursor.isSeparator ch = true) (column : Nat) :
    ((expandTabsFrom column blanks).getLast?.or before).any t.clings =
      (blanks.getLast?.or before).any t.clings := by
  have hlast {cs : List Char} (hne : cs ≠ []) (hcs : ∀ ch ∈ cs, Cursor.isSeparator ch = true) :
      (cs.getLast?.or before).any t.clings = false := by
    rw [List.getLast?_eq_some_getLast hne]
    exact t.clings_eq_false_of_isSeparator (hcs _ (List.getLast_mem hne))
  cases blanks with
  | nil => rfl
  | cons ch cs =>
    have hne : expandTabsFrom column (ch :: cs) ≠ [] := by
      intro hnil
      have hhead := head?_expandTabsFrom column ch cs
      rw [hnil] at hhead
      cases hhead
    rw [hlast hne (isSeparator_of_mem_expandTabsFrom hb column), hlast (List.cons_ne_nil _ _) hb]

theorem Lexeme.Stands.expandTabsFrom_iff {t : Lexeme} {before : Option Char}
    {blanks rest : List Char} (hb : ∀ ch ∈ blanks, Cursor.isSeparator ch = true)
    (column column' : Nat) :
    t.Stands ((expandTabsFrom column blanks).getLast?.or before) (expandTabsFrom column' rest) ↔
      t.Stands (blanks.getLast?.or before) rest := by
  have hbefore := t.apart_expandTabsFrom before hb column
  have hafter : (expandTabsFrom column' rest).head?.any t.clings = rest.head?.any t.clings := by
    apply any_head?_expandTabsFrom
    rw [t.clings_eq_false_of_isSeparator (by decide), t.clings_eq_false_of_isSeparator (by decide)]
  constructor
  · intro h
    exact ⟨h.proper, hbefore ▸ h.apart_before, hafter ▸ h.apart_after⟩
  · intro h
    exact ⟨h.proper, hbefore.symm ▸ h.apart_before, hafter.symm ▸ h.apart_after⟩

/-- A text and its expansion spell the same lexemes. -/
theorem spells_expandTabsFrom_iff {ts : List Lexeme} {before : Option Char} {column : Nat}
    {cs : List Char} : Spells before ts (expandTabsFrom column cs) ↔ Spells before ts cs := by
  induction ts generalizing before column cs with
  | nil =>
    refine ⟨fun h ch hch => ?_, fun h => isSeparator_of_mem_expandTabsFrom h column⟩
    by_contra hsep
    exact hsep (h ch (mem_expandTabsFrom hch (by simpa using hsep) column))
  | cons t ts ih =>
    constructor
    · rintro ⟨blanks', rest', hcs, hb', hs', hrest'⟩
      obtain ⟨blanks, rest, column', rfl, hb, rfl, rfl⟩ := exists_run_of_expandTabsFrom_eq
        hs'.proper.text_ne_nil hs'.proper.not_separator hb' hcs
      exact ⟨blanks, rest, rfl, hb, (Lexeme.Stands.expandTabsFrom_iff hb _ _).mp hs', ih.mp hrest'⟩
    · rintro ⟨blanks, rest, rfl, hb, hs, hrest⟩
      obtain ⟨column', h⟩ := exists_expandTabsFrom_run hs.proper.not_separator column blanks rest
      exact ⟨expandTabsFrom column blanks, expandTabsFrom column' rest, h,
        isSeparator_of_mem_expandTabsFrom hb column,
        (Lexeme.Stands.expandTabsFrom_iff hb _ _).mpr hs, ih.mpr hrest⟩

/-- The text has no run of digits that is longer than a numeral may be. -/
def ShortRuns (text : String) : Prop :=
  ∀ run, run <:+: text.toList → (∀ ch ∈ run, isAsciiDigit ch = true) → run.length ≤ maxDigits

theorem ShortRuns.short {text : String} (h : ShortRuns text) {ts : List Lexeme}
    (hts : Spells none ts text.toList) : ∀ ds, .number ds ∈ ts → ds.length ≤ maxDigits :=
  fun ds hds => h ds (hts.text_infix hds) (hts.proper hds).2

namespace Parser

variable {α : Type} {p : Parser α} {phrase : Phrase α} {text filename : String} {a : α}

theorem parseAll_eq_ok_iff : p.parseAll text filename = .ok a ↔
    ∃ c c', p (Cursor.start (expandTabs text.toList)) = .ok (a, c) ∧
      Token.endOfText c = .ok ((), c') := by
  have hwhole : p.parseAll text filename = .ok a ↔ ∃ c', (do
      let a ← p
      Token.endOfText
      return a : Parser α) (Cursor.start (expandTabs text.toList)) = .ok (a, c') := by
    unfold parseAll run
    dsimp only
    split <;> rename_i h <;> simp [h]
  rw [hwhole]
  constructor
  · rintro ⟨c', h⟩
    obtain ⟨b, c, hp, h⟩ := bind_eq_ok_iff.mp h
    obtain ⟨_, d, hend, hpure⟩ := bind_eq_ok_iff.mp h
    cases hpure
    exact ⟨c, c', hp, hend⟩
  · rintro ⟨c, c', hp, hend⟩
    exact ⟨c', bind_eq_ok_iff.mpr ⟨a, c, hp, bind_eq_ok_iff.mpr ⟨(), c', hend, rfl⟩⟩⟩

/-- No other failure is reported as too deep a nesting: every other report says what was found. -/
theorem parseAll_eq_nestedTooDeeply_iff :
    p.parseAll text filename = .error (.rejected (.nestedTooDeeply filename)) ↔
      p (Cursor.start (expandTabs text.toList)) = .error .tooDeep := by
  have hwhole : p.parseAll text filename = .error (.rejected (.nestedTooDeeply filename)) ↔ (do
      let a ← p
      Token.endOfText
      return a : Parser α) (Cursor.start (expandTabs text.toList)) = .error .tooDeep := by
    unfold parseAll run
    dsimp only
    split <;> rename_i h <;> simp [h, Report.ofFailure, Report.nestedTooDeeply]
  rw [hwhole]
  constructor
  · intro h
    rcases bind_eq_tooDeep h with h | ⟨b, c, -, h⟩
    · exact h
    · rcases bind_eq_tooDeep h with h | ⟨_, d, -, h⟩
      · exact absurd h (Token.endOfText_ne_tooDeep c)
      · cases h
  · exact bind_of_error

/-- What a sound parser makes of a whole text are lexemes that the text spells. -/
theorem Sound.of_parseAll (h : Sound p phrase) (hp : p.parseAll text filename = .ok a) :
    ∃ ts, phrase ts a ∧ Spells none ts text.toList ∧
      ∀ ds, .number ds ∈ ts → ds.length ≤ maxDigits := by
  obtain ⟨c, c', hp, hend⟩ := parseAll_eq_ok_iff.mp hp
  obtain ⟨hb, hat⟩ := Cursor.of_endOfText hend
  obtain ⟨ts, hts, hr⟩ := h hp (.inl rfl) hb
  have hstart := hr [] hat
  rw [List.append_nil] at hstart
  exact ⟨ts, hts, spells_expandTabsFrom_iff.mp hstart.spells, hstart.short⟩

/-- A complete parser reads the lexemes that a whole text spells. -/
theorem Complete.parseAll {follow : List Lexeme → Prop} (h : Complete p phrase follow)
    (hend : follow []) {ts : List Lexeme} (hts : phrase ts a) (hspells : Spells none ts text.toList)
    (hshort : ∀ ds, .number ds ∈ ts → ds.length ≤ maxDigits)
    (hdeep : p.parseAll text filename ≠ .error (.rejected (.nestedTooDeeply filename))) :
    p.parseAll text filename = .ok a := by
  have hat : (Cursor.start (expandTabs text.toList)).At (ts ++ []) := by
    rw [List.append_nil]
    exact ⟨spells_expandTabsFrom_iff.mpr hspells, hshort⟩
  rcases h hts hend hat with hp | ⟨c, hp, hc⟩
  · exact absurd (parseAll_eq_nestedTooDeeply_iff.mpr hp) hdeep
  · obtain ⟨c', hend⟩ := hc.endOfText
    exact parseAll_eq_ok_iff.mpr ⟨c, c', hp, hend⟩

theorem Within.parseAll_ne {nesting : Nat} (h : Within nesting p) {text : String}
    (hlen : (expandTabs text.toList).length < nesting) (filename : String) :
    p.parseAll text filename ≠ .error (.rejected (.nestedTooDeeply filename)) := by
  intro hp
  have hdeep := h.deep (parseAll_eq_nestedTooDeeply_iff.mp hp)
  rw [Cursor.rest_start] at hdeep
  omega

end Parser

theorem ShortRuns.of_length_le {text : String} (h : text.toList.length ≤ maxDigits) :
    ShortRuns text :=
  fun _ hrun _ => hrun.length_le.trans h

namespace Parser

variable {α : Type} {phrase : Phrase α} {follow : List Lexeme → Prop} {text filename : String}

/-- A sound and complete parser accepts exactly the texts that spell a phrase. -/
theorem parseAll_eq_ok_iff_spells {p : Parser α} (hsound : Sound p phrase)
    (hcomplete : Complete p phrase follow) (hend : follow []) (hshort : ShortRuns text)
    (hdeep : p.parseAll text filename ≠ .error (.rejected (.nestedTooDeeply filename))) (a : α) :
    p.parseAll text filename = .ok a ↔ ∃ ts, Spells none ts text.toList ∧ phrase ts a := by
  constructor
  · intro h
    obtain ⟨ts, hts, hspells, -⟩ := hsound.of_parseAll h
    exact ⟨ts, hspells, hts⟩
  · rintro ⟨ts, hspells, hts⟩
    exact hcomplete.parseAll hend hts hspells (hshort.short hspells) hdeep

/-- Under a limit that the text cannot reach, the parser answers with the tree of either
derivation. -/
theorem eq_of_spells {p : Nat → Parser α} (hcomplete : ∀ n, Complete (p n) phrase follow)
    (hwithin : ∀ n, Within n (p n)) (hend : follow []) (hshort : ShortRuns text)
    {ts ts' : List Lexeme} {a a' : α} (hspells : Spells none ts text.toList) (h : phrase ts a)
    (hspells' : Spells none ts' text.toList) (h' : phrase ts' a') : a = a' := by
  have hlen := Nat.lt_succ_self (expandTabs text.toList).length
  have hdeep := (hwithin _).parseAll_ne hlen standardInput
  have ha := (hcomplete _).parseAll hend h hspells (hshort.short hspells) hdeep
  have ha' := (hcomplete _).parseAll hend h' hspells' (hshort.short hspells') hdeep
  rw [ha] at ha'
  exact Except.ok.inj ha'

end Parser

/-- The parser accepts exactly its grammar, and the grammar is unambiguous: a text spells one
sequence of lexemes, and these derive one tree. -/
theorem parse_eq_ok_iff_derives (nesting : Nat) (text filename : String)
    (hshort : ShortRuns text) :
    (parseStatement nesting text filename ≠ .error (.rejected (.nestedTooDeeply filename)) →
      ∀ s, parseStatement nesting text filename = .ok s ↔ DerivesStatement text s) ∧
    (parseExpression nesting text filename ≠ .error (.rejected (.nestedTooDeeply filename)) →
      ∀ e, parseExpression nesting text filename = .ok e ↔ DerivesExpression text e) ∧
    ((expandTabs text.toList).length < nesting →
      parseStatement nesting text filename ≠ .error (.rejected (.nestedTooDeeply filename)) ∧
      parseExpression nesting text filename ≠ .error (.rejected (.nestedTooDeeply filename))) ∧
    (∀ ts ts', Spells none ts text.toList → Spells none ts' text.toList → ts = ts') ∧
    (∀ s s', DerivesStatement text s → DerivesStatement text s' → s = s') ∧
    (∀ e e', DerivesExpression text e → DerivesExpression text e' → e = e') := by
  refine ⟨fun hdeep => ?_, fun hdeep => ?_, fun hlen => ?_, ?_, ?_, ?_⟩
  · exact Parser.parseAll_eq_ok_iff_spells (Grammar.sound_statement nesting)
      (Grammar.complete_statement nesting) trivial hshort hdeep
  · exact Parser.parseAll_eq_ok_iff_spells (Grammar.sound_expression nesting)
      (Grammar.complete_expression nesting) (stops_nil 5) hshort hdeep
  · exact ⟨(Grammar.within_statement nesting).parseAll_ne hlen filename,
      (Grammar.within_expression nesting).parseAll_ne hlen filename⟩
  · exact fun ts ts' h h' => h.unique h'
  · rintro s s' ⟨ts, hspells, h⟩ ⟨ts', hspells', h'⟩
    exact Parser.eq_of_spells Grammar.complete_statement Grammar.within_statement trivial hshort
      hspells h hspells' h'
  · rintro e e' ⟨ts, hspells, h⟩ ⟨ts', hspells', h'⟩
    exact Parser.eq_of_spells Grammar.complete_expression Grammar.within_expression (stops_nil 5)
      hshort hspells h hspells' h'

theorem parse_eq_ok_iff_derives_slash :
    ShortRuns "x := 8/ 2/=a\tand y;" ∧
    parseStatement 9 "x := 8/ 2/=a\tand y;" standardInput ≠
      .error (.rejected (.nestedTooDeeply standardInput)) ∧
    DerivesStatement "x := 8/ 2/=a\tand y;"
      (.set "x" (.binary .and (.binary .ne (.binary .div (.int 8) (.int 2)) (.var "a"))
        (.var "y"))) := by
  have hshort : ShortRuns "x := 8/ 2/=a\tand y;" := .of_length_le (by decide)
  have hparse : parseStatement 9 "x := 8/ 2/=a\tand y;" standardInput =
      .ok (.set "x" (.binary .and (.binary .ne (.binary .div (.int 8) (.int 2)) (.var "a"))
        (.var "y"))) := rfl
  have hdeep : parseStatement 9 "x := 8/ 2/=a\tand y;" standardInput ≠
      .error (.rejected (.nestedTooDeeply standardInput)) := by
    rw [hparse]
    simp
  exact ⟨hshort, hdeep,
    ((parse_eq_ok_iff_derives 9 _ standardInput hshort).1 hdeep _).mp hparse⟩

end ImpLang
