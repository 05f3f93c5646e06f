import ImpLang.Proofs.Acceptance
import ImpLang.Proofs.Law

/-! The one failure of parsing that is not reported. A literal is too long only where the text has a
run of as many digits, and expanding tabs neither makes nor breaks such runs. -/
namespace ImpLang

open Token ImpLang.Parser

/-- So many digits stand in a row in the text, more than a literal may have. -/
def LongRun (cs : List Char) (n : Nat) : Prop :=
  ∃ run, run <:+: cs ∧ (∀ ch ∈ run, Text.isAsciiDigit ch = true) ∧ run.length = n ∧
    Text.maxDigits < n

theorem LongRun.mono {cs ds : List Char} {n : Nat} (h : LongRun cs n) (hcs : cs <:+: ds) :
    LongRun ds n := by
  obtain ⟨run, hrun, hrest⟩ := h
  exact ⟨run, hrun.trans hcs, hrest⟩

theorem ShortRuns.not_longRun {text : String} (h : ShortRuns text) (n : Nat) :
    ¬ LongRun text.toList n := by
  rintro ⟨run, hrun, hdigits, rfl, hlong⟩
  have hshort := h run hrun hdigits
  omega

theorem isSeparator_eq_false_of_isAsciiDigit {ch : Char} (h : Text.isAsciiDigit ch = true) :
    Cursor.isSeparator ch = false := by
  by_contra hs
  have hword := isWordChar_eq_false_of_isSeparator (by simpa using hs)
  rw [isWordChar_of_isAsciiDigit h] at hword
  exact Bool.noConfusion hword

namespace Text

/-- A run without white space that stands in the expanded text stands in the text itself. -/
theorem infix_of_infix_expandTabsFrom {run : List Char}
    (hrun : ∀ ch ∈ run, Cursor.isSeparator ch = false) {column : Nat} {cs : List Char}
    (h : run <:+: expandTabsFrom column cs) : run <:+: cs := by
  -- the run starts the expansion, and so the text, or it stands in what comes later
  have hstart {column : Nat} {cs : List Char} (hp : run <+: expandTabsFrom column cs) :
      run <:+: cs := by
    obtain ⟨rest, hrest⟩ := hp
    obtain ⟨cs', column', rfl, -⟩ := exists_of_expandTabsFrom_eq hrun hrest.symm
    exact (List.prefix_append run cs').isInfix
  have hspaces (gap : Nat) {ds : List Char} (hds : run <:+: List.replicate gap ' ' ++ ds) :
      run <:+: ds := by
    induction gap with
    | zero => exact hds
    | succ gap ih =>
      rw [List.replicate_succ, List.cons_append] at hds
      rcases List.infix_cons_iff.mp hds with hp | hi
      · cases run with
        | nil => exact List.nil_infix
        | cons ch run =>
          obtain ⟨rfl, -⟩ := List.cons_prefix_cons.mp hp
          exact absurd (hrun ' ' (by simp)) (by decide)
      · exact ih hi
  induction cs generalizing column with
  | nil => exact h
  | cons ch cs ih =>
    have hcons : run <:+: cs → run <:+: ch :: cs := fun hi => List.infix_cons hi
    by_cases htab : ch = '\t'
    · rw [expandTabsFrom, if_pos htab] at h
      exact hcons (ih (hspaces _ h))
    · have hnext : ∃ column',
          expandTabsFrom column (ch :: cs) = ch :: expandTabsFrom column' cs := by
        rw [expandTabsFrom, if_neg htab]
        split_ifs
        · exact ⟨0, rfl⟩
        · exact ⟨column + 1, rfl⟩
      obtain ⟨column', hnext⟩ := hnext
      rw [hnext] at h
      rcases List.infix_cons_iff.mp h with hp | hi
      · exact hstart (hnext ▸ hp)
      · exact hcons (ih hi)

end Text

theorem LongRun.of_expandTabs {cs : List Char} {n : Nat} (h : LongRun (Text.expandTabs cs) n) :
    LongRun cs n := by
  obtain ⟨run, hrun, hdigits, hlen⟩ := h
  have hplain : ∀ ch ∈ run, Cursor.isSeparator ch = false :=
    fun ch hch => isSeparator_eq_false_of_isAsciiDigit (hdigits ch hch)
  exact ⟨run, Text.infix_of_infix_expandTabsFrom hplain hrun, hdigits, hlen⟩

structure Parser.IsToken {α : Type} (p : Parser α) : Prop where
  moves : ∀ ⦃c a c'⦄, p c = .ok (a, c') → ∃ count, c' = c.skip.advance count
  fails : ∀ ⦃c e⦄, p c = .error e → ∃ offset message, e = .soft offset message

namespace Token

theorem isToken_literal (s : String) : IsToken (literal s) := by
  constructor
  · intro c u c' h
    exact ⟨_, (literal_eq_ok_iff.mp h).2⟩
  · intro c e h
    exact ⟨_, _, literal_eq_error h⟩

theorem isToken_keyword (w : String) : IsToken (keyword w) := by
  constructor
  · intro c u c' h
    exact ⟨_, (keyword_eq_ok_iff.mp h).2⟩
  · intro c e h
    rcases keyword_eq_error h with he | he | ⟨-, he⟩
    all_goals exact ⟨_, _, he⟩

theorem isToken_identifier : IsToken identifier := by
  constructor
  · intro c x c' h
    exact ⟨_, (identifier_eq_ok_iff.mp h).2⟩
  · intro c e h
    rcases identifier_eq_error h with he | he
    all_goals exact ⟨_, _, he⟩

theorem isToken_integer : IsToken integer := by
  constructor
  · intro c ds c' h
    exact ⟨_, (integer_eq_ok_iff.mp h).2⟩
  · intro c e h
    exact ⟨_, _, integer_eq_error h⟩

end Token

/-- Parsers move forward, and blame a literal only for a run of digits that lies ahead. -/
def runLaw : Law where
  moves c c' := c'.rest <:+ c.rest
  fails c e := ∀ n, e = .literalTooLong n → LongRun c.rest n
  refl c := List.suffix_refl c.rest
  trans h h' := h'.trans h
  back hmoves hfails n hn := (hfails n hn).mono hmoves.isInfix
  renamed _ _ := by simp
  committed _ := by simp

theorem Cursor.skip_rest_suffix (c : Cursor) : c.skip.rest <:+ c.rest :=
  List.drop_suffix _ c.rest

theorem Parser.IsToken.obeys_runLaw {α : Type} {p : Parser α} (h : IsToken p) :
    Obeys runLaw p := by
  constructor
  · intro c a c' hp
    obtain ⟨count, rfl⟩ := h.moves hp
    exact (List.drop_suffix count c.skip.rest).trans c.skip_rest_suffix
  · intro c e hp n hn
    obtain ⟨offset, message, rfl⟩ := h.fails hp
    cases hn

theorem obeys_runLaw_intLiteral : Obeys runLaw Grammar.intLiteral := by
  have hinteger : Obeys runLaw integer := isToken_integer.obeys_runLaw
  constructor
  · intro c e c' h
    obtain ⟨ds, d, hint, hrest⟩ := bind_eq_ok_iff.mp h
    split_ifs at hrest
    · cases hrest
      exact hinteger.moves hint
    · cases hrest
  · intro c e h n hn
    subst hn
    cases hint : integer c with
    | error e =>
      rw [Grammar.intLiteral, bind_of_error hint] at h
      cases h
      exact hinteger.fails hint n rfl
    | ok r =>
      obtain ⟨ds, d⟩ := r
      rw [Grammar.intLiteral, bind_of_ok hint] at h
      split_ifs at h with hlen
      · cases h
      · -- the digits that were read stand behind the white space at the cursor
        cases h
        obtain ⟨⟨hrun, -⟩, -⟩ := integer_eq_ok_iff.mp hint
        obtain ⟨rest, hr, hdigits, -⟩ := takeWhile_eq_iff.mp hrun
        have hinfix : ds <:+: c.skip.rest := hr ▸ (List.prefix_append ds rest).isInfix
        exact ⟨ds, hinfix.trans c.skip_rest_suffix.isInfix, hdigits, rfl, by omega⟩

theorem tokens_runLaw : runLaw.Tokens := by
  refine .of_each (fun s _ => (isToken_literal s).obeys_runLaw)
    (fun w _ => (isToken_keyword w).obeys_runLaw) isToken_identifier.obeys_runLaw
    obeys_runLaw_intLiteral fun c n hn => ?_
  cases hn

theorem Parser.parseAll_eq_literalTooLong {α : Type} {p : Parser α} {text filename : String}
    {n : Nat} (h : p.parseAll text filename = .error (.literalTooLong n)) :
    p (Cursor.start (Text.expandTabs text.toList)) = .error (.literalTooLong n) := by
  have hwhole : (do
      let a ← p
      Token.endOfText
      return a : Parser α) (Cursor.start (Text.expandTabs text.toList)) =
        .error (.literalTooLong n) := by
    unfold parseAll run at h
    dsimp only at h
    split at h <;> rename_i hp <;> cases h
    exact hp
  cases hp : p (Cursor.start (Text.expandTabs text.toList)) with
  | error e =>
    rw [bind_of_error hp] at hwhole
    exact hwhole
  | ok r =>
    obtain ⟨a, c⟩ := r
    rw [bind_of_ok hp] at hwhole
    cases hend : Token.endOfText c with
    | error e =>
      rw [bind_of_error hend] at hwhole
      cases hwhole
      cases Token.endOfText_eq_error hend
    | ok r' =>
      rw [bind_of_ok hend] at hwhole
      cases hwhole

theorem Parser.parseAll_fault {α : Type} {p : Parser α} {text filename : String} {e : Fault}
    (h : p.parseAll text filename = .error e) :
    (∃ report, e = .rejected report) ∨ ∃ n, e = .literalTooLong n := by
  unfold Parser.parseAll at h
  dsimp only at h
  split at h
  all_goals cases h
  · exact .inl ⟨_, rfl⟩
  · exact .inl ⟨_, rfl⟩
  · exact .inl ⟨_, rfl⟩
  · exact .inr ⟨_, rfl⟩

theorem longRun_of_parseStatement {nesting : Nat} {text filename : String} {n : Nat}
    (h : parseStatement nesting text filename = .error (.literalTooLong n)) :
    LongRun text.toList n := by
  have hfails := (Grammar.obeys_statement tokens_runLaw nesting).fails
    (parseAll_eq_literalTooLong h) n rfl
  exact LongRun.of_expandTabs hfails

end ImpLang
