import ImpLang.Parse.Grammar
import ImpLang.Proofs.Derivation
import ImpLang.Proofs.Reading

/-! What has a derivation is accepted. Where the lexemes of a phrase are spelled, its parser reads
exactly them, provided that what follows does not go on with an operator; the only other answer is
that the text is nested too deeply. -/
namespace ImpLang

open Token ImpLang.Parser

def Lexeme.opens : Lexeme → Bool
  | number _ | name _ => true
  | keyword w => ["fn", "if", "let", "true", "false", "apply"].contains w
  | symbol s => s = "("

/-- The lexemes do not go on with an operator that binds as tightly as the level. -/
def Stops (level : Nat) (us : List Lexeme) : Prop :=
  ∀ op : Op, us.head? = some op.lexeme → level < op.level

theorem Stops.mono {m n : Nat} (hmn : m ≤ n) {us : List Lexeme} (h : Stops n us) : Stops m us :=
  fun op hop => lt_of_le_of_lt hmn (h op hop)

theorem stops_nil (level : Nat) : Stops level [] := by
  intro op hop
  cases hop

theorem stops_cons {t : Lexeme} (ht : ∀ op ∈ Op.all, t ≠ op.lexeme) {level : Nat}
    {us : List Lexeme} : Stops level (t :: us) := by
  intro op hop
  have hmem : op ∈ Op.all := by cases op <;> decide
  exact absurd (Option.some.inj hop) (ht op hmem)

theorem stops_lexeme {op : Op} {level : Nat} (h : level < op.level) (us : List Lexeme) :
    Stops level (op.lexeme :: us) := by
  intro op' hop
  have heq : op.lexeme = op'.lexeme := Option.some.inj hop
  have : op = op' := by
    revert heq
    cases op <;> cases op' <;> decide
  exact this ▸ h

namespace Cursor

structure Blocked (c : Cursor) : Prop where
  letter : c.skip.rest.head?.any Char.isAlpha = false
  digit : c.skip.rest.head?.any Text.isAsciiDigit = false
  paren : c.skip.rest.head? ≠ some '('

theorem At.blocked {c : Cursor} {t : Lexeme} {us : List Lexeme} (h : c.At (t :: us))
    (hw : t.isWord = false) (hn : t.isNumber = false) (hp : t.text.head? ≠ some '(') :
    c.Blocked :=
  ⟨by rw [h.head_skip_isAlpha]; exact hw, by rw [h.head_skip_isAsciiDigit]; exact hn,
    by rw [h.head_skip]; exact hp⟩

/-- An operand never starts with an equals sign. -/
theorem At.head_ne_equals {c : Cursor} {us : List Lexeme} (h : c.At us)
    (ho : us.head?.any Lexeme.opens = true) : c.rest.head? ≠ some '=' := by
  cases us with
  | nil => exact Bool.noConfusion ho
  | cons t us =>
    obtain ⟨rest, -, hs, -⟩ := h.skip_cons
    have hfirst : t.text.head? ≠ some '=' := by
      intro heq
      have ha := hs.proper.isAlpha_head
      have hd := hs.proper.isAsciiDigit_head
      rw [heq] at ha hd
      cases t with
      | number ds => exact Bool.noConfusion hd
      | name x => exact Bool.noConfusion ha
      | keyword w => exact Bool.noConfusion ha
      | symbol s =>
        have hsym : s = "(" := by simpa [Lexeme.opens] using ho
        subst hsym
        exact absurd heq (by decide)
    obtain ⟨blanks, hc, hb, -⟩ := c.exists_blanks
    cases blanks with
    | nil =>
      rw [hc, List.nil_append, h.head_skip]
      exact hfirst
    | cons ch cs =>
      intro heq
      rw [hc] at heq
      have hch : ch = '=' := by simpa using heq
      exact absurd (hb ch (by simp)) (by subst hch; decide)

end Cursor

namespace Parser

open Phrase

variable {α β : Type}

/-- The parser reads the tree and leaves the lexemes, unless the text is nested too deeply. -/
def Yields (p : Parser α) (c : Cursor) (a : α) (us : List Lexeme) : Prop :=
  p c = .error .tooDeep ∨ ∃ c', p c = .ok (a, c') ∧ c'.At us

theorem Yields.of_ok {p : Parser α} {c : Cursor} {a : α} {us : List Lexeme}
    (h : ∃ c', p c = .ok (a, c') ∧ c'.At us) : Yields p c a us :=
  .inr h

theorem Yields.pure {c : Cursor} {us : List Lexeme} (h : c.At us) (a : α) :
    Yields (Pure.pure a) c a us :=
  .inr ⟨c, rfl, h⟩

theorem Yields.bind {p : Parser α} {f : α → Parser β} {c : Cursor} {a : α} {b : β}
    {us vs : List Lexeme} (hp : Yields p c a us) (hf : ∀ c', c'.At us → Yields (f a) c' b vs) :
    Yields (p >>= f) c b vs := by
  rcases hp with hdeep | ⟨c', hok, hat⟩
  · exact .inl (bind_of_error hdeep)
  · rw [Yields, bind_of_ok hok]
    exact hf c' hat

theorem Yields.commit {p : Parser α} {c : Cursor} {a : α} {us : List Lexeme}
    (h : Yields p c a us) : Yields (commit p) c a us := by
  rcases h with hdeep | ⟨c', hok, hat⟩
  · exact .inl (by simp only [Parser.commit, hdeep])
  · exact .inr ⟨c', commit_of_ok hok, hat⟩

theorem Yields.named {p : Parser α} {c : Cursor} {a : α} {us : List Lexeme} {message : String}
    (h : Yields p c a us) : Yields (named message p) c a us := by
  rcases h with hdeep | ⟨c', hok, hat⟩
  · exact .inl (by simp only [Parser.named, hdeep])
  · exact .inr ⟨c', named_of_ok hok, hat⟩

theorem Yields.either_left {p q : Parser α} {c : Cursor} {a : α} {us : List Lexeme}
    (h : Yields p c a us) : Yields (either p q) c a us := by
  rcases h with hdeep | ⟨c', hok, hat⟩
  · exact .inl (either_of_tooDeep hdeep)
  · exact .inr ⟨c', either_of_ok hok, hat⟩

theorem Yields.either_right {p q : Parser α} {c : Cursor} {a : α} {us : List Lexeme}
    (hp : p.Soft c) (h : Yields q c a us) : Yields (either p q) c a us := by
  rcases h with hdeep | ⟨c', hok, hat⟩
  · exact .inl (either_of_soft hp hdeep (by simp))
  · exact .inr ⟨c', either_of_soft hp hok (by simp), hat⟩

/-- The parser has nothing to read here. -/
def Balks (p : Parser α) (c : Cursor) : Prop :=
  p c = .error .tooDeep ∨ p.Soft c

/-- Every phrase is read to its end if what follows it is as it has to be. -/
def Complete (p : Parser α) (phrase : Phrase α) (follow : List Lexeme → Prop) : Prop :=
  ∀ ⦃ts a us c⦄, phrase ts a → follow us → c.At (ts ++ us) → Yields p c a us

theorem Complete.manyUpTo {γ : Type} {p : Parser α} {phrase : Phrase α}
    {follow : List Lexeme → Prop} (h : Complete p phrase follow)
    (hnext : ∀ ts a us, phrase ts a → follow (ts ++ us)) {us : List Lexeme} (hus : follow us)
    (hstop : ∀ c, c.At us → p.Balks c) {ts : List Lexeme} {as : List α}
    (hts : Many phrase ts as) (tally : List γ) (hlen : as.length < tally.length) {c : Cursor}
    (hc : c.At (ts ++ us)) : Yields (manyUpTo tally p) c as us := by
  -- the tally is longer than the list, so that a round is left in which nothing more is read
  induction hts generalizing tally c with
  | nil =>
    cases tally with
    | nil => exact absurd hlen (by simp)
    | cons g tally =>
      rcases hstop c hc with hdeep | hsoft
      · exact .inl (by simp only [Parser.manyUpTo, hdeep])
      · exact .inr ⟨c, manyUpTo_cons_of_soft hsoft, hc⟩
  | @cons ts us' a as first others ih =>
    cases tally with
    | nil => exact absurd hlen (by simp)
    | cons g tally =>
      have hfollow : follow (us' ++ us) := by
        cases others with
        | nil => exact hus
        | cons first' others' =>
          rw [List.append_assoc]
          exact hnext _ _ _ first'
      rw [List.append_assoc] at hc
      rcases h first hfollow hc with hdeep | ⟨d, hok, hd⟩
      · exact .inl (by simp only [Parser.manyUpTo, hdeep])
      · rcases ih tally (by simpa using hlen) hd with hdeep | ⟨d', hok', hd'⟩
        · exact .inl (by simp only [Parser.manyUpTo, hok, hdeep])
        · exact .inr ⟨d', by simp only [Parser.manyUpTo, hok, hok'], hd'⟩

/-- There are no more phrases than lexemes, so the tally is long enough. -/
theorem Complete.many {p : Parser α} {phrase : Phrase α} {follow : List Lexeme → Prop}
    (h : Complete p phrase follow) (hnext : ∀ ts a us, phrase ts a → follow (ts ++ us))
    (hne : ∀ ts a, phrase ts a → ts ≠ []) {us : List Lexeme} (hus : follow us)
    (hstop : ∀ c, c.At us → p.Balks c) {ts : List Lexeme} {as : List α}
    (hts : Many phrase ts as) {c : Cursor} (hc : c.At (ts ++ us)) : Yields (many p) c as us := by
  have hcount : as.length ≤ ts.length := by
    clear hc
    induction hts with
    | nil => exact le_rfl
    | cons first others ih =>
      have hpos := List.length_pos_iff.mpr (hne _ _ first)
      simp only [List.length_cons, List.length_append]
      omega
  have hle := hc.length_le
  rw [List.length_append] at hle
  exact h.manyUpTo hnext hus hstop hts _ (by simp only [List.length_cons]; omega) hc

/-- A list is read up to a lexeme that is no item and no delimiter. -/
theorem Complete.listOf {s : String} {p : Parser α} {phrase : Phrase α}
    {follow : List Lexeme → Prop} (h : Complete p phrase follow)
    (hdelimiter : ∀ us, follow (.symbol s :: us)) {us : List Lexeme} (hus : follow us)
    (hitem : ∀ c, c.At us → p.Balks c) (hstop : ∀ c, c.At us → (literal s).Soft c)
    {ts : List Lexeme} {as : List α} (hts : Listed (.symbol s) phrase ts as) {c : Cursor}
    (hc : c.At (ts ++ us)) : Yields (listOf (literal s) p) c as us := by
  have hafter : Complete (do literal s; p) (After (.symbol s) phrase) follow := by
    rintro ts a us c ⟨ha⟩ hfollow hat
    exact .bind (.of_ok hat.literal) fun c' hc' => h ha hfollow hc'
  cases hts with
  | empty =>
    rcases hitem c hc with hdeep | hsoft
    · exact .inl (by simp only [Parser.listOf, orDefault, bind_of_error hdeep])
    · exact .inr ⟨c, orDefault_of_soft hsoft.bind, hc⟩
  | @items ts us' a as first others =>
    -- what follows an item is a delimiter or what follows the list
    have hfollow : follow (us' ++ us) := by
      cases others with
      | nil => exact hus
      | cons first' others' =>
        cases first'
        exact hdelimiter _
    rw [List.append_assoc] at hc
    have hy : Yields (do let first ← p; let others ← Parser.many (do literal s; p)
                         return first :: others) c (a :: as) us := by
      refine .bind (h first hfollow hc) fun d hd => .bind (hafter.many ?_ ?_ hus ?_ others hd)
        fun d' hd' => .pure hd' _
      · rintro ts a us ⟨-⟩
        exact hdelimiter _
      · rintro ts a ⟨-⟩
        exact List.cons_ne_nil _ _
      · exact fun d hd => .inr (hstop d hd).bind
    rcases hy with hdeep | ⟨d, hok, hd⟩
    · exact .inl (by simp only [Parser.listOf, orDefault, hdeep])
    · exact .inr ⟨d, orDefault_of_ok hok, hd⟩

def Leads (phrase : Phrase Exp) : Prop :=
  ∀ ts e, phrase ts e → ts.head?.any Lexeme.opens = true

theorem Leads.append {phrase : Phrase Exp} (h : Leads phrase) {ts : List Lexeme} {e : Exp}
    (hts : phrase ts e) (us : List Lexeme) : (ts ++ us).head?.any Lexeme.opens = true := by
  have hlead := h ts e hts
  cases ts with
  | nil => exact Bool.noConfusion hlead
  | cons t ts => exact hlead

theorem Leads.chain {phrase : Phrase Exp} (h : Leads phrase) (level : Nat) :
    Leads (Chain level phrase) := by
  rintro ts e ⟨first, -⟩
  exact h.append first _

def CompleteOperator (operator : Parser Op) (level : Nat) : Prop :=
  ∀ ⦃op : Op⦄ ⦃us c⦄, op.level = level → c.At (op.lexeme :: us) →
    us.head?.any Lexeme.opens = true → ∃ c', operator c = .ok (op, c') ∧ c'.At us

/-- A chain is read up to what does not go on with it: either no operator is read there, or no
operand behind it. -/
theorem Complete.level {operand : Parser Exp} {operator : Parser Op} {phrase : Phrase Exp}
    {level : Nat} (h : Complete operand phrase (Stops level)) (hlead : Leads phrase)
    (hop : CompleteOperator operator (level + 1))
    (hstop : ∀ us c, Stops (level + 1) us → c.At us →
      (do let op ← operator; let right ← operand; return (op, right)).Soft c) :
    Complete (Grammar.level operand operator (.ofLevel (level + 1))) (Chain (level + 1) phrase)
      (Stops (level + 1)) := by
  have hpair : Complete (do let op ← operator; let right ← operand; return (op, right))
      (Operation (level + 1) phrase) (Stops level) := by
    rintro ts ⟨op, e⟩ us c ⟨hlevel, right⟩ hus hc
    exact .bind (.of_ok (hop hlevel hc (hlead.append right us))) fun d hd =>
      .bind (h right hus hd) fun d' hd' => .pure hd' _
  have hnext : ∀ ts (a : Op × Exp) us, Operation (level + 1) phrase ts a →
      Stops level (ts ++ us) := by
    rintro ts a us ⟨hlevel, -⟩
    exact stops_lexeme (by omega) _
  rintro ts e us c ⟨first, rest⟩ hus hc
  rename_i ts us' e others
  have hus' : Stops level us := hus.mono (by omega)
  -- what follows the first operand is the rest of the chain or what follows the whole
  have hfollow : Stops level (us' ++ us) := by
    cases rest with
    | nil => exact hus'
    | cons first' others' =>
      rw [List.append_assoc]
      exact hnext _ _ _ first'
  rw [List.append_assoc] at hc
  rw [← rest.foldl_operation]
  refine .bind (h first hfollow hc) fun d hd => .bind (hpair.many hnext ?_ hus' ?_ rest hd)
    fun d' hd' => .pure hd' _
  · rintro ts a ⟨-⟩
    exact List.cons_ne_nil _ _
  · exact fun d hd => .inr (hstop us d hus hd)

theorem symbolOp_of_at {op : Op} {c : Cursor} {us : List Lexeme}
    (h : c.At (.symbol op.symbol :: us)) : ∃ c', symbolOp op c = .ok (op, c') ∧ c'.At us := by
  obtain ⟨c', hlit, ha⟩ := h.literal
  exact ⟨c', bind_of_ok hlit, ha⟩

theorem completeOperator_wordOp (op : Op) (hkind : op.kind = .logic) :
    CompleteOperator (wordOp op) op.level := by
  intro op' us c hlevel hc _
  have hop : op' = op := by
    revert hlevel
    cases op <;> cases op' <;> first | decide | cases hkind
  subst hop
  have hlex : op'.lexeme = .keyword op'.symbol := by cases op' <;> first | rfl | cases hkind
  rw [hlex] at hc
  obtain ⟨c', hkey, ha⟩ := hc.keyword
  exact ⟨c', bind_of_ok hkey, ha⟩

theorem completeOperator_productOp : CompleteOperator productOp 1 := by
  intro op us c hlevel hc _
  have hop : op = .mul ∨ op = .div := by
    revert hlevel
    cases op <;> decide
  rcases hop with rfl | rfl
  · obtain ⟨c', hok, ha⟩ := symbolOp_of_at hc
    exact ⟨c', either_of_ok hok, ha⟩
  · obtain ⟨c', hok, ha⟩ := symbolOp_of_at hc
    have hmul : (symbolOp .mul).Soft c := (hc.literal_soft_cons (by decide) (by decide)).bind
    exact ⟨c', either_of_soft hmul hok (by simp), ha⟩

theorem completeOperator_sumOp : CompleteOperator sumOp 2 := by
  intro op us c hlevel hc _
  have hop : op = .add ∨ op = .sub := by
    revert hlevel
    cases op <;> decide
  rcases hop with rfl | rfl
  · obtain ⟨c', hok, ha⟩ := symbolOp_of_at hc
    exact ⟨c', either_of_ok hok, ha⟩
  · obtain ⟨c', hok, ha⟩ := symbolOp_of_at hc
    have hadd : (symbolOp .add).Soft c := (hc.literal_soft_cons (by decide) (by decide)).bind
    exact ⟨c', either_of_soft hadd hok (by simp), ha⟩

/-- A symbol of one character is not taken for the longer one that ends in an equals sign. -/
theorem literal_soft_of_operand (ch : Char) {c : Cursor} {us : List Lexeme}
    (h : c.At (.symbol (String.ofList [ch]) :: us)) (ho : us.head?.any Lexeme.opens = true) :
    (literal (String.ofList [ch, '='])).Soft c := by
  obtain ⟨rest, hr, -, ha⟩ := h.skip_cons
  have hne := ha.head_ne_equals ho
  apply literal_soft
  rintro ⟨rest', hr'⟩
  have heq : '=' :: rest' = rest := by simpa [hr, Lexeme.text] using hr'
  apply hne
  simp [hr, Lexeme.text, ← heq]

theorem completeOperator_comparisonOp : CompleteOperator comparisonOp 3 := by
  intro op us c hlevel hc ho
  suffices hs : ∃ c', comparisonSymbol c = .ok (op, c') ∧ c'.At us by
    obtain ⟨c', hok, ha⟩ := hs
    exact ⟨c', by simp only [comparisonOp, hok], ha⟩
  have hop : op = .le ∨ op = .ge ∨ op = .ne ∨ op = .eq ∨ op = .lt ∨ op = .gt := by
    revert hlevel
    cases op <;> decide
  have hskip {p q : Parser Op} (hp : p.Soft c) (hq : ∃ c', q c = .ok (op, c') ∧ c'.At us) :
      ∃ c', either p q c = .ok (op, c') ∧ c'.At us := by
    obtain ⟨c', hok, ha⟩ := hq
    exact ⟨c', either_of_soft hp hok (by simp), ha⟩
  have hread {p q : Parser Op} (hp : ∃ c', p c = .ok (op, c') ∧ c'.At us) :
      ∃ c', either p q c = .ok (op, c') ∧ c'.At us := by
    obtain ⟨c', hok, ha⟩ := hp
    exact ⟨c', either_of_ok hok, ha⟩
  have hother (op' : Op) (hne : op.lexeme.text.head? ≠ op'.symbol.toList.head?)
      (hs : op'.symbol.toList ≠ []) : (symbolOp op').Soft c :=
    (hc.literal_soft_cons hs hne).bind
  -- an alternative that is tried first starts with another character, or has an equals sign more
  rcases hop with rfl | rfl | rfl | rfl | rfl | rfl
  · exact hread (symbolOp_of_at hc)
  · exact hskip (hother .le (by decide) (by decide)) (hread (symbolOp_of_at hc))
  · exact hskip (hother .le (by decide) (by decide)) <|
      hskip (hother .ge (by decide) (by decide)) (hread (symbolOp_of_at hc))
  · exact hskip (hother .le (by decide) (by decide)) <|
      hskip (hother .ge (by decide) (by decide)) <|
      hskip (hother .ne (by decide) (by decide)) (hread (symbolOp_of_at hc))
  · have hle : (symbolOp .le).Soft c := (literal_soft_of_operand '<' hc ho).bind
    exact hskip hle <| hskip (hother .ge (by decide) (by decide)) <|
      hskip (hother .ne (by decide) (by decide)) <|
      hskip (hother .eq (by decide) (by decide)) (hread (symbolOp_of_at hc))
  · have hge : (symbolOp .ge).Soft c := (literal_soft_of_operand '>' hc ho).bind
    exact hskip (hother .le (by decide) (by decide)) <| hskip hge <|
      hskip (hother .ne (by decide) (by decide)) <|
      hskip (hother .eq (by decide) (by decide)) <|
      hskip (hother .lt (by decide) (by decide)) (symbolOp_of_at hc)

/-- A symbol is no operator of the level here if each symbol that starts like it is one. -/
theorem symbolOp_soft_of_stops (op : Op) {level : Nat} {c : Cursor} {us : List Lexeme} {ch : Char}
    (hfirst : op.symbol.toList.head? = some ch) (hch : isWordChar ch = false)
    (hall : ∀ s ∈ symbols, s.toList.head? = some ch →
      ∃ op' ∈ Op.all, op'.lexeme = .symbol s ∧ op'.level ≤ level)
    (hus : Stops level us) (hc : c.At us) : (symbolOp op).Soft c := by
  refine (hc.literal_soft (fun hnil => by simp [hnil] at hfirst) ?_).bind
  rw [hfirst]
  intro heq
  cases us with
  | nil => cases heq
  | cons t us =>
    obtain ⟨rest, -, hs, -⟩ := hc.skip_cons
    have ht : t.text.head? = some ch := heq
    obtain ⟨s, hmem, rfl⟩ := hs.proper.eq_symbol hch ht
    obtain ⟨op', -, hlex, hle⟩ := hall s hmem ht
    exact absurd (hus op' (by rw [hlex]; rfl)) (by omega)

theorem sumOp_soft {c : Cursor} {us : List Lexeme} (hus : Stops 2 us) (hc : c.At us) :
    sumOp.Soft c :=
  .either (symbolOp_soft_of_stops .add rfl (by decide) (by decide) hus hc)
    (symbolOp_soft_of_stops .sub rfl (by decide) (by decide) hus hc)

theorem comparisonOp_soft {c : Cursor} {us : List Lexeme} (hus : Stops 3 us) (hc : c.At us) :
    comparisonOp.Soft c := by
  have hs : comparisonSymbol.Soft c := by
    apply Soft.firstOf
    simp only [List.forall_mem_cons, List.not_mem_nil, false_imp_iff, implies_true, and_true]
    refine ⟨?_, ?_, ?_, ?_, ?_, ?_⟩
    all_goals exact symbolOp_soft_of_stops _ rfl (by decide) (by decide) hus hc
  obtain ⟨offset, message, hs⟩ := hs
  unfold Soft comparisonOp
  simp only [hs]
  exact ⟨_, _, rfl⟩

theorem wordOp_soft (op : Op) (hkind : op.kind = .logic) {c : Cursor} {us : List Lexeme}
    (hus : Stops op.level us) (hc : c.At us) : (wordOp op).Soft c := by
  have hmem : op.symbol ∈ reservedWords := by cases op <;> first | decide | cases hkind
  have hlex : op.lexeme = .keyword op.symbol := by cases op <;> first | rfl | cases hkind
  refine (hc.keyword_soft hmem ?_).bind
  intro heq
  exact absurd (hus op (hlex ▸ heq)) (lt_irrefl _)

end Parser

namespace Grammar

open Phrase

variable {expression : Parser Exp} {phrase : Phrase Exp} {c : Cursor} {us : List Lexeme}

/-- Where no operand starts, every alternative fails at its first token. -/
theorem atom_soft_of_blocked (h : c.Blocked) : (atom expression).Soft c := by
  have hkey {w : String} (hw : w ∈ reservedWords) := keyword_soft_of_head hw h.letter
  apply Soft.firstOf
  simp only [List.forall_mem_cons, List.not_mem_nil, false_imp_iff, implies_true, and_true]
  refine ⟨(integer_soft h.digit).bind, (hkey (by decide)).bind, (hkey (by decide)).bind,
    (hkey (by decide)).bind, .either (hkey (by decide)).bind (hkey (by decide)).bind,
    (hkey (by decide)).bind, (identifier_soft h.letter).bind, (literal_soft ?_).bind⟩
  rintro ⟨rest, hr⟩
  exact h.paren (by simp [← hr])

/-- The slash of an inequality is read as a division that lacks its divisor, and given back. -/
theorem product_soft (hus : Stops 1 us) (hc : c.At us) :
    (do let op ← productOp; let right ← atom expression; return (op, right)).Soft c := by
  have hmul : (symbolOp .mul).Soft c :=
    symbolOp_soft_of_stops .mul rfl (by decide) (by decide) hus hc
  by_cases hslash : us.head? = some (.symbol "/=")
  · obtain ⟨us, rfl⟩ : ∃ us', us = .symbol "/=" :: us' := by
      cases us with
      | nil => cases hslash
      | cons t us =>
        cases hslash
        exact ⟨us, rfl⟩
    obtain ⟨rest, hr, -, -⟩ := hc.skip_cons
    -- the division sign is read, but at the equals sign behind it no operand starts
    have hdiv : symbolOp .div c = .ok (.div, c.skip.advance 1) :=
      bind_of_ok (literal_eq_ok_iff.mpr ⟨⟨'=' :: rest, hr⟩, rfl⟩)
    have hequals : (c.skip.advance 1).rest = '=' :: rest := by simp [hr, Lexeme.text]
    have hhead : (c.skip.advance 1).skip.rest.head? = some '=' := by
      rw [Cursor.skip_eq (hequals.trans (List.nil_append _).symm) (by simp)
        (by simp [Cursor.isSeparator])]
      rfl
    have hblocked : (c.skip.advance 1).Blocked := by
      constructor <;> rw [hhead] <;> decide
    exact .bind_right (either_of_soft hmul hdiv (by simp)) (atom_soft_of_blocked hblocked).bind
  · have hdiv : (symbolOp .div).Soft c := by
      refine (hc.literal_soft (by decide) ?_).bind
      intro heq
      cases us with
      | nil => cases heq
      | cons t us =>
        obtain ⟨rest, -, hs, -⟩ := hc.skip_cons
        have ht : t.text.head? = some '/' := heq
        obtain ⟨s, hmem, rfl⟩ := hs.proper.eq_symbol (by decide) ht
        have hcases : ∀ s ∈ symbols, s.toList.head? = some '/' → s = "/" ∨ s = "/=" := by decide
        rcases hcases s hmem ht with rfl | rfl
        · exact absurd (hus .div rfl) (by decide)
        · exact hslash rfl
    exact (hmul.either hdiv).bind

theorem yields_intLiteral {ds : List Char} (hc : c.At (.number ds :: us)) :
    Yields intLiteral c (.int (Text.ofDigits ds)) us := by
  have hshort : ds.length ≤ Text.maxDigits := hc.short ds (by simp)
  refine .bind (.of_ok hc.integer) fun c₁ h₁ => ?_
  rw [if_pos hshort]
  exact .pure h₁ _

/-- Parameters are read up to the bracket or parenthesis that closes them. -/
theorem yields_parameters {ps : List Lexeme} {params : List String}
    (hps : Listed (.symbol ",") Name ps params) {s : String} (hs : s.toList.head? ≠ some ',')
    (hc : c.At (ps ++ .symbol s :: us)) : Yields parameters c params (.symbol s :: us) := by
  have hname : Complete identifier Name fun _ => True := by
    rintro ts x us c ⟨x⟩ - hat
    exact .of_ok hat.identifier
  refine hname.listOf (fun _ => trivial) trivial ?_ ?_ hps hc
  · exact fun d hd => .inr (hd.identifier_soft (by simp))
  · exact fun d hd => hd.literal_soft_cons (by decide) hs

/-- Arguments are read up to their closing parenthesis. -/
theorem yields_arguments (h : Complete expression phrase (Stops 5))
    (hb : ∀ c : Cursor, c.Blocked → expression.Balks c) {as : List Lexeme} {args : List Exp}
    (has : Listed (.symbol ",") phrase as args) (hc : c.At (as ++ .symbol ")" :: us)) :
    Yields (arguments expression) c args (.symbol ")" :: us) := by
  refine h.listOf (fun _ => stops_cons (by decide)) (stops_cons (by decide)) ?_ ?_ has hc
  · exact fun d hd => hb d (hd.blocked rfl rfl (by decide))
  · exact fun d hd => hd.literal_soft_cons (by decide) (by decide)

theorem yields_fnExp (h : Complete expression phrase (Stops 5)) {ps body : List Lexeme}
    {params : List String} {e : Exp} (hps : Listed (.symbol ",") Name ps params)
    (hbody : phrase body e)
    (hc : c.At (.keyword "fn" :: .symbol "[" ::
      (ps ++ .symbol "]" :: (body ++ .keyword "end" :: us)))) :
    Yields (fnExp expression) c (.fn params e) us := by
  refine .bind (.of_ok hc.keyword) fun c₁ h₁ => .commit ?_
  refine .bind (.of_ok h₁.literal) fun c₂ h₂ => ?_
  refine .bind (yields_parameters hps (by decide) h₂) fun c₃ h₃ => ?_
  refine .bind (.of_ok h₃.literal) fun c₄ h₄ => ?_
  refine .bind (h hbody (stops_cons (by decide)) h₄) fun c₅ h₅ => ?_
  exact .bind (.of_ok h₅.keyword) fun c₆ h₆ => .pure h₆ _

theorem yields_ifExp (h : Complete expression phrase (Stops 5)) {cs ts es : List Lexeme}
    {x t e : Exp} (hx : phrase cs x) (ht : phrase ts t) (he : phrase es e)
    (hc : c.At (.keyword "if" ::
      (cs ++ .keyword "then" :: (ts ++ .keyword "else" :: (es ++ .keyword "fi" :: us))))) :
    Yields (ifExp expression) c (.ite x t e) us := by
  refine .bind (.of_ok hc.keyword) fun c₁ h₁ => .commit ?_
  refine .bind (h hx (stops_cons (by decide)) h₁) fun c₂ h₂ => ?_
  refine .bind (.of_ok h₂.keyword) fun c₃ h₃ => ?_
  refine .bind (h ht (stops_cons (by decide)) h₃) fun c₄ h₄ => ?_
  refine .bind (.of_ok h₄.keyword) fun c₅ h₅ => ?_
  refine .bind (h he (stops_cons (by decide)) h₅) fun c₆ h₆ => ?_
  exact .bind (.of_ok h₆.keyword) fun c₇ h₇ => .pure h₇ _

theorem yields_letExp (h : Complete expression phrase (Stops 5)) {bs body : List Lexeme}
    {bindings : List (String × Exp)} {e : Exp}
    (hbs : Listed (.symbol ";") (Binding phrase) bs bindings) (hbody : phrase body e)
    (hc : c.At (.keyword "let" :: .symbol "[" ::
      (bs ++ .symbol "]" :: (body ++ .keyword "end" :: us)))) :
    Yields (letExp expression) c (.letIn bindings e) us := by
  have hbinding : Complete (binding expression) (Binding phrase) (Stops 5) := by
    rintro ts b us c ⟨he⟩ hus hat
    refine .bind (.of_ok hat.identifier) fun c₁ h₁ => .bind (.of_ok h₁.literal) fun c₂ h₂ => ?_
    exact .bind (h he hus h₂) fun c₃ h₃ => .pure h₃ _
  refine .bind (.of_ok hc.keyword) fun c₁ h₁ => .commit ?_
  refine .bind (.of_ok h₁.literal) fun c₂ h₂ => ?_
  refine .bind (hbinding.listOf (fun _ => stops_cons (by decide)) (stops_cons (by decide)) ?_ ?_
    hbs h₂) fun c₃ h₃ => ?_
  · exact fun d hd => .inr (hd.identifier_soft (by simp)).bind
  · exact fun d hd => hd.literal_soft_cons (by decide) (by decide)
  refine .bind (.of_ok h₃.literal) fun c₄ h₄ => ?_
  refine .bind (h hbody (stops_cons (by decide)) h₄) fun c₅ h₅ => ?_
  exact .bind (.of_ok h₅.keyword) fun c₆ h₆ => .pure h₆ _

theorem yields_applyExp (h : Complete expression phrase (Stops 5))
    (hb : ∀ c : Cursor, c.Blocked → expression.Balks c) {fs as : List Lexeme} {f : Exp}
    {args : List Exp} (hf : phrase fs f) (has : Listed (.symbol ",") phrase as args)
    (hc : c.At (.keyword "apply" :: (fs ++ .symbol "(" :: (as ++ .symbol ")" :: us)))) :
    Yields (applyExp expression) c (.apply f args) us := by
  refine .bind (.of_ok hc.keyword) fun c₁ h₁ => .commit ?_
  refine .bind (h hf (stops_cons (by decide)) h₁) fun c₂ h₂ => ?_
  refine .bind (.of_ok h₂.literal) fun c₃ h₃ => ?_
  refine .bind (yields_arguments h hb has h₃) fun c₄ h₄ => ?_
  exact .bind (.of_ok h₄.literal) fun c₅ h₅ => .pure h₅ _

theorem yields_parenthesized (h : Complete expression phrase (Stops 5)) {ts : List Lexeme}
    {e : Exp} (he : phrase ts e) (hc : c.At (.symbol "(" :: (ts ++ .symbol ")" :: us))) :
    Yields (parenthesized expression) c e us := by
  refine .bind (.of_ok hc.literal) fun c₁ h₁ => ?_
  refine .bind (h he (stops_cons (by decide)) h₁) fun c₂ h₂ => ?_
  exact .bind (.of_ok h₂.literal) fun c₃ h₃ => .pure h₃ _

theorem complete_atom (h : Complete expression phrase (Stops 5))
    (hb : ∀ c : Cursor, c.Blocked → expression.Balks c) :
    Complete (atom expression) (Atom phrase) (Stops 0) := by
  intro ts e us c hts _ hc
  -- each alternative before the right one asks for another first token
  have hint (hn : ∀ ds, (ts ++ us).head? ≠ some (.number ds)) : intLiteral.Soft c := by
    refine (integer_soft ?_).bind
    rw [hc.head_skip_isAsciiDigit]
    cases hh : (ts ++ us).head? with
    | none => rfl
    | some t =>
      cases t with
      | number ds => exact absurd hh (hn ds)
      | name x => rfl
      | keyword w => rfl
      | symbol s => rfl
  have hfn (hw : (ts ++ us).head? ≠ some (.keyword "fn")) : (fnExp expression).Soft c :=
    (hc.keyword_soft (by decide) hw).bind
  have hif (hw : (ts ++ us).head? ≠ some (.keyword "if")) : (ifExp expression).Soft c :=
    (hc.keyword_soft (by decide) hw).bind
  have hlet (hw : (ts ++ us).head? ≠ some (.keyword "let")) : (letExp expression).Soft c :=
    (hc.keyword_soft (by decide) hw).bind
  have htrue (hw : (ts ++ us).head? ≠ some (.keyword "true")) :
      (do keyword "true"; return Exp.bool true : Parser Exp).Soft c :=
    (hc.keyword_soft (by decide) hw).bind
  have hbool (hw : (ts ++ us).head? ≠ some (.keyword "true"))
      (hw' : (ts ++ us).head? ≠ some (.keyword "false")) : boolLiteral.Soft c :=
    (htrue hw).either (hc.keyword_soft (by decide) hw').bind
  have happly (hw : (ts ++ us).head? ≠ some (.keyword "apply")) : (applyExp expression).Soft c :=
    (hc.keyword_soft (by decide) hw).bind
  have hvar (hx : ∀ x, (ts ++ us).head? ≠ some (.name x)) : variableExp.Soft c :=
    (hc.identifier_soft hx).bind
  cases hts with
  | int ds => exact .either_left (yields_intLiteral hc)
  | fn hps hbody =>
    refine .either_right (hint (by simp)) <| .either_left (yields_fnExp h hps hbody ?_)
    simpa using hc
  | ite hx ht he =>
    refine .either_right (hint (by simp)) <| .either_right (hfn (by simp)) <|
      .either_left (yields_ifExp h hx ht he ?_)
    simpa using hc
  | letIn hbs hbody =>
    refine .either_right (hint (by simp)) <| .either_right (hfn (by simp)) <|
      .either_right (hif (by simp)) <| .either_left (yields_letExp h hbs hbody ?_)
    simpa using hc
  | true =>
    refine .either_right (hint (by simp)) <| .either_right (hfn (by simp)) <|
      .either_right (hif (by simp)) <| .either_right (hlet (by simp)) <| .either_left <|
      .either_left ?_
    exact .bind (.of_ok hc.keyword) fun c₁ h₁ => .pure h₁ _
  | false =>
    refine .either_right (hint (by simp)) <| .either_right (hfn (by simp)) <|
      .either_right (hif (by simp)) <| .either_right (hlet (by simp)) <| .either_left <|
      .either_right (htrue (by simp)) ?_
    exact .bind (.of_ok hc.keyword) fun c₁ h₁ => .pure h₁ _
  | apply hf has =>
    refine .either_right (hint (by simp)) <| .either_right (hfn (by simp)) <|
      .either_right (hif (by simp)) <| .either_right (hlet (by simp)) <|
      .either_right (hbool (by simp) (by simp)) <| .either_left (yields_applyExp h hb hf has ?_)
    simpa using hc
  | var x =>
    refine .either_right (hint (by simp)) <| .either_right (hfn (by simp)) <|
      .either_right (hif (by simp)) <| .either_right (hlet (by simp)) <|
      .either_right (hbool (by simp) (by simp)) <| .either_right (happly (by simp)) <|
      .either_left ?_
    exact .bind (.of_ok hc.identifier) fun c₁ h₁ => .pure h₁ _
  | paren he =>
    refine .either_right (hint (by simp)) <| .either_right (hfn (by simp)) <|
      .either_right (hif (by simp)) <| .either_right (hlet (by simp)) <|
      .either_right (hbool (by simp) (by simp)) <| .either_right (happly (by simp)) <|
      .either_right (hvar (by simp)) (yields_parenthesized h he ?_)
    simpa using hc

theorem leads_atom : Leads (Atom phrase) := by
  intro ts e h
  cases h <;> rfl

theorem complete_operations (h : Complete expression phrase (Stops 5))
    (hb : ∀ c : Cursor, c.Blocked → expression.Balks c) :
    Complete (operations expression)
      (Chain 5 (Chain 4 (Chain 3 (Chain 2 (Chain 1 (Atom phrase)))))) (Stops 5) := by
  have lead₁ : Leads (Chain 1 (Atom phrase)) := leads_atom.chain 1
  have lead₂ := lead₁.chain 2
  have lead₃ := lead₂.chain 3
  have lead₄ := lead₃.chain 4
  have h₁ := (complete_atom h hb).level leads_atom completeOperator_productOp
    fun us c hus hc => product_soft hus hc
  have h₂ := h₁.level lead₁ completeOperator_sumOp fun us c hus hc => (sumOp_soft hus hc).bind
  have h₃ := h₂.level lead₂ completeOperator_comparisonOp
    fun us c hus hc => (comparisonOp_soft hus hc).bind
  have h₄ := h₃.level lead₃ (completeOperator_wordOp .and rfl)
    fun us c hus hc => (wordOp_soft .and rfl hus hc).bind
  exact h₄.level lead₄ (completeOperator_wordOp .or rfl)
    fun us c hus hc => (wordOp_soft .or rfl hus hc).bind

/-- Where no operand starts, no expression does. -/
theorem expression_balks (nesting : Nat) (hc : c.Blocked) :
    (Grammar.expression nesting).Balks c := by
  cases nesting with
  | zero => exact .inl rfl
  | succ nesting => exact .inr (atom_soft_of_blocked hc).bind.bind.bind.bind.bind.named

/-- Every derivable expression is read to its end where no operator follows it. -/
theorem complete_expression (nesting : Nat) :
    Complete (Grammar.expression nesting) Expression (Stops 5) := by
  induction nesting with
  | zero => exact fun _ _ _ _ _ _ _ => .inl rfl
  | succ nesting ih =>
    rintro ts e us c ⟨he⟩ hus hc
    exact .named (complete_operations ih (fun d hd => expression_balks nesting hd) he hus hc)

variable {statement : Parser Stmt} {phrase' : Phrase Stmt}

theorem yields_ifStmt (h : Complete expression phrase (Stops 5))
    (h' : Complete statement phrase' fun _ => True) {cs ts es : List Lexeme} {x : Exp} {t e : Stmt}
    (hx : phrase cs x) (ht : phrase' ts t) (he : phrase' es e)
    (hc : c.At (.keyword "if" ::
      (cs ++ .keyword "then" :: (ts ++ .keyword "else" :: (es ++ .keyword "fi" :: us))))) :
    Yields (ifStmt expression statement) c (.ite x t e) us := by
  refine .bind (.of_ok hc.keyword) fun c₁ h₁ => .commit ?_
  refine .bind (h hx (stops_cons (by decide)) h₁) fun c₂ h₂ => ?_
  refine .bind (.of_ok h₂.keyword) fun c₃ h₃ => ?_
  refine .bind (h' ht trivial h₃) fun c₄ h₄ => ?_
  refine .bind (.of_ok h₄.keyword) fun c₅ h₅ => ?_
  refine .bind (h' he trivial h₅) fun c₆ h₆ => ?_
  exact .bind (.of_ok h₆.keyword) fun c₇ h₇ => .pure h₇ _

theorem yields_procedureStmt (h' : Complete statement phrase' fun _ => True) {f : String}
    {ps body : List Lexeme} {params : List String} {s : Stmt}
    (hps : Listed (.symbol ",") Name ps params) (hbody : phrase' body s)
    (hc : c.At (.keyword "procedure" :: .name f :: .symbol "(" ::
      (ps ++ .symbol ")" :: (body ++ .keyword "endproc" :: us)))) :
    Yields (procedureStmt statement) c (.procedure f params s) us := by
  refine .bind (.of_ok hc.keyword) fun c₁ h₁ => .commit ?_
  refine .bind (.of_ok h₁.identifier) fun c₂ h₂ => ?_
  refine .bind (.of_ok h₂.literal) fun c₃ h₃ => ?_
  refine .bind (yields_parameters hps (by decide) h₃) fun c₄ h₄ => ?_
  refine .bind (.of_ok h₄.literal) fun c₅ h₅ => ?_
  refine .bind (h' hbody trivial h₅) fun c₆ h₆ => ?_
  exact .bind (.of_ok h₆.keyword) fun c₇ h₇ => .pure h₇ _

theorem yields_callStmt (h : Complete expression phrase (Stops 5))
    (hb : ∀ c : Cursor, c.Blocked → expression.Balks c) {f : String} {as : List Lexeme}
    {args : List Exp} (has : Listed (.symbol ",") phrase as args)
    (hc : c.At (.keyword "call" :: .name f :: .symbol "(" ::
      (as ++ .symbol ")" :: .symbol ";" :: us))) :
    Yields (callStmt expression) c (.call f args) us := by
  refine .bind (.of_ok hc.keyword) fun c₁ h₁ => .commit ?_
  refine .bind (.of_ok h₁.identifier) fun c₂ h₂ => ?_
  refine .bind (.of_ok h₂.literal) fun c₃ h₃ => ?_
  refine .bind (yields_arguments h hb has h₃) fun c₄ h₄ => ?_
  refine .bind (.of_ok h₄.literal) fun c₅ h₅ => ?_
  exact .bind (.of_ok h₅.literal) fun c₆ h₆ => .pure h₆ _

/-- Statements are read up to the keyword that closes the sequence. -/
theorem yields_seqStmt (h' : Complete statement phrase' fun _ => True)
    (hne : ∀ ts s, phrase' ts s → ts ≠ [])
    (hb : ∀ (c : Cursor) us, c.At (.keyword "od" :: us) → statement.Balks c)
    {ts rest : List Lexeme} {s : Stmt} {others : List Stmt} (hs : phrase' ts s)
    (hothers : Many phrase' rest others)
    (hc : c.At (.keyword "do" :: (ts ++ (rest ++ .keyword "od" :: .symbol ";" :: us)))) :
    Yields (seqStmt statement) c (.seq (s :: others)) us := by
  refine .bind (.of_ok hc.keyword) fun c₁ h₁ => .commit ?_
  refine .bind (h' hs trivial h₁) fun c₂ h₂ => ?_
  refine .bind (h'.many (fun _ _ _ _ => trivial) hne trivial (fun d hd => hb d _ hd) hothers h₂)
    fun c₃ h₃ => ?_
  refine .bind (.of_ok h₃.keyword) fun c₄ h₄ => ?_
  exact .bind (.of_ok h₄.literal) fun c₅ h₅ => .pure h₅ _

theorem yields_setStmt (h : Complete expression phrase (Stops 5)) {x : String} {ts : List Lexeme}
    {e : Exp} (he : phrase ts e)
    (hc : c.At (.name x :: .symbol ":=" :: (ts ++ .symbol ";" :: us))) :
    Yields (setStmt expression) c (.set x e) us := by
  refine .bind (.of_ok hc.identifier) fun c₁ h₁ => ?_
  refine .bind (.of_ok h₁.literal) fun c₂ h₂ => ?_
  refine .bind (h he (stops_cons (by decide)) h₂) fun c₃ h₃ => ?_
  exact .bind (.of_ok h₃.literal) fun c₄ h₄ => .pure h₄ _

theorem complete_statements (h : Complete expression phrase (Stops 5))
    (hb : ∀ c : Cursor, c.Blocked → expression.Balks c)
    (h' : Complete statement phrase' fun _ => True) (hne : ∀ ts s, phrase' ts s → ts ≠ [])
    (hb' : ∀ (c : Cursor) us, c.At (.keyword "od" :: us) → statement.Balks c) :
    Complete (statements expression statement) (Command phrase phrase') fun _ => True := by
  intro ts s us c hts _ hc
  have hquit (hw : (ts ++ us).head? ≠ some (.keyword "quit")) : quitStmt.Soft c :=
    (hc.keyword_soft (by decide) hw).bind
  have hprint (hw : (ts ++ us).head? ≠ some (.keyword "print")) : (printStmt expression).Soft c :=
    (hc.keyword_soft (by decide) hw).bind
  have hif (hw : (ts ++ us).head? ≠ some (.keyword "if")) :
      (ifStmt expression statement).Soft c :=
    (hc.keyword_soft (by decide) hw).bind
  have hproc (hw : (ts ++ us).head? ≠ some (.keyword "procedure")) :
      (procedureStmt statement).Soft c :=
    (hc.keyword_soft (by decide) hw).bind
  have hcall (hw : (ts ++ us).head? ≠ some (.keyword "call")) : (callStmt expression).Soft c :=
    (hc.keyword_soft (by decide) hw).bind
  have hseq (hw : (ts ++ us).head? ≠ some (.keyword "do")) : (seqStmt statement).Soft c :=
    (hc.keyword_soft (by decide) hw).bind
  -- a form is reached once those before it in the list have missed their keywords
  cases hts with
  | quit =>
    refine .either_left <| .bind (.of_ok hc.keyword) fun c₁ h₁ => .commit ?_
    exact .bind (.of_ok h₁.literal) fun c₂ h₂ => .pure h₂ _
  | print he =>
    simp only [List.cons_append, List.append_assoc, List.nil_append] at hc
    refine .either_right (hquit (by simp)) <| .either_left <|
      .bind (.of_ok hc.keyword) fun c₁ h₁ => .commit ?_
    refine .bind (h he (stops_cons (by decide)) h₁) fun c₂ h₂ => ?_
    exact .bind (.of_ok h₂.literal) fun c₃ h₃ => .pure h₃ _
  | ite hx ht he =>
    refine .either_right (hquit (by simp)) <| .either_right (hprint (by simp)) <|
      .either_left (yields_ifStmt h h' hx ht he ?_)
    simpa using hc
  | procedure hps hbody =>
    refine .either_right (hquit (by simp)) <| .either_right (hprint (by simp)) <|
      .either_right (hif (by simp)) <| .either_left (yields_procedureStmt h' hps hbody ?_)
    simpa using hc
  | call has =>
    refine .either_right (hquit (by simp)) <| .either_right (hprint (by simp)) <|
      .either_right (hif (by simp)) <| .either_right (hproc (by simp)) <|
      .either_left (yields_callStmt h hb has ?_)
    simpa using hc
  | seq hs hothers =>
    refine .either_right (hquit (by simp)) <| .either_right (hprint (by simp)) <|
      .either_right (hif (by simp)) <| .either_right (hproc (by simp)) <|
      .either_right (hcall (by simp)) <| .either_left (yields_seqStmt h' hne hb' hs hothers ?_)
    simpa using hc
  | set he =>
    refine .either_right (hquit (by simp)) <| .either_right (hprint (by simp)) <|
      .either_right (hif (by simp)) <| .either_right (hproc (by simp)) <|
      .either_right (hcall (by simp)) <| .either_right (hseq (by simp)) (yields_setStmt h he ?_)
    simpa using hc

/-- The keyword that closes a sequence starts no statement. -/
theorem statement_balks (nesting : Nat) (hc : c.At (.keyword "od" :: us)) :
    (Grammar.statement nesting).Balks c := by
  cases nesting with
  | zero => exact .inl rfl
  | succ nesting =>
    have hkey {w : String} (hw : w ∈ reservedWords) (hne : w ≠ "od") : (keyword w).Soft c :=
      hc.keyword_soft hw (by simpa using hne.symm)
    refine .inr (Soft.named (Soft.firstOf ?_))
    simp only [List.forall_mem_cons, List.not_mem_nil, false_imp_iff, implies_true, and_true]
    exact ⟨(hkey (by decide) (by decide)).bind, (hkey (by decide) (by decide)).bind,
      (hkey (by decide) (by decide)).bind, (hkey (by decide) (by decide)).bind,
      (hkey (by decide) (by decide)).bind, (hkey (by decide) (by decide)).bind,
      (hc.identifier_soft (by simp)).bind⟩

theorem statement_ne_nil (ts : List Lexeme) (s : Stmt) (h : Statement ts s) : ts ≠ [] := by
  obtain ⟨hs⟩ := h
  cases hs <;> exact List.cons_ne_nil _ _

/-- Every derivable statement is read to its end, whatever follows it. -/
theorem complete_statement (nesting : Nat) :
    Complete (Grammar.statement nesting) Statement fun _ => True := by
  induction nesting with
  | zero => exact fun _ _ _ _ _ _ _ => .inl rfl
  | succ nesting ih =>
    rintro ts s us c ⟨hs⟩ hus hc
    exact .named (complete_statements (complete_expression nesting)
      (fun d hd => expression_balks nesting hd) ih statement_ne_nil
      (fun d vs hd => statement_balks nesting hd) hs hus hc)

end Grammar

end ImpLang
