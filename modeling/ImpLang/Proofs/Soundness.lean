import ImpLang.Parse.Grammar
import ImpLang.Proofs.Derivation
import ImpLang.Proofs.Reading

/-! What the parsers accept has a derivation. A name alone may be a reserved word with a digit
behind it; it is a proper name if no word runs on across either end of it, and every production puts
a symbol, a keyword or an end of the text there. -/
namespace ImpLang

open Token ImpLang.Parser

namespace Cursor

variable {c c' : Cursor} {s w x : String}

def Boundary (c : Cursor) : Prop :=
  c.previous.any isWordChar = false ∨ c.rest.head?.any isWordChar = false

/-- The lexemes stand between two cursors: put before what is spelled at the second, they are
spelled at the first. -/
def Reads (c : Cursor) (ts : List Lexeme) (c' : Cursor) : Prop :=
  ∀ us, c'.At us → c.At (ts ++ us)

theorem Reads.refl (c : Cursor) : c.Reads [] c :=
  fun _ h => h

theorem Reads.trans {d : Cursor} {ts us : List Lexeme} (h : c.Reads ts d) (h' : d.Reads us c') :
    c.Reads (ts ++ us) c' := by
  intro vs hvs
  rw [List.append_assoc]
  exact h _ (h' _ hvs)

theorem skip_boundary_iff : c.skip.Boundary ↔ c.Boundary := by
  obtain ⟨blanks, hc, hb, -, hp⟩ := c.exists_blanks
  cases blanks with
  | nil => simp only [Boundary, hp, hc, List.nil_append, List.getLast?_nil, Option.none_or]
  | cons ch cs =>
    have hne : ch :: cs ≠ [] := List.cons_ne_nil ch cs
    have hfirst := isWordChar_eq_false_of_isSeparator (hb ch (by simp))
    have hlast := isWordChar_eq_false_of_isSeparator (hb _ (List.getLast_mem hne))
    refine ⟨fun _ => .inr ?_, fun _ => .inl ?_⟩
    · rw [hc]
      exact hfirst
    · rw [hp, List.getLast?_eq_some_getLast hne]
      exact hlast

/-- A lexeme that stands behind the white space is read. -/
theorem reads_lexeme {t : Lexeme} {rest : List Char} (hr : c.skip.rest = t.text ++ rest)
    (hs : t.Stands c.skip.previous rest)
    (hn : ∀ ds, t = .number ds → ds.length ≤ Text.maxDigits) :
    c.Reads [t] (c.skip.advance t.text.length) := by
  intro us hus
  obtain ⟨blanks, hc, hb, -, hp⟩ := c.exists_blanks
  refine ⟨⟨blanks, rest, hr ▸ hc, hb, hp ▸ hs, ?_⟩, ?_⟩
  · have hspells := hus.spells
    rwa [advance_eq hr hs.proper.text_ne_nil] at hspells
  · intro ds hds
    rcases List.mem_cons.mp hds with ht | hmem
    · exact hn ds ht.symm
    · exact hus.short ds hmem

/-- A symbol separates words on both of its sides. -/
theorem of_literal (hs : s ∈ symbols) {u : Unit} (h : literal s c = .ok (u, c')) :
    c.Boundary ∧ c'.Boundary ∧ c.Reads [.symbol s] c' := by
  obtain ⟨⟨rest, hr⟩, rfl⟩ := literal_eq_ok_iff.mp h
  have hne := ne_nil_of_mem_symbols hs
  have hnot := isWordChar_eq_false_of_mem_symbols hs
  have hstands : (Lexeme.symbol s).Stands c.skip.previous rest := ⟨hs, by simp [Lexeme.clings],
    by simp [Lexeme.clings]⟩
  have hreads := reads_lexeme (t := .symbol s) hr hstands (by simp)
  rw [Lexeme.text, String.length_toList] at hreads
  refine ⟨skip_boundary_iff.mp (.inr ?_), .inl ?_, hreads⟩
  · obtain ⟨ch, cs, hcs⟩ := List.exists_cons_of_ne_nil hne
    rw [hr, hcs]
    exact (hnot ch (by simp [hcs])).1
  · rw [← String.length_toList, advance_eq hr hne, List.getLast?_eq_some_getLast hne]
    exact (hnot _ (List.getLast_mem hne)).1

/-- So does a keyword, which stands alone. -/
theorem of_keyword (hw : w ∈ reservedWords) {u : Unit} (h : keyword w c = .ok (u, c')) :
    c.Boundary ∧ c'.Boundary ∧ c.Reads [.keyword w] c' := by
  obtain ⟨⟨rest, hr, hb, ha⟩, rfl⟩ := keyword_eq_ok_iff.mp h
  have hreads := reads_lexeme (t := .keyword w) hr ⟨hw, hb, ha⟩ (by simp)
  rw [Lexeme.text, String.length_toList] at hreads
  refine ⟨skip_boundary_iff.mp (.inl hb), .inr ?_, hreads⟩
  rw [← String.length_toList, advance_eq hr (ne_nil_of_mem_reservedWords hw)]
  exact ha

/-- A run of characters of words that starts and ends at a boundary touches no word. -/
theorem apart_of_boundary {run rest : List Char} (hrun : ∀ ch ∈ run, isWordChar ch = true)
    (hne : run ≠ []) (hr : c.skip.rest = run ++ rest) (hc : c.Boundary)
    (hc' : (c.skip.advance run.length).Boundary) :
    c.skip.previous.any isWordChar = false ∧ rest.head?.any isWordChar = false := by
  obtain ⟨ch, cs, hcs⟩ := List.exists_cons_of_ne_nil hne
  constructor
  · refine (skip_boundary_iff.mpr hc).resolve_right ?_
    simp [hr, hcs, hrun ch (by simp [hcs])]
  · rw [advance_eq hr hne] at hc'
    refine hc'.resolve_left ?_
    simp [List.getLast?_eq_some_getLast hne, hrun _ (List.getLast_mem hne)]

/-- Between boundaries a name is a proper one: a reserved word would have been a keyword. -/
theorem of_identifier (h : identifier c = .ok (x, c')) (hc : c.Boundary) (hc' : c'.Boundary) :
    c.Reads [.name x] c' := by
  obtain ⟨⟨rest, hr, hne, hletters, -, htouch⟩, rfl⟩ := identifier_eq_ok_iff_letters.mp h
  rw [← String.length_toList] at hc' ⊢
  obtain ⟨hb, ha⟩ := apart_of_boundary (fun ch hch => isWordChar_of_isAlpha (hletters ch hch)) hne
    hr hc hc'
  -- with no word running on at either end, the keyword would have been found first
  have hnot : x ∉ reservedWords := by
    intro hx
    rw [hb, ha] at htouch
    simpa using htouch hx
  exact reads_lexeme (t := .name x) hr ⟨⟨hne, hletters, hnot⟩,
    any_eq_false_of_imp (fun _ => isWordChar_of_isAlpha) hb,
    any_eq_false_of_imp (fun _ => isWordChar_of_isAlpha) ha⟩ (by simp)

theorem of_integer {ds : List Char} (h : integer c = .ok (ds, c')) (hc : c.Boundary)
    (hc' : c'.Boundary) (hn : ds.length ≤ Text.maxDigits) : c.Reads [.number ds] c' := by
  obtain ⟨⟨hrun, hne⟩, rfl⟩ := integer_eq_ok_iff.mp h
  obtain ⟨rest, hr, hdigits, -⟩ := takeWhile_eq_iff.mp hrun
  obtain ⟨hb, ha⟩ := apart_of_boundary
    (fun ch hch => isWordChar_of_isAsciiDigit (hdigits ch hch)) hne hr hc hc'
  exact reads_lexeme (t := .number ds) hr ⟨⟨hne, hdigits⟩,
    any_eq_false_of_imp (fun _ => isWordChar_of_isAsciiDigit) hb,
    any_eq_false_of_imp (fun _ => isWordChar_of_isAsciiDigit) ha⟩
    (fun ds' hds => by cases hds; exact hn)

theorem of_endOfText {u : Unit} (h : endOfText c = .ok (u, c')) : c.Boundary ∧ c.At [] := by
  obtain ⟨hnil, -⟩ := endOfText_eq_ok_iff.mp h
  obtain ⟨blanks, hc, hb, -⟩ := c.exists_blanks
  rw [hnil, List.append_nil] at hc
  refine ⟨skip_boundary_iff.mp (.inr (by simp [hnil])), ⟨hc ▸ hb, by simp⟩⟩

end Cursor

namespace Parser

open Phrase

variable {α β : Type}

/-- What the parser reads from one boundary to another is a phrase. -/
def Sound (p : Parser α) (phrase : Phrase α) : Prop :=
  ∀ ⦃c a c'⦄, p c = .ok (a, c') → c.Boundary → c'.Boundary → ∃ ts, phrase ts a ∧ c.Reads ts c'

def Opens (p : Parser α) : Prop :=
  ∀ ⦃c a c'⦄, p c = .ok (a, c') → c.Boundary

def Closes (p : Parser α) : Prop :=
  ∀ ⦃c a c'⦄, p c = .ok (a, c') → c'.Boundary

theorem Sound.mono {p : Parser α} {phrase phrase' : Phrase α} (h : Sound p phrase)
    (himp : ∀ ts a, phrase ts a → phrase' ts a) : Sound p phrase' := by
  intro c a c' hp hc hc'
  obtain ⟨ts, hts, hr⟩ := h hp hc hc'
  exact ⟨ts, himp ts a hts, hr⟩

theorem Sound.named {p : Parser α} {phrase : Phrase α} {message : String} (h : Sound p phrase) :
    Sound (named message p) phrase :=
  fun _ _ _ hp => h (named_eq_ok_iff.mp hp)

theorem Sound.firstOf {p : Parser α} {rest : List (Parser α)} {phrase : Phrase α}
    (h : ∀ q ∈ p :: rest, Sound q phrase) : Sound (firstOf p rest) phrase := by
  intro c a c' hf
  obtain ⟨q, hmem, hq⟩ := firstOf_eq_ok hf
  exact h q hmem hq

theorem Opens.manyUpTo {γ : Type} {p : Parser α} (hp : Opens p) {tally : List γ} {c c' : Cursor}
    {as : List α} (h : manyUpTo tally p c = .ok (as, c')) (hc' : c'.Boundary) : c.Boundary := by
  cases tally with
  | nil =>
    cases h
    exact hc'
  | cons g tally =>
    rcases manyUpTo_cons_eq_ok h with ⟨-, rfl⟩ | ⟨a, as', d, -, hd, -⟩
    · exact hc'
    · exact hp hd

/-- Between two items there is a boundary if each of them starts or ends with one. -/
theorem Sound.manyUpTo {γ : Type} {p : Parser α} {phrase : Phrase α} (h : Sound p phrase)
    (hb : Opens p ∨ Closes p) (tally : List γ) : Sound (manyUpTo tally p) (Many phrase) := by
  induction tally with
  | nil =>
    intro c as c' hm _ _
    cases hm
    exact ⟨[], .nil, Cursor.Reads.refl c⟩
  | cons g tally ih =>
    intro c as c' hm hc hc'
    rcases manyUpTo_cons_eq_ok hm with ⟨rfl, rfl⟩ | ⟨a, as', d, rfl, hd, hrest⟩
    · exact ⟨[], .nil, Cursor.Reads.refl _⟩
    -- the next item opens at a boundary, or this one closes at it
    · have hdb : d.Boundary := by
        rcases hb with ho | hcl
        · exact ho.manyUpTo hrest hc'
        · exact hcl hd
      obtain ⟨ts, hts, hr⟩ := h hd hc hdb
      obtain ⟨us, hus, hr'⟩ := ih hrest hdb hc'
      exact ⟨ts ++ us, .cons hts hus, hr.trans hr'⟩

theorem Sound.many {p : Parser α} {phrase : Phrase α} (h : Sound p phrase)
    (hb : Opens p ∨ Closes p) : Sound (many p) (Many phrase) :=
  fun _ _ _ hm => h.manyUpTo hb _ hm

theorem Opens.many {p : Parser α} (hp : Opens p) {c c' : Cursor} {as : List α}
    (h : many p c = .ok (as, c')) (hc' : c'.Boundary) : c.Boundary :=
  hp.manyUpTo h hc'

/-- A list between boundaries whose delimiter is a symbol. -/
theorem Sound.listOf {s : String} (hs : s ∈ symbols) {item : Parser α} {phrase : Phrase α}
    (h : Sound item phrase) : Sound (listOf (literal s) item) (Listed (.symbol s) phrase) := by
  have ho : Opens (do literal s; item) := by
    intro c a c' hd
    obtain ⟨u, d, hlit, -⟩ := bind_eq_ok_iff.mp hd
    exact (Cursor.of_literal hs hlit).1
  have hafter : Sound (do literal s; item) (After (.symbol s) phrase) := by
    intro c a c' hd hc hc'
    obtain ⟨u, d, hlit, hitem⟩ := bind_eq_ok_iff.mp hd
    obtain ⟨-, hdb, hr⟩ := Cursor.of_literal hs hlit
    obtain ⟨ts, hts, hr'⟩ := h hitem hdb hc'
    exact ⟨_, .intro hts, hr.trans hr'⟩
  intro c as c' hl hc hc'
  rcases orDefault_eq_ok hl with hsome | hnone
  · obtain ⟨a, d, hitem, hrest⟩ := bind_eq_ok_iff.mp hsome
    obtain ⟨as', d', hmany, hpure⟩ := bind_eq_ok_iff.mp hrest
    cases hpure
    have hdb := ho.many hmany hc'
    obtain ⟨ts, hts, hr⟩ := h hitem hc hdb
    obtain ⟨us, hus, hr'⟩ := hafter.many (.inl ho) hmany hdb hc'
    exact ⟨_, .items hts hus, hr.trans hr'⟩
  · cases hnone
    exact ⟨[], .empty, Cursor.Reads.refl c⟩

/-- The parser reads operators of one level, each a lexeme of its own between boundaries. -/
def ReadsOperator (operator : Parser Op) (level : Nat) : Prop :=
  ∀ ⦃c op c'⦄, operator c = .ok (op, c') →
    op.level = level ∧ c.Boundary ∧ c'.Boundary ∧ c.Reads [op.lexeme] c'

theorem readsOperator_symbolOp (op : Op) (h : op.kind ≠ .logic) :
    ReadsOperator (symbolOp op) op.level := by
  intro c op' c' hop
  obtain ⟨u, d, hlit, hpure⟩ := bind_eq_ok_iff.mp hop
  cases hpure
  have hmem : op.symbol ∈ symbols := by cases op <;> first | decide | exact absurd rfl h
  have hlex : op.lexeme = .symbol op.symbol := by cases op <;> first | rfl | exact absurd rfl h
  obtain ⟨hc, hc', hr⟩ := Cursor.of_literal hmem hlit
  exact ⟨rfl, hc, hc', hlex ▸ hr⟩

theorem readsOperator_wordOp (op : Op) (h : op.kind = .logic) :
    ReadsOperator (wordOp op) op.level := by
  intro c op' c' hop
  obtain ⟨u, d, hkey, hpure⟩ := bind_eq_ok_iff.mp hop
  cases hpure
  have hmem : op.symbol ∈ reservedWords := by cases op <;> first | decide | cases h
  have hlex : op.lexeme = .keyword op.symbol := by cases op <;> first | rfl | cases h
  obtain ⟨hc, hc', hr⟩ := Cursor.of_keyword hmem hkey
  exact ⟨rfl, hc, hc', hlex ▸ hr⟩

theorem ReadsOperator.either {p q : Parser Op} {level : Nat} (hp : ReadsOperator p level)
    (hq : ReadsOperator q level) : ReadsOperator (either p q) level := by
  intro c op c' h
  rcases either_eq_ok h with h | ⟨-, h⟩
  · exact hp h
  · exact hq h

theorem readsOperator_comparisonOp : ReadsOperator comparisonOp 3 := by
  intro c op c' h
  unfold comparisonOp at h
  split at h
  · cases h
  · obtain ⟨q, hmem, hq⟩ := firstOf_eq_ok h
    simp only [List.mem_cons, List.not_mem_nil, or_false] at hmem
    rcases hmem with rfl | rfl | rfl | rfl | rfl | rfl
    all_goals exact readsOperator_symbolOp _ (by decide) hq

/-- Operators with operands between boundaries read a chain. -/
theorem Sound.level {operand : Parser Exp} {operator : Parser Op} {level : Nat}
    {phrase : Phrase Exp} (h : Sound operand phrase) (hop : ReadsOperator operator level) :
    Sound (Grammar.level operand operator (.ofLevel level)) (Chain level phrase) := by
  have ho : Opens (do let op ← operator; let right ← operand; return (op, right)) := by
    intro c a c' hd
    obtain ⟨op, d, hoperator, -⟩ := bind_eq_ok_iff.mp hd
    exact (hop hoperator).2.1
  have hpair : Sound (do let op ← operator; let right ← operand; return (op, right))
      (Operation level phrase) := by
    intro c a c' hd hc hc'
    obtain ⟨op, d, hoperator, hrest⟩ := bind_eq_ok_iff.mp hd
    obtain ⟨right, d', hright, hpure⟩ := bind_eq_ok_iff.mp hrest
    cases hpure
    obtain ⟨hlevel, -, hdb, hr⟩ := hop hoperator
    obtain ⟨ts, hts, hr'⟩ := h hright hdb hc'
    exact ⟨_, .intro hlevel hts, hr.trans hr'⟩
  intro c e c' hl hc hc'
  obtain ⟨first, d, hfirst, hrest⟩ := bind_eq_ok_iff.mp hl
  obtain ⟨others, d', hmany, hpure⟩ := bind_eq_ok_iff.mp hrest
  cases hpure
  have hdb := ho.many hmany hc'
  obtain ⟨ts, hts, hr⟩ := h hfirst hc hdb
  obtain ⟨us, hus, hr'⟩ := hpair.many (.inl ho) hmany hdb hc'
  refine ⟨_, ?_, hr.trans hr'⟩
  rw [hus.foldl_operation]
  exact .intro hts hus

theorem Closes.bind {p : Parser α} {f : α → Parser β} (h : ∀ a, Closes (f a)) :
    Closes (p >>= f) := by
  intro c b c' hp
  obtain ⟨a, d, -, hf⟩ := bind_eq_ok_iff.mp hp
  exact h a hf

theorem Closes.commit {p : Parser α} (h : Closes p) : Closes (commit p) :=
  fun _ _ _ hp => h (commit_eq_ok_iff.mp hp)

theorem closes_literal {s : String} (hs : s ∈ symbols) (a : α) :
    Closes (do literal s; return a) := by
  intro c b c' hp
  obtain ⟨_, d, hlit, hpure⟩ := bind_eq_ok_iff.mp hp
  cases hpure
  exact (Cursor.of_literal hs hlit).2.1

theorem closes_keyword {w : String} (hw : w ∈ reservedWords) (a : α) :
    Closes (do keyword w; return a) := by
  intro c b c' hp
  obtain ⟨_, d, hkey, hpure⟩ := bind_eq_ok_iff.mp hp
  cases hpure
  exact (Cursor.of_keyword hw hkey).2.1

theorem sound_identifier : Sound identifier Name :=
  fun _ _ _ h hc hc' => ⟨_, .intro _, Cursor.of_identifier h hc hc'⟩

end Parser

namespace Grammar

open Phrase

variable {expression : Parser Exp} {phrase : Phrase Exp}

theorem sound_intLiteral : Sound intLiteral (Atom phrase) := by
  intro c e c' h hc hc'
  obtain ⟨ds, d, hint, hrest⟩ := bind_eq_ok_iff.mp h
  split_ifs at hrest with hlen
  · cases hrest
    exact ⟨_, .int ds, Cursor.of_integer hint hc hc' hlen⟩
  · cases hrest

theorem sound_fnExp (h : Sound expression phrase) : Sound (fnExp expression) (Atom phrase) := by
  intro c e c' hp hc hc'
  obtain ⟨_, c₁, hfn, hp⟩ := bind_eq_ok_iff.mp hp
  obtain ⟨_, c₂, hopen, hp⟩ := bind_eq_ok_iff.mp (commit_eq_ok_iff.mp hp)
  obtain ⟨params, c₃, hparams, hp⟩ := bind_eq_ok_iff.mp hp
  obtain ⟨_, c₄, hclose, hp⟩ := bind_eq_ok_iff.mp hp
  obtain ⟨body, c₅, hbody, hp⟩ := bind_eq_ok_iff.mp hp
  obtain ⟨_, c₆, hend, hp⟩ := bind_eq_ok_iff.mp hp
  cases hp
  obtain ⟨-, -, r₁⟩ := Cursor.of_keyword (by decide) hfn
  obtain ⟨-, b₂, r₂⟩ := Cursor.of_literal (by decide) hopen
  obtain ⟨b₃, b₄, r₄⟩ := Cursor.of_literal (by decide) hclose
  obtain ⟨b₅, -, r₆⟩ := Cursor.of_keyword (by decide) hend
  obtain ⟨ps, hps, r₃⟩ := Sound.listOf (by decide) sound_identifier hparams b₂ b₃
  obtain ⟨ts, hts, r₅⟩ := h hbody b₄ b₅
  exact ⟨_, .fn hps hts, r₁.trans (r₂.trans (r₃.trans (r₄.trans (r₅.trans r₆))))⟩

theorem sound_ifExp (h : Sound expression phrase) : Sound (ifExp expression) (Atom phrase) := by
  intro c e c' hp hc hc'
  obtain ⟨_, c₁, hif, hp⟩ := bind_eq_ok_iff.mp hp
  obtain ⟨cond, c₂, hcond, hp⟩ := bind_eq_ok_iff.mp (commit_eq_ok_iff.mp hp)
  obtain ⟨_, c₃, hthen, hp⟩ := bind_eq_ok_iff.mp hp
  obtain ⟨yes, c₄, hyes, hp⟩ := bind_eq_ok_iff.mp hp
  obtain ⟨_, c₅, helse, hp⟩ := bind_eq_ok_iff.mp hp
  obtain ⟨no, c₆, hno, hp⟩ := bind_eq_ok_iff.mp hp
  obtain ⟨_, c₇, hfi, hp⟩ := bind_eq_ok_iff.mp hp
  cases hp
  obtain ⟨-, b₁, r₁⟩ := Cursor.of_keyword (by decide) hif
  obtain ⟨b₂, b₃, r₃⟩ := Cursor.of_keyword (by decide) hthen
  obtain ⟨b₄, b₅, r₅⟩ := Cursor.of_keyword (by decide) helse
  obtain ⟨b₆, -, r₇⟩ := Cursor.of_keyword (by decide) hfi
  obtain ⟨cs, hcs, r₂⟩ := h hcond b₁ b₂
  obtain ⟨ts, hts, r₄⟩ := h hyes b₃ b₄
  obtain ⟨es, hes, r₆⟩ := h hno b₅ b₆
  exact ⟨_, .ite hcs hts hes,
    r₁.trans (r₂.trans (r₃.trans (r₄.trans (r₅.trans (r₆.trans r₇)))))⟩

theorem sound_binding (h : Sound expression phrase) :
    Sound (binding expression) (Binding phrase) := by
  intro c b c' hp hc hc'
  obtain ⟨x, c₁, hx, hp⟩ := bind_eq_ok_iff.mp hp
  obtain ⟨_, c₂, hassign, hp⟩ := bind_eq_ok_iff.mp hp
  obtain ⟨e, c₃, he, hp⟩ := bind_eq_ok_iff.mp hp
  cases hp
  obtain ⟨b₁, b₂, r₂⟩ := Cursor.of_literal (by decide) hassign
  have r₁ := Cursor.of_identifier hx hc b₁
  obtain ⟨ts, hts, r₃⟩ := h he b₂ hc'
  exact ⟨_, .intro hts, r₁.trans (r₂.trans r₃)⟩

theorem sound_letExp (h : Sound expression phrase) : Sound (letExp expression) (Atom phrase) := by
  intro c e c' hp hc hc'
  obtain ⟨_, c₁, hlet, hp⟩ := bind_eq_ok_iff.mp hp
  obtain ⟨_, c₂, hopen, hp⟩ := bind_eq_ok_iff.mp (commit_eq_ok_iff.mp hp)
  obtain ⟨bindings, c₃, hbindings, hp⟩ := bind_eq_ok_iff.mp hp
  obtain ⟨_, c₄, hclose, hp⟩ := bind_eq_ok_iff.mp hp
  obtain ⟨body, c₅, hbody, hp⟩ := bind_eq_ok_iff.mp hp
  obtain ⟨_, c₆, hend, hp⟩ := bind_eq_ok_iff.mp hp
  cases hp
  obtain ⟨-, -, r₁⟩ := Cursor.of_keyword (by decide) hlet
  obtain ⟨-, b₂, r₂⟩ := Cursor.of_literal (by decide) hopen
  obtain ⟨b₃, b₄, r₄⟩ := Cursor.of_literal (by decide) hclose
  obtain ⟨b₅, -, r₆⟩ := Cursor.of_keyword (by decide) hend
  obtain ⟨bs, hbs, r₃⟩ := Sound.listOf (by decide) (sound_binding h) hbindings b₂ b₃
  obtain ⟨ts, hts, r₅⟩ := h hbody b₄ b₅
  exact ⟨_, .letIn hbs hts, r₁.trans (r₂.trans (r₃.trans (r₄.trans (r₅.trans r₆))))⟩

theorem sound_boolLiteral : Sound boolLiteral (Atom phrase) := by
  intro c e c' hp _ _
  rcases either_eq_ok hp with hp | ⟨-, hp⟩
  · obtain ⟨_, c₁, htrue, hp⟩ := bind_eq_ok_iff.mp hp
    cases hp
    exact ⟨_, .true, (Cursor.of_keyword (by decide) htrue).2.2⟩
  · obtain ⟨_, c₁, hfalse, hp⟩ := bind_eq_ok_iff.mp hp
    cases hp
    exact ⟨_, .false, (Cursor.of_keyword (by decide) hfalse).2.2⟩

theorem sound_applyExp (h : Sound expression phrase) :
    Sound (applyExp expression) (Atom phrase) := by
  intro c e c' hp hc hc'
  obtain ⟨_, c₁, happly, hp⟩ := bind_eq_ok_iff.mp hp
  obtain ⟨function, c₂, hfunction, hp⟩ := bind_eq_ok_iff.mp (commit_eq_ok_iff.mp hp)
  obtain ⟨_, c₃, hopen, hp⟩ := bind_eq_ok_iff.mp hp
  obtain ⟨args, c₄, hargs, hp⟩ := bind_eq_ok_iff.mp hp
  obtain ⟨_, c₅, hclose, hp⟩ := bind_eq_ok_iff.mp hp
  cases hp
  obtain ⟨-, b₁, r₁⟩ := Cursor.of_keyword (by decide) happly
  obtain ⟨b₂, b₃, r₃⟩ := Cursor.of_literal (by decide) hopen
  obtain ⟨b₄, -, r₅⟩ := Cursor.of_literal (by decide) hclose
  obtain ⟨fs, hfs, r₂⟩ := h hfunction b₁ b₂
  obtain ⟨as, has, r₄⟩ := Sound.listOf (by decide) h hargs b₃ b₄
  exact ⟨_, .apply hfs has, r₁.trans (r₂.trans (r₃.trans (r₄.trans r₅)))⟩

theorem sound_variableExp : Sound variableExp (Atom phrase) := by
  intro c e c' hp hc hc'
  obtain ⟨x, c₁, hx, hp⟩ := bind_eq_ok_iff.mp hp
  cases hp
  exact ⟨_, .var x, Cursor.of_identifier hx hc hc'⟩

theorem sound_parenthesized (h : Sound expression phrase) :
    Sound (parenthesized expression) (Atom phrase) := by
  intro c e c' hp hc hc'
  obtain ⟨_, c₁, hopen, hp⟩ := bind_eq_ok_iff.mp hp
  obtain ⟨e, c₂, he, hp⟩ := bind_eq_ok_iff.mp hp
  obtain ⟨_, c₃, hclose, hp⟩ := bind_eq_ok_iff.mp hp
  cases hp
  obtain ⟨-, b₁, r₁⟩ := Cursor.of_literal (by decide) hopen
  obtain ⟨b₂, -, r₃⟩ := Cursor.of_literal (by decide) hclose
  obtain ⟨ts, hts, r₂⟩ := h he b₁ b₂
  exact ⟨_, .paren hts, r₁.trans (r₂.trans r₃)⟩

theorem sound_atom (h : Sound expression phrase) : Sound (atom expression) (Atom phrase) := by
  apply Sound.firstOf
  simp only [List.forall_mem_cons, List.not_mem_nil, false_imp_iff, implies_true, and_true]
  exact ⟨sound_intLiteral, sound_fnExp h, sound_ifExp h, sound_letExp h, sound_boolLiteral,
    sound_applyExp h, sound_variableExp, sound_parenthesized h⟩

theorem sound_operations (h : Sound expression phrase) : Sound (operations expression)
    (Chain 5 (Chain 4 (Chain 3 (Chain 2 (Chain 1 (Atom phrase)))))) := by
  have hproduct : ReadsOperator productOp 1 :=
    .either (readsOperator_symbolOp .mul (by decide)) (readsOperator_symbolOp .div (by decide))
  have hsum : ReadsOperator sumOp 2 :=
    .either (readsOperator_symbolOp .add (by decide)) (readsOperator_symbolOp .sub (by decide))
  have h₃ := (((sound_atom h).level hproduct).level hsum).level readsOperator_comparisonOp
  have h₅ := (h₃.level (readsOperator_wordOp .and rfl)).level (readsOperator_wordOp .or rfl)
  unfold operations
  exact h₅

/-- Whatever nesting is allowed, what is accepted as an expression is one. -/
theorem sound_expression (nesting : Nat) : Sound (Grammar.expression nesting) Expression := by
  induction nesting with
  | zero =>
    intro c e c' hp
    cases hp
  | succ nesting ih => exact ((sound_operations ih).named).mono fun ts e h => .intro h

variable {statement : Parser Stmt} {phrase' : Phrase Stmt}

theorem sound_quitStmt : Sound quitStmt (Command phrase phrase') := by
  intro c s c' hp _ _
  obtain ⟨_, c₁, hquit, hp⟩ := bind_eq_ok_iff.mp hp
  obtain ⟨_, c₂, hsemi, hp⟩ := bind_eq_ok_iff.mp (commit_eq_ok_iff.mp hp)
  cases hp
  obtain ⟨-, -, r₁⟩ := Cursor.of_keyword (by decide) hquit
  obtain ⟨-, -, r₂⟩ := Cursor.of_literal (by decide) hsemi
  exact ⟨_, .quit, r₁.trans r₂⟩

theorem sound_printStmt (h : Sound expression phrase) :
    Sound (printStmt expression) (Command phrase phrase') := by
  intro c s c' hp _ _
  obtain ⟨_, c₁, hprint, hp⟩ := bind_eq_ok_iff.mp hp
  obtain ⟨e, c₂, he, hp⟩ := bind_eq_ok_iff.mp (commit_eq_ok_iff.mp hp)
  obtain ⟨_, c₃, hsemi, hp⟩ := bind_eq_ok_iff.mp hp
  cases hp
  obtain ⟨-, b₁, r₁⟩ := Cursor.of_keyword (by decide) hprint
  obtain ⟨b₂, -, r₃⟩ := Cursor.of_literal (by decide) hsemi
  obtain ⟨ts, hts, r₂⟩ := h he b₁ b₂
  exact ⟨_, .print hts, r₁.trans (r₂.trans r₃)⟩

theorem sound_ifStmt (h : Sound expression phrase) (h' : Sound statement phrase') :
    Sound (ifStmt expression statement) (Command phrase phrase') := by
  intro c e c' hp _ _
  obtain ⟨_, c₁, hif, hp⟩ := bind_eq_ok_iff.mp hp
  obtain ⟨cond, c₂, hcond, hp⟩ := bind_eq_ok_iff.mp (commit_eq_ok_iff.mp hp)
  obtain ⟨_, c₃, hthen, hp⟩ := bind_eq_ok_iff.mp hp
  obtain ⟨yes, c₄, hyes, hp⟩ := bind_eq_ok_iff.mp hp
  obtain ⟨_, c₅, helse, hp⟩ := bind_eq_ok_iff.mp hp
  obtain ⟨no, c₆, hno, hp⟩ := bind_eq_ok_iff.mp hp
  obtain ⟨_, c₇, hfi, hp⟩ := bind_eq_ok_iff.mp hp
  cases hp
  obtain ⟨-, b₁, r₁⟩ := Cursor.of_keyword (by decide) hif
  obtain ⟨b₂, b₃, r₃⟩ := Cursor.of_keyword (by decide) hthen
  obtain ⟨b₄, b₅, r₅⟩ := Cursor.of_keyword (by decide) helse
  obtain ⟨b₆, -, r₇⟩ := Cursor.of_keyword (by decide) hfi
  obtain ⟨cs, hcs, r₂⟩ := h hcond b₁ b₂
  obtain ⟨ts, hts, r₄⟩ := h' hyes b₃ b₄
  obtain ⟨es, hes, r₆⟩ := h' hno b₅ b₆
  exact ⟨_, .ite hcs hts hes,
    r₁.trans (r₂.trans (r₃.trans (r₄.trans (r₅.trans (r₆.trans r₇)))))⟩

theorem sound_procedureStmt (h' : Sound statement phrase') :
    Sound (procedureStmt statement) (Command phrase phrase') := by
  intro c e c' hp _ _
  obtain ⟨_, c₁, hproc, hp⟩ := bind_eq_ok_iff.mp hp
  obtain ⟨f, c₂, hf, hp⟩ := bind_eq_ok_iff.mp (commit_eq_ok_iff.mp hp)
  obtain ⟨_, c₃, hopen, hp⟩ := bind_eq_ok_iff.mp hp
  obtain ⟨params, c₄, hparams, hp⟩ := bind_eq_ok_iff.mp hp
  obtain ⟨_, c₅, hclose, hp⟩ := bind_eq_ok_iff.mp hp
  obtain ⟨body, c₆, hbody, hp⟩ := bind_eq_ok_iff.mp hp
  obtain ⟨_, c₇, hend, hp⟩ := bind_eq_ok_iff.mp hp
  cases hp
  obtain ⟨-, b₁, r₁⟩ := Cursor.of_keyword (by decide) hproc
  obtain ⟨b₂, b₃, r₃⟩ := Cursor.of_literal (by decide) hopen
  obtain ⟨b₄, b₅, r₅⟩ := Cursor.of_literal (by decide) hclose
  obtain ⟨b₆, -, r₇⟩ := Cursor.of_keyword (by decide) hend
  have r₂ := Cursor.of_identifier hf b₁ b₂
  obtain ⟨ps, hps, r₄⟩ := Sound.listOf (by decide) sound_identifier hparams b₃ b₄
  obtain ⟨ts, hts, r₆⟩ := h' hbody b₅ b₆
  exact ⟨_, .procedure hps hts,
    r₁.trans (r₂.trans (r₃.trans (r₄.trans (r₅.trans (r₆.trans r₇)))))⟩

theorem sound_callStmt (h : Sound expression phrase) :
    Sound (callStmt expression) (Command phrase phrase') := by
  intro c e c' hp _ _
  obtain ⟨_, c₁, hcall, hp⟩ := bind_eq_ok_iff.mp hp
  obtain ⟨f, c₂, hf, hp⟩ := bind_eq_ok_iff.mp (commit_eq_ok_iff.mp hp)
  obtain ⟨_, c₃, hopen, hp⟩ := bind_eq_ok_iff.mp hp
  obtain ⟨args, c₄, hargs, hp⟩ := bind_eq_ok_iff.mp hp
  obtain ⟨_, c₅, hclose, hp⟩ := bind_eq_ok_iff.mp hp
  obtain ⟨_, c₆, hsemi, hp⟩ := bind_eq_ok_iff.mp hp
  cases hp
  obtain ⟨-, b₁, r₁⟩ := Cursor.of_keyword (by decide) hcall
  obtain ⟨b₂, b₃, r₃⟩ := Cursor.of_literal (by decide) hopen
  obtain ⟨b₄, -, r₅⟩ := Cursor.of_literal (by decide) hclose
  obtain ⟨-, -, r₆⟩ := Cursor.of_literal (by decide) hsemi
  have r₂ := Cursor.of_identifier hf b₁ b₂
  obtain ⟨as, has, r₄⟩ := Sound.listOf (by decide) h hargs b₃ b₄
  exact ⟨_, .call has, r₁.trans (r₂.trans (r₃.trans (r₄.trans (r₅.trans r₆))))⟩

theorem sound_seqStmt (h' : Sound statement phrase') (hcl : Closes statement) :
    Sound (seqStmt statement) (Command phrase phrase') := by
  intro c e c' hp _ _
  obtain ⟨_, c₁, hdo, hp⟩ := bind_eq_ok_iff.mp hp
  obtain ⟨first, c₂, hfirst, hp⟩ := bind_eq_ok_iff.mp (commit_eq_ok_iff.mp hp)
  obtain ⟨others, c₃, hothers, hp⟩ := bind_eq_ok_iff.mp hp
  obtain ⟨_, c₄, hod, hp⟩ := bind_eq_ok_iff.mp hp
  obtain ⟨_, c₅, hsemi, hp⟩ := bind_eq_ok_iff.mp hp
  cases hp
  obtain ⟨-, b₁, r₁⟩ := Cursor.of_keyword (by decide) hdo
  obtain ⟨b₃, -, r₄⟩ := Cursor.of_keyword (by decide) hod
  obtain ⟨-, -, r₅⟩ := Cursor.of_literal (by decide) hsemi
  obtain ⟨ts, hts, r₂⟩ := h' hfirst b₁ (hcl hfirst)
  obtain ⟨us, hus, r₃⟩ := h'.many (.inr hcl) hothers (hcl hfirst) b₃
  exact ⟨_, .seq hts hus, r₁.trans (r₂.trans (r₃.trans (r₄.trans r₅)))⟩

theorem sound_setStmt (h : Sound expression phrase) :
    Sound (setStmt expression) (Command phrase phrase') := by
  intro c e c' hp hc _
  obtain ⟨x, c₁, hx, hp⟩ := bind_eq_ok_iff.mp hp
  obtain ⟨_, c₂, hassign, hp⟩ := bind_eq_ok_iff.mp hp
  obtain ⟨e, c₃, he, hp⟩ := bind_eq_ok_iff.mp hp
  obtain ⟨_, c₄, hsemi, hp⟩ := bind_eq_ok_iff.mp hp
  cases hp
  obtain ⟨b₁, b₂, r₂⟩ := Cursor.of_literal (by decide) hassign
  obtain ⟨b₃, -, r₄⟩ := Cursor.of_literal (by decide) hsemi
  have r₁ := Cursor.of_identifier hx hc b₁
  obtain ⟨ts, hts, r₃⟩ := h he b₂ b₃
  exact ⟨_, .set hts, r₁.trans (r₂.trans (r₃.trans r₄))⟩

/-- Every statement ends with a semicolon or a closing keyword, so the next one starts afresh. -/
theorem closes_statements (expression : Parser Exp) (statement : Parser Stmt) :
    Closes (statements expression statement) := by
  intro c s c' hp
  obtain ⟨q, hmem, hq⟩ := firstOf_eq_ok hp
  -- the last token of each form is a symbol or a keyword
  suffices hcl : Closes q from hcl hq
  clear hq
  simp only [List.mem_cons, List.not_mem_nil, or_false] at hmem
  rcases hmem with rfl | rfl | rfl | rfl | rfl | rfl | rfl
  · exact .bind fun _ => .commit (closes_literal (by decide) _)
  · exact .bind fun _ => .commit (.bind fun _ => closes_literal (by decide) _)
  · exact .bind fun _ => .commit (.bind fun _ => .bind fun _ => .bind fun _ => .bind fun _ =>
      .bind fun _ => closes_keyword (by decide) _)
  · exact .bind fun _ => .commit (.bind fun _ => .bind fun _ => .bind fun _ => .bind fun _ =>
      .bind fun _ => closes_keyword (by decide) _)
  · exact .bind fun _ => .commit (.bind fun _ => .bind fun _ => .bind fun _ => .bind fun _ =>
      closes_literal (by decide) _)
  · exact .bind fun _ => .commit (.bind fun _ => .bind fun _ => .bind fun _ =>
      closes_literal (by decide) _)
  · exact .bind fun _ => .bind fun _ => .bind fun _ => closes_literal (by decide) _

theorem closes_statement (nesting : Nat) : Closes (Grammar.statement nesting) := by
  cases nesting with
  | zero =>
    intro c s c' hp
    cases hp
  | succ nesting => exact fun _ _ _ hp => closes_statements _ _ (named_eq_ok_iff.mp hp)

theorem sound_statements (h : Sound expression phrase) (h' : Sound statement phrase')
    (hcl : Closes statement) :
    Sound (statements expression statement) (Command phrase phrase') := by
  apply Sound.firstOf
  simp only [List.forall_mem_cons, List.not_mem_nil, false_imp_iff, implies_true, and_true]
  exact ⟨sound_quitStmt, sound_printStmt h, sound_ifStmt h h', sound_procedureStmt h',
    sound_callStmt h, sound_seqStmt h' hcl, sound_setStmt h⟩

theorem sound_statement (nesting : Nat) : Sound (Grammar.statement nesting) Statement := by
  induction nesting with
  | zero =>
    intro c s c' hp
    cases hp
  | succ nesting ih =>
    have hs := sound_statements (sound_expression nesting) ih (closes_statement nesting)
    exact hs.named.mono fun ts s h => .intro h

end Grammar

end ImpLang
