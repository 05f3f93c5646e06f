import ImpLang.Proofs.WellFormed
import ImpLang.Tree.Render
import Mathlib.Data.List.Forall2

/-! Rendering and parsing. Every rendered expression is an operand: a literal, a name, a form
between keywords or an operation in parentheses. Its pieces are kept apart by spaces and symbols, so
the text spells its lexemes, and these are read back. -/
namespace ImpLang

open Token ImpLang.Parser

theorem Spells.blanks {before : Option Char} {us : List Lexeme} {cs rest : List Char}
    (hcs : ∀ ch ∈ cs, Cursor.isSeparator ch = true)
    (h : Spells (cs.getLast?.or before) us rest) : Spells before us (cs ++ rest) := by
  cases us with
  | nil => exact List.forall_mem_append.mpr ⟨hcs, h⟩
  | cons t us =>
    obtain ⟨blanks, rest', rfl, hb, hs, hrest⟩ := h
    refine ⟨cs ++ blanks, rest', by simp, List.forall_mem_append.mpr ⟨hcs, hb⟩, ?_, hrest⟩
    rwa [List.getLast?_append, Option.or_assoc]

theorem Spells.blank {before : Option Char} {us : List Lexeme} {rest : List Char}
    (h : Spells (some ' ') us rest) : Spells before us (' ' :: rest) := by
  have hspace : ∀ ch ∈ [' '], Cursor.isSeparator ch = true := List.forall_mem_singleton.mpr rfl
  exact .blanks hspace h

/-- Where no word follows, it does not matter what stands before. -/
theorem Spells.congr_before {before before' : Option Char} {us : List Lexeme} {rest : List Char}
    (h : Spells before us rest) (hrest : rest.head?.any isWordChar = false) :
    Spells before' us rest := by
  cases us with
  | nil => exact h
  | cons t us =>
    obtain ⟨blanks, rest', rfl, hb, hs, hrest'⟩ := h
    refine ⟨blanks, rest', rfl, hb, ⟨hs.proper, ?_, hs.apart_after⟩, hrest'⟩
    cases blanks with
    | cons ch blanks =>
      have hlast := hs.apart_before
      rwa [List.getLast?_cons, Option.some_or] at hlast ⊢
    -- without white space the first lexeme starts the text, so it is a symbol
    | nil =>
      obtain ⟨ch, chs, htext⟩ := hs.proper.exists_text
      have hch : isWordChar ch = false := by simpa [htext] using hrest
      obtain ⟨s, -, rfl⟩ := hs.proper.eq_symbol hch (by rw [htext]; rfl)
      cases before' <;> rfl

theorem Lexeme.Proper.stands {t : Lexeme} (h : t.Proper) {before : Option Char} {rest : List Char}
    (hbefore : before.any isWordChar = false) (hrest : rest.head?.any isWordChar = false) :
    t.Stands before rest :=
  ⟨h, any_eq_false_of_imp (fun _ => isWordChar_of_clings) hbefore,
    any_eq_false_of_imp (fun _ => isWordChar_of_clings) hrest⟩

/-- The text is one way to write the lexemes where no words touch it. -/
structure Written (ts : List Lexeme) (cs : List Char) : Prop where
  spells : ∀ ⦃before us rest⦄, before.any isWordChar = false → rest.head?.any isWordChar = false →
    Spells none us rest → Spells before (ts ++ us) (cs ++ rest)
  short : ∀ ds, .number ds ∈ ts → ds.length ≤ Text.maxDigits
  plain : '\t' ∉ cs

namespace Written

variable {ts us : List Lexeme} {cs ds : List Char}

theorem nil : Written [] [] :=
  ⟨fun _ _ _ _ hrest h => h.congr_before hrest, by simp, by simp⟩

theorem lexeme {t : Lexeme} (ht : t.Proper)
    (hshort : ∀ ds, t = .number ds → ds.length ≤ Text.maxDigits) : Written [t] t.text := by
  refine ⟨fun before us rest hbefore hrest h => ?_, ?_, ?_⟩
  · exact ⟨[], rest, rfl, by simp, ht.stands hbefore hrest, h.congr_before hrest⟩
  · intro ds hds
    exact hshort ds (List.mem_singleton.mp hds).symm
  · exact fun htab => absurd (ht.not_separator _ htab) (by decide)

theorem keyword {w : String} (hw : w ∈ reservedWords) : Written [.keyword w] w.toList :=
  lexeme (t := .keyword w) hw (by simp)

theorem name {x : String} (hx : IsName x) : Written [.name x] x.toList :=
  lexeme (t := .name x) hx (by simp)

theorem spaced (h : Written ts cs) (h' : Written us ds) :
    Written (ts ++ us) (cs ++ ' ' :: ds) := by
  refine ⟨fun before vs rest hbefore hrest hvs => ?_, ?_, ?_⟩
  · rw [List.append_assoc, List.append_assoc, List.cons_append]
    exact h.spells hbefore rfl (.blank (h'.spells rfl hrest hvs))
  · intro ds hds
    exact (List.mem_append.mp hds).elim (h.short ds) (h'.short ds)
  · simp [h.plain, h'.plain]

/-- A symbol needs no space around it. -/
theorem joined (h : Written ts cs) {s : String} (hs : s ∈ symbols) (h' : Written us ds) :
    Written (ts ++ .symbol s :: us) (cs ++ (s.toList ++ ds)) := by
  have hne := ne_nil_of_mem_symbols hs
  have hnot := isWordChar_eq_false_of_mem_symbols hs
  refine ⟨fun before vs rest hbefore hrest hvs => ?_, ?_, ?_⟩
  · have hlast : s.toList.getLast?.any isWordChar = false := by
      rw [List.getLast?_eq_some_getLast hne]
      exact (hnot _ (List.getLast_mem hne)).1
    have hfirst : (s.toList ++ (ds ++ rest)).head?.any isWordChar = false := by
      obtain ⟨ch, chs, hcs⟩ := List.exists_cons_of_ne_nil hne
      rw [hcs]
      exact (hnot ch (by simp [hcs])).1
    rw [List.append_assoc, List.append_assoc, List.append_assoc]
    refine h.spells hbefore hfirst ⟨[], ds ++ rest, rfl, by simp, ⟨hs, ?_, ?_⟩,
      h'.spells hlast hrest hvs⟩
    · simp [Lexeme.clings]
    · simp [Lexeme.clings]
  · intro ds hds
    rcases List.mem_append.mp hds with hmem | hmem
    · exact h.short ds hmem
    · exact h'.short ds (by simpa using hmem)
  · have htab : '\t' ∉ s.toList := fun hmem => absurd (hnot _ hmem).2 (by decide)
    simp [h.plain, h'.plain, htab]

/-- A form between a keyword and `end`, with items in brackets in front of its body. -/
theorem bracketed {w : String} (hw : w ∈ reservedWords) {items body : String}
    (h : Written ts items.toList) (h' : Written us body.toList) {opening : String}
    (hopening : opening.toList = w.toList ++ [' ', '[']) :
    Written (.keyword w :: .symbol "[" :: (ts ++ .symbol "]" :: (us ++ [.keyword "end"])))
      (opening ++ items ++ "] " ++ body ++ " end").toList := by
  have hend := h'.spaced (keyword (w := "end") (by decide))
  have hrest := h.joined (s := "]") (by decide) (nil.spaced hend)
  have hall := (keyword hw).spaced (nil.joined (s := "[") (by decide) hrest)
  simp only [String.toList_append, List.append_assoc, hopening]
  exact hall

theorem conditional {vs : List Lexeme} {c t e : String} (hc : Written ts c.toList)
    (ht : Written us t.toList) (he : Written vs e.toList) :
    Written (.keyword "if" :: (ts ++ .keyword "then" ::
        (us ++ .keyword "else" :: (vs ++ [.keyword "fi"]))))
      ("if " ++ c ++ " then " ++ t ++ " else " ++ e ++ " fi").toList := by
  have hfi := he.spaced (keyword (w := "fi") (by decide))
  have helse := ht.spaced ((keyword (w := "else") (by decide)).spaced hfi)
  have hthen := hc.spaced ((keyword (w := "then") (by decide)).spaced helse)
  have hall := (keyword (w := "if") (by decide)).spaced hthen
  simp only [String.toList_append, List.append_assoc]
  exact hall

end Written

def Phrase.Writes {α : Type} (phrase : Phrase α) (a : α) (text : String) : Prop :=
  ∃ ts, phrase ts a ∧ Written ts text.toList

namespace Phrase

variable {α : Type} {item : Phrase α}

theorem Writes.listed {s : String} (hs : s ∈ symbols) {as : List α} {texts : List String}
    (h : List.Forall₂ item.Writes as texts) :
    (Listed (.symbol s) item).Writes as ((s ++ " ").intercalate texts) := by
  have hitems {a : α} {text : String} (ha : item.Writes a text) {as : List α}
      {texts : List String} (has : List.Forall₂ item.Writes as texts) :
      ∃ ts us, item ts a ∧ Many (After (.symbol s) item) us as ∧
        Written (ts ++ us) ((s ++ " ").intercalate (text :: texts)).toList := by
    induction has generalizing a text with
    | nil =>
      obtain ⟨ts, hts, hw⟩ := ha
      refine ⟨ts, [], hts, .nil, ?_⟩
      rwa [List.append_nil, String.intercalate_singleton]
    | cons hb _ ih =>
      obtain ⟨ts, hts, hw⟩ := ha
      obtain ⟨us, vs, hus, hvs, hw'⟩ := ih hb
      refine ⟨ts, _, hts, .cons (.intro hus) hvs, ?_⟩
      have hall := hw.joined hs (Written.nil.spaced hw')
      simpa [String.intercalate_cons_cons] using hall
  cases h with
  | nil => exact ⟨[], .empty, .nil⟩
  | cons ha has =>
    obtain ⟨ts, us, hts, hus, hw⟩ := hitems ha has
    exact ⟨_, .items hts hus, hw⟩

def chains (operand : Phrase Exp) : Nat → Phrase Exp
  | 0 => operand
  | level + 1 => Chain (level + 1) (chains operand level)

theorem Chain.single {operand : Phrase Exp} {ts : List Lexeme} {e : Exp} (h : operand ts e)
    (level : Nat) : Chain level operand ts e := by
  have hchain : Chain level operand (ts ++ []) (Phrase.joined e []) := .intro h .nil
  rwa [List.append_nil] at hchain

theorem Chain.pair {operand : Phrase Exp} {ts us : List Lexeme} {l r : Exp} (hl : operand ts l)
    (hr : operand us r) (op : Op) :
    Chain op.level operand (ts ++ op.lexeme :: us) (.binary op l r) := by
  have hmany : Many (Operation op.level operand) (op.lexeme :: us ++ []) [(op, r)] :=
    .cons (.intro rfl hr) .nil
  rw [List.append_nil] at hmany
  exact .intro hl hmany

theorem chains_of_operand {operand : Phrase Exp} {ts : List Lexeme} {e : Exp} (h : operand ts e)
    (level : Nat) : chains operand level ts e := by
  induction level with
  | zero => exact h
  | succ level ih => exact Chain.single ih _

/-- Two operands and an operator are a phrase of the operator's level, and so of all above it. -/
theorem chains_pair {operand : Phrase Exp} {ts us : List Lexeme} {l r : Exp} (hl : operand ts l)
    (hr : operand us r) (op : Op) {level : Nat} (hop : op.level ≤ level) :
    chains operand level (ts ++ op.lexeme :: us) (.binary op l r) := by
  induction level with
  | zero => exact absurd hop (by cases op <;> decide)
  | succ level ih =>
    rcases Nat.lt_or_eq_of_le hop with hlt | heq
    · exact Chain.single (ih (Nat.le_of_lt_succ hlt)) _
    · have hpair := Chain.pair (chains_of_operand hl level) (chains_of_operand hr level) op
      rwa [heq] at hpair

theorem expression_of_atom {ts : List Lexeme} {e : Exp} (h : Atom Expression ts e) :
    Expression ts e :=
  .intro (chains_of_operand h 5)

theorem expression_pair {ts us : List Lexeme} {l r : Exp} (hl : Atom Expression ts l)
    (hr : Atom Expression us r) (op : Op) :
    Expression (ts ++ op.lexeme :: us) (.binary op l r) := by
  have hop : op.level ≤ 5 := by cases op <;> decide
  exact .intro (chains_pair hl hr op hop)

end Phrase

theorem Op.written_lexeme (op : Op) : Written [op.lexeme] op.symbol.toList := by
  have hproper : op.lexeme.Proper := by cases op <;> decide
  have htext : op.lexeme.text = op.symbol.toList := by cases op <;> rfl
  have hnumber : ∀ ds, op.lexeme ≠ .number ds := by cases op <;> simp [Op.lexeme, Op.kind]
  rw [← htext]
  exact .lexeme hproper fun ds hds => absurd hds (hnumber ds)

/-- The numeral of a literal is a run of digits that is read back as the same integer. -/
theorem IsLiteral.writes {n : Int} (h : IsLiteral n) : Text.writtenNumeral n = .ok n.repr ∧
    (Phrase.Atom Phrase.Expression).Writes (.int n) n.repr := by
  obtain ⟨m, rfl⟩ := Int.eq_ofNat_of_zero_le h.1
  have hlen : (Nat.toDigits 10 m).length ≤ Text.maxDigits := h.2
  have hrepr : (Int.repr (m : Int)).toList = Nat.toDigits 10 m := Nat.toList_repr
  have hdigits : ∀ ch ∈ Nat.toDigits 10 m, Text.isAsciiDigit ch = true := by
    intro ch hch
    rw [← isDigit_eq_isAsciiDigit]
    exact Nat.isDigit_of_mem_toDigits (by decide) (by decide) hch
  constructor
  · have hbound : m < Text.numeralBound := by
      rw [Text.numeralBound_eq, Nat.pow_eq]
      exact (Nat.length_toDigits_le_iff (by decide) (by decide)).mp hlen
    have hnumeral : Text.hasNumeral (m : Int) = true := decide_eq_true hbound
    rw [Text.writtenNumeral, if_pos hnumeral]
    rfl
  · have hatom : Phrase.Atom Phrase.Expression [.number (Nat.toDigits 10 m)]
        (.int (Text.ofDigits (Nat.toDigits 10 m))) := .int _
    rw [Text.ofDigits_toDigits] at hatom
    refine ⟨[.number (Nat.toDigits 10 m)], hatom, ?_⟩
    rw [hrepr]
    exact .lexeme (t := .number (Nat.toDigits 10 m)) ⟨Nat.toDigits_ne_nil, hdigits⟩
      fun ds hds => by cases hds; exact hlen

theorem exists_forall₂ {α β : Type} {R : α → β → Prop} {as : List α}
    (h : ∀ a ∈ as, ∃ b, R a b) : ∃ bs, List.Forall₂ R as bs := by
  induction as with
  | nil => exact ⟨[], .nil⟩
  | cons a as ih =>
    obtain ⟨⟨b, hb⟩, has⟩ := List.forall_mem_cons.mp h
    obtain ⟨bs, hbs⟩ := ih has
    exact ⟨b :: bs, .cons hb hbs⟩

theorem writes_names {params : List String} (h : ∀ x ∈ params, IsName x) :
    (Phrase.Listed (.symbol ",") Phrase.Name).Writes params (", ".intercalate params) := by
  refine Phrase.Writes.listed (s := ",") (by decide) (List.forall₂_same.mpr fun x hx => ?_)
  exact ⟨[.name x], .intro x, .name (h x hx)⟩

namespace Exp

open Phrase

/-- The expression is rendered as the text of an operand that derives it. -/
structure Renders (e : Exp) (text : String) : Prop where
  render_eq : e.render = .ok text
  writes : (Atom Expression).Writes e text

theorem Renders.expression {e : Exp} {text : String} (h : e.Renders text) :
    Expression.Writes e text := by
  obtain ⟨ts, hts, hw⟩ := h.writes
  exact ⟨ts, expression_of_atom hts, hw⟩

theorem renderList_eq {es : List Exp} {texts : List String} (h : List.Forall₂ Renders es texts) :
    renderList es = .ok texts := by
  induction h with
  | nil => rfl
  | cons he _ ih =>
    rw [renderList_cons, he.render_eq, ih]
    rfl

theorem renderBindings_eq {bindings : List (String × Exp)} {texts : List String}
    (h : List.Forall₂ (fun b text => b.2.Renders text) bindings texts) :
    renderBindings bindings =
      .ok (List.zipWith (fun b text => b.1 ++ " := " ++ text) bindings texts) := by
  induction h with
  | nil => rfl
  | cons he _ ih =>
    rw [renderBindings_cons, he.render_eq, ih]
    rfl

theorem writes_arguments {es : List Exp} {texts : List String}
    (h : List.Forall₂ Renders es texts) :
    (Listed (.symbol ",") Expression).Writes es (", ".intercalate texts) :=
  Writes.listed (s := ",") (by decide) (h.imp fun _ _ he => he.expression)

theorem writes_bindings {bindings : List (String × Exp)} {texts : List String}
    (hnames : ∀ b ∈ bindings, IsName b.1)
    (h : List.Forall₂ (fun b text => b.2.Renders text) bindings texts) :
    (Listed (.symbol ";") (Binding Expression)).Writes bindings
      ("; ".intercalate (List.zipWith (fun b text => b.1 ++ " := " ++ text) bindings texts)) := by
  refine Writes.listed (s := ";") (by decide) ?_
  induction h with
  | nil => exact .nil
  | @cons b text bindings texts he _ ih =>
    obtain ⟨hname, hnames⟩ := List.forall_mem_cons.mp hnames
    obtain ⟨ts, hts, hw⟩ := he.expression
    refine .cons ⟨_, .intro hts, ?_⟩ (ih hnames)
    have hassign := (Written.nil.joined (s := ":=") (by decide) .nil).spaced hw
    simpa using (Written.name hname).spaced hassign

theorem WellFormed.renders {e : Exp} (h : e.WellFormed) : ∃ text, e.Renders text := by
  -- each form puts the texts of its parts between keywords, spaces and symbols
  induction h with
  | int hn => exact ⟨_, hn.writes.1, hn.writes.2⟩
  | bool b =>
    cases b with
    | true => exact ⟨"true", rfl, _, .true, .keyword (by decide)⟩
    | false => exact ⟨"false", rfl, _, .false, .keyword (by decide)⟩
  | @var x hx => exact ⟨x, rfl, _, .var x, .name hx⟩
  | @fn params body hparams _ ih =>
    obtain ⟨text, hbody⟩ := ih
    obtain ⟨ps, hps, hwps⟩ := writes_names hparams
    obtain ⟨ts, hts, hw⟩ := hbody.expression
    refine ⟨"fn [" ++ ", ".intercalate params ++ "] " ++ text ++ " end", ?_, _, .fn hps hts, ?_⟩
    · rw [render_fn, hbody.render_eq]
      rfl
    · exact .bracketed (w := "fn") (by decide) hwps hw rfl
  | @letIn bindings body hnames _ _ ihs ih =>
    obtain ⟨text, hbody⟩ := ih
    obtain ⟨texts, htexts⟩ := exists_forall₂ ihs
    obtain ⟨bs, hbs, hwbs⟩ := writes_bindings hnames htexts
    obtain ⟨ts, hts, hw⟩ := hbody.expression
    refine ⟨"let [" ++ "; ".intercalate (List.zipWith (fun b text => b.1 ++ " := " ++ text)
      bindings texts) ++ "] " ++ text ++ " end", ?_, _, .letIn hbs hts, ?_⟩
    · rw [render_letIn, hbody.render_eq, renderBindings_eq htexts]
      rfl
    · exact .bracketed (w := "let") (by decide) hwbs hw rfl
  | @apply f args _ _ ih ihs =>
    obtain ⟨text, hf⟩ := ih
    obtain ⟨texts, htexts⟩ := exists_forall₂ ihs
    obtain ⟨as, has, hwas⟩ := writes_arguments htexts
    obtain ⟨ts, hts, hw⟩ := hf.expression
    refine ⟨"apply " ++ text ++ " (" ++ ", ".intercalate texts ++ ")", ?_, _,
      .apply hts has, ?_⟩
    · rw [render_apply, hf.render_eq, renderList_eq htexts]
      rfl
    · have hclose := hwas.joined (s := ")") (by decide) .nil
      have hrest := hw.spaced (Written.nil.joined (s := "(") (by decide) hclose)
      have hall := (Written.keyword (w := "apply") (by decide)).spaced hrest
      simp only [String.toList_append, List.append_assoc]
      exact hall
  | ite _ _ _ ihc iht ihe =>
    obtain ⟨ctext, hc⟩ := ihc
    obtain ⟨ttext, ht⟩ := iht
    obtain ⟨etext, he⟩ := ihe
    obtain ⟨cs, hcs, hwc⟩ := hc.expression
    obtain ⟨ts, hts, hwt⟩ := ht.expression
    obtain ⟨es, hes, hwe⟩ := he.expression
    refine ⟨"if " ++ ctext ++ " then " ++ ttext ++ " else " ++ etext ++ " fi", ?_, _,
      .ite hcs hts hes, ?_⟩
    · rw [render_ite, hc.render_eq, ht.render_eq, he.render_eq]
      rfl
    · exact hwc.conditional hwt hwe
  | binary op _ _ ihl ihr =>
    obtain ⟨ltext, hl⟩ := ihl
    obtain ⟨rtext, hr⟩ := ihr
    obtain ⟨ls, hls, hwl⟩ := hl.writes
    obtain ⟨rs, hrs, hwr⟩ := hr.writes
    refine ⟨"(" ++ ltext ++ " " ++ op.symbol ++ " " ++ rtext ++ ")", ?_, _,
      .paren (expression_pair hls hrs op), ?_⟩
    · rw [render_binary, hl.render_eq, hr.render_eq]
      rfl
    · have hpair := hwl.spaced (op.written_lexeme.spaced hwr)
      have hall := Written.nil.joined (s := "(") (by decide)
        (hpair.joined (s := ")") (by decide) .nil)
      simp only [String.toList_append, List.append_assoc, List.cons_append] at hall ⊢
      exact hall

end Exp

namespace Stmt

open Phrase

structure Renders (s : Stmt) (text : String) : Prop where
  render_eq : s.render = .ok text
  writes : Statement.Writes s text

theorem renderList_eq {ss : List Stmt} {texts : List String} (h : List.Forall₂ Renders ss texts) :
    renderList ss = .ok texts := by
  induction h with
  | nil => rfl
  | cons hs _ ih =>
    rw [renderList_cons, hs.render_eq, ih]
    rfl

theorem writes_sequence {s : Stmt} {text : String} (hs : s.Renders text) {ss : List Stmt}
    {texts : List String} (h : List.Forall₂ Renders ss texts) :
    ∃ ts us, Statement ts s ∧ Many Statement us ss ∧
      Written (ts ++ us) (" ".intercalate (text :: texts)).toList := by
  induction h generalizing s text with
  | nil =>
    obtain ⟨ts, hts, hw⟩ := hs.writes
    refine ⟨ts, [], hts, .nil, ?_⟩
    rwa [List.append_nil, String.intercalate_singleton]
  | cons hs' _ ih =>
    obtain ⟨ts, hts, hw⟩ := hs.writes
    obtain ⟨us, vs, hus, hvs, hw'⟩ := ih hs'
    refine ⟨ts, _, hts, .cons hus hvs, ?_⟩
    simpa [String.intercalate_cons_cons] using hw.spaced hw'

theorem WellFormed.renders {s : Stmt} (h : s.WellFormed) : ∃ text, s.Renders text := by
  -- each form has its text beside a derivation of the lexemes that the text writes
  induction h with
  | @set x e hx he =>
    obtain ⟨text, he⟩ := he.renders
    obtain ⟨ts, hts, hw⟩ := he.expression
    refine ⟨x ++ " := " ++ text ++ ";", ?_, _, .intro (.set hts), ?_⟩
    · rw [render_set, he.render_eq]
      rfl
    · have hassign := (Written.nil.joined (s := ":=") (by decide) .nil).spaced
        (hw.joined (s := ";") (by decide) .nil)
      have hall := (Written.name hx).spaced hassign
      simp only [String.toList_append, List.append_assoc]
      exact hall
  | print he =>
    obtain ⟨text, he⟩ := he.renders
    obtain ⟨ts, hts, hw⟩ := he.expression
    refine ⟨"print " ++ text ++ ";", ?_, _, .intro (.print hts), ?_⟩
    · rw [render_print, he.render_eq]
      rfl
    · have hall := (Written.keyword (w := "print") (by decide)).spaced
        (hw.joined (s := ";") (by decide) .nil)
      simp only [String.toList_append, List.append_assoc]
      exact hall
  | quit =>
    refine ⟨"quit;", rfl, _, .intro .quit, ?_⟩
    exact (Written.keyword (w := "quit") (by decide)).joined (s := ";") (by decide) .nil
  | ite hc _ _ iht ihe =>
    obtain ⟨ctext, hc⟩ := hc.renders
    obtain ⟨ttext, ht⟩ := iht
    obtain ⟨etext, he⟩ := ihe
    obtain ⟨cs, hcs, hwc⟩ := hc.expression
    obtain ⟨ts, hts, hwt⟩ := ht.writes
    obtain ⟨es, hes, hwe⟩ := he.writes
    refine ⟨"if " ++ ctext ++ " then " ++ ttext ++ " else " ++ etext ++ " fi", ?_, _,
      .intro (.ite hcs hts hes), ?_⟩
    · rw [render_ite, hc.render_eq, ht.render_eq, he.render_eq]
      rfl
    · exact hwc.conditional hwt hwe
  | @procedure f params body hf hparams _ ih =>
    obtain ⟨text, hbody⟩ := ih
    obtain ⟨ps, hps, hwps⟩ := writes_names hparams
    obtain ⟨ts, hts, hw⟩ := hbody.writes
    refine ⟨"procedure " ++ f ++ "(" ++ ", ".intercalate params ++ ") " ++ text ++ " endproc", ?_,
      _, .intro (.procedure hps hts), ?_⟩
    · rw [render_procedure, hbody.render_eq]
      rfl
    · have hend := hw.spaced (.keyword (w := "endproc") (by decide))
      have hrest := hwps.joined (s := ")") (by decide) (Written.nil.spaced hend)
      have hall := (Written.keyword (w := "procedure") (by decide)).spaced
        ((Written.name hf).joined (s := "(") (by decide) hrest)
      simp only [String.toList_append, List.append_assoc]
      exact hall
  | @call f args hf hargs =>
    obtain ⟨texts, htexts⟩ := exists_forall₂ fun e he => (hargs e he).renders
    obtain ⟨as, has, hwas⟩ := Exp.writes_arguments htexts
    refine ⟨"call " ++ f ++ "(" ++ ", ".intercalate texts ++ ");", ?_, _,
      .intro (.call has), ?_⟩
    · rw [render_call, Exp.renderList_eq htexts]
      rfl
    · have hclose := hwas.joined (s := ")") (by decide)
        (Written.nil.joined (s := ";") (by decide) .nil)
      have hall := (Written.keyword (w := "call") (by decide)).spaced
        ((Written.name hf).joined (s := "(") (by decide) hclose)
      simp only [String.toList_append, List.append_assoc]
      exact hall
  | @seq stmts hne _ ihs =>
    obtain ⟨texts, htexts⟩ := exists_forall₂ ihs
    have hrender := renderList_eq htexts
    cases htexts with
    | nil => exact absurd rfl hne
    | @cons s text ss texts hs hss =>
      obtain ⟨ts, us, hts, hus, hw⟩ := writes_sequence hs hss
      refine ⟨"do " ++ " ".intercalate (text :: texts) ++ " od;", ?_, _,
        .intro (.seq hts hus), ?_⟩
      · rw [render_seq, hrender]
        rfl
      · have hod := (Written.keyword (w := "od") (by decide)).joined (s := ";") (by decide) .nil
        have hall := (Written.keyword (w := "do") (by decide)).spaced (hw.spaced hod)
        rw [List.append_assoc] at hall
        simp only [String.toList_append, List.append_assoc]
        exact hall

end Stmt

/-- What is written as a phrase is parsed back to its tree. -/
theorem Phrase.Writes.parseAll {α : Type} {phrase : Phrase α} {a : α} {text : String}
    (h : phrase.Writes a text) {nesting : Nat} {p : Parser α} {follow : List Lexeme → Prop}
    (hp : Complete p phrase follow) (hend : follow []) (hwithin : Within nesting p)
    (filename : String) :
    (p.parseAll text filename ≠ .error (.rejected (.nestedTooDeeply filename)) →
      p.parseAll text filename = .ok a) ∧
    (text.length < nesting → p.parseAll text filename = .ok a) := by
  obtain ⟨ts, hts, hw⟩ := h
  have hspells : Spells none ts text.toList := by
    have hall : Spells none (ts ++ []) (text.toList ++ []) := hw.spells rfl rfl (by simp [Spells])
    rwa [List.append_nil, List.append_nil] at hall
  have hparse (hdeep : p.parseAll text filename ≠ .error (.rejected (.nestedTooDeeply filename))) :
      p.parseAll text filename = .ok a :=
    hp.parseAll hend hts hspells hw.short hdeep
  refine ⟨hparse, fun hlen => hparse (hwithin.parseAll_ne ?_ filename)⟩
  rw [Text.expandTabs, Text.expandTabsFrom_of_not_mem hw.plain, String.length_toList]
  exact hlen

/-- Every well-formed tree is rendered, and parsing the text gives it back unless the nesting of the
text is beyond the limit, which it never is if the limit exceeds the length of the text. -/
theorem parse_render :
    (∀ e : Exp, e.WellFormed → ∃ text, e.render = .ok text ∧ ∀ nesting filename,
      (parseExpression nesting text filename ≠ .error (.rejected (.nestedTooDeeply filename)) →
        parseExpression nesting text filename = .ok e) ∧
      (text.length < nesting → parseExpression nesting text filename = .ok e)) ∧
    (∀ s : Stmt, s.WellFormed → ∃ text, s.render = .ok text ∧ ∀ nesting filename,
      (parseStatement nesting text filename ≠ .error (.rejected (.nestedTooDeeply filename)) →
        parseStatement nesting text filename = .ok s) ∧
      (text.length < nesting → parseStatement nesting text filename = .ok s)) := by
  constructor
  · intro e he
    obtain ⟨text, hrenders⟩ := he.renders
    exact ⟨text, hrenders.render_eq, fun nesting filename =>
      hrenders.expression.parseAll (Grammar.complete_expression nesting) (stops_nil 5)
        (Grammar.within_expression nesting) filename⟩
  · intro s hs
    obtain ⟨text, hrenders⟩ := hs.renders
    exact ⟨text, hrenders.render_eq, fun nesting filename =>
      hrenders.writes.parseAll (Grammar.complete_statement nesting) trivial
        (Grammar.within_statement nesting) filename⟩

theorem parse_render_sequence :
    (Stmt.seq [.call "doit" [], .set "x" (.letIn [("a", .int 8)]
      (.binary .ne (.var "a") (.apply (.fn [] (.int 2)) [])))]).WellFormed ∧
    parseStatement 99 "do call doit(); x := let [a := 8] (a /= apply fn [] 2 end ()) end; od;"
      standardInput =
      .ok (.seq [.call "doit" [], .set "x" (.letIn [("a", .int 8)]
        (.binary .ne (.var "a") (.apply (.fn [] (.int 2)) [])))]) := by
  have hwf : (Stmt.seq [.call "doit" [], .set "x" (.letIn [("a", .int 8)]
      (.binary .ne (.var "a") (.apply (.fn [] (.int 2)) [])))]).WellFormed := by
    have hset : (Stmt.set "x" (.letIn [("a", .int 8)]
        (.binary .ne (.var "a") (.apply (.fn [] (.int 2)) [])))).WellFormed := by
      refine .set (by decide) (.letIn (by decide) ?_ (.binary _ (.var (by decide)) ?_))
      · exact List.forall_mem_singleton.mpr (.int (by decide))
      · exact .apply (.fn (by simp) (.int (by decide))) (by simp)
    have hcall : (Stmt.call "doit" []).WellFormed := .call (by decide) (by simp)
    exact .seq (by simp) (List.forall_mem_cons.mpr ⟨hcall, List.forall_mem_singleton.mpr hset⟩)
  obtain ⟨text, hrender, hparse⟩ := parse_render.2 _ hwf
  obtain rfl : "do call doit(); x := let [a := 8] (a /= apply fn [] 2 end ()) end; od;" = text :=
    Except.ok.inj hrender
  exact ⟨hwf, (hparse 99 standardInput).2 (by decide)⟩

end ImpLang
