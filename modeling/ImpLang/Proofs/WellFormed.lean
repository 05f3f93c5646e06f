import ImpLang.Proofs.Acceptance
import Mathlib.Algebra.Group.Nat.Defs

namespace ImpLang

open Token ImpLang.Parser

/-- The integer can be written as a literal: it has no sign, and few enough digits. -/
def IsLiteral (n : Int) : Prop :=
  0 ≤ n ∧ (Nat.toDigits 10 n.toNat).length ≤ Text.maxDigits

instance (n : Int) : Decidable (IsLiteral n) :=
  inferInstanceAs (Decidable (_ ∧ _))

/-- Every name is one, every integer can be written as a literal, and every operator is in its
table: there is no case for an unknown operator or a foreign object. -/
inductive Exp.WellFormed : Exp → Prop
  | int {n : Int} (hn : IsLiteral n) : WellFormed (.int n)
  | bool (b : Bool) : WellFormed (.bool b)
  | var {x : String} (hx : IsName x) : WellFormed (.var x)
  | fn {params : List String} {body : Exp} (hparams : ∀ x ∈ params, IsName x)
      (hbody : WellFormed body) : WellFormed (.fn params body)
  | letIn {bindings : List (String × Exp)} {body : Exp} (hnames : ∀ b ∈ bindings, IsName b.1)
      (hbindings : ∀ b ∈ bindings, WellFormed b.2) (hbody : WellFormed body) :
      WellFormed (.letIn bindings body)
  | apply {f : Exp} {args : List Exp} (hf : WellFormed f) (hargs : ∀ e ∈ args, WellFormed e) :
      WellFormed (.apply f args)
  | ite {c t e : Exp} (hc : WellFormed c) (ht : WellFormed t) (he : WellFormed e) :
      WellFormed (.ite c t e)
  | binary (op : Op) {l r : Exp} (hl : WellFormed l) (hr : WellFormed r) :
      WellFormed (.binary op l r)

inductive Stmt.WellFormed : Stmt → Prop
  | set {x : String} {e : Exp} (hx : IsName x) (he : e.WellFormed) : WellFormed (.set x e)
  | print {e : Exp} (he : e.WellFormed) : WellFormed (.print e)
  | quit : WellFormed .quit
  | ite {c : Exp} {t e : Stmt} (hc : c.WellFormed) (ht : WellFormed t) (he : WellFormed e) :
      WellFormed (.ite c t e)
  | procedure {f : String} {params : List String} {body : Stmt} (hf : IsName f)
      (hparams : ∀ x ∈ params, IsName x) (hbody : WellFormed body) :
      WellFormed (.procedure f params body)
  | call {f : String} {args : List Exp} (hf : IsName f) (hargs : ∀ e ∈ args, e.WellFormed) :
      WellFormed (.call f args)
  | seq {stmts : List Stmt} (hne : stmts ≠ []) (hstmts : ∀ s ∈ stmts, WellFormed s) :
      WellFormed (.seq stmts)

namespace Text

/-- A run of digits stands for a number below the power of ten with as many zeros. -/
theorem ofDigits_lt {ds : List Char} (h : ∀ ch ∈ ds, isAsciiDigit ch = true) :
    ofDigits ds < 10 ^ ds.length := by
  have hfrom (init : Nat) : Nat.ofDigitChars 10 ds init < (init + 1) * 10 ^ ds.length := by
    induction ds generalizing init with
    | nil => simp
    | cons ch ds ih =>
      obtain ⟨hch, hds⟩ := List.forall_mem_cons.mp h
      have hdigit : ch.toNat - '0'.toNat ≤ 9 := by
        simp only [isAsciiDigit, Bool.and_eq_true, decide_eq_true_eq, Char.le_def,
          UInt32.le_iff_toNat_le] at hch
        have hnine : ch.toNat ≤ 57 := hch.2
        have hzero : '0'.toNat = 48 := rfl
        omega
      rw [Nat.ofDigitChars_cons, List.length_cons, Nat.pow_succ']
      calc Nat.ofDigitChars 10 ds (10 * init + (ch.toNat - '0'.toNat))
          < (10 * init + (ch.toNat - '0'.toNat) + 1) * 10 ^ ds.length := ih hds _
        _ ≤ (init + 1) * 10 * 10 ^ ds.length := Nat.mul_le_mul_right _ (by omega)
        _ = (init + 1) * (10 * 10 ^ ds.length) := Nat.mul_assoc _ _ _
  have hzero := hfrom 0
  rwa [Nat.zero_add, Nat.one_mul] at hzero

theorem isLiteral_ofDigits {ds : List Char} (h : ∀ ch ∈ ds, isAsciiDigit ch = true)
    (hlen : ds.length ≤ maxDigits) : IsLiteral (ofDigits ds) := by
  refine ⟨Int.natCast_nonneg _, ?_⟩
  rw [Int.toNat_natCast, Nat.length_toDigits_le_iff (by decide) (by decide)]
  calc ofDigits ds < 10 ^ ds.length := ofDigits_lt h
    _ ≤ 10 ^ maxDigits := Nat.pow_le_pow_right (by decide) hlen

end Text

structure Lexeme.Readable (t : Lexeme) : Prop where
  proper : t.Proper
  short : ∀ ds, t = .number ds → ds.length ≤ Text.maxDigits

namespace Phrase

variable {α : Type} {P : α → Prop}

/-- Readable lexemes of this kind of phrase derive only trees with the property. -/
def Forms (phrase : Phrase α) (P : α → Prop) : Prop :=
  ∀ ⦃ts a⦄, phrase ts a → (∀ t ∈ ts, t.Readable) → P a

def Ensuring (P : α → Prop) : Phrase α :=
  fun ts a => (∀ t ∈ ts, t.Readable) → P a

theorem Forms.many {item : Phrase α} (h : Forms item P) :
    Forms (Many item) fun as => ∀ a ∈ as, P a := by
  intro ts as hts hread
  induction hts with
  | nil => simp
  | cons first others ih =>
    obtain ⟨hfirst, hothers⟩ := List.forall_mem_append.mp hread
    exact List.forall_mem_cons.mpr ⟨h first hfirst, ih hothers⟩

theorem Forms.listed {item : Phrase α} (h : Forms item P) (t : Lexeme) :
    Forms (Listed t item) fun as => ∀ a ∈ as, P a := by
  have hafter : Forms (After t item) P := by
    rintro ts a ⟨hitem⟩ hread
    exact h hitem (List.forall_mem_cons.mp hread).2
  intro ts as hts hread
  cases hts with
  | empty => simp
  | items first others =>
    obtain ⟨hfirst, hothers⟩ := List.forall_mem_append.mp hread
    exact List.forall_mem_cons.mpr ⟨h first hfirst, hafter.many others hothers⟩

theorem forms_name : Forms Name IsName := by
  rintro ts x ⟨x⟩ hread
  exact (hread (.name x) (by simp)).proper

theorem wellFormed_joined {e : Exp} {others : List (Op × Exp)} (he : e.WellFormed)
    (hothers : ∀ p ∈ others, p.2.WellFormed) : (joined e others).WellFormed := by
  induction others generalizing e with
  | nil => exact he
  | cons p others ih =>
    obtain ⟨hp, hothers⟩ := List.forall_mem_cons.mp hothers
    exact ih (.binary p.1 he hp) hothers

theorem Forms.chain {operand : Phrase Exp} (h : Forms operand Exp.WellFormed) (level : Nat) :
    Forms (Chain level operand) Exp.WellFormed := by
  have hpair : Forms (Operation level operand) fun p => p.2.WellFormed := by
    rintro ts p ⟨-, right⟩ hread
    exact h right (List.forall_mem_cons.mp hread).2
  rintro ts e ⟨first, rest⟩ hread
  obtain ⟨hfirst, hrest⟩ := List.forall_mem_append.mp hread
  exact wellFormed_joined (h first hfirst) (hpair.many rest hrest)

variable {expression : Phrase Exp} {statement : Phrase Stmt}

theorem forms_binding (h : Forms expression Exp.WellFormed) :
    Forms (Binding expression) fun b => IsName b.1 ∧ b.2.WellFormed := by
  rintro ts b ⟨he⟩ hread
  simp only [List.forall_mem_cons] at hread
  exact ⟨hread.1.proper, h he hread.2.2⟩

theorem forms_atom (h : Forms expression Exp.WellFormed) :
    Forms (Atom expression) Exp.WellFormed := by
  intro ts e hts hread
  cases hts with
  | int ds =>
    have hds := hread (.number ds) (by simp)
    exact .int (Text.isLiteral_ofDigits hds.proper.2 (hds.short ds rfl))
  | fn hps hbody =>
    simp only [List.forall_mem_cons, List.forall_mem_append] at hread
    exact .fn (forms_name.listed _ hps hread.2.2.1) (h hbody hread.2.2.2.2.1)
  | ite hc ht he =>
    simp only [List.forall_mem_cons, List.forall_mem_append] at hread
    exact .ite (h hc hread.2.1) (h ht hread.2.2.2.1) (h he hread.2.2.2.2.2.1)
  | letIn hbs hbody =>
    simp only [List.forall_mem_cons, List.forall_mem_append] at hread
    have hbindings := (forms_binding h).listed _ hbs hread.2.2.1
    exact .letIn (fun b hb => (hbindings b hb).1) (fun b hb => (hbindings b hb).2)
      (h hbody hread.2.2.2.2.1)
  | true => exact .bool _
  | false => exact .bool _
  | apply hf hargs =>
    simp only [List.forall_mem_cons, List.forall_mem_append] at hread
    exact .apply (h hf hread.2.1) (h.listed _ hargs hread.2.2.2.1)
  | var x => exact .var (hread (.name x) (by simp)).proper
  | paren he =>
    simp only [List.forall_mem_cons, List.forall_mem_append] at hread
    exact h he hread.2.1

theorem forms_command (h : Forms expression Exp.WellFormed)
    (h' : Forms statement Stmt.WellFormed) :
    Forms (Command expression statement) Stmt.WellFormed := by
  intro ts s hts hread
  cases hts with
  | quit => exact .quit
  | print he =>
    simp only [List.forall_mem_cons, List.forall_mem_append] at hread
    exact .print (h he hread.2.1)
  | ite hc ht he =>
    simp only [List.forall_mem_cons, List.forall_mem_append] at hread
    exact .ite (h hc hread.2.1) (h' ht hread.2.2.2.1) (h' he hread.2.2.2.2.2.1)
  | procedure hps hbody =>
    simp only [List.forall_mem_cons, List.forall_mem_append] at hread
    exact .procedure hread.2.1.proper (forms_name.listed _ hps hread.2.2.2.1)
      (h' hbody hread.2.2.2.2.2.1)
  | call hargs =>
    simp only [List.forall_mem_cons, List.forall_mem_append] at hread
    exact .call hread.2.1.proper (h.listed _ hargs hread.2.2.2.1)
  | seq hfirst hothers =>
    simp only [List.forall_mem_cons, List.forall_mem_append] at hread
    exact .seq (List.cons_ne_nil _ _)
      (List.forall_mem_cons.mpr ⟨h' hfirst hread.2.1, h'.many hothers hread.2.2.1⟩)
  | set he =>
    simp only [List.forall_mem_cons, List.forall_mem_append] at hread
    exact .set hread.1.proper (h he hread.2.2.1)

end Phrase

namespace Grammar

open Phrase

theorem sound_expression_wellFormed (nesting : Nat) :
    Sound (Grammar.expression nesting) (Ensuring Exp.WellFormed) := by
  -- the induction is on the limit, since soundness holds for any phrases inside one level
  induction nesting with
  | zero =>
    intro c e c' hp
    cases hp
  | succ nesting ih =>
    have hatom : Forms (Atom (Ensuring Exp.WellFormed)) Exp.WellFormed :=
      forms_atom fun _ _ h hread => h hread
    have hchain := ((((hatom.chain 1).chain 2).chain 3).chain 4).chain 5
    exact (sound_operations ih).named.mono fun ts e h hread => hchain h hread

theorem sound_statement_wellFormed (nesting : Nat) :
    Sound (Grammar.statement nesting) (Ensuring Stmt.WellFormed) := by
  induction nesting with
  | zero =>
    intro c s c' hp
    cases hp
  | succ nesting ih =>
    have hcommand : Forms (Command (Ensuring Exp.WellFormed) (Ensuring Stmt.WellFormed))
        Stmt.WellFormed :=
      forms_command (fun _ _ h hread => h hread) fun _ _ h hread => h hread
    have hs := sound_statements (sound_expression_wellFormed nesting) ih (closes_statement nesting)
    exact hs.named.mono fun ts s h hread => hcommand h hread

end Grammar

/-- The lexemes of an accepted text are readable. -/
theorem Parser.Sound.ensures {α : Type} {P : α → Prop} {p : Parser α}
    (h : Sound p (Phrase.Ensuring P)) {text filename : String} {a : α}
    (hp : p.parseAll text filename = .ok a) : P a := by
  obtain ⟨ts, hts, hspells, hshort⟩ := h.of_parseAll hp
  refine hts fun t ht => ⟨hspells.proper ht, ?_⟩
  rintro ds rfl
  exact hshort ds ht

theorem wellFormed_of_parseExpression {nesting : Nat} {text filename : String} {e : Exp}
    (h : parseExpression nesting text filename = .ok e) : e.WellFormed :=
  (Grammar.sound_expression_wellFormed nesting).ensures h

theorem wellFormed_of_parseStatement {nesting : Nat} {text filename : String} {s : Stmt}
    (h : parseStatement nesting text filename = .ok s) : s.WellFormed :=
  (Grammar.sound_statement_wellFormed nesting).ensures h

/-- Everything the parser returns is well-formed. -/
theorem parse_wellFormed (nesting : Nat) (text filename : String) :
    (∀ e, parseExpression nesting text filename = .ok e → e.WellFormed) ∧
    (∀ s, parseStatement nesting text filename = .ok s → s.WellFormed) :=
  ⟨fun _ => wellFormed_of_parseExpression, fun _ => wellFormed_of_parseStatement⟩

theorem parse_wellFormed_iffy :
    parseStatement 9 "procedure iffy(trues) print fn [] trues - 007 end; endproc" standardInput =
      .ok (.procedure "iffy" ["trues"]
        (.print (.fn [] (.binary .sub (.var "trues") (.int 7))))) ∧
    (Stmt.procedure "iffy" ["trues"]
      (.print (.fn [] (.binary .sub (.var "trues") (.int 7))))).WellFormed :=
  ⟨rfl, (parse_wellFormed 9 "procedure iffy(trues) print fn [] trues - 007 end; endproc"
    standardInput).2 _ rfl⟩

end ImpLang
