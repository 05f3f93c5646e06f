import ImpLang.Proofs.Grouping
import ImpLang.Proofs.RoundTrip

namespace ImpLang

open Token ImpLang.Parser

/-- The operands without parts: integer literals, truth values and variables. -/
inductive Operand where
  | number (digits : List Char)
  | truth (b : Bool)
  | name (x : String)

namespace Operand

def text : Operand → String
  | number ds => String.ofList ds
  | truth b => if b then "true" else "false"
  | name x => x

def exp : Operand → Exp
  | number ds => .int (Text.ofDigits ds)
  | truth b => .bool b
  | name x => .var x

/-- A number is a run of digits that is not too long, and a name is no reserved word. -/
def Proper : Operand → Prop
  | number ds => (ds ≠ [] ∧ ds.all Text.isAsciiDigit = true) ∧ ds.length ≤ Text.maxDigits
  | truth _ => True
  | name x => IsName x

instance : (a : Operand) → Decidable a.Proper
  | number _ => inferInstanceAs (Decidable (_ ∧ _))
  | truth _ => inferInstanceAs (Decidable True)
  | name x => inferInstanceAs (Decidable (IsName x))

def lexeme : Operand → Lexeme
  | number ds => .number ds
  | truth b => .keyword (if b then "true" else "false")
  | name x => .name x

theorem isOperand_exp (a : Operand) : a.exp.IsOperand := by
  intro op l r h
  cases a <;> cases h

theorem Proper.written {a : Operand} (h : a.Proper) : Written [a.lexeme] a.text.toList := by
  cases a with
  | number ds =>
    obtain ⟨⟨hne, hdigits⟩, hlen⟩ := h
    have hproper : (Lexeme.number ds).Proper := ⟨hne, List.all_eq_true.mp hdigits⟩
    rw [show (number ds).text.toList = ds from String.toList_ofList]
    refine Written.lexeme (t := .number ds) hproper fun ds' hds' => ?_
    cases hds'
    exact hlen
  | truth b => cases b <;> exact .keyword (by decide)
  | name x => exact .name h

end Operand

/-- A sequence of operands with operators between them. -/
structure Flat where
  first : Operand
  others : List (Op × Operand)

namespace Flat

def Proper (s : Flat) : Prop :=
  s.first.Proper ∧ ∀ p ∈ s.others, p.2.Proper

/-- The sequence, written with single spaces. -/
def text (s : Flat) : String :=
  " ".intercalate (s.first.text :: s.others.flatMap fun p => [p.1.symbol, p.2.text])

def items (s : Flat) : List (Exp ⊕ Op) :=
  .inl s.first.exp :: s.others.flatMap fun p => [.inr p.1, .inl p.2.exp]

def lexemes (s : Flat) : List Lexeme :=
  s.first.lexeme :: s.others.flatMap fun p => [p.1.lexeme, p.2.lexeme]

end Flat

namespace Phrase

/-- The operands in which no expression stands. -/
def Bare : Phrase Exp :=
  Atom fun _ _ => False

theorem bare_operand (a : Operand) : Bare [a.lexeme] a.exp := by
  cases a with
  | number ds => exact .int ds
  | truth b =>
    cases b with
    | true => exact .true
    | false => exact .false
  | name x => exact .var x

theorem isOperand_of_bare {ts : List Lexeme} {e : Exp} (h : Bare ts e) : e.IsOperand := by
  intro op l r heq
  cases h with
  | paren he => exact he
  | _ => cases heq

theorem inorder_joined (e : Exp) (others : List (Op × Exp)) :
    (joined e others).inorder = e.inorder ++ others.flatMap fun p => .inr p.1 :: p.2.inorder := by
  induction others generalizing e with
  | nil => exact (List.append_nil _).symm
  | cons p others ih =>
    change (joined (.binary p.1 e p.2) others).inorder = _
    rw [ih, Exp.inorder, List.append_assoc]
    rfl

/-- An operation on the left of a derivation joins the level that its operator belongs to. -/
theorem chains_prepend (a : Operand) {op : Op} {level : Nat} (hop : op.level ≤ level)
    {ts : List Lexeme} {e : Exp} (h : chains Bare level ts e) :
    ∃ e', chains Bare level (a.lexeme :: op.lexeme :: ts) e' ∧
      e'.inorder = .inl a.exp :: .inr op :: e.inorder := by
  induction level generalizing ts e with
  | zero => exact absurd hop (by cases op <;> decide)
  | succ level ih =>
    obtain ⟨first, rest⟩ := h
    rename_i us vs e others
    rcases Nat.lt_or_eq_of_le hop with hlt | heq
    -- a tighter operator belongs to the first operand of the level
    · obtain ⟨e', hfirst', hinorder⟩ := ih (Nat.le_of_lt_succ hlt) first
      have hchain : chains Bare (level + 1) (a.lexeme :: op.lexeme :: us ++ vs)
          (joined e' others) := .intro hfirst' rest
      refine ⟨_, hchain, ?_⟩
      rw [inorder_joined, inorder_joined, hinorder]
      rfl
    -- an operator of the level makes that operand the right one of its operation
    · have hmany : Many (Operation (level + 1) (chains Bare level)) (op.lexeme :: us ++ vs)
          ((op, e) :: others) := .cons (.intro heq first) rest
      have hchain : chains Bare (level + 1) ([a.lexeme] ++ (op.lexeme :: us ++ vs))
          (joined a.exp ((op, e) :: others)) :=
        .intro (chains_of_operand (bare_operand a) level) hmany
      refine ⟨_, hchain, ?_⟩
      rw [inorder_joined, inorder_joined, a.isOperand_exp.inorder_eq]
      rfl

theorem exists_chains (first : Operand) (others : List (Op × Operand)) :
    ∃ e, chains Bare 5 (Flat.mk first others).lexemes e ∧
      e.inorder = (Flat.mk first others).items := by
  induction others generalizing first with
  | nil =>
    exact ⟨first.exp, chains_of_operand (bare_operand first) 5, first.isOperand_exp.inorder_eq⟩
  | cons p others ih =>
    obtain ⟨e, hchains, hinorder⟩ := ih p.2
    have hop : p.1.level ≤ 5 := by cases p.1 <;> decide
    obtain ⟨e', hchains', hinorder'⟩ := chains_prepend first hop hchains
    refine ⟨e', hchains', ?_⟩
    rw [hinorder', hinorder]
    rfl

/-- What a level derives is grouped as the level asks for. -/
theorem grouped_of_chains {level : Nat} {ts : List Lexeme} {e : Exp}
    (h : chains Bare level ts e) : e.Grouped ∧ e.level ≤ level := by
  induction level generalizing ts e with
  | zero =>
    have hoperand := isOperand_of_bare h
    exact ⟨hoperand.grouped, hoperand.level_eq.le⟩
  | succ level ih =>
    obtain ⟨first, rest⟩ := h
    rename_i us vs e others
    obtain ⟨hgrouped, hlevel⟩ := ih first
    have hleft : e.level ≤ level + 1 := hlevel.trans (Nat.le_succ level)
    -- each further operation of the level has on its left what was joined so far
    clear first hlevel
    induction rest generalizing e with
    | nil => exact ⟨hgrouped, hleft⟩
    | cons operation _ ihrest =>
      obtain ⟨hop, right⟩ := operation
      rename_i op _ r
      obtain ⟨hright, hrlevel⟩ := ih right
      have hjoined : (Exp.binary op e r).Grouped :=
        ⟨hop ▸ hleft, hop ▸ Nat.lt_succ_of_le hrlevel, hgrouped, hright⟩
      exact ihrest hjoined hop.le

end Phrase

namespace Parser

open Phrase

variable {α : Type} {p : Parser α} {phrase : Phrase α} {follow : List Lexeme → Prop}

/-- Every phrase is read to its end, whatever nesting is allowed. -/
structure Exact (p : Parser α) (phrase : Phrase α) (follow : List Lexeme → Prop) : Prop where
  complete : Complete p phrase follow
  shallow : ∀ ⦃ts a us c⦄, phrase ts a → follow us → c.At (ts ++ us) → p c ≠ .error .tooDeep

theorem Exact.reads (h : Exact p phrase follow) {ts us : List Lexeme} {a : α} {c : Cursor}
    (hts : phrase ts a) (hus : follow us) (hc : c.At (ts ++ us)) :
    ∃ c', p c = .ok (a, c') ∧ c'.At us :=
  (h.complete hts hus hc).resolve_left (h.shallow hts hus hc)

theorem Exact.of_reads (h : ∀ ts a us (c : Cursor), phrase ts a → follow us → c.At (ts ++ us) →
    ∃ c', p c = .ok (a, c') ∧ c'.At us) : Exact p phrase follow := by
  constructor
  · exact fun ts a us c hts hus hc => .of_ok (h ts a us c hts hus hc)
  · intro ts a us c hts hus hc hdeep
    obtain ⟨c', hok, -⟩ := h ts a us c hts hus hc
    rw [hok] at hdeep
    cases hdeep

/-- A repetition that reads each of its phrases, and stops behind them, is not stopped before. -/
theorem Exact.manyUpTo_ne_tooDeep {γ : Type} (h : Exact p phrase follow)
    (hnext : ∀ ts a us, phrase ts a → follow (ts ++ us)) {us : List Lexeme} (hus : follow us)
    (hstop : ∀ c, c.At us → p.Soft c) {ts : List Lexeme} {as : List α}
    (hts : Many phrase ts as) (tally : List γ) {c : Cursor} (hc : c.At (ts ++ us)) :
    manyUpTo tally p c ≠ .error .tooDeep := by
  intro hdeep
  induction hts generalizing tally c with
  | nil =>
    cases tally with
    | nil => cases hdeep
    | cons g tally =>
      rw [manyUpTo_cons_of_soft (hstop c hc)] at hdeep
      cases hdeep
  | @cons ts us' a as first others ih =>
    cases tally with
    | nil => cases hdeep
    | cons g tally =>
      have hfollow : follow (us' ++ us) := by
        cases others with
        | nil => exact hus
        | cons first' others' =>
          rw [List.append_assoc]
          exact hnext _ _ _ first'
      rw [List.append_assoc] at hc
      obtain ⟨d, hok, hd⟩ := h.reads first hfollow hc
      -- the first phrase is read, so the limit was hit behind it
      apply ih tally hd
      simp only [Parser.manyUpTo, hok] at hdeep
      split at hdeep
      · cases hdeep
      · rename_i hothers
        cases hdeep
        exact hothers

theorem Exact.level {operand : Parser Exp} {operator : Parser Op} {phrase : Phrase Exp}
    {level : Nat} (h : Exact operand phrase (Stops level)) (hlead : Leads phrase)
    (hop : CompleteOperator operator (level + 1))
    (hstop : ∀ us c, Stops (level + 1) us → c.At us →
      (do let op ← operator; let right ← operand; return (op, right)).Soft c) :
    Exact (Grammar.level operand operator (.ofLevel (level + 1))) (Chain (level + 1) phrase)
      (Stops (level + 1)) := by
  have hpair : Exact (do let op ← operator; let right ← operand; return (op, right))
      (Operation (level + 1) phrase) (Stops level) := by
    apply Exact.of_reads
    rintro ts ⟨op, e⟩ us c ⟨hlevel, right⟩ hus hc
    obtain ⟨d, hokop, hd⟩ := hop hlevel hc (hlead.append right us)
    obtain ⟨d', hok, hd'⟩ := h.reads right hus hd
    exact ⟨d', by rw [bind_of_ok hokop, bind_of_ok hok]; rfl, hd'⟩
  have hnext : ∀ ts (a : Op × Exp) us, Operation (level + 1) phrase ts a →
      Stops level (ts ++ us) := by
    rintro ts a us ⟨hlevel, -⟩
    exact stops_lexeme (by omega) _
  refine ⟨h.complete.level hlead hop hstop, ?_⟩
  rintro ts e us c ⟨first, rest⟩ hus hc hdeep
  rename_i ts us' e others
  have hus' : Stops level us := hus.mono (by omega)
  have hfollow : Stops level (us' ++ us) := by
    cases rest with
    | nil => exact hus'
    | cons first' others' =>
      rw [List.append_assoc]
      exact hnext _ _ _ first'
  rw [List.append_assoc] at hc
  obtain ⟨d, hok, hd⟩ := h.reads first hfollow hc
  change (operand >>= _) c = _ at hdeep
  rw [bind_of_ok hok] at hdeep
  rcases bind_eq_tooDeep hdeep with hmany | ⟨_, _, -, hpure⟩
  · exact hpair.manyUpTo_ne_tooDeep hnext hus' (fun c hc => hstop us c hus hc) rest _ hd hmany
  · cases hpure

theorem Exact.named (h : Exact p phrase follow) (message : String) :
    Exact (named message p) phrase follow := by
  apply Exact.of_reads
  intro ts a us c hts hus hc
  obtain ⟨c', hok, hc'⟩ := h.reads hts hus hc
  exact ⟨c', named_of_ok hok, hc'⟩

theorem Exact.parseAll (h : Exact p phrase follow) (hend : follow []) {ts : List Lexeme} {a : α}
    {text : String} (hts : phrase ts a) (hw : Written ts text.toList) (filename : String) :
    p.parseAll text filename = .ok a := by
  have hspells : Spells none ts text.toList := by
    have hall : Spells none (ts ++ []) (text.toList ++ []) := hw.spells rfl rfl (by simp [Spells])
    rwa [List.append_nil, List.append_nil] at hall
  refine h.complete.parseAll hend hts hspells hw.short fun hdeep => ?_
  refine h.shallow hts hend ?_ (parseAll_eq_nestedTooDeeply_iff.mp hdeep)
  rw [List.append_nil]
  exact ⟨spells_expandTabsFrom_iff.mpr hspells, hw.short⟩

end Parser

namespace Grammar

open Phrase

variable {expression : Parser Exp} {c : Cursor}

/-- In an operand without parts, no alternative gets as far as an expression inside it. -/
theorem atom_ne_tooDeep {ts us : List Lexeme} {e : Exp} (hts : Bare ts e)
    (hc : c.At (ts ++ us)) : atom expression c ≠ .error .tooDeep := by
  -- the first lexeme is a word or a number, and no keyword with an expression behind it
  have hhead : ∃ t, (ts ++ us).head? = some t ∧ (t.isWord = true ∨ t.isNumber = true) ∧
      ∀ w ∈ ["fn", "if", "let", "apply"], t ≠ .keyword w := by
    cases hts with
    | int ds => exact ⟨_, rfl, .inr rfl, by simp⟩
    | true => exact ⟨_, rfl, .inl rfl, by decide⟩
    | false => exact ⟨_, rfl, .inl rfl, by decide⟩
    | var x => exact ⟨_, rfl, .inl rfl, by simp⟩
    | fn _ hbody => exact hbody.elim
    | ite _ ht _ => exact ht.elim
    | letIn _ hbody => exact hbody.elim
    | apply hf _ => exact hf.elim
    | paren he => exact he.elim
  obtain ⟨t, ht, hkind, hkeyword⟩ := hhead
  have hform {w : String} (hw : w ∈ ["fn", "if", "let", "apply"]) (rest : Unit → Parser Exp) :
      (keyword w >>= rest) c ≠ .error .tooDeep := by
    have hreserved : ∀ w ∈ ["fn", "if", "let", "apply"], w ∈ reservedWords := by decide
    apply Soft.ne_tooDeep
    refine (hc.keyword_soft (hreserved w hw) ?_).bind
    rw [ht]
    exact fun heq => hkeyword w hw (Option.some.inj heq)
  have hparen : (literal "(").Soft c := by
    apply literal_soft
    rintro ⟨rest, hrest⟩
    have hletter := hc.head_skip_isAlpha
    have hdigit := hc.head_skip_isAsciiDigit
    rw [← hrest, ht] at hletter hdigit
    rcases hkind with hword | hnumber
    · exact Bool.noConfusion (hletter.trans hword)
    · exact Bool.noConfusion (hdigit.trans hnumber)
  have hbool : Consumes boolLiteral :=
    .either ((consumes_keyword (by decide)).bind_pure fun _ => Exp.bool true)
      ((consumes_keyword (by decide)).bind_pure fun _ => Exp.bool false)
  intro hdeep
  obtain ⟨q, hq, hdeep⟩ := firstOf_eq_tooDeep hdeep
  simp only [List.mem_cons, List.not_mem_nil, or_false] at hq
  -- each alternative holds no expression, or it fails before it gets to one
  rcases hq with rfl | rfl | rfl | rfl | rfl | rfl | rfl | rfl
  · exact Encloses.ne_tooDeep (fun m => encloses_intLiteral) c hdeep
  · exact hform (by decide) _ hdeep
  · exact hform (by decide) _ hdeep
  · exact hform (by decide) _ hdeep
  · exact hbool.deep c hdeep
  · exact hform (by decide) _ hdeep
  · exact (consumes_identifier.bind_pure Exp.var).deep c hdeep
  · exact hparen.bind.ne_tooDeep hdeep

theorem exact_atom (hb : ∀ c : Cursor, c.Blocked → expression.Balks c) :
    Exact (atom expression) Bare (Stops 0) := by
  have hnone : Complete expression (fun _ _ => False) (Stops 5) := fun _ _ _ _ h => h.elim
  exact ⟨complete_atom hnone hb, fun _ _ _ _ hts _ hc => atom_ne_tooDeep hts hc⟩

/-- One level of nesting is enough to read operands without parts. -/
theorem exact_expression (nesting : Nat) :
    Exact (Grammar.expression (nesting + 1)) (chains Bare 5) (Stops 5) := by
  have hb (c : Cursor) (hc : c.Blocked) := expression_balks nesting hc
  have lead₁ : Leads (Chain 1 Bare) := leads_atom.chain 1
  have lead₂ := lead₁.chain 2
  have lead₃ := lead₂.chain 3
  have lead₄ := lead₃.chain 4
  have h₁ := (exact_atom hb).level leads_atom completeOperator_productOp
    fun us c hus hc => product_soft hus hc
  have h₂ := h₁.level lead₁ completeOperator_sumOp fun us c hus hc => (sumOp_soft hus hc).bind
  have h₃ := h₂.level lead₂ completeOperator_comparisonOp
    fun us c hus hc => (comparisonOp_soft hus hc).bind
  have h₄ := h₃.level lead₃ (completeOperator_wordOp .and rfl)
    fun us c hus hc => (wordOp_soft .and rfl hus hc).bind
  have h₅ := h₄.level lead₄ (completeOperator_wordOp .or rfl)
    fun us c hus hc => (wordOp_soft .or rfl hus hc).bind
  exact h₅.named _

end Grammar

theorem Flat.written (first : Operand) (others : List (Op × Operand)) (hfirst : first.Proper)
    (hothers : ∀ p ∈ others, p.2.Proper) :
    Written (Flat.mk first others).lexemes (Flat.mk first others).text.toList := by
  induction others generalizing first with
  | nil =>
    change Written [first.lexeme] (" ".intercalate [first.text]).toList
    rw [String.intercalate_singleton]
    exact hfirst.written
  | cons p others ih =>
    obtain ⟨hp, hothers⟩ := List.forall_mem_cons.mp hothers
    have hrest := p.1.written_lexeme.spaced (ih p.2 hp hothers)
    have hall := hfirst.written.spaced hrest
    simpa [Flat.text, Flat.lexemes, String.intercalate_cons_cons] using hall

/-- A flat sequence of operands is parsed as the one tree that reads like it from left to right and
in which tighter operators stand below looser ones, and equal ones group to the left. -/
theorem parseExpression_flat (nesting : Nat) (filename : String) (s : Flat) (hproper : s.Proper) :
    ∃ e, parseExpression (nesting + 1) s.text filename = .ok e ∧ e.inorder = s.items ∧ e.Grouped ∧
      ∀ e' : Exp, e'.inorder = s.items → e'.Grouped → e' = e := by
  obtain ⟨e, hchains, hinorder⟩ := Phrase.exists_chains s.first s.others
  have hgrouped := (Phrase.grouped_of_chains hchains).1
  have hwritten := Flat.written s.first s.others hproper.1 hproper.2
  refine ⟨e, ?_, hinorder, hgrouped, fun e' hinorder' hgrouped' => ?_⟩
  · exact (Grammar.exact_expression nesting).parseAll (stops_nil 5) hchains hwritten filename
  · exact hgrouped'.eq_of_inorder hgrouped (hinorder'.trans hinorder.symm)

theorem parseExpression_flat_mixed :
    (Flat.mk (.name "a") [(.div, .number ['0', '8']), (.ne, .number ['2']), (.sub, .name "x"),
      (.sub, .name "y"), (.and, .truth true), (.or, .name "b"), (.lt, .name "c")]).Proper ∧
    parseExpression 1 "a / 08 /= 2 - x - y and true or b < c" standardInput =
      .ok (.binary .or (.binary .and (.binary .ne (.binary .div (.var "a") (.int 8))
          (.binary .sub (.binary .sub (.int 2) (.var "x")) (.var "y"))) (.bool true))
        (.binary .lt (.var "b") (.var "c"))) := by
  have hproper : (Flat.mk (.name "a") [(.div, .number ['0', '8']), (.ne, .number ['2']),
      (.sub, .name "x"), (.sub, .name "y"), (.and, .truth true), (.or, .name "b"),
      (.lt, .name "c")]).Proper := by
    constructor
    · decide
    · decide
  obtain ⟨e, hparse, -, -, hunique⟩ := parseExpression_flat 0 standardInput _ hproper
  have htree := hunique (.binary .or (.binary .and (.binary .ne (.binary .div (.var "a") (.int 8))
      (.binary .sub (.binary .sub (.int 2) (.var "x")) (.var "y"))) (.bool true))
    (.binary .lt (.var "b") (.var "c"))) rfl (by simp [Exp.Grouped, Exp.level, Op.level])
  rw [htree]
  exact ⟨hproper, hparse⟩

end ImpLang
