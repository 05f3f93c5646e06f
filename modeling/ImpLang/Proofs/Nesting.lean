import ImpLang.Parse.Grammar
import ImpLang.Proofs.Reading

/-! The nesting limit. A phrase inside another stands behind at least one character of it, so a text
that is shorter than the limit is never nested too deeply. -/
namespace ImpLang

open Token

namespace Parser

variable {α β : Type} {m : Nat}

/-- The parser never goes back, and it finds the nesting too deep only where so many characters are
left. -/
structure Within (m : Nat) (p : Parser α) : Prop where
  shrinks : ∀ ⦃c a c'⦄, p c = .ok (a, c') → c'.rest.length ≤ c.rest.length
  deep : ∀ ⦃c⦄, p c = .error .tooDeep → m ≤ c.rest.length

structure Consumes (p : Parser α) : Prop where
  shrinks : ∀ ⦃c a c'⦄, p c = .ok (a, c') → c'.rest.length < c.rest.length
  deep : ∀ c, p c ≠ .error .tooDeep

theorem Consumes.within {p : Parser α} (h : Consumes p) : Within m p :=
  ⟨fun _ _ _ hp => (h.shrinks hp).le, fun c hp => absurd hp (h.deep c)⟩

def Progresses (p : Parser α) : Prop :=
  ∀ ⦃c a c'⦄, p c = .ok (a, c') → c'.rest.length < c.rest.length

/-- The parser reads at least one character, and it finds the nesting too deep only where more than
so many characters are left. -/
structure Encloses (m : Nat) (p : Parser α) : Prop where
  progresses : Progresses p
  deep : ∀ ⦃c⦄, p c = .error .tooDeep → m < c.rest.length

theorem Encloses.within {p : Parser α} (h : Encloses m p) : Within (m + 1) p :=
  ⟨fun _ _ _ hp => (h.progresses hp).le, fun _ hp => h.deep hp⟩

theorem Consumes.encloses {p : Parser α} (h : Consumes p) : Encloses m p :=
  ⟨h.shrinks, fun c hp => absurd hp (h.deep c)⟩

/-- There are never more characters left than there are, so what holds of all limits rules them
out. -/
theorem Encloses.ne_tooDeep {p : Parser α} (h : ∀ m, Encloses m p) (c : Cursor) :
    p c ≠ .error .tooDeep :=
  fun hdeep => lt_irrefl _ ((h c.rest.length).deep hdeep)

theorem Soft.ne_tooDeep {p : Parser α} {c : Cursor} (h : p.Soft c) : p c ≠ .error .tooDeep := by
  obtain ⟨offset, message, hp⟩ := h
  rw [hp]
  simp

theorem within_pure (a : α) : Within m (pure a : Parser α) := by
  constructor
  · intro c b c' hp
    cases hp
    exact le_rfl
  · intro c hp
    cases hp

theorem bind_eq_tooDeep {p : Parser α} {f : α → Parser β} {c : Cursor}
    (h : (p >>= f) c = .error .tooDeep) :
    p c = .error .tooDeep ∨ ∃ a c', p c = .ok (a, c') ∧ f a c' = .error .tooDeep := by
  cases hp : p c with
  | error e =>
    rw [bind_of_error hp] at h
    cases h
    exact .inl rfl
  | ok r =>
    obtain ⟨a, c'⟩ := r
    rw [bind_of_ok hp] at h
    exact .inr ⟨a, c', rfl, h⟩

theorem Within.bind {p : Parser α} {f : α → Parser β} (hp : Within m p)
    (hf : ∀ a, Within m (f a)) : Within m (p >>= f) := by
  constructor
  · intro c b c' h
    obtain ⟨a, d, hpc, hfd⟩ := bind_eq_ok_iff.mp h
    exact ((hf a).shrinks hfd).trans (hp.shrinks hpc)
  · intro c h
    rcases bind_eq_tooDeep h with hpc | ⟨a, d, hpc, hfd⟩
    · exact hp.deep hpc
    · exact ((hf a).deep hfd).trans (hp.shrinks hpc)

/-- Behind a token there is one character less, and one level of nesting less is needed. -/
theorem Consumes.bind {p : Parser α} {f : α → Parser β} (hp : Consumes p)
    (hf : ∀ a, Within m (f a)) : Encloses m (p >>= f) := by
  constructor
  · intro c b c' h
    obtain ⟨a, d, hpc, hfd⟩ := bind_eq_ok_iff.mp h
    exact ((hf a).shrinks hfd).trans_lt (hp.shrinks hpc)
  · intro c h
    rcases bind_eq_tooDeep h with hpc | ⟨a, d, hpc, hfd⟩
    · exact absurd hpc (hp.deep c)
    -- the rest reached its limit one character further on
    · have hm := (hf a).deep hfd
      have hd := hp.shrinks hpc
      omega

theorem Consumes.bind_pure {p : Parser α} (hp : Consumes p) (f : α → β) :
    Consumes (p >>= fun a => (pure (f a) : Parser β)) := by
  constructor
  · intro c b c' h
    obtain ⟨a, d, hpc, hfd⟩ := bind_eq_ok_iff.mp h
    cases hfd
    exact hp.shrinks hpc
  · intro c h
    rcases bind_eq_tooDeep h with hpc | ⟨a, d, -, hfd⟩
    · exact hp.deep c hpc
    · cases hfd

theorem Within.commit {p : Parser α} (h : Within m p) : Within m (commit p) := by
  constructor
  · exact fun c a c' hp => h.shrinks (commit_eq_ok_iff.mp hp)
  · intro c hp
    unfold Parser.commit at hp
    split at hp
    · cases hp
    · exact h.deep hp

theorem Within.named {p : Parser α} {message : String} (h : Within m p) :
    Within m (named message p) := by
  constructor
  · exact fun c a c' hp => h.shrinks (named_eq_ok_iff.mp hp)
  · intro c hp
    unfold Parser.named at hp
    split at hp
    · cases hp
    · exact h.deep hp

theorem either_eq_tooDeep {p q : Parser α} {c : Cursor} (h : either p q c = .error .tooDeep) :
    p c = .error .tooDeep ∨ q c = .error .tooDeep := by
  unfold either at h
  split at h
  · split at h
    · split_ifs at h <;> cases h
    · exact .inr h
  · exact .inl h

theorem firstOf_eq_tooDeep {p : Parser α} {rest : List (Parser α)} {c : Cursor}
    (h : firstOf p rest c = .error .tooDeep) : ∃ q ∈ p :: rest, q c = .error .tooDeep := by
  induction rest generalizing p with
  | nil => exact ⟨p, by simp, h⟩
  | cons q rest ih =>
    rcases either_eq_tooDeep h with hp | hq
    · exact ⟨p, by simp, hp⟩
    · obtain ⟨q', hmem, hq'⟩ := ih hq
      exact ⟨q', List.mem_cons_of_mem _ hmem, hq'⟩

theorem Encloses.either {p q : Parser α} (hp : Encloses m p) (hq : Encloses m q) :
    Encloses m (either p q) := by
  constructor
  · intro c a c' h
    rcases either_eq_ok h with h | ⟨-, h⟩
    · exact hp.progresses h
    · exact hq.progresses h
  · intro c h
    rcases either_eq_tooDeep h with h | h
    · exact hp.deep h
    · exact hq.deep h

theorem Consumes.either {p q : Parser α} (hp : Consumes p) (hq : Consumes q) :
    Consumes (either p q) := by
  have h (m : Nat) : Encloses m (Parser.either p q) := hp.encloses.either hq.encloses
  exact ⟨(h 0).progresses, Encloses.ne_tooDeep h⟩

theorem Encloses.firstOf {p : Parser α} {rest : List (Parser α)}
    (h : ∀ q ∈ p :: rest, Encloses m q) : Encloses m (firstOf p rest) := by
  induction rest generalizing p with
  | nil => exact h p (by simp)
  | cons q rest ih =>
    exact (h p (by simp)).either (ih fun q' hq' => h q' (List.mem_cons_of_mem _ hq'))

theorem Within.manyUpTo {γ : Type} {p : Parser α} (h : Within m p) (tally : List γ) :
    Within m (manyUpTo tally p) := by
  induction tally with
  | nil => exact within_pure []
  | cons g tally ih =>
    constructor
    · intro c as c' hp
      rcases manyUpTo_cons_eq_ok hp with ⟨-, rfl⟩ | ⟨a, as', d, -, hpc, hd⟩
      · exact le_rfl
      · exact (ih.shrinks hd).trans (h.shrinks hpc)
    · intro c hp
      unfold Parser.manyUpTo at hp
      split at hp
      · rename_i a d hpc
        split at hp
        · cases hp
        · rename_i e hd
          cases hp
          exact (ih.deep hd).trans (h.shrinks hpc)
      · cases hp
      · rename_i e _ hpc
        cases hp
        exact h.deep hpc

theorem Within.many {p : Parser α} (h : Within m p) : Within m (many p) :=
  ⟨fun _ _ _ hp => (h.manyUpTo _).shrinks hp, fun _ hp => (h.manyUpTo _).deep hp⟩

theorem Within.listOf {delimiter : Parser Unit} {item : Parser α} (hd : Within m delimiter)
    (hi : Within m item) : Within m (listOf delimiter item) := by
  have hitems : Within m (do let first ← item; let others ← Parser.many (do delimiter; item)
                             return first :: others) :=
    hi.bind fun _ => (hd.bind fun _ => hi).many.bind fun _ => within_pure _
  constructor
  · intro c as c' hp
    rcases orDefault_eq_ok hp with hp | hp
    · exact hitems.shrinks hp
    · cases hp
      exact le_rfl
  · intro c hp
    unfold Parser.listOf orDefault at hp
    split at hp
    · cases hp
    · exact hitems.deep hp

theorem Within.level {operand : Parser Exp} {operator : Parser Op} (h : Within m operand)
    (hop : Consumes operator) (table : OpKind) :
    Within m (Grammar.level operand operator table) :=
  h.bind fun _ =>
    (hop.within.bind fun _ => h.bind fun _ => within_pure _).many.bind fun _ => within_pure _

end Parser

open ImpLang.Parser

namespace Cursor

/-- What a token reads behind white space brings the end of the text nearer. -/
theorem length_advance_skip_lt {c : Cursor} {w rest : List Char} (h : c.skip.rest = w ++ rest)
    (hw : w ≠ []) : (c.skip.advance w.length).rest.length < c.rest.length := by
  obtain ⟨blanks, hc, -⟩ := c.exists_blanks
  have hpos := List.length_pos_iff.mpr hw
  rw [hc, h]
  simp only [rest_advance, h, List.drop_left, List.length_append]
  omega

end Cursor

namespace Token

theorem consumes_literal {s : String} (hs : s.toList ≠ []) : Consumes (literal s) := by
  constructor
  · intro c a c' h
    obtain ⟨⟨rest, hr⟩, rfl⟩ := literal_eq_ok_iff.mp h
    rw [← String.length_toList]
    exact Cursor.length_advance_skip_lt hr hs
  · intro c h
    cases literal_eq_error h

theorem consumes_keyword {w : String} (hw : w.toList ≠ []) : Consumes (keyword w) := by
  constructor
  · intro c a c' h
    obtain ⟨⟨rest, hr, -⟩, rfl⟩ := keyword_eq_ok_iff.mp h
    rw [← String.length_toList]
    exact Cursor.length_advance_skip_lt hr hw
  · intro c h
    rcases keyword_eq_error h with h | h | ⟨-, h⟩ <;> cases h

theorem consumes_identifier : Consumes identifier := by
  constructor
  · intro c x c' h
    obtain ⟨⟨rest, hr, hx, -⟩, rfl⟩ := identifier_eq_ok_iff_letters.mp h
    rw [← String.length_toList]
    exact Cursor.length_advance_skip_lt hr hx
  · intro c h
    rcases identifier_eq_error h with h | h <;> cases h

theorem consumes_integer : Consumes integer := by
  constructor
  · intro c ds c' h
    obtain ⟨⟨hrun, hds⟩, rfl⟩ := integer_eq_ok_iff.mp h
    obtain ⟨rest, hr, -⟩ := takeWhile_eq_iff.mp hrun
    exact Cursor.length_advance_skip_lt hr hds
  · intro c h
    cases integer_eq_error h

theorem endOfText_ne_tooDeep (c : Cursor) : endOfText c ≠ .error .tooDeep := by
  intro h
  cases endOfText_eq_error h

theorem consumes_symbolOp (op : Op) : Consumes (symbolOp op) :=
  (consumes_literal (by cases op <;> decide)).bind_pure fun _ => op

theorem consumes_wordOp (op : Op) : Consumes (wordOp op) :=
  (consumes_keyword (by cases op <;> decide)).bind_pure fun _ => op

theorem consumes_comparisonOp : Consumes comparisonOp := by
  have hs : Consumes comparisonSymbol :=
    (consumes_symbolOp .le).either <| (consumes_symbolOp .ge).either <|
      (consumes_symbolOp .ne).either <| (consumes_symbolOp .eq).either <|
      (consumes_symbolOp .lt).either (consumes_symbolOp .gt)
  constructor
  · intro c op c' h
    unfold comparisonOp at h
    split at h
    · cases h
    · exact hs.shrinks h
  · intro c h
    unfold comparisonOp at h
    split at h
    · cases h
    · exact hs.deep c h

end Token

namespace Grammar

variable {n : Nat} {expression : Parser Exp} {statement : Parser Stmt}

theorem within_literal {m : Nat} {s : String} (hs : s.toList ≠ []) : Within m (literal s) :=
  (consumes_literal hs).within

theorem within_keyword {m : Nat} {w : String} (hw : w.toList ≠ []) : Within m (keyword w) :=
  (consumes_keyword hw).within

theorem within_parameters {m : Nat} : Within m parameters :=
  .listOf (within_literal (by decide)) consumes_identifier.within

theorem within_arguments (h : Within n expression) : Within n (arguments expression) :=
  .listOf (within_literal (by decide)) h

theorem within_binding (h : Within n expression) : Within n (binding expression) :=
  consumes_identifier.within.bind fun _ => (within_literal (by decide)).bind fun _ =>
    h.bind fun _ => within_pure _

theorem encloses_intLiteral {m : Nat} : Encloses m intLiteral := by
  refine consumes_integer.bind fun ds => ?_
  split_ifs
  · exact within_pure _
  · constructor
    · intro c a c' h
      cases h
    · intro c h
      cases h

/-- The phrases inside an operand stand behind its first token. -/
theorem encloses_atom (h : Within n expression) : Encloses n (atom expression) := by
  apply Encloses.firstOf
  simp only [List.forall_mem_cons, List.not_mem_nil, false_imp_iff, implies_true, and_true]
  refine ⟨encloses_intLiteral, ?_, ?_, ?_, ?_, ?_, ?_, ?_⟩
  · refine (consumes_keyword (by decide)).bind fun _ => .commit ?_
    exact (within_literal (by decide)).bind fun _ => within_parameters.bind fun _ =>
      (within_literal (by decide)).bind fun _ => h.bind fun _ =>
      (within_keyword (by decide)).bind fun _ => within_pure _
  · refine (consumes_keyword (by decide)).bind fun _ => .commit ?_
    exact h.bind fun _ => (within_keyword (by decide)).bind fun _ => h.bind fun _ =>
      (within_keyword (by decide)).bind fun _ => h.bind fun _ =>
      (within_keyword (by decide)).bind fun _ => within_pure _
  · refine (consumes_keyword (by decide)).bind fun _ => .commit ?_
    exact (within_literal (by decide)).bind fun _ =>
      (Within.listOf (within_literal (by decide)) (within_binding h)).bind fun _ =>
      (within_literal (by decide)).bind fun _ => h.bind fun _ =>
      (within_keyword (by decide)).bind fun _ => within_pure _
  · exact .either ((consumes_keyword (by decide)).bind fun _ => within_pure _)
      ((consumes_keyword (by decide)).bind fun _ => within_pure _)
  · refine (consumes_keyword (by decide)).bind fun _ => .commit ?_
    exact h.bind fun _ => (within_literal (by decide)).bind fun _ =>
      (within_arguments h).bind fun _ => (within_literal (by decide)).bind fun _ => within_pure _
  · exact consumes_identifier.bind fun _ => within_pure _
  · exact (consumes_literal (by decide)).bind fun _ => h.bind fun _ =>
      (within_literal (by decide)).bind fun _ => within_pure _

theorem within_expression (n : Nat) : Within n (Grammar.expression n) := by
  induction n with
  | zero =>
    constructor
    · intro c e c' h
      cases h
    · exact fun c _ => Nat.zero_le _
  | succ n ih =>
    have hproduct := (consumes_symbolOp .mul).either (consumes_symbolOp .div)
    have hsum := (consumes_symbolOp .add).either (consumes_symbolOp .sub)
    have h₁ := (encloses_atom ih).within.level hproduct .arith
    have h₃ := (h₁.level hsum .arith).level consumes_comparisonOp .compare
    exact ((h₃.level (consumes_wordOp .and) .logic).level (consumes_wordOp .or) .logic).named

/-- The phrases inside a statement stand behind its first token. -/
theorem encloses_statements (h : Within n expression) (h' : Within n statement) :
    Encloses n (statements expression statement) := by
  apply Encloses.firstOf
  simp only [List.forall_mem_cons, List.not_mem_nil, false_imp_iff, implies_true, and_true]
  refine ⟨?_, ?_, ?_, ?_, ?_, ?_, ?_⟩
  · refine (consumes_keyword (by decide)).bind fun _ => .commit ?_
    exact (within_literal (by decide)).bind fun _ => within_pure _
  · refine (consumes_keyword (by decide)).bind fun _ => .commit ?_
    exact h.bind fun _ => (within_literal (by decide)).bind fun _ => within_pure _
  · refine (consumes_keyword (by decide)).bind fun _ => .commit ?_
    exact h.bind fun _ => (within_keyword (by decide)).bind fun _ => h'.bind fun _ =>
      (within_keyword (by decide)).bind fun _ => h'.bind fun _ =>
      (within_keyword (by decide)).bind fun _ => within_pure _
  · refine (consumes_keyword (by decide)).bind fun _ => .commit ?_
    exact consumes_identifier.within.bind fun _ => (within_literal (by decide)).bind fun _ =>
      within_parameters.bind fun _ => (within_literal (by decide)).bind fun _ =>
      h'.bind fun _ => (within_keyword (by decide)).bind fun _ => within_pure _
  · refine (consumes_keyword (by decide)).bind fun _ => .commit ?_
    exact consumes_identifier.within.bind fun _ => (within_literal (by decide)).bind fun _ =>
      (within_arguments h).bind fun _ => (within_literal (by decide)).bind fun _ =>
      (within_literal (by decide)).bind fun _ => within_pure _
  · refine (consumes_keyword (by decide)).bind fun _ => .commit ?_
    exact h'.bind fun _ => h'.many.bind fun _ => (within_keyword (by decide)).bind fun _ =>
      (within_literal (by decide)).bind fun _ => within_pure _
  · exact consumes_identifier.bind fun _ => (within_literal (by decide)).bind fun _ =>
      h.bind fun _ => (within_literal (by decide)).bind fun _ => within_pure _

theorem within_statement (n : Nat) : Within n (Grammar.statement n) := by
  induction n with
  | zero =>
    constructor
    · intro c s c' h
      cases h
    · exact fun c _ => Nat.zero_le _
  | succ n ih => exact (encloses_statements (within_expression n) ih).within.named

theorem progresses_statement (n : Nat) : Progresses (Grammar.statement n) := by
  intro c s c' h
  cases n with
  | zero => cases h
  | succ n =>
    exact (encloses_statements (within_expression n) (within_statement n)).progresses
      (named_eq_ok_iff.mp h)

end Grammar

end ImpLang
