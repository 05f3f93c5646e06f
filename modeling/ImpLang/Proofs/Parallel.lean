import ImpLang.Proofs.Nesting

/-! Two readings side by side. A comparison says where two parsers may stand and how the reports of
their failures may differ. What holds of the tokens in this way holds of the whole grammar, and for
any nesting that the second reading allows beyond that of the first: where the first is stopped by
its limit, nothing is said of the second. -/
namespace ImpLang

open Token

/-- How two readings may differ. A report is the offset and the message of a failure. -/
structure Comparison where
  cursors : Cursor → Cursor → Prop
  reports : Nat × String → Nat × String → Prop
  renamed : ∀ {r r'}, reports r r' → ∀ message, reports (r.1, message) (r'.1, message)
  chosen : ∀ {r r' s s'}, reports r r' → reports s s' →
    reports (if r.1 < s.1 then s else r) (if r'.1 < s'.1 then s' else r')

/-- Two answers agree: the same result at cursors that belong together, or the same kind of
failure. An answer that is the nesting limit agrees with every other. -/
inductive Comparison.Agree {α : Type} (R : Comparison) :
    Except Failure (α × Cursor) → Except Failure (α × Cursor) → Prop
  | limit {answer : Except Failure (α × Cursor)} : Agree R (.error .tooDeep) answer
  | ok {a : α} {c c' : Cursor} (h : R.cursors c c') : Agree R (.ok (a, c)) (.ok (a, c'))
  | soft {offset offset' : Nat} {message message' : String}
      (h : R.reports (offset, message) (offset', message')) :
      Agree R (.error (.soft offset message)) (.error (.soft offset' message'))
  | fatal {offset offset' : Nat} {message message' : String}
      (h : R.reports (offset, message) (offset', message')) :
      Agree R (.error (.fatal offset message)) (.error (.fatal offset' message'))
  | tooLong (digits : Nat) :
      Agree R (.error (.literalTooLong digits)) (.error (.literalTooLong digits))

namespace Parser

variable {α β : Type} {R : Comparison} {p p' q q' : Parser α}

def Parallel (R : Comparison) (p p' : Parser α) : Prop :=
  ∀ ⦃c c'⦄, R.cursors c c' → R.Agree (p c) (p' c')

theorem Parallel.pure (a : α) : Parallel R (Pure.pure a : Parser α) (Pure.pure a) :=
  fun _ _ hc => .ok hc

theorem Parallel.bind {f f' : α → Parser β} (hp : Parallel R p p')
    (hf : ∀ a, Parallel R (f a) (f' a)) : Parallel R (p >>= f) (p' >>= f') := by
  intro c c' hc
  have h := hp hc
  change R.Agree (Parser.bind p f c) (Parser.bind p' f' c')
  unfold Parser.bind
  generalize p c = answer, p' c' = answer' at h
  cases h with
  | limit => exact .limit
  | ok hd => exact hf _ hd
  | soft hr => exact .soft hr
  | fatal hr => exact .fatal hr
  | tooLong digits => exact .tooLong digits

theorem Parallel.commit (hp : Parallel R p p') : Parallel R (commit p) (commit p') := by
  intro c c' hc
  have h := hp hc
  unfold Parser.commit
  generalize p c = answer, p' c' = answer' at h
  cases h with
  | limit => exact .limit
  | ok hd => exact .ok hd
  | soft hr => exact .fatal hr
  | fatal hr => exact .fatal hr
  | tooLong digits => exact .tooLong digits

theorem Parallel.named (hp : Parallel R p p') (message : String) :
    Parallel R (named message p) (named message p') := by
  intro c c' hc
  have h := hp hc
  unfold Parser.named
  generalize p c = answer, p' c' = answer' at h
  cases h with
  | limit => exact .limit
  | ok hd => exact .ok hd
  | soft hr => exact .soft (R.renamed hr message)
  | fatal hr => exact .fatal hr
  | tooLong digits => exact .tooLong digits

/-- A limit that is hit in one alternative is not mistaken for a failure of that alternative. -/
theorem Parallel.either (hp : Parallel R p p') (hq : Parallel R q q') :
    Parallel R (either p q) (either p' q') := by
  intro c c' hc
  have h := hp hc
  have h' := hq hc
  unfold Parser.either
  generalize p c = answer, p' c' = answer' at h
  cases h with
  | limit => exact .limit
  | ok hd => exact .ok hd
  | fatal hr => exact .fatal hr
  | tooLong digits => exact .tooLong digits
  | soft hr =>
    -- the first alternatives failed softly, so the second ones decide
    generalize q c = second, q' c' = second' at h'
    cases h' with
    | limit => exact .limit
    | ok hd => exact .ok hd
    | fatal hs => exact .fatal hs
    | tooLong digits => exact .tooLong digits
    | soft hs =>
      have hchosen := R.chosen hr hs
      dsimp only at hchosen ⊢
      split_ifs at hchosen ⊢
      all_goals exact .soft hchosen

theorem Parallel.firstOf {rest rest' : List (Parser α)} (hp : Parallel R p p')
    (hrest : List.Forall₂ (Parallel R) rest rest') :
    Parallel R (firstOf p rest) (firstOf p' rest') := by
  induction hrest generalizing p p' with
  | nil => exact hp
  | cons hq _ ih => exact hp.either (ih hq)

theorem Parallel.orDefault (hp : Parallel R p p') (default : α) :
    Parallel R (orDefault default p) (orDefault default p') := by
  intro c c' hc
  have h := hp hc
  unfold Parser.orDefault
  generalize p c = answer, p' c' = answer' at h
  cases h with
  | limit => exact .limit
  | ok hd => exact .ok hd
  | soft hr => exact .ok hc
  | fatal hr => exact .fatal hr
  | tooLong digits => exact .tooLong digits

/-- Two repetitions make the same number of rounds. Their tallies may differ: each is longer than
the text that is left, so that neither is ever used up. -/
theorem Parallel.manyUpTo {γ : Type} (hp : Parallel R p p') (hprogress : Progresses p)
    (hprogress' : Progresses p') (tally tally' : List γ) {c c' : Cursor} (hc : R.cursors c c')
    (hlen : c.rest.length < tally.length) (hlen' : c'.rest.length < tally'.length) :
    R.Agree (manyUpTo tally p c) (manyUpTo tally' p' c') := by
  -- each round shortens both tallies by one and both texts by at least one character
  induction tally generalizing tally' c c' with
  | nil => exact absurd hlen (Nat.not_lt_zero _)
  | cons g tally ih =>
    cases tally' with
    | nil => exact absurd hlen' (Nat.not_lt_zero _)
    | cons g' tally' =>
      have h := hp hc
      have hshorter : ∀ a d, p c = .ok (a, d) → d.rest.length < tally.length := by
        intro a d hpc
        have hless := hprogress hpc
        rw [List.length_cons] at hlen
        omega
      have hshorter' : ∀ a d, p' c' = .ok (a, d) → d.rest.length < tally'.length := by
        intro a d hpc
        have hless := hprogress' hpc
        rw [List.length_cons] at hlen'
        omega
      unfold Parser.manyUpTo
      generalize p c = answer, p' c' = answer' at h hshorter hshorter'
      cases h with
      | limit => exact .limit
      | soft hr => exact .ok hc
      | fatal hr => exact .fatal hr
      | tooLong digits => exact .tooLong digits
      | ok hd =>
        have hothers := ih tally' hd (hshorter _ _ rfl) (hshorter' _ _ rfl)
        dsimp only
        generalize Parser.manyUpTo tally p _ = others, Parser.manyUpTo tally' p' _ = others'
          at hothers
        cases hothers with
        | limit => exact .limit
        | ok hd => exact .ok hd
        | soft hr => exact .soft hr
        | fatal hr => exact .fatal hr
        | tooLong digits => exact .tooLong digits

theorem Parallel.many (hp : Parallel R p p') (hprogress : Progresses p)
    (hprogress' : Progresses p') : Parallel R (many p) (many p') := by
  intro c c' hc
  have hlen (d : Cursor) : d.rest.length < (' ' :: d.rest).length := Nat.lt_succ_self _
  exact hp.manyUpTo hprogress hprogress' _ _ hc (hlen c) (hlen c')

/-- A list in which every delimiter brings the end of the text nearer. -/
theorem Parallel.listOf {delimiter : Parser Unit} (hd : Parallel R delimiter delimiter)
    (hconsumes : Consumes delimiter) (hp : Parallel R p p') {m m' : Nat} (hwithin : Within m p)
    (hwithin' : Within m' p') : Parallel R (listOf delimiter p) (listOf delimiter p') := by
  have hitem : Parallel R (do delimiter; p) (do delimiter; p') := hd.bind fun _ => hp
  have hothers : Parallel R (Parser.many (do delimiter; p)) (Parser.many (do delimiter; p')) :=
    hitem.many (hconsumes.bind fun _ => hwithin).progresses
      (hconsumes.bind fun _ => hwithin').progresses
  exact .orDefault (hp.bind fun _ => hothers.bind fun _ => .pure _) []

theorem Parallel.level {operand operand' : Parser Exp} {operator : Parser Op}
    (hop : Parallel R operator operator) (hconsumes : Consumes operator)
    (hp : Parallel R operand operand') {m m' : Nat} (hwithin : Within m operand)
    (hwithin' : Within m' operand') (table : OpKind) :
    Parallel R (Grammar.level operand operator table) (Grammar.level operand' operator table) := by
  have hpair : Parallel R (do let op ← operator; let right ← operand; return (op, right))
      (do let op ← operator; let right ← operand'; return (op, right)) :=
    hop.bind fun _ => hp.bind fun _ => .pure _
  have hothers := hpair.many
    (hconsumes.bind fun _ => hwithin.bind fun _ => within_pure _).progresses
    (hconsumes.bind fun _ => hwithin'.bind fun _ => within_pure _).progresses
  exact hp.bind fun _ => hothers.bind fun _ => .pure _

end Parser

open ImpLang.Parser

structure Comparison.Tokens (R : Comparison) : Prop where
  literal : ∀ s ∈ symbols, Parallel R (literal s) (literal s)
  keyword : ∀ w ∈ reservedWords, Parallel R (keyword w) (keyword w)
  identifier : Parallel R identifier identifier
  intLiteral : Parallel R Grammar.intLiteral Grammar.intLiteral
  comparisonOp : Parallel R comparisonOp comparisonOp

namespace Grammar

variable {R : Comparison} {n n' : Nat} {expression expression' : Parser Exp}
  {statement statement' : Parser Stmt}

theorem parallel_symbolOp (h : R.Tokens) (op : Op) (hop : op.symbol ∈ symbols) :
    Parallel R (symbolOp op) (symbolOp op) :=
  (h.literal op.symbol hop).bind fun _ => .pure op

theorem parallel_wordOp (h : R.Tokens) (op : Op) (hop : op.symbol ∈ reservedWords) :
    Parallel R (wordOp op) (wordOp op) :=
  (h.keyword op.symbol hop).bind fun _ => .pure op

theorem parallel_parameters (h : R.Tokens) : Parallel R parameters parameters :=
  have hname : Within 0 identifier := consumes_identifier.within
  .listOf (h.literal _ (by decide)) (consumes_literal (by decide)) h.identifier hname hname

theorem parallel_arguments (h : R.Tokens) (he : Parallel R expression expression')
    (hwithin : Within n expression) (hwithin' : Within n' expression') :
    Parallel R (arguments expression) (arguments expression') :=
  .listOf (h.literal _ (by decide)) (consumes_literal (by decide)) he hwithin hwithin'

theorem parallel_bindings (h : R.Tokens) (he : Parallel R expression expression')
    (hwithin : Within n expression) (hwithin' : Within n' expression') :
    Parallel R (listOf (literal ";") (binding expression))
      (listOf (literal ";") (binding expression')) := by
  have hbinding : Parallel R (binding expression) (binding expression') :=
    h.identifier.bind fun _ => (h.literal _ (by decide)).bind fun _ => he.bind fun _ => .pure _
  exact .listOf (h.literal _ (by decide)) (consumes_literal (by decide)) hbinding
    (within_binding hwithin) (within_binding hwithin')

theorem parallel_atom (h : R.Tokens) (he : Parallel R expression expression')
    (hwithin : Within n expression) (hwithin' : Within n' expression') :
    Parallel R (atom expression) (atom expression') := by
  refine .firstOf h.intLiteral (.cons ?_ (.cons ?_ (.cons ?_ (.cons ?_ (.cons ?_
    (.cons ?_ (.cons ?_ .nil)))))))
  · refine (h.keyword _ (by decide)).bind fun _ => .commit ?_
    exact (h.literal _ (by decide)).bind fun _ => (parallel_parameters h).bind fun _ =>
      (h.literal _ (by decide)).bind fun _ => he.bind fun _ =>
      (h.keyword _ (by decide)).bind fun _ => .pure _
  · refine (h.keyword _ (by decide)).bind fun _ => .commit ?_
    exact he.bind fun _ => (h.keyword _ (by decide)).bind fun _ => he.bind fun _ =>
      (h.keyword _ (by decide)).bind fun _ => he.bind fun _ =>
      (h.keyword _ (by decide)).bind fun _ => .pure _
  · refine (h.keyword _ (by decide)).bind fun _ => .commit ?_
    exact (h.literal _ (by decide)).bind fun _ =>
      (parallel_bindings h he hwithin hwithin').bind fun _ =>
      (h.literal _ (by decide)).bind fun _ => he.bind fun _ =>
      (h.keyword _ (by decide)).bind fun _ => .pure _
  · exact .either ((h.keyword _ (by decide)).bind fun _ => .pure _)
      ((h.keyword _ (by decide)).bind fun _ => .pure _)
  · refine (h.keyword _ (by decide)).bind fun _ => .commit ?_
    exact he.bind fun _ => (h.literal _ (by decide)).bind fun _ =>
      (parallel_arguments h he hwithin hwithin').bind fun _ =>
      (h.literal _ (by decide)).bind fun _ => .pure _
  · exact h.identifier.bind fun _ => .pure _
  · exact (h.literal _ (by decide)).bind fun _ => he.bind fun _ =>
      (h.literal _ (by decide)).bind fun _ => .pure _

theorem parallel_operations (h : R.Tokens) (he : Parallel R expression expression')
    (hwithin : Within n expression) (hwithin' : Within n' expression') :
    Parallel R (operations expression) (operations expression') := by
  have hproduct := (parallel_symbolOp h .mul (by decide)).either
    (parallel_symbolOp h .div (by decide))
  have hsum := (parallel_symbolOp h .add (by decide)).either (parallel_symbolOp h .sub (by decide))
  have hproductOp : Consumes productOp := (consumes_symbolOp .mul).either (consumes_symbolOp .div)
  have hsumOp : Consumes sumOp := (consumes_symbolOp .add).either (consumes_symbolOp .sub)
  -- each level needs that the level below it never goes back
  have w₀ := (encloses_atom hwithin).within
  have w₀' := (encloses_atom hwithin').within
  have w₁ := w₀.level hproductOp .arith
  have w₁' := w₀'.level hproductOp .arith
  have w₂ := w₁.level hsumOp .arith
  have w₂' := w₁'.level hsumOp .arith
  have w₃ := w₂.level consumes_comparisonOp .compare
  have w₃' := w₂'.level consumes_comparisonOp .compare
  have h₁ := Parallel.level hproduct hproductOp (parallel_atom h he hwithin hwithin') w₀ w₀' .arith
  have h₂ := Parallel.level hsum hsumOp h₁ w₁ w₁' .arith
  have h₃ := Parallel.level h.comparisonOp consumes_comparisonOp h₂ w₂ w₂' .compare
  have h₄ := Parallel.level (parallel_wordOp h .and (by decide)) (consumes_wordOp .and) h₃ w₃ w₃'
    .logic
  exact Parallel.level (parallel_wordOp h .or (by decide)) (consumes_wordOp .or) h₄
    (w₃.level (consumes_wordOp .and) .logic) (w₃'.level (consumes_wordOp .and) .logic) .logic

theorem parallel_expression (h : R.Tokens) {nesting nesting' : Nat} (hle : nesting ≤ nesting') :
    Parallel R (Grammar.expression nesting) (Grammar.expression nesting') := by
  induction nesting generalizing nesting' with
  | zero => exact fun _ _ _ => .limit
  | succ nesting ih =>
    obtain ⟨nesting', rfl⟩ := Nat.exists_eq_succ_of_ne_zero (Nat.ne_zero_of_lt hle)
    have he := ih (Nat.le_of_succ_le_succ hle)
    exact (parallel_operations h he (within_expression _) (within_expression _)).named _

theorem parallel_statements (h : R.Tokens) (he : Parallel R expression expression')
    (hs : Parallel R statement statement') (hwithin : Within n expression)
    (hwithin' : Within n' expression') (hprogress : Progresses statement)
    (hprogress' : Progresses statement') :
    Parallel R (statements expression statement) (statements expression' statement') := by
  have hargs := parallel_arguments h he hwithin hwithin'
  have hmany := hs.many hprogress hprogress'
  refine .firstOf ?_ (.cons ?_ (.cons ?_ (.cons ?_ (.cons ?_ (.cons ?_ (.cons ?_ .nil))))))
  · refine (h.keyword _ (by decide)).bind fun _ => .commit ?_
    exact (h.literal _ (by decide)).bind fun _ => .pure _
  · refine (h.keyword _ (by decide)).bind fun _ => .commit ?_
    exact he.bind fun _ => (h.literal _ (by decide)).bind fun _ => .pure _
  · refine (h.keyword _ (by decide)).bind fun _ => .commit ?_
    exact he.bind fun _ => (h.keyword _ (by decide)).bind fun _ => hs.bind fun _ =>
      (h.keyword _ (by decide)).bind fun _ => hs.bind fun _ =>
      (h.keyword _ (by decide)).bind fun _ => .pure _
  · refine (h.keyword _ (by decide)).bind fun _ => .commit ?_
    exact h.identifier.bind fun _ => (h.literal _ (by decide)).bind fun _ =>
      (parallel_parameters h).bind fun _ => (h.literal _ (by decide)).bind fun _ =>
      hs.bind fun _ => (h.keyword _ (by decide)).bind fun _ => .pure _
  · refine (h.keyword _ (by decide)).bind fun _ => .commit ?_
    exact h.identifier.bind fun _ => (h.literal _ (by decide)).bind fun _ =>
      hargs.bind fun _ => (h.literal _ (by decide)).bind fun _ =>
      (h.literal _ (by decide)).bind fun _ => .pure _
  · refine (h.keyword _ (by decide)).bind fun _ => .commit ?_
    exact hs.bind fun _ => hmany.bind fun _ => (h.keyword _ (by decide)).bind fun _ =>
      (h.literal _ (by decide)).bind fun _ => .pure _
  · exact h.identifier.bind fun _ => (h.literal _ (by decide)).bind fun _ =>
      he.bind fun _ => (h.literal _ (by decide)).bind fun _ => .pure _

theorem parallel_statement (h : R.Tokens) {nesting nesting' : Nat} (hle : nesting ≤ nesting') :
    Parallel R (Grammar.statement nesting) (Grammar.statement nesting') := by
  induction nesting generalizing nesting' with
  | zero => exact fun _ _ _ => .limit
  | succ nesting ih =>
    obtain ⟨nesting', rfl⟩ := Nat.exists_eq_succ_of_ne_zero (Nat.ne_zero_of_lt hle)
    have hle : nesting ≤ nesting' := Nat.le_of_succ_le_succ hle
    exact (parallel_statements h (parallel_expression h hle) (ih hle) (within_expression _)
      (within_expression _) (progresses_statement _) (progresses_statement _)).named _

end Grammar

end ImpLang
