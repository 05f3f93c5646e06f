import ImpLang.Parse.Grammar
import ImpLang.Proofs.Combinator
import ImpLang.Proofs.Lexeme

/-! Laws of parsers. A law says how far a parser may move and how it may fail where it stands. If
the tokens obey it, so does every parser of the grammar, whatever nesting is allowed. -/
namespace ImpLang

open Token ImpLang.Parser

namespace Parser

variable {α β : Type} {p q : Parser α}

/-- The messages that soft failures are given in place of their own. -/
def renamings : List String :=
  ["Expected an expression", "Expected a statement",
    "Expected " ++ choiceOf (comparisons.map Op.symbol)]

/-- How far parsers may move, and how they may fail. What fails further on counts as a failure of
the whole, and neither a commitment nor another message makes a failure unlawful. -/
structure Law where
  moves : Cursor → Cursor → Prop
  fails : Cursor → Failure → Prop
  refl : ∀ c, moves c c
  trans : ∀ {c d d'}, moves c d → moves d d' → moves c d'
  back : ∀ {c d e}, moves c d → fails d e → fails c e
  renamed : ∀ {c offset message}, fails c (.soft offset message) →
    ∀ message' ∈ renamings, fails c (.soft offset message')
  committed : ∀ {c offset message}, fails c (.soft offset message) →
    fails c (.fatal offset message)

structure Obeys (law : Law) (p : Parser α) : Prop where
  moves : ∀ ⦃c a c'⦄, p c = .ok (a, c') → law.moves c c'
  fails : ∀ ⦃c e⦄, p c = .error e → law.fails c e

variable {law : Law}

theorem Obeys.pure (a : α) : Obeys law (Pure.pure a : Parser α) := by
  constructor
  · intro c b c' h
    cases h
    exact law.refl c
  · intro c e h
    cases h

theorem Obeys.fail {e : Failure} (h : ∀ c, law.fails c e) : Obeys law (fail e : Parser α) := by
  constructor
  · intro c a c' hc
    cases hc
  · intro c e' hc
    cases hc
    exact h c

theorem Obeys.bind {f : α → Parser β} (hp : Obeys law p) (hf : ∀ a, Obeys law (f a)) :
    Obeys law (p >>= f) := by
  constructor
  · intro c b c' h
    obtain ⟨a, d, hpc, hfd⟩ := bind_eq_ok_iff.mp h
    exact law.trans (hp.moves hpc) ((hf a).moves hfd)
  · intro c e h
    cases hpc : p c with
    | error e' =>
      rw [bind_of_error hpc] at h
      cases h
      exact hp.fails hpc
    | ok r =>
      obtain ⟨a, d⟩ := r
      rw [bind_of_ok hpc] at h
      exact law.back (hp.moves hpc) ((hf a).fails h)

theorem Obeys.commit (h : Obeys law p) : Obeys law (commit p) := by
  constructor
  · intro c a c' hc
    exact h.moves (commit_eq_ok_iff.mp hc)
  · intro c e hc
    unfold Parser.commit at hc
    split at hc
    · rename_i offset message hp
      cases hc
      exact law.committed (h.fails hp)
    · exact h.fails hc

theorem Obeys.named (h : Obeys law p) {message : String} (hmessage : message ∈ renamings) :
    Obeys law (named message p) := by
  constructor
  · intro c a c' hc
    exact h.moves (named_eq_ok_iff.mp hc)
  · intro c e hc
    unfold Parser.named at hc
    split at hc
    · rename_i offset message' hp
      cases hc
      exact law.renamed (h.fails hp) message hmessage
    · exact h.fails hc

theorem Obeys.either (hp : Obeys law p) (hq : Obeys law q) : Obeys law (either p q) := by
  constructor
  · intro c a c' h
    rcases either_eq_ok h with h | ⟨-, h⟩
    · exact hp.moves h
    · exact hq.moves h
  · intro c e h
    unfold Parser.either at h
    split at h
    · rename_i offset message hpc
      split at h
      · rename_i offset' message' hqc
        -- of two soft failures one is kept as it is
        split_ifs at h
        · cases h
          exact hq.fails hqc
        · cases h
          exact hp.fails hpc
      · exact hq.fails h
    · exact hp.fails h

theorem Obeys.firstOf {rest : List (Parser α)} (h : ∀ q ∈ p :: rest, Obeys law q) :
    Obeys law (firstOf p rest) := by
  induction rest generalizing p with
  | nil => exact h p (by simp)
  | cons q rest ih =>
    exact (h p (by simp)).either (ih fun q' hq' => h q' (List.mem_cons_of_mem _ hq'))

theorem Obeys.orDefault (h : Obeys law p) (default : α) : Obeys law (orDefault default p) := by
  constructor
  · intro c a c' hc
    rcases orDefault_eq_ok hc with hp | hp
    · exact h.moves hp
    · cases hp
      exact law.refl c
  · intro c e hc
    unfold Parser.orDefault at hc
    split at hc
    · cases hc
    · exact h.fails hc

theorem Obeys.manyUpTo {γ : Type} (h : Obeys law p) (tally : List γ) :
    Obeys law (manyUpTo tally p) := by
  induction tally with
  | nil => exact .pure []
  | cons g tally ih =>
    constructor
    · intro c as c' hm
      rcases manyUpTo_cons_eq_ok hm with ⟨-, rfl⟩ | ⟨a, as', d, -, hp, hd⟩
      · exact law.refl _
      · exact law.trans (h.moves hp) (ih.moves hd)
    · intro c e hm
      unfold Parser.manyUpTo at hm
      split at hm
      · rename_i a d hp
        split at hm
        · cases hm
        · rename_i e' hd
          cases hm
          exact law.back (h.moves hp) (ih.fails hd)
      · cases hm
      · rename_i e' _ hp
        cases hm
        exact h.fails hp

theorem Obeys.many (h : Obeys law p) : Obeys law (many p) :=
  ⟨fun _ _ _ hm => (h.manyUpTo _).moves hm, fun _ _ hm => (h.manyUpTo _).fails hm⟩

theorem Obeys.listOf {delimiter : Parser Unit} (hd : Obeys law delimiter) (hp : Obeys law p) :
    Obeys law (listOf delimiter p) := by
  have hothers : Obeys law (Parser.many (do delimiter; p)) := (hd.bind fun _ => hp).many
  exact .orDefault (hp.bind fun _ => hothers.bind fun _ => .pure _) []

theorem Obeys.level {operand : Parser Exp} {operator : Parser Op} (h : Obeys law operand)
    (hop : Obeys law operator) (table : OpKind) :
    Obeys law (Grammar.level operand operator table) :=
  h.bind fun _ => (hop.bind fun _ => h.bind fun _ => .pure _).many.bind fun _ => .pure _

/-- The words behind which only a name lets the text be read on. -/
def namingWords : List String :=
  ["procedure", "call"]

def plainWords : List String :=
  reservedWords.filter fun w => w ∉ namingWords

theorem mem_reservedWords_of_mem_namingWords {w : String} (hw : w ∈ namingWords) :
    w ∈ reservedWords := by
  revert w
  decide

theorem mem_plainWords_iff {w : String} :
    w ∈ plainWords ↔ w ∈ reservedWords ∧ w ∉ namingWords := by
  simp [plainWords]

/-- All tokens obey the law, and it lets the nesting be too deep. A word that asks for a name may
break the law if the two together obey it. -/
structure Law.Tokens (law : Law) : Prop where
  literal : ∀ s ∈ symbols, Obeys law (literal s)
  keyword : ∀ w ∈ plainWords, Obeys law (keyword w)
  identifier : Obeys law identifier
  naming : ∀ w ∈ namingWords, ∀ {α : Type} {p : String → Parser α}, (∀ x, Obeys law (p x)) →
    Obeys law (Token.keyword w >>= fun _ => commit (Token.identifier >>= p))
  intLiteral : Obeys law Grammar.intLiteral
  tooDeep : ∀ c, law.fails c .tooDeep

theorem Law.Tokens.of_each (literal : ∀ s ∈ symbols, Obeys law (Token.literal s))
    (keyword : ∀ w ∈ reservedWords, Obeys law (Token.keyword w))
    (identifier : Obeys law Token.identifier)
    (intLiteral : Obeys law Grammar.intLiteral) (tooDeep : ∀ c, law.fails c .tooDeep) :
    law.Tokens where
  literal := literal
  keyword w hw := keyword w (mem_plainWords_iff.mp hw).1
  identifier := identifier
  naming w hw _ _ hp := (keyword w (mem_reservedWords_of_mem_namingWords hw)).bind fun _ =>
    .commit (identifier.bind hp)
  intLiteral := intLiteral
  tooDeep := tooDeep

end Parser

namespace Grammar

variable {law : Law} {expression : Parser Exp} {statement : Parser Stmt} {op : Op}

theorem obeys_intLiteral (h : Obeys law integer)
    (hlong : ∀ digits c, law.fails c (.literalTooLong digits)) : Obeys law intLiteral := by
  refine h.bind fun ds => ?_
  split_ifs
  · exact .pure _
  · exact .fail (hlong ds.length)

theorem obeys_symbolOp (h : law.Tokens) (hop : op.symbol ∈ symbols) : Obeys law (symbolOp op) :=
  (h.literal _ hop).bind fun _ => .pure op

theorem obeys_wordOp (h : law.Tokens) (hop : op.symbol ∈ plainWords) : Obeys law (wordOp op) :=
  (h.keyword _ hop).bind fun _ => .pure op

theorem obeys_comparisonOp (h : law.Tokens) : Obeys law comparisonOp := by
  have hsymbol : Obeys law comparisonSymbol := by
    apply Obeys.firstOf
    simp only [List.forall_mem_cons, List.not_mem_nil, false_imp_iff, implies_true, and_true]
    exact ⟨obeys_symbolOp h (by decide), obeys_symbolOp h (by decide), obeys_symbolOp h (by decide),
      obeys_symbolOp h (by decide), obeys_symbolOp h (by decide), obeys_symbolOp h (by decide)⟩
  constructor
  · intro c op c' hc
    unfold comparisonOp at hc
    split at hc
    · cases hc
    · exact hsymbol.moves hc
  · intro c e hc
    unfold comparisonOp at hc
    split at hc
    · rename_i offset message hs
      cases hc
      split_ifs
      · exact law.renamed (hsymbol.fails hs) _ (by simp [renamings])
      · exact hsymbol.fails hs
    · exact hsymbol.fails hc

theorem obeys_parameters (h : law.Tokens) : Obeys law parameters :=
  .listOf (h.literal _ (by decide)) h.identifier

theorem obeys_arguments (h : law.Tokens) (he : Obeys law expression) :
    Obeys law (arguments expression) :=
  .listOf (h.literal _ (by decide)) he

theorem obeys_bindings (h : law.Tokens) (he : Obeys law expression) :
    Obeys law (listOf (literal ";") (binding expression)) := by
  have hbinding : Obeys law (binding expression) :=
    h.identifier.bind fun _ => (h.literal _ (by decide)).bind fun _ => he.bind fun _ => .pure _
  exact .listOf (h.literal _ (by decide)) hbinding

theorem obeys_atom (h : law.Tokens) (he : Obeys law expression) : Obeys law (atom expression) := by
  apply Obeys.firstOf
  simp only [List.forall_mem_cons, List.not_mem_nil, false_imp_iff, implies_true, and_true]
  refine ⟨h.intLiteral, ?_, ?_, ?_, ?_, ?_, ?_, ?_⟩
  · refine (h.keyword _ (by decide)).bind fun _ => .commit ?_
    exact (h.literal _ (by decide)).bind fun _ => (obeys_parameters h).bind fun _ =>
      (h.literal _ (by decide)).bind fun _ => he.bind fun _ =>
      (h.keyword _ (by decide)).bind fun _ => .pure _
  · refine (h.keyword _ (by decide)).bind fun _ => .commit ?_
    exact he.bind fun _ => (h.keyword _ (by decide)).bind fun _ => he.bind fun _ =>
      (h.keyword _ (by decide)).bind fun _ => he.bind fun _ =>
      (h.keyword _ (by decide)).bind fun _ => .pure _
  · refine (h.keyword _ (by decide)).bind fun _ => .commit ?_
    exact (h.literal _ (by decide)).bind fun _ => (obeys_bindings h he).bind fun _ =>
      (h.literal _ (by decide)).bind fun _ => he.bind fun _ =>
      (h.keyword _ (by decide)).bind fun _ => .pure _
  · exact .either ((h.keyword _ (by decide)).bind fun _ => .pure _)
      ((h.keyword _ (by decide)).bind fun _ => .pure _)
  · refine (h.keyword _ (by decide)).bind fun _ => .commit ?_
    exact he.bind fun _ => (h.literal _ (by decide)).bind fun _ =>
      (obeys_arguments h he).bind fun _ => (h.literal _ (by decide)).bind fun _ => .pure _
  · exact h.identifier.bind fun _ => .pure _
  · exact (h.literal _ (by decide)).bind fun _ => he.bind fun _ =>
      (h.literal _ (by decide)).bind fun _ => .pure _

theorem obeys_expression (h : law.Tokens) (nesting : Nat) :
    Obeys law (Grammar.expression nesting) := by
  induction nesting with
  | zero => exact .fail h.tooDeep
  | succ nesting ih =>
    have hproduct : Obeys law productOp :=
      (obeys_symbolOp h (by decide)).either (obeys_symbolOp h (by decide))
    have hsum : Obeys law sumOp :=
      (obeys_symbolOp h (by decide)).either (obeys_symbolOp h (by decide))
    have hand : Obeys law (wordOp .and) := obeys_wordOp h (by decide)
    have hor : Obeys law (wordOp .or) := obeys_wordOp h (by decide)
    have h₃ := (((obeys_atom h ih).level hproduct .arith).level hsum .arith).level
      (obeys_comparisonOp h) .compare
    exact ((h₃.level hand .logic).level hor .logic).named (by simp [renamings])

theorem obeys_statements (h : law.Tokens) (he : Obeys law expression) (hs : Obeys law statement) :
    Obeys law (statements expression statement) := by
  apply Obeys.firstOf
  simp only [List.forall_mem_cons, List.not_mem_nil, false_imp_iff, implies_true, and_true]
  refine ⟨?_, ?_, ?_, ?_, ?_, ?_, ?_⟩
  · refine (h.keyword _ (by decide)).bind fun _ => .commit ?_
    exact (h.literal _ (by decide)).bind fun _ => .pure _
  · refine (h.keyword _ (by decide)).bind fun _ => .commit ?_
    exact he.bind fun _ => (h.literal _ (by decide)).bind fun _ => .pure _
  · refine (h.keyword _ (by decide)).bind fun _ => .commit ?_
    exact he.bind fun _ => (h.keyword _ (by decide)).bind fun _ => hs.bind fun _ =>
      (h.keyword _ (by decide)).bind fun _ => hs.bind fun _ =>
      (h.keyword _ (by decide)).bind fun _ => .pure _
  · refine h.naming _ (by decide) fun _ => ?_
    exact (h.literal _ (by decide)).bind fun _ => (obeys_parameters h).bind fun _ =>
      (h.literal _ (by decide)).bind fun _ => hs.bind fun _ =>
      (h.keyword _ (by decide)).bind fun _ => .pure _
  · refine h.naming _ (by decide) fun _ => ?_
    exact (h.literal _ (by decide)).bind fun _ => (obeys_arguments h he).bind fun _ =>
      (h.literal _ (by decide)).bind fun _ => (h.literal _ (by decide)).bind fun _ => .pure _
  · refine (h.keyword _ (by decide)).bind fun _ => .commit ?_
    exact hs.bind fun _ => hs.many.bind fun _ => (h.keyword _ (by decide)).bind fun _ =>
      (h.literal _ (by decide)).bind fun _ => .pure _
  · exact h.identifier.bind fun _ => (h.literal _ (by decide)).bind fun _ => he.bind fun _ =>
      (h.literal _ (by decide)).bind fun _ => .pure _

theorem obeys_statement (h : law.Tokens) (nesting : Nat) :
    Obeys law (Grammar.statement nesting) := by
  induction nesting with
  | zero => exact .fail h.tooDeep
  | succ nesting ih =>
    exact (obeys_statements h (obeys_expression h nesting) ih).named (by simp [renamings])

end Grammar

end ImpLang
