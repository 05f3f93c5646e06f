import ImpLang.Proofs.Lexeme

/-! The context-free grammar of the language. A kind of phrase says which sequences of lexemes
derive which trees. The productions of one level are stated for given phrases inside them;
`Expression` and `Statement` close the recursion. -/
namespace ImpLang

/-- A kind of phrase: the lexemes derive the tree. -/
abbrev Phrase (α : Type) := List Lexeme → α → Prop

def Op.lexeme (op : Op) : Lexeme :=
  match op.kind with
  | .logic => .keyword op.symbol
  | .arith | .compare => .symbol op.symbol

/-- How loosely an operator binds: products bind tightest and disjunctions loosest. -/
def Op.level : Op → Nat
  | .mul | .div => 1
  | .add | .sub => 2
  | .le | .ge | .ne | .eq | .lt | .gt => 3
  | .and => 4
  | .or => 5

def OpKind.ofLevel : Nat → OpKind
  | 1 | 2 => .arith
  | 3 => .compare
  | _ => .logic

theorem Op.ofLevel_level (op : Op) : OpKind.ofLevel op.level = op.kind := by
  cases op <;> rfl

namespace Phrase

inductive Many {α : Type} (item : Phrase α) : Phrase (List α)
  | nil : Many item [] []
  | cons {ts us : List Lexeme} {a : α} {as : List α} (first : item ts a)
      (others : Many item us as) : Many item (ts ++ us) (a :: as)

inductive After {α : Type} (t : Lexeme) (item : Phrase α) : Phrase α
  | intro {ts : List Lexeme} {a : α} (h : item ts a) : After t item (t :: ts) a

inductive Listed {α : Type} (delimiter : Lexeme) (item : Phrase α) : Phrase (List α)
  | empty : Listed delimiter item [] []
  | items {ts us : List Lexeme} {a : α} {as : List α} (first : item ts a)
      (others : Many (After delimiter item) us as) : Listed delimiter item (ts ++ us) (a :: as)

inductive Name : Phrase String
  | intro (x : String) : Name [.name x] x

inductive Operation (level : Nat) (operand : Phrase Exp) : Phrase (Op × Exp)
  | intro {op : Op} {ts : List Lexeme} {e : Exp} (hop : op.level = level) (right : operand ts e) :
      Operation level operand (op.lexeme :: ts) (op, e)

/-- The tree of operands that are joined by operators, grouped from the left. -/
def joined (first : Exp) (others : List (Op × Exp)) : Exp :=
  others.foldl (fun left p => .binary p.1 left p.2) first

/-- All operators of a level are found in the table of the level. -/
theorem Many.foldl_operation {level : Nat} {operand : Phrase Exp} {us : List Lexeme}
    {others : List (Op × Exp)} (h : Many (Operation level operand) us others) (first : Exp) :
    others.foldl (fun left p => Exp.operation (OpKind.ofLevel level) p.1.symbol left p.2) first =
      joined first others := by
  induction h generalizing first with
  | nil => rfl
  | cons hop _ ih =>
    obtain ⟨hlevel, _⟩ := hop
    rw [List.foldl_cons, ih, ← hlevel, Op.ofLevel_level, Exp.operation_symbol]
    rfl

inductive Chain (level : Nat) (operand : Phrase Exp) : Phrase Exp
  | intro {ts us : List Lexeme} {e : Exp} {others : List (Op × Exp)} (first : operand ts e)
      (rest : Many (Operation level operand) us others) :
      Chain level operand (ts ++ us) (joined e others)

inductive Binding (expression : Phrase Exp) : Phrase (String × Exp)
  | intro {x : String} {ts : List Lexeme} {e : Exp} (h : expression ts e) :
      Binding expression (.name x :: .symbol ":=" :: ts) (x, e)

inductive Atom (expression : Phrase Exp) : Phrase Exp
  | int (ds : List Char) : Atom expression [.number ds] (.int (Text.ofDigits ds))
  | fn {ps body : List Lexeme} {params : List String} {e : Exp}
      (hps : Listed (.symbol ",") Name ps params) (hbody : expression body e) :
      Atom expression
        (.keyword "fn" :: .symbol "[" :: (ps ++ .symbol "]" :: (body ++ [.keyword "end"])))
        (.fn params e)
  | ite {cs ts es : List Lexeme} {c t e : Exp}
      (hc : expression cs c) (ht : expression ts t) (he : expression es e) :
      Atom expression
        (.keyword "if" ::
          (cs ++ .keyword "then" :: (ts ++ .keyword "else" :: (es ++ [.keyword "fi"]))))
        (.ite c t e)
  | letIn {bs body : List Lexeme} {bindings : List (String × Exp)} {e : Exp}
      (hbs : Listed (.symbol ";") (Binding expression) bs bindings) (hbody : expression body e) :
      Atom expression
        (.keyword "let" :: .symbol "[" :: (bs ++ .symbol "]" :: (body ++ [.keyword "end"])))
        (.letIn bindings e)
  | true : Atom expression [.keyword "true"] (.bool true)
  | false : Atom expression [.keyword "false"] (.bool false)
  | apply {fs as : List Lexeme} {f : Exp} {args : List Exp}
      (hf : expression fs f) (hargs : Listed (.symbol ",") expression as args) :
      Atom expression
        (.keyword "apply" :: (fs ++ .symbol "(" :: (as ++ [.symbol ")"]))) (.apply f args)
  | var (x : String) : Atom expression [.name x] (.var x)
  | paren {ts : List Lexeme} {e : Exp} (h : expression ts e) :
      Atom expression (.symbol "(" :: (ts ++ [.symbol ")"])) e

/-- Expressions: five levels of operators over atoms. -/
inductive Expression : Phrase Exp
  | intro {ts : List Lexeme} {e : Exp}
      (h : Chain 5 (Chain 4 (Chain 3 (Chain 2 (Chain 1 (Atom Expression))))) ts e) :
      Expression ts e

inductive Command (expression : Phrase Exp) (statement : Phrase Stmt) : Phrase Stmt
  | quit : Command expression statement [.keyword "quit", .symbol ";"] .quit
  | print {ts : List Lexeme} {e : Exp} (h : expression ts e) :
      Command expression statement (.keyword "print" :: (ts ++ [.symbol ";"])) (.print e)
  | ite {cs ts es : List Lexeme} {c : Exp} {t e : Stmt}
      (hc : expression cs c) (ht : statement ts t) (he : statement es e) :
      Command expression statement
        (.keyword "if" ::
          (cs ++ .keyword "then" :: (ts ++ .keyword "else" :: (es ++ [.keyword "fi"]))))
        (.ite c t e)
  | procedure {f : String} {ps body : List Lexeme} {params : List String} {s : Stmt}
      (hps : Listed (.symbol ",") Name ps params) (hbody : statement body s) :
      Command expression statement
        (.keyword "procedure" :: .name f :: .symbol "(" ::
          (ps ++ .symbol ")" :: (body ++ [.keyword "endproc"])))
        (.procedure f params s)
  | call {f : String} {as : List Lexeme} {args : List Exp}
      (hargs : Listed (.symbol ",") expression as args) :
      Command expression statement
        (.keyword "call" :: .name f :: .symbol "(" :: (as ++ [.symbol ")", .symbol ";"]))
        (.call f args)
  | seq {ts us : List Lexeme} {s : Stmt} {others : List Stmt}
      (hfirst : statement ts s) (hothers : Many statement us others) :
      Command expression statement
        (.keyword "do" :: (ts ++ (us ++ [.keyword "od", .symbol ";"]))) (.seq (s :: others))
  | set {x : String} {ts : List Lexeme} {e : Exp} (h : expression ts e) :
      Command expression statement (.name x :: .symbol ":=" :: (ts ++ [.symbol ";"])) (.set x e)

inductive Statement : Phrase Stmt
  | intro {ts : List Lexeme} {s : Stmt} (h : Command Expression Statement ts s) : Statement ts s

end Phrase

def DerivesExpression (text : String) (e : Exp) : Prop :=
  ∃ ts, Spells none ts text.toList ∧ Phrase.Expression ts e

def DerivesStatement (text : String) (s : Stmt) : Prop :=
  ∃ ts, Spells none ts text.toList ∧ Phrase.Statement ts s

end ImpLang
