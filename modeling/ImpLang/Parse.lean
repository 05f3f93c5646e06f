import ImpLang.Fault
import ImpLang.Parse.Grammar
import ImpLang.Text.Line

/-!
Parsing whole texts. Tabs are expanded first, and all offsets refer to the expanded text.
-/

namespace ImpLang

def Parser.run {α : Type} (p : Parser α) (text : String) : Except Failure (α × Cursor) :=
  p (Cursor.start (Text.expandTabs text.toList))

def Parser.parseAll {α : Type} (p : Parser α) (text filename : String) : Except Fault α :=
  let whole : Parser α := do
    let a ← p
    Token.endOfText
    return a
  match whole.run text with
  | .ok (a, _) => .ok a
  | .error (.soft offset message) | .error (.fatal offset message) =>
    .error (.rejected (.ofFailure text (Text.expandTabs text.toList) filename offset message))
  | .error .tooDeep => .error (.rejected (.nestedTooDeeply filename))
  | .error (.literalTooLong digits) => .error (.literalTooLong digits)

/-- The name under which typed-in text is reported. -/
def standardInput : String := "<stdin>"

def parseExpression (nesting : Nat) (text filename : String) : Except Fault Exp :=
  (Grammar.expression nesting).parseAll text filename

def parseStatement (nesting : Nat) (text filename : String) : Except Fault Stmt :=
  (Grammar.statement nesting).parseAll text filename

end ImpLang
