import ImpLang.Session
import ImpLang.Tree.Equality

/-!
Portraits: all that can be told of a tree, with the test whether the source text rendered from it
parses back to it. Source text puts every operation in parentheses, so a long chain of operators is
rendered as a deeply nested text, and that text may be rejected although the chain was not.
-/

namespace ImpLang

structure Portrait where
  record : String
  source : String
  lines : String
  outline : Outline
  rereads : Bool

/-- The portrait of an expression. There is none if it cannot be written within the limits or if
its source text is rejected. -/
def Exp.portrait (limits : Limits) (e : Exp) : Except Fault Portrait := do
  let record ← e.recordWithin limits.depth
  let source ← e.renderWithin limits.depth
  let again ← parseExpression limits.nesting source standardInput
  return { record, source, lines := e.pretty, outline := e.outline, rereads := again = e }

def Stmt.portrait (limits : Limits) (s : Stmt) : Except Fault Portrait := do
  let record ← s.recordWithin limits.depth
  let source ← s.renderWithin limits.depth
  let again ← parseStatement limits.nesting source standardInput
  return { record, source, lines := s.pretty, outline := s.outline, rereads := again = s }

end ImpLang
