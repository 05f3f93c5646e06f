/-!
A cursor in a text: how far reading has come, the character just passed, and what is left. The
character just passed decides whether a word starts where the cursor stands.
-/

namespace ImpLang

structure Cursor where
  position : Nat
  previous : Option Char
  rest : List Char

namespace Cursor

def start (text : List Char) : Cursor :=
  ⟨0, none, text⟩

def advance (c : Cursor) (count : Nat) : Cursor :=
  { position := c.position + count
    previous := (c.rest.take count).getLast?.or c.previous
    rest := c.rest.drop count }

/-- The white space that separates tokens: space, tab, line feed and carriage return only. -/
def isSeparator (ch : Char) : Bool :=
  ch = ' ' || ch = '\n' || ch = '\t' || ch = '\r'

def skip (c : Cursor) : Cursor :=
  c.advance (c.rest.takeWhile isSeparator).length

@[simp]
theorem rest_start (text : List Char) : (start text).rest = text := rfl

@[simp]
theorem rest_advance (c : Cursor) (count : Nat) : (c.advance count).rest = c.rest.drop count := rfl

@[simp]
theorem position_advance (c : Cursor) (count : Nat) :
    (c.advance count).position = c.position + count := rfl

end Cursor

end ImpLang
