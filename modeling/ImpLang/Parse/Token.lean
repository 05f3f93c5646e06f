import ImpLang.Parse.Parser
import ImpLang.Text.Character
import ImpLang.Tree

/-!
The tokens of the language. A keyword must stand alone as a word, where digits, the underscore and
the dollar sign count as parts of words; a name is a run of letters at which no keyword stands.

The rules on offsets and wordings are, as for the combinators, those of release 3.1.4 of the library
under the grammar. Each token skips spaces, tabs, line feeds and carriage returns, and fails at the
offset behind them. Three failures are found elsewhere: a word that touches the one before it one
character earlier, a word that goes on at its end, and a reserved word in place of a name where
nothing has been skipped yet. A letter run is asked for by its character classes.
-/

namespace ImpLang.Token

open ImpLang.Parser

def isWordChar (c : Char) : Bool :=
  c.isAlphanum || c = '_' || c = '$'

def inQuotes (s : String) : String :=
  "'" ++ s ++ "'"

def literal (s : String) : Parser Unit := fun c =>
  let c := c.skip
  if s.toList.isPrefixOf c.rest then .ok ((), c.advance s.length)
  else .error (.soft c.position ("Expected " ++ inQuotes s))

def keyword (w : String) : Parser Unit := fun c =>
  let c := c.skip
  let expected := "Expected Keyword " ++ inQuotes w
  if !w.toList.isPrefixOf c.rest then .error (.soft c.position expected)
  else if c.previous.any isWordChar then
    .error (.soft (c.position - 1)
      (expected ++ ", keyword was immediately preceded by keyword character"))
  else
    let after := c.advance w.length
    if after.rest.head?.any isWordChar then
      .error (.soft after.position
        (expected ++ ", keyword was immediately followed by keyword character"))
    else .ok ((), after)

def atReserved (c : Cursor) : Bool :=
  reservedWords.any fun w =>
    match keyword w c with
    | .ok _ => true
    | .error _ => false

def choiceOf (words : List String) : String :=
  "\x7b" ++ " | ".intercalate (words.map inQuotes) ++ "\x7d"

def unwantedMessage : String :=
  "Found unwanted token, " ++ choiceOf reservedWords

/-- A name. -/
def identifier : Parser String := fun c =>
  if atReserved c then .error (.soft c.position unwantedMessage)
  else
    let c := c.skip
    let letters := c.rest.takeWhile Char.isAlpha
    if letters.isEmpty then .error (.soft c.position "Expected W:(A-Za-z)")
    else .ok (String.ofList letters, c.advance letters.length)

def integer : Parser (List Char) := fun c =>
  let c := c.skip
  let digits := c.rest.takeWhile Text.isAsciiDigit
  if digits.isEmpty then .error (.soft c.position "Expected an integer")
  else .ok (digits, c.advance digits.length)

def symbolOp (op : Op) : Parser Op := do
  literal op.symbol
  return op

def wordOp (op : Op) : Parser Op := do
  keyword op.symbol
  return op

def productOp : Parser Op :=
  either (symbolOp .mul) (symbolOp .div)

def sumOp : Parser Op :=
  either (symbolOp .add) (symbolOp .sub)

/-- The comparisons, with each symbol before those that begin it. -/
def comparisons : List Op :=
  [.le, .ge, .ne, .eq, .lt, .gt]

def comparisonSymbol : Parser Op :=
  firstOf (symbolOp .le) [symbolOp .ge, symbolOp .ne, symbolOp .eq, symbolOp .lt, symbolOp .gt]

/-- A comparison. Where nothing was skipped before the failure, the message names them all. -/
def comparisonOp : Parser Op := fun c =>
  match comparisonSymbol c with
  | .error (.soft offset message) =>
    .error (.soft offset
      (if offset = c.position then "Expected " ++ choiceOf (comparisons.map Op.symbol)
       else message))
  | result => result

def endOfText : Parser Unit := fun c =>
  let c := c.skip
  if c.rest.isEmpty then .ok ((), c) else .error (.soft c.position "Expected end of text")

end ImpLang.Token
