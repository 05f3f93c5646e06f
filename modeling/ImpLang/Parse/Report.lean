import ImpLang.Text.Line
import ImpLang.Text.Decimal
import ImpLang.Text.Character

/-!
Reports of rejected texts: where the text was rejected, what was expected there and what stands
there instead, with the line in question and hints for common mistakes.
-/

namespace ImpLang

/-- A report of a rejected text. A report whose line is zero has no place. -/
structure Report where
  message : String
  location : Int := 0
  line : Int := 0
  column : Int := 0
  expected : List String := []
  got : Option String := none
  context : Option String := none
  suggestions : List String := []
  filename : String := "<stdin>"
  deriving DecidableEq

namespace Report

/-- A part of a report that is left out when it is missing or empty. -/
def optionalPart (before : String) : Option String → String
  | none => ""
  | some text => if text = "" then "" else before ++ text ++ "\n"

def format (r : Report) : String :=
  if r.line = 0 then "Parse error: " ++ r.message
  else
    Text.trimLineFeeds <|
      "Parse error in " ++ r.filename ++ " at line " ++ Text.numeral r.line ++ ", column " ++
        Text.numeral r.column ++ ":\n" ++
      "  " ++ r.message ++ "\n" ++
      optionalPart "  Got: " r.got ++
      optionalPart "" r.context ++
      (if r.suggestions.isEmpty then ""
       else "  Suggestions:\n" ++ String.join (r.suggestions.map fun s => "    - " ++ s ++ "\n"))

def lineAt? (text : String) (line : Int) : Option (List Char) :=
  if 1 ≤ line then (Text.splitLines text.toList)[(line - 1).toNat]? else none

def caretLine (text : String) (line column : Int) : String :=
  match lineAt? text line with
  | none => ""
  | some cs => "    " ++ String.ofList cs ++ "\n    " ++ Text.spaces (column - 1) ++ "^"

/-- What stands at a place: ten characters of the line in quotes. -/
def found (text : String) (line column : Int) : String :=
  match lineAt? text line with
  | none => "unknown"
  | some cs =>
    let piece := Text.trim (String.ofList (Text.slice (column - 1) (column + 9) cs))
    if piece = "" then "end of line" else "'" ++ piece ++ "'"

def expectedBy (message : String) : List String :=
  if "Expected ".toList.isPrefixOf message.toList then
    [String.ofList (message.toList.drop "Expected ".length)]
  else []

def occursInChars (needle : List Char) : List Char → Bool
  | [] => needle.isEmpty
  | c :: cs => needle.isPrefixOf (c :: cs) || occursInChars needle cs

def occursIn (needle : String) (text : String) : Bool :=
  occursInChars needle.toList text.toList

/-- A hint, and when it is given: what was found comes first and what was wanted second. -/
structure Hint where
  applies : String → String → Bool
  text : String

def hints : List Hint :=
  [{ applies := fun _ wanted => occursIn "';'" wanted
     text := "Statements end with ';' (procedure and if statements end with 'endproc' and 'fi')" },
   { applies := fun _ wanted => occursIn "'fi'" wanted
     text := "Conditionals are written 'if c then a else b fi'" },
   { applies := fun _ wanted => occursIn "'end'" wanted
     text := "'fn' and 'let' expressions are closed with 'end'" },
   { applies := fun _ wanted => occursIn "'od'" wanted
     text := "Sequences are written 'do s1 s2 ... od;'" },
   { applies := fun got _ => "'=".toList.isPrefixOf got.toList && !occursIn "==" got
     text := "Use ':=' for assignment and '==' for equality" },
   { applies := fun got wanted => got.toList.any Text.isDigit && occursIn "identifier" wanted
     text := "Identifiers contain letters only" }]

def suggest (got : String) (expected : List String) : List String :=
  (hints.filter fun hint => hint.applies got (" ".intercalate expected)).map Hint.text

/-- The report of a failure at an offset of the tab-expanded text. The place is found in the
expanded text, and the line shown is cut from the text as it was given. -/
def ofFailure (text : String) (expanded : List Char) (filename : String) (offset : Nat)
    (message : String) : Report :=
  let place := Text.placeOf expanded offset
  let got := found text place.line place.column
  let expected := expectedBy message
  { message
    location := offset
    line := place.line
    column := place.column
    expected
    got := some got
    context := some (caretLine text place.line place.column)
    suggestions := suggest got expected
    filename }

def nestedTooDeeply (filename : String) : Report :=
  { message := "Input is nested too deeply", filename }

end Report

end ImpLang
