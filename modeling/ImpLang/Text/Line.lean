import ImpLang.Text.Character

/-!
Lines and columns. A text is cut at its line feeds, so it always has at least one line, and a final
line feed leaves an empty last line. Within a line, tabs lead to the next tab stop, and a text is
shortened by cutting it between two signed bounds.
-/

namespace ImpLang.Text

def dropEndWhile (test : Char → Bool) (cs : List Char) : List Char :=
  (cs.reverse.dropWhile test).reverse

def trim (s : String) : String :=
  String.ofList (dropEndWhile isBlank (s.toList.dropWhile isBlank))

def trimLineFeeds (s : String) : String :=
  String.ofList (dropEndWhile (· == '\n') s.toList)

def isBlankLine (s : String) : Bool :=
  s.toList.all isBlank

def splitAtEach (separator : Char) : List Char → List (List Char)
  | [] => [[]]
  | c :: cs =>
    if c = separator then [] :: splitAtEach separator cs
    else
      match splitAtEach separator cs with
      | [] => [[c]]
      | piece :: rest => (c :: piece) :: rest

def splitLines (cs : List Char) : List (List Char) :=
  splitAtEach '\n' cs

def linesOf (s : String) : List String :=
  (splitLines s.toList).map String.ofList

/-- The lines that can be read one after another from a stream: a final line feed ends the last
line and does not start another one. -/
def streamLines (s : String) : List String :=
  match (linesOf s).reverse with
  | "" :: rest => rest.reverse
  | rest => rest.reverse

/-- Turns each carriage return, with the line feed that may follow it, into one line feed. -/
def unifyLineEnds : List Char → List Char
  | [] => []
  | '\r' :: '\n' :: cs => '\n' :: unifyLineEnds cs
  | c :: cs => (if c = '\r' then '\n' else c) :: unifyLineEnds cs

/-- Where an offset stands in a text: line and column, both counted from one. -/
structure Place where
  line : Nat
  column : Nat
  deriving DecidableEq, Repr

def placeOf (cs : List Char) (offset : Nat) : Place :=
  let before := cs.take offset
  { line := before.count '\n' + 1
    column := (before.reverse.takeWhile (· != '\n')).length + 1 }

def tabWidth : Nat := 8

/-- Replaces the tabs of a text whose first character stands in the given column. -/
def expandTabsFrom (column : Nat) : List Char → List Char
  | [] => []
  | c :: cs =>
    if c = '\t' then
      let gap := tabWidth - column % tabWidth
      List.replicate gap ' ' ++ expandTabsFrom (column + gap) cs
    else if c = '\n' || c = '\r' then c :: expandTabsFrom 0 cs
    else c :: expandTabsFrom (column + 1) cs

def expandTabs (cs : List Char) : List Char :=
  expandTabsFrom 0 cs

/-- The offset that a signed bound means in a text of the given length. -/
def boundOffset (length : Nat) (bound : Int) : Nat :=
  if bound < 0 then (length + bound).toNat else min bound.toNat length

def slice (low high : Int) (cs : List Char) : List Char :=
  (cs.take (boundOffset cs.length high)).drop (boundOffset cs.length low)

/-- That many spaces, none when the number is negative. -/
def spaces (n : Int) : String :=
  String.ofList (List.replicate n.toNat ' ')

/-- Shortens a text to one line of the given width, ending it in three dots when it is cut. -/
def shorten (text : String) (width : Int) : String :=
  let cs := text.toList.map fun c => if c = '\n' then ' ' else c
  if (cs.length : Int) > width then String.ofList (slice 0 (width - 3) cs) ++ "..."
  else String.ofList cs

end ImpLang.Text
