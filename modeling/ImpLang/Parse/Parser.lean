import ImpLang.Parse.Cursor

/-!
Parsers and the ways to combine them. A soft failure lets an alternative be tried or ends a
repetition; a fatal one, which a committed parser makes of a soft one, rejects the text; a limit
that is hit stops everything.

A failure carries an offset and a message, and both come out in reports. Which of them a failure
keeps on its way up is not settled by the grammar but by the parsing library under it. The rules
assumed here are those of its release 3.1.4:

* A commitment makes a soft failure fatal and keeps its offset and its message.
* A name that is given to a parser replaces the message of a soft failure and keeps its offset.
  Fatal failures keep their message.
* A choice takes the first alternative that matches, and ends at the first fatal failure. If all
  alternatives fail softly it fails as the one that came furthest, the first of several.
* A repetition, an operator chain and an optional part end at a soft failure. A delimiter or an
  operator behind which no item was read is given back.
-/

namespace ImpLang

inductive Failure where
  /-- Something else may still match. -/
  | soft (offset : Nat) (message : String)
  /-- The text is rejected. -/
  | fatal (offset : Nat) (message : String)
  | tooDeep
  | literalTooLong (digits : Nat)
  deriving DecidableEq

def Parser (α : Type) : Type :=
  Cursor → Except Failure (α × Cursor)

namespace Parser

variable {α β : Type}

protected def pure (a : α) : Parser α :=
  fun c => .ok (a, c)

protected def bind (p : Parser α) (f : α → Parser β) : Parser β :=
  fun c =>
    match p c with
    | .ok (a, c') => f a c'
    | .error e => .error e

instance : Monad Parser where
  pure := Parser.pure
  bind := Parser.bind

@[simp]
theorem pure_apply (a : α) (c : Cursor) : (pure a : Parser α) c = .ok (a, c) := rfl

/-- A sequence succeeds exactly if its parts succeed one after another. -/
theorem bind_eq_ok_iff {p : Parser α} {f : α → Parser β} {c : Cursor} {r : β × Cursor} :
    (p >>= f) c = .ok r ↔ ∃ a c', p c = .ok (a, c') ∧ f a c' = .ok r := by
  change Parser.bind p f c = .ok r ↔ _
  unfold Parser.bind
  constructor
  · intro h
    cases hp : p c with
    | error e => simp [hp] at h
    | ok result =>
      rw [hp] at h
      exact ⟨result.1, result.2, rfl, h⟩
  · intro ⟨a, c', hp, hf⟩
    rw [hp]
    exact hf

def fail (e : Failure) : Parser α :=
  fun _ => .error e

/-- From here on there is no other way to read the text: soft failures become fatal. -/
def commit (p : Parser α) : Parser α :=
  fun c =>
    match p c with
    | .error (.soft offset message) => .error (.fatal offset message)
    | result => result

/-- Gives a soft failure another message and leaves its offset. -/
def named (message : String) (p : Parser α) : Parser α :=
  fun c =>
    match p c with
    | .error (.soft offset _) => .error (.soft offset message)
    | result => result

/-- The first parser or else the second. If both fail softly the failure that came further counts,
and the first of two that came equally far. -/
def either (p q : Parser α) : Parser α :=
  fun c =>
    match p c with
    | .error (.soft offset message) =>
      match q c with
      | .error (.soft offset' message') =>
        if offset < offset' then .error (.soft offset' message') else .error (.soft offset message)
      | result => result
    | result => result

def firstOf (p : Parser α) : List (Parser α) → Parser α
  | [] => p
  | q :: rest => either p (firstOf q rest)

def orDefault (default : α) (p : Parser α) : Parser α :=
  fun c =>
    match p c with
    | .error (.soft _ _) => .ok (default, c)
    | result => result

/-- Repeats a parser until it fails softly, at most once for each element of a tally. -/
def manyUpTo {γ : Type} : List γ → Parser α → Parser (List α)
  | [], _ => Parser.pure []
  | _ :: tally, p => fun c =>
    match p c with
    | .ok (a, c') =>
      match manyUpTo tally p c' with
      | .ok (as, c'') => .ok (a :: as, c'')
      | .error e => .error e
    | .error (.soft _ _) => .ok ([], c)
    | .error e => .error e

/-- Repeats a parser until it fails softly. A parser that always reads something cannot succeed
more often than there are characters left, so a tally of one more than these is never used up. -/
def many (p : Parser α) : Parser (List α) :=
  fun c => manyUpTo (' ' :: c.rest) p c

/-- A list that may be empty, with a delimiter between its items. A delimiter that no item follows
is not read. -/
def listOf (delimiter : Parser Unit) (item : Parser α) : Parser (List α) :=
  orDefault [] do
    let first ← item
    let others ← many do
      delimiter
      item
    return first :: others

def chain (operand : Parser α) (operator : Parser β) (join : β → α → α → α) : Parser α := do
  let first ← operand
  let others ← many do
    let op ← operator
    let right ← operand
    return (op, right)
  return others.foldl (fun left (op, right) => join op left right) first

end Parser

end ImpLang
