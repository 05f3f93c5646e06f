import ImpLang.Text.Quoted

/-!
Reading bytes as UTF-8. The first malformed sequence is reported with its position, its length and
the reason: a byte that starts no character, a byte that does not continue the one begun, or the
end of the data inside a character.
-/

namespace ImpLang.Text

inductive Utf8Reason where
  | invalidStart
  | invalidContinuation
  | unexpectedEnd
  deriving DecidableEq, Repr

def Utf8Reason.text : Utf8Reason → String
  | .invalidStart => "invalid start byte"
  | .invalidContinuation => "invalid continuation byte"
  | .unexpectedEnd => "unexpected end of data"

/-- The first malformed sequence of some data: its first byte, where it starts, how many bytes of
it could begin a character, and what is wrong. -/
structure Utf8Error where
  byte : Nat
  position : Nat
  length : Nat
  reason : Utf8Reason
  deriving DecidableEq, Repr

def Utf8Error.message (e : Utf8Error) : String :=
  let place :=
    if e.length ≤ 1 then
      "byte 0x" ++ hexPadded 2 e.byte ++ " in position " ++ toString e.position
    else
      "bytes in position " ++ toString e.position ++ "-" ++ toString (e.position + e.length - 1)
  "'utf-8' codec can't decode " ++ place ++ ": " ++ e.reason.text

def isContinuation (b : Nat) : Bool :=
  0x80 ≤ b && b ≤ 0xbf

/-- The byte may stand second after the given first byte: the ranges leave out overlong forms,
surrogates and code points that are too large. -/
def isSecond (first second : Nat) : Bool :=
  isContinuation second &&
    (first != 0xe0 || 0xa0 ≤ second) && (first != 0xed || second ≤ 0x9f) &&
    (first != 0xf0 || 0x90 ≤ second) && (first != 0xf4 || second ≤ 0x8f)

def continuationCount (first : Nat) : Option Nat :=
  if first < 0x80 then some 0
  else if first < 0xc2 then none
  else if first < 0xe0 then some 1
  else if first < 0xf0 then some 2
  else if first < 0xf5 then some 3
  else none

def leadBits (first : Nat) : Nat → Nat
  | 0 => first
  | 1 => first - 0xc0
  | 2 => first - 0xe0
  | _ => first - 0xf0

/-- Reads the continuation bytes of one character. It gives the code point and the bytes left, or
how many bytes were good and what stopped it. -/
def readContinuation (first : Nat) : (count taken code : Nat) → List Nat →
    Except (Nat × Utf8Reason) (Nat × List Nat)
  | 0, _, code, bytes => .ok (code, bytes)
  | _ + 1, taken, _, [] => .error (taken, .unexpectedEnd)
  | count + 1, taken, code, b :: bytes =>
    if (if taken = 1 then isSecond first b else isContinuation b) then
      readContinuation first count (taken + 1) (code * 64 + (b - 0x80)) bytes
    else .error (taken, .invalidContinuation)

/-- Decodes bytes, the first of which has the given position, in as many steps as allowed. Every
step uses up at least one byte. -/
def decodeUtf8From : (steps position : Nat) → List Nat → Except Utf8Error (List Char)
  | _, _, [] => .ok []
  | 0, _, _ :: _ => .ok []
  | steps + 1, position, b :: bytes =>
    match continuationCount b with
    | none => .error ⟨b, position, 1, .invalidStart⟩
    | some count =>
      match readContinuation b count 1 (leadBits b count) bytes with
      | .error (taken, reason) => .error ⟨b, position, taken, reason⟩
      | .ok (code, rest) =>
        match decodeUtf8From steps (position + 1 + count) rest with
        | .ok cs => .ok (Char.ofNat code :: cs)
        | .error e => .error e

def decodeUtf8 (bytes : List Nat) : Except Utf8Error (List Char) :=
  decodeUtf8From bytes.length 0 bytes

end ImpLang.Text
