/-!
Decimal numerals. Integers are unbounded, but a numeral of more than 4300 digits is neither read
nor written.
-/

namespace ImpLang.Text

def maxDigits : Nat := 4300

/-- The least number whose numeral is too long: a one and forty-three groups of a hundred zeros. -/
def numeralBound : Nat := Nat.pow (Nat.pow 10 100) 43

/-- The integer can be written: the sign does not count as a digit. -/
def hasNumeral (n : Int) : Bool :=
  n.natAbs < numeralBound

def numeral (n : Int) : String :=
  n.repr

def ofDigits (digits : List Char) : Nat :=
  Nat.ofDigitChars 10 digits 0

/-- The bound on numbers is the bound on the digits of their numerals. -/
theorem numeralBound_eq : numeralBound = Nat.pow 10 maxDigits := by
  -- stated with variables, so that no power of this size is ever evaluated
  have hpow (size groups digits : Nat) (h : size * groups = digits) :
      Nat.pow (Nat.pow 10 size) groups = Nat.pow 10 digits := by
    subst h
    exact (Nat.pow_mul 10 size groups).symm
  exact hpow 100 43 maxDigits rfl

/-- Reading the digits that are written for a number gives the number back. -/
theorem ofDigits_toDigits (n : Nat) : ofDigits (Nat.toDigits 10 n) = n :=
  Nat.ofDigitChars_toDigits (by decide) (by decide)

end ImpLang.Text
