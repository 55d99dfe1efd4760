import StyleSlots.Text.Basic

/-! # Numerals

    - **Digits**: `0` to `9`, then `a` to `z`, enough for every base up to
      thirty-six.
    - **Numeral**: the digits of a number in a base, most significant
      first, without leading zeros; zero is the single digit `0`.

    One function writes the decimal numerals of messages, the hexadecimal
    ones of escapes and the base 36 ones of class names. -/

namespace StyleSlots

/-- The digits in ascending order of value. -/
def digits : Text := "0123456789abcdefghijklmnopqrstuvwxyz".toList

/-- The digit that stands for `d`. -/
def digit (d : Nat) : Char := digits.getD d '0'

/-- The numeral of `n`. In a base below two there is only one place, so
    every number is written as a single digit. -/
def numeral (base n : Nat) : Text :=
  if _h : 2 ≤ base ∧ base ≤ n then numeral base (n / base) ++ [digit (n % base)]
  else [digit n]
termination_by n
decreasing_by exact Nat.div_lt_self (by omega) (by omega)

/-- The decimal numeral of a natural number. -/
def decimalNumeral (n : Nat) : Text := numeral 10 n

/-- The decimal numeral of an integer, with a minus sign below zero. -/
def signedNumeral : Int → Text
  | .ofNat n => decimalNumeral n
  | .negSucc n => '-' :: decimalNumeral (n + 1)

/-- The hexadecimal numeral of a natural number. -/
def hexNumeral (n : Nat) : Text := numeral 16 n

/-- A text with as many copies of `c` in front as it lacks of `width`
    characters. -/
def Text.padLeft (c : Char) (width : Nat) (t : Text) : Text :=
  List.replicate (width - t.length) c ++ t

end StyleSlots
