import OpeningHand.Count

/-!
# Decimal numerals of machine size

A numeral is a non-empty run of the ten ASCII digits;
leading zeros are allowed, and a numeral whose value does not fit is refused.
-/

namespace OpeningHand.Text

def digitsValue (digits : List Char) : Nat :=
  digits.foldl (fun value digit => 10 * value + (digit.toNat - '0'.toNat)) 0

/-- The value of a numeral, if the text is one and its value fits. -/
def readNumeral? (text : List Char) : Option Nat :=
  if text.isEmpty || !text.all Char.isDigit then none
  else
    let value := digitsValue text
    if value < countLimit then some value else none

/-- As `readNumeral?`, with one plus sign allowed in front. -/
def readSignedNumeral? : List Char → Option Nat
  | '+' :: text => readNumeral? text
  | text => readNumeral? text

def numeral (n : Nat) : List Char :=
  Nat.toDigits 10 n

@[simp] theorem readNumeral?_nil : readNumeral? [] = none := rfl

example : readNumeral? "18446744073709551615".toList = some 18446744073709551615 := by decide

example : readNumeral? "18446744073709551616".toList = none := by decide

example : readSignedNumeral? "+007".toList = some 7 := by decide

end OpeningHand.Text
