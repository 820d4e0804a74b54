/-!
# Binary fractions with 53 digits

Shares of hands are computed with binary floating-point numbers of 64 bits. Those that occur are zero,
or so far from both ends of the range of exponents that a number is just a whole significand times a
power of two. Every operation gives the exact result, rounded to 53 binary digits; a result halfway
between two numbers goes to the one with the even significand.
-/

namespace OpeningHand

/-- The whole number next to a quotient; of two that are equally near, the even one. -/
def roundQuotient (num den : Nat) : Nat :=
  let floor := num / den
  let rest := 2 * (num % den)
  if rest < den || (rest == den && floor % 2 == 0) then floor else floor + 1

/-- The number `significand * 2 ^ exponent`. -/
structure Binary64 where
  significand : Nat
  exponent : Int
deriving DecidableEq, Repr

namespace Binary64

def zero : Binary64 := ⟨0, 0⟩

/-- A quotient divided by `2 ^ exponent`, as a pair of numerator and denominator. -/
def scale (num den : Nat) (exponent : Int) : Nat × Nat :=
  (num * Nat.pow 2 (-exponent).toNat, den * Nat.pow 2 exponent.toNat)

/-- The exponent for which a positive quotient divided by its power of two has 53 binary digits before
the point. The difference of the logarithms may be too large by one. -/
def quotientExponent (num den : Nat) : Int :=
  let exponent := (num.log2 : Int) - den.log2 - 52
  let (num, den) := scale num den exponent
  if num < den * Nat.pow 2 52 then exponent - 1 else exponent

def ofQuotient (num den : Nat) : Binary64 :=
  if num = 0 then zero
  else
    let exponent := quotientExponent num den
    let (num, den) := scale num den exponent
    ⟨roundQuotient num den, exponent⟩

def ofNat (n : Nat) : Binary64 :=
  ofQuotient n 1

def toQuotient (x : Binary64) : Nat × Nat :=
  scale x.significand 1 (-x.exponent)

def mulNat (x : Binary64) (n : Nat) : Binary64 :=
  let (num, den) := x.toQuotient
  ofQuotient (num * n) den

def div (x y : Binary64) : Binary64 :=
  let (num, den) := x.toQuotient
  let (num', den') := y.toQuotient
  ofQuotient (num * den') (den * num')

def tenths (x : Binary64) : Nat :=
  let (num, den) := x.toQuotient
  roundQuotient (10 * num) den

/-- The 64 bits of the number as a number. A significand that was rounded up to `2 ^ 53` carries into
the exponent. -/
def bits (x : Binary64) : Nat :=
  if x.significand = 0 then 0
  else ((x.exponent + 1075).toNat * Nat.pow 2 52) + (x.significand - Nat.pow 2 52)

def hex (x : Binary64) : String :=
  let digits := Nat.toDigits 16 x.bits
  String.ofList (List.replicate (16 - digits.length) '0' ++ digits)

example : (ofNat 1).hex = "3ff0000000000000" := by decide +kernel

example : ((ofNat 1).div (ofNat 3)).hex = "3fd5555555555555" := by decide +kernel

example : (ofNat (2 ^ 64 - 1)).hex = "43f0000000000000" := by decide +kernel

end Binary64

end OpeningHand
