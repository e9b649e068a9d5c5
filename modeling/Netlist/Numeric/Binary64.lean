/-
Module: Netlist.Numeric.Binary64
Layer: Numeric
Purpose: Non-negative binary64 numbers, in exact arithmetic. A number is a significand times a power of
  two; conversion and division round to the nearest number of 53 significant bits, a half going to the
  even significand. The numbers met here are quotients of 64-bit counts, which lie far inside the range
  of normal exponents.
Imports: Netlist.Numeric.Nearest
Main exports: Numeric.Binary64, Numeric.Binary64.roundNat, Numeric.Binary64.ofQuotient,
  Numeric.Binary64.toBits, Numeric.Binary64.fixed
-/
import Netlist.Numeric.Nearest

namespace Netlist.Numeric

/-- The number `significand * 2 ^ exponent`. A number other than zero has a significand of 53 bits. -/
structure Binary64 where
  /-- The significant bits. -/
  significand : Nat
  /-- The power of two of the lowest significant bit. -/
  exponent : Int
deriving Repr, Inhabited, DecidableEq

namespace Binary64

/-- The number of significant bits. -/
def precision : Nat := 53

/-- The least integer that rounds out of the finite range: half a unit above the greatest number. -/
def overflowLimit : Nat := Nat.pow 2 1024 - Nat.pow 2 970

/-- Zero. -/
def zero : Binary64 := ⟨0, 0⟩

/-- The integer with at most 53 significant bits that is nearest to `n`. -/
def roundNat (n : Nat) : Nat :=
  let surplus := n.log2 + 1 - precision
  divNearest n (Nat.pow 2 surplus) * Nat.pow 2 surplus

/-- The quotient `num / (den * 2 ^ exponent)`, rounded to the nearest integer. -/
def scaledQuotient (num den : Nat) (exponent : Int) : Nat :=
  divNearest (num * Nat.pow 2 (-exponent).toNat) (den * Nat.pow 2 exponent.toNat)

/-- The number nearest to `num / den`, for a divisor other than zero. -/
def ofQuotient (num den : Nat) : Binary64 :=
  if num = 0 then zero
  else
    -- the quotient lies between 2 ^ (guess + 51) and 2 ^ (guess + 53)
    let guess : Int := num.log2 - den.log2 - 52
    let exponent :=
      if num * Nat.pow 2 (-guess).toNat < den * Nat.pow 2 guess.toNat * Nat.pow 2 52 then guess - 1
      else guess
    let significand := scaledQuotient num den exponent
    if significand = Nat.pow 2 precision then ⟨Nat.pow 2 52, exponent + 1⟩
    else ⟨significand, exponent⟩

/-- The 64 bits of the interchange format: no sign, the biased exponent, the significand without its
    leading bit. -/
def toBits (x : Binary64) : UInt64 :=
  if x.significand = 0 then 0
  else UInt64.ofNat ((x.exponent + 1075).toNat * Nat.pow 2 52 + (x.significand - Nat.pow 2 52))

/-- The decimal text with `places` digits after the point: the exact value rounded to the nearest such
    decimal, a half going to the even last digit. -/
def fixed (x : Binary64) (places : Nat) : String :=
  let scaled := divNearest (x.significand * Nat.pow 10 places * Nat.pow 2 x.exponent.toNat)
    (Nat.pow 2 (-x.exponent).toNat)
  let whole := scaled / Nat.pow 10 places
  let digits := Nat.toDigits 10 (scaled % Nat.pow 10 places)
  toString whole ++ "." ++
    String.ofList (List.replicate (places - digits.length) '0' ++ digits)

end Binary64

end Netlist.Numeric
