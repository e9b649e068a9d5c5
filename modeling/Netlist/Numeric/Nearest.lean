/-
Module: Netlist.Numeric.Nearest
Layer: Numeric
Purpose: Rounding to the nearest integer, a half going to the even neighbour. Binary and decimal
  rounding both come down to this one division.
Imports: none
Main exports: Numeric.divNearest
-/

namespace Netlist.Numeric

/-- The integer nearest to `num / den`; of two equally near ones the even one. -/
def divNearest (num den : Nat) : Nat :=
  let q := num / den
  let r := num % den
  if den < 2 * r then q + 1
  else if 2 * r = den then q + q % 2
  else q

end Netlist.Numeric
