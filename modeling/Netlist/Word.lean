/-
Module: Netlist.Word
Layer: Foundations
Purpose: Bus words. Every net carries an unsigned value of one to sixty-four bits, held in a 64-bit
  word. A width is a natural number, so a width of zero or above sixty-four is an ordinary argument
  with an ordinary answer: the mask of width zero is empty, and the mask of any width from sixty-four
  upwards has every bit set.
Imports: none
Main exports: Word, Word.mask, Word.fits, Word.bits, Word.addressSpace, Word.hex
-/

namespace Netlist

/-- The value carried by a net, a constant, a ROM word or a RAM word. -/
abbrev Word := UInt64

namespace Word

/-- The widest bus, in bits. -/
def maxWidth : Nat := 64

/-- The largest number of words that any count, capacity or offset can stand for. Sums of capacities
    stop here instead of growing past it. -/
def countLimit : Nat := UInt64.size - 1

/-- The word whose low `width` bits are set. -/
def mask (width : Nat) : Word :=
  if maxWidth ≤ width then 0xFFFFFFFFFFFFFFFF else (1 <<< width.toUInt64) - 1

/-- Whether `value` has no bit at position `width` or above. -/
def fits (value : Word) (width : Nat) : Bool :=
  value &&& ~~~(mask width) == 0

/-- The `count` bits of `value` that start at position `low`. Positions past the end of the word
    hold no bits. -/
def bits (value : Word) (low count : Nat) : Word :=
  if maxWidth ≤ low then 0 else (value >>> low.toUInt64) &&& mask count

/-- The number of addresses of an address bus, two to the power of its width, as far as a count reaches. -/
def addressSpace (addrWidth : Nat) : Nat :=
  if maxWidth ≤ addrWidth then countLimit else Nat.pow 2 addrWidth

/-- Addition of counts, stopping at the largest count. -/
def addCount (m n : Nat) : Nat :=
  min countLimit (m + n)

/-- The digits of `value` in base sixteen, lower case, without leading zeros. -/
def hex (value : Word) : String :=
  String.ofList (Nat.toDigits 16 value.toNat)

/-- The digits of `value` in base sixteen behind the mark `0x`, as error messages show a value. -/
def markedHex (value : Word) : String :=
  "0x" ++ value.hex

end Word

end Netlist
