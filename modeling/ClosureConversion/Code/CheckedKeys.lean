import ClosureConversion.Code.Instruction

/-!
Contract: the keys of switches where arithmetic is checked.

Owns:
- sums and differences of numbers of thirty-two bits, when they leave these, and what is said then;
- the greatest key of a switch over a range of keys, computed from the lowest one and the number of
  its targets, from left to right.

Does not own: what is written for a switch, which is the sum modulo two to the thirty-second.
-/

namespace ClosureConversion

/-- Which computation left the range of its numbers. -/
inductive ArithmeticFault where
  | sum
  | difference
deriving DecidableEq, Repr

/-- What is said where the computation ends the program. -/
def ArithmeticFault.message : ArithmeticFault → String
  | .sum => "attempt to add with overflow"
  | .difference => "attempt to subtract with overflow"

/-- Whether thirty-two bits with a sign express a number. -/
def fitsWord (value : Int) : Bool :=
  -2147483648 ≤ value && value ≤ 2147483647

/-- The sum of two numbers, if thirty-two bits express it. -/
def checkedSum (left right : Int32) : Except ArithmeticFault Int32 :=
  if fitsWord (left.toInt + right.toInt) then .ok (left + right) else .error .sum

/-- The difference of two numbers, if thirty-two bits express it. -/
def checkedDifference (left right : Int32) : Except ArithmeticFault Int32 :=
  if fitsWord (left.toInt - right.toInt) then .ok (left - right) else .error .difference

/-- The greatest key of a switch with so many targets, computed from left to right. -/
def checkedLastKey (low : Int32) (count : Nat) : Except ArithmeticFault Int32 := do
  checkedDifference (← checkedSum low (Int32.ofNat count)) 1

/-- What goes wrong in the computation of the greatest key of an instruction. -/
def Instruction.keyFault? {Label : Type} : Instruction Label → Option ArithmeticFault
  | .tableSwitch _ low targets =>
      match checkedLastKey low targets.length with
      | .ok _ => none
      | .error fault => some fault
  | _ => none

end ClosureConversion
