import ClosureConversion.Code.CheckedKeys
import ClosureConversion.OffsetSeq

/-!
Contract: sequences of elements where arithmetic on offsets is checked.

Owns:
- pushing an element, unless the offset after it is greater than every number of sixty-four bits;
- collecting listed elements, one after another, from the first offset on.

Does not own: what stands at the offsets.
-/

namespace ClosureConversion

/-- The greatest number that sixty-four bits express without a sign. -/
def greatestOffset : Nat :=
  18446744073709551615

namespace OffsetSeq

variable {α : Type} [Width α]

/-- Appends an element, if the offset after it can be expressed. -/
def pushChecked (sequence : OffsetSeq α) (value : α) : Except ArithmeticFault (OffsetSeq α) :=
  if sequence.endOffset + width value ≤ greatestOffset then .ok (sequence.push value)
  else .error .sum

/-- The sequence of the listed elements, the first one at offset zero. -/
def collect (values : List α) : Except ArithmeticFault (OffsetSeq α) :=
  values.foldlM pushChecked (startingAt 0)

end OffsetSeq

end ClosureConversion
