import ClosureConversion.PartitionPoint

/-!
Contract: sequences whose elements occupy a number of consecutive offsets, such
as the constants of a class file, of which some take two positions.

Owns:
- pushing, popping and indexing, with the offset of every element recorded;
- finding the element that starts at an offset;
- the written form of a sequence.

Does not own: what an element is, or how wide it is.
-/

namespace ClosureConversion

universe u

/-- Types whose values occupy a number of consecutive offsets. -/
class Width (α : Type u) where
  width : α → Nat

export Width (width)

/-- How many offsets several values occupy together. -/
def totalWidth {α : Type u} [Width α] (values : List α) : Nat :=
  values.foldr (fun value total => width value + total) 0

/-- A sequence of elements, each recorded with the offset at which it starts.
`endOffset` is the offset that the next element will start at. -/
structure OffsetSeq (α : Type u) where
  entries : Array (Nat × α)
  endOffset : Nat
deriving Repr

/-- What stands at an offset of a sequence. -/
inductive Location (α : Type u) where
  /-- The element of this index starts there. -/
  | element (index : Nat) (value : α)
  /-- No element starts there, and the element of this index is the first one to
  start after it. -/
  | before (index : Nat)
  /-- Neither that offset nor any later one starts an element. -/
  | beyond
deriving DecidableEq, Repr

namespace Location

variable {α : Type u}

/-- The element that starts at the offset, if one does. -/
def value? : Location α → Option α
  | .element _ value => some value
  | .before _ => none
  | .beyond => none

end Location

namespace OffsetSeq

variable {α : Type u}

/-- The empty sequence whose first element will start at the given offset. -/
def startingAt (start : Nat) : OffsetSeq α where
  entries := #[]
  endOffset := start

/-- How many elements there are. -/
def size (sequence : OffsetSeq α) : Nat :=
  sequence.entries.size

/-- Whether there is no element. -/
def isEmpty (sequence : OffsetSeq α) : Bool :=
  sequence.entries.isEmpty

/-- Appends an element: it starts at `endOffset`, which grows by its width. -/
def push [Width α] (sequence : OffsetSeq α) (value : α) : OffsetSeq α where
  entries := sequence.entries.push (sequence.endOffset, value)
  endOffset := sequence.endOffset + width value

/-- Takes the last element off, with the offset it started at, which is again
where the next element will start. -/
def pop? (sequence : OffsetSeq α) : Option (OffsetSeq α × Nat × α) :=
  match sequence.entries.back? with
  | none => none
  | some (offset, value) =>
      some ({ entries := sequence.entries.pop, endOffset := offset }, offset, value)

/-- The element of an index. -/
def get? (sequence : OffsetSeq α) (index : Nat) : Option α :=
  (sequence.entries[index]?).map Prod.snd

/-- The elements with the offsets at which they start, in order. -/
def toList (sequence : OffsetSeq α) : List (Nat × α) :=
  sequence.entries.toList

/-- The elements in order. -/
def values (sequence : OffsetSeq α) : List α :=
  sequence.toList.map Prod.snd

/-- The sequence of the listed elements, the first one at the given offset. -/
def ofList [Width α] (start : Nat) (values : List α) : OffsetSeq α :=
  values.foldl push (startingAt start)

/-- How many elements start at or before the offset. -/
def countUpTo (sequence : OffsetSeq α) (offset : Nat) : Nat :=
  partitionPoint
    (fun index =>
      match sequence.entries[index]? with
      | some (start, _) => start ≤ offset
      | none => false)
    0 sequence.entries.size

/-- The element that starts at the offset: the last one, should several share it. -/
def locate (sequence : OffsetSeq α) (offset : Nat) : Location α :=
  let count := sequence.countUpTo offset
  let missing := if count = sequence.size then .beyond else .before count
  match count with
  | 0 => missing
  | last + 1 =>
      match sequence.entries[last]? with
      | some (start, value) => if start = offset then .element last value else missing
      | none => missing

/-- The written form: every element after its offset, in brackets. -/
def render (sequence : OffsetSeq α) (showValue : α → String) : String :=
  let items := sequence.toList.map fun (offset, value) => s!"#{offset} = {showValue value}"
  "[" ++ ", ".intercalate items ++ "]"

end OffsetSeq

end ClosureConversion
