import ClosureConversion.BytecodeError

/-!
Contract: values as bytes, the most significant byte first.

Owns:
- readers, which take a value off the start of the bytes and leave the rest;
- the class of types with a binary form, and the forms of fixed-width numbers and of
  lists with a sixteen-bit count.

Does not own: the forms of the parts of a class file.
-/

namespace ClosureConversion

abbrev Bytes := List UInt8

/-- Takes a value off the start of the bytes, leaving the rest. -/
abbrev Reader (α : Type) := StateT Bytes (Except BytecodeError) α

/-- Types with a binary form. -/
class Binary (α : Type) where
  write : α → Bytes
  read : Reader α

export Binary (write)

namespace Reader

/-- The next byte. -/
def byte : Reader UInt8 := fun bytes =>
  match bytes with
  | [] => .error .shortRead
  | first :: rest => .ok (first, rest)

/-- The next bytes, as many as asked for; what they are part of is said if there are
too few. -/
def take (count : Nat) (part : String) : Reader Bytes := fun bytes =>
  let (front, rest) := bytes.splitAt count
  if front.length = count then .ok (front, rest) else .error (.prematureEnd part)

/-- Values one after another, prepended to those read before, last one first. -/
def timesFrom {α : Type} (reader : Reader α) : Nat → List α → Reader (List α)
  | 0, before => fun bytes => .ok (before, bytes)
  | count + 1, before => fun bytes =>
      match reader bytes with
      | .ok (value, rest) => timesFrom reader count (value :: before) rest
      | .error error => .error error

/-- As many values as asked for. -/
def times {α : Type} (count : Nat) (reader : Reader α) : Reader (List α) := do
  let reversed ← timesFrom reader count []
  return reversed.reverse

end Reader

/-- The value at the start of the bytes. -/
def read {α : Type} [Binary α] : Reader α :=
  Binary.read

/-- The value at the start of the bytes; what follows it is not looked at. -/
def decode {α : Type} [Binary α] (bytes : Bytes) : Except BytecodeError α :=
  (read bytes).map Prod.fst

instance : Binary UInt8 where
  write byte := [byte]
  read := Reader.byte

instance : Binary UInt16 where
  write number := [(number >>> 8).toUInt8, number.toUInt8]
  read := do
    let high ← Reader.byte
    let low ← Reader.byte
    return high.toUInt16 <<< 8 ||| low.toUInt16

instance : Binary UInt32 where
  write number := write (number >>> 16).toUInt16 ++ write number.toUInt16
  read := do
    let high : UInt16 ← read
    let low : UInt16 ← read
    return high.toUInt32 <<< 16 ||| low.toUInt32

instance : Binary UInt64 where
  write number := write (number >>> 32).toUInt32 ++ write number.toUInt32
  read := do
    let high : UInt32 ← read
    let low : UInt32 ← read
    return high.toUInt64 <<< 32 ||| low.toUInt64

instance : Binary Int8 where
  write number := write number.toUInt8
  read := do
    let bits : UInt8 ← read
    return bits.toInt8

instance : Binary Int16 where
  write number := write number.toUInt16
  read := do
    let bits : UInt16 ← read
    return bits.toInt16

instance : Binary Int32 where
  write number := write number.toUInt32
  read := do
    let bits : UInt32 ← read
    return bits.toInt32

instance : Binary Int64 where
  write number := write number.toUInt64
  read := do
    let bits : UInt64 ← read
    return bits.toInt64

/-- A list is its length, modulo two to the sixteenth, and its elements. -/
instance {α : Type} [Binary α] : Binary (List α) where
  write values := write values.length.toUInt16 ++ values.flatMap write
  read := do
    let count : UInt16 ← read
    Reader.times count.toNat read

/-- A pair is its two parts. -/
instance {α β : Type} [Binary α] [Binary β] : Binary (α × β) where
  write pair := write pair.1 ++ write pair.2
  read := do
    let first ← read
    let second ← read
    return (first, second)

end ClosureConversion
