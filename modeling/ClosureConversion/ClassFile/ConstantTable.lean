import ClosureConversion.Binary
import ClosureConversion.Text.ModifiedUtf8

/-!
Contract: the binary form of constants.

Owns:
- the tag of each kind of constant and the form of what follows it;
- the form of a whole table, whose count is the offset after its last constant.

Does not own: looking constants up or adding them.
-/

namespace ClosureConversion

instance : Binary HandleKind where
  write kind := [kind.number]
  read := do
    let number : UInt8 ← read
    match HandleKind.ofNumber? number with
    | some kind => return kind
    | none => throw (.badConstant number.toUInt16 "method handle kind")

namespace Constant

/-- The tag of a constant and what follows it. -/
def toBytes : Constant → Bytes
  | .utf8 text =>
      let bytes := Text.ModifiedUtf8.encode text
      1 :: write bytes.length.toUInt16 ++ bytes
  | .integer value => 3 :: write value
  | .float bits => 4 :: write bits
  | .long value => 5 :: write value
  | .double bits => 6 :: write bits
  | .classInfo name => 7 :: write name
  | .string text => 8 :: write text
  | .fieldRef owner signature => 9 :: write owner ++ write signature
  | .methodRef owner signature ofInterface =>
      (if ofInterface then 11 else 10) :: write owner ++ write signature
  | .nameAndType name descriptor => 12 :: write name ++ write descriptor
  | .methodHandle kind member => 15 :: write kind ++ write member
  | .methodType descriptor => 16 :: write descriptor
  | .dynamic bootstrap signature => 17 :: write bootstrap ++ write signature
  | .invokeDynamic bootstrap signature => 18 :: write bootstrap ++ write signature
  | .moduleInfo name => 19 :: write name
  | .packageInfo name => 20 :: write name

/-- What follows a tag. -/
def readTagged (tag : UInt8) : Reader Constant :=
  match tag with
  | 1 => do
      let count : UInt16 ← read
      let bytes ← Reader.take count.toNat "utf8 constant"
      return .utf8 (Text.ModifiedUtf8.decode bytes)
  | 3 => .integer <$> read
  | 4 => .float <$> read
  | 5 => .long <$> read
  | 6 => .double <$> read
  | 7 => .classInfo <$> read
  | 8 => .string <$> read
  | 9 => do
      let owner ← read
      let signature ← read
      return .fieldRef owner signature
  | 10 => do
      let owner ← read
      let signature ← read
      return .methodRef owner signature false
  | 11 => do
      let owner ← read
      let signature ← read
      return .methodRef owner signature true
  | 12 => do
      let name ← read
      let descriptor ← read
      return .nameAndType name descriptor
  | 15 => do
      let kind ← read
      let member ← read
      return .methodHandle kind member
  | 16 => .methodType <$> read
  | 17 => do
      let bootstrap ← read
      let signature ← read
      return .dynamic bootstrap signature
  | 18 => do
      let bootstrap ← read
      let signature ← read
      return .invokeDynamic bootstrap signature
  | 19 => .moduleInfo <$> read
  | 20 => .packageInfo <$> read
  | unknown => throw (.badConstant unknown.toUInt16 "known constant tag")

instance : Binary Constant where
  write := toBytes
  read := do
    let tag : UInt8 ← read
    readTagged tag

end Constant

/-- The constants of a class file, which start at position one. -/
abbrev ConstantTable := OffsetSeq Constant

namespace ConstantTable

/-- The table without constants. -/
def empty : ConstantTable :=
  OffsetSeq.startingAt 1

/-- Reads constants until the next one would start at or after the bound. Every
constant takes a position, so no more of them are read than there are positions. -/
def readUpTo (bound : Nat) : Nat → ConstantTable → Reader ConstantTable
  | 0, table => fun bytes => .ok (table, bytes)
  | fuel + 1, table => fun bytes =>
      if table.endOffset < bound then
        match (read : Reader Constant) bytes with
        | .ok (constant, rest) => readUpTo bound fuel (table.push constant) rest
        | .error error => .error error
      else
        .ok (table, bytes)

end ConstantTable

/-- The offset after the last constant, modulo two to the sixteenth, and the
constants. -/
instance : Binary ConstantTable where
  write table := write table.endOffset.toUInt16 ++ table.values.flatMap write
  read := do
    let count : UInt16 ← read
    ConstantTable.readUpTo count.toNat count.toNat ConstantTable.empty

end ClosureConversion
