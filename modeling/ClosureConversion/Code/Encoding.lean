import ClosureConversion.Code.Opcode
import ClosureConversion.ClassFile.PoolReference

/-!
Contract: instructions as bytecode.

Owns:
- the constants that instructions take from the pool, in the order of the
  instructions;
- the layout: the offset of every instruction, with each jump in its short form
  unless its target is too far away;
- the bytes of every instruction at its place.

A conditional jump has no long form. One whose target is too far is written as the
jump with the opposite condition over a long unconditional jump.

Does not own: stack maps and the other attributes that refer to offsets.
-/

namespace ClosureConversion

/-- The distances that a short jump may span. -/
structure JumpRange where
  low : Int
  high : Int
deriving DecidableEq, Repr

namespace JumpRange

/-- The distances that fit sixteen bits. -/
def short : JumpRange := ⟨-32768, 32767⟩

/-- Whether a short jump may span the distance. -/
def contains (range : JumpRange) (distance : Int) : Bool :=
  range.low ≤ distance && distance ≤ range.high

end JumpRange

/-- The greatest length of the code of a method. -/
def maxCodeLength : Nat := 65535

/-- Whether a number fits eight bits with a sign. -/
def fitsByte (value : Int) : Bool :=
  -128 ≤ value && value ≤ 127

/-- Whether a number fits sixteen bits with a sign. -/
def fitsShort (value : Int) : Bool :=
  -32768 ≤ value && value ≤ 32767

/-- The constant of the pool that an instruction refers to, added if need be. -/
def Instruction.internConstant {Label : Type} : Instruction Label → PoolM (Option PoolIndex)
  | .pushInt value =>
      if fitsShort value.toInt then pure none else some <$> (Literal.integer value).intern
  | .pushLong value =>
      if (shortLongOpcode? value).isSome then pure none else some <$> (Literal.long value).intern
  | .pushFloat bits =>
      if (shortFloatOpcode? bits).isSome then pure none else some <$> (Literal.float bits).intern
  | .pushDouble bits =>
      if (shortDoubleOpcode? bits).isSome then pure none else some <$> (Literal.double bits).intern
  | .pushLiteral literal => some <$> literal.intern
  | .field _ member => some <$> member.intern
  | .invoke _ method => some <$> method.intern
  | .invokeDynamic call => some <$> call.intern
  | .new name => some <$> name.intern
  | .newRefArray element => some <$> element.intern
  | .checkCast type => some <$> type.intern
  | .instanceOf type => some <$> type.intern
  | .newMultiArray type _ => some <$> type.intern
  | _ => pure none

/-- The target of a jump other than a switch. -/
def Instruction.jumpTarget? {Label : Type} : Instruction Label → Option Label
  | .branch _ target => some target
  | .goto target => some target
  | _ => none

/-- An instruction with the position of the constant it refers to. -/
structure Linked where
  instruction : Instruction Nat
  constant : Option PoolIndex

/-! ## Layout -/

/-- The bytes between the opcode of a switch and its operands, which start at an
offset divisible by four. -/
def switchPadding (offset : Nat) : Nat :=
  (4 - (offset + 1) % 4) % 4

/-- The length of an access to a local variable. -/
def localAccessSize (slot : UInt16) : Nat :=
  if slot ≤ 3 then 1 else if slot ≤ 255 then 2 else 4

/-- The length of an instruction that pushes a one-slot constant of the pool. -/
def literalSize (constant : Option PoolIndex) : Nat :=
  match constant with
  | some index => if index ≤ 255 then 2 else 3
  | none => 3

/-- Whether an increment has to be written in its long form. -/
def isWideIncrement (slot : UInt16) (amount : Int16) : Bool :=
  !(slot ≤ 255 && fitsByte amount.toInt)

/-- How many bytes an instruction takes at an offset; `far` asks for the long form of
a jump. -/
def Linked.size (item : Linked) (offset : Nat) (far : Bool) : Nat :=
  match item.instruction with
  | .op _ => 1
  | .pushInt value =>
      if (shortIntOpcode? value).isSome then 1
      else if fitsByte value.toInt then 2
      else if fitsShort value.toInt then 3
      else literalSize item.constant
  | .pushLong _ => if item.constant.isSome then 3 else 1
  | .pushFloat _ => if item.constant.isSome then literalSize item.constant else 1
  | .pushDouble _ => if item.constant.isSome then 3 else 1
  | .pushLiteral literal => if literal.isWide then 3 else literalSize item.constant
  | .load _ slot => localAccessSize slot
  | .store _ slot => localAccessSize slot
  | .increment slot amount => if isWideIncrement slot amount then 6 else 3
  | .branch _ _ => if far then 8 else 3
  | .goto _ => if far then 5 else 3
  | .tableSwitch _ _ targets => 1 + switchPadding offset + 12 + 4 * targets.length
  | .lookupSwitch _ targets => 1 + switchPadding offset + 8 + 8 * targets.length
  | .field _ _ => 3
  | .invoke .interface _ => 5
  | .invoke _ _ => 3
  | .invokeDynamic _ => 5
  | .new _ => 3
  | .newArray _ => 2
  | .newRefArray _ => 3
  | .checkCast _ => 3
  | .instanceOf _ => 3
  | .newMultiArray _ _ => 4

/-- The offsets of the instructions and, last, the length of the code. -/
def layout (items : Array Linked) (far : Array Bool) : Array Nat :=
  let (offsets, length) := (items.zip far).foldl
    (fun (offsets, offset) (item, far) => (offsets.push offset, offset + item.size offset far))
    (#[], 0)
  offsets.push length

/-- The offset of the instruction of an index. The end of the code is no target. -/
def offsetOf (offsets : Array Nat) (target : Nat) : Except BytecodeError Nat :=
  match offsets[target]?, offsets[target + 1]? with
  | some offset, some _ => .ok offset
  | _, _ => .error (.invalidJumpTarget target)

/-- Which jumps have to be long ones in a layout: those that are already, and those
whose target is out of range. -/
def farJumps (range : JumpRange) (items : Array Linked) (far : Array Bool)
    (offsets : Array Nat) : Except BytecodeError (Array Bool) :=
  (items.zip far).mapIdxM fun index (item, isFar) => do
    if isFar then return true
    match item.instruction.jumpTarget? with
    | none => return false
    | some target =>
        let targetOffset ← offsetOf offsets target
        let distance : Int := (targetOffset : Int) - (offsets.getD index 0 : Nat)
        return !range.contains distance

/-- Lays the code out again with more long jumps until no target is out of range.
Each round but the last one lengthens a jump, so there are no more rounds than
instructions and one. -/
def relax (range : JumpRange) (items : Array Linked) :
    Nat → Array Bool → Except BytecodeError (Array Nat × Array Bool)
  | 0, far => .ok (layout items far, far)
  | rounds + 1, far => do
      let offsets := layout items far
      let farther ← farJumps range items far offsets
      if farther = far then return (offsets, far)
      relax range items rounds farther

/-! ## Bytes -/

/-- An opcode and the position of a constant. -/
def withConstant (opcode : UInt8) (constant : Option PoolIndex) : Bytes :=
  opcode :: write (constant.getD 0)

/-- The instruction that pushes a one-slot constant of the pool. -/
def literalBytes (constant : Option PoolIndex) : Bytes :=
  let index := constant.getD 0
  if index ≤ 255 then [0x12, index.toUInt8] else 0x13 :: write index

/-- An access to a local variable: its slot is part of the opcode, one byte, or two
bytes after a mark. -/
def localAccessBytes (general short : UInt8) (kind : LocalKind) (slot : UInt16) : Bytes :=
  if slot ≤ 3 then [short + kind.code * 4 + slot.toUInt8]
  else if slot ≤ 255 then [general + kind.code, slot.toUInt8]
  else [0xc4, general + kind.code] ++ write slot

/-- The zero bytes after the opcode of a switch at an offset. -/
def paddingBytes (offset : Nat) : Bytes :=
  List.replicate (switchPadding offset) 0

/-- The bytes of an instruction at its offset. -/
def Linked.bytes (item : Linked) (offsets : Array Nat) (offset : Nat) (far : Bool) :
    Except BytecodeError Bytes := do
  let relative (target : Nat) : Except BytecodeError Int := do
    let targetOffset ← offsetOf offsets target
    return (targetOffset : Int) - offset
  let wide (target : Nat) : Except BytecodeError Bytes := do
    return write (Int32.ofInt (← relative target))
  match item.instruction with
  | .op operation => return [operation.opcode]
  | .pushInt value =>
      match shortIntOpcode? value with
      | some opcode => return [opcode]
      | none =>
          if fitsByte value.toInt then return 0x10 :: write value.toInt8
          else if fitsShort value.toInt then return 0x11 :: write value.toInt16
          else return literalBytes item.constant
  | .pushLong value =>
      match item.constant with
      | some index => return 0x14 :: write index
      | none => return [(shortLongOpcode? value).getD 0x09]
  | .pushFloat bits =>
      match item.constant with
      | some _ => return literalBytes item.constant
      | none => return [(shortFloatOpcode? bits).getD 0x0b]
  | .pushDouble bits =>
      match item.constant with
      | some index => return 0x14 :: write index
      | none => return [(shortDoubleOpcode? bits).getD 0x0e]
  | .pushLiteral literal =>
      if literal.isWide then return withConstant 0x14 item.constant
      else return literalBytes item.constant
  | .load kind slot => return localAccessBytes 0x15 0x1a kind slot
  | .store kind slot => return localAccessBytes 0x36 0x3b kind slot
  | .increment slot amount =>
      if isWideIncrement slot amount then return [0xc4, 0x84] ++ write slot ++ write amount
      else return [0x84, slot.toUInt8] ++ write amount.toInt8
  | .branch condition target =>
      let distance ← relative target
      if far then
        return condition.negate.opcode :: write (8 : Int16) ++
          0xc8 :: write (Int32.ofInt (distance - 3))
      else
        return condition.opcode :: write (Int16.ofInt distance)
  | .goto target =>
      let distance ← relative target
      if far then return 0xc8 :: write (Int32.ofInt distance)
      else return 0xa7 :: write (Int16.ofInt distance)
  | .tableSwitch default low targets =>
      let defaultBytes ← wide default
      let high : Int32 := low + Int32.ofNat targets.length - 1
      let targetBytes ← targets.mapM wide
      return 0xaa :: paddingBytes offset ++ defaultBytes ++ write low ++ write high ++
        targetBytes.flatten
  | .lookupSwitch default targets =>
      let defaultBytes ← wide default
      let sorted := targets.mergeSort fun left right => left.1 ≤ right.1
      let targetBytes ← sorted.mapM fun (key, target) => do
        return write key ++ (← wide target)
      return 0xab :: paddingBytes offset ++ defaultBytes ++
        write (Int32.ofNat targets.length) ++ targetBytes.flatten
  | .field access _ => return withConstant access.opcode item.constant
  | .invoke .interface method =>
      return withConstant CallKind.interface.opcode item.constant ++
        [(method.type.parameterSlots true).toUInt8, 0]
  | .invoke kind _ => return withConstant kind.opcode item.constant
  | .invokeDynamic _ => return withConstant 0xba item.constant ++ [0, 0]
  | .new _ => return withConstant 0xbb item.constant
  | .newArray element => return [0xbc, element.arrayCode]
  | .newRefArray _ => return withConstant 0xbd item.constant
  | .checkCast _ => return withConstant 0xc0 item.constant
  | .instanceOf _ => return withConstant 0xc1 item.constant
  | .newMultiArray _ dimensions => return withConstant 0xc5 item.constant ++ [dimensions]

/-! ## Encoding -/

/-- The bytecode of a list of instructions. -/
structure EncodedCode where
  bytes : Bytes
  /-- The offsets of the instructions and, last, the length of the code. -/
  offsets : Array Nat
  /-- The conditional jumps that were written as two jumps. -/
  widened : List Nat
deriving Repr

/-- Lays linked instructions out and writes them. -/
def encodeLinked (range : JumpRange) (items : Array Linked) :
    Except BytecodeError EncodedCode := do
  let (offsets, far) ← relax range items (items.size + 1) (Array.replicate items.size false)
  let length := offsets.back?.getD 0
  if maxCodeLength < length then throw (.codeTooLong length)
  let placed := items.zip far
  let chunks ← placed.mapIdxM fun index (item, far) =>
    item.bytes offsets (offsets.getD index 0) far
  let widened := (List.range placed.size).filter fun index =>
    match placed[index]? with
    | some (item, far) => far && item.instruction.isBranch
    | none => false
  return { bytes := chunks.toList.flatten, offsets, widened }

/-- Encodes instructions with short jumps over the given distances only. -/
def encodeWithin (range : JumpRange) (instructions : Array (Instruction Nat)) :
    PoolM EncodedCode := do
  let items ← instructions.mapM fun instruction => do
    return ({ instruction, constant := ← instruction.internConstant } : Linked)
  MonadExcept.ofExcept (encodeLinked range items)

/-- Encodes instructions; their jump targets are indices of instructions. -/
def encode (instructions : Array (Instruction Nat)) : PoolM EncodedCode :=
  encodeWithin JumpRange.short instructions

end ClosureConversion
