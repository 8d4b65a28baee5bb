import ClosureConversion.Code.Encoding
import ClosureConversion.PartitionPoint

/-!
Contract: reading bytecode as instructions.

Owns:
- the reader of one instruction, whose jump targets are offsets;
- reading whole code, in which jump targets become indices of instructions;
- what is wrong with bytes that are no code.

Does not own: whether the instructions make sense together.
-/

namespace ClosureConversion

/-- A place in the code of a method and the bytes from there on. -/
structure CodeCursor where
  offset : Nat
  rest : Bytes
deriving Repr

/-- Takes something off the bytes at a cursor, which is moved past it. -/
abbrev CodeReader (α : Type) := StateT CodeCursor (Except BytecodeError) α

/-- What the reader of an instruction knows: where the instruction starts, how long
the whole code is, and the constants. -/
structure InstructionContext where
  start : Nat
  codeLength : Nat
  pool : ConstantPool

namespace InstructionContext

/-- The end of the code inside an instruction. -/
def truncated (context : InstructionContext) : BytecodeError :=
  .malformedCode context.start "truncated instruction"

/-- A fixed-width operand of so many bytes. -/
def operand {α : Type} [Binary α] (context : InstructionContext) (bytes : Nat) : CodeReader α :=
  fun cursor =>
    match (read : Reader α) cursor.rest with
    | .ok (value, rest) => .ok (value, ⟨cursor.offset + bytes, rest⟩)
    | .error _ => .error context.truncated

def byte (context : InstructionContext) : CodeReader UInt8 := context.operand 1
def signedByte (context : InstructionContext) : CodeReader Int8 := context.operand 1
def short (context : InstructionContext) : CodeReader UInt16 := context.operand 2
def signedShort (context : InstructionContext) : CodeReader Int16 := context.operand 2
def signedWord (context : InstructionContext) : CodeReader Int32 := context.operand 4

/-- The offset at a distance from the instruction, if it is inside the code. -/
def target (context : InstructionContext) (distance : Int) : Except BytecodeError Nat :=
  let absolute := (context.start : Int) + distance
  if absolute < 0 || (context.codeLength : Int) ≤ absolute then
    .error (.invalidJumpTarget absolute.toNat)
  else
    .ok absolute.toNat

/-- A jump target at a distance of two bytes. -/
def shortTarget (context : InstructionContext) : CodeReader Nat := do
  let distance ← context.signedShort
  context.target distance.toInt

/-- A jump target at a distance of four bytes. -/
def wideTarget (context : InstructionContext) : CodeReader Nat := do
  let distance ← context.signedWord
  context.target distance.toInt

/-- Values one after another, prepended to those read before, last one first. -/
def timesFrom {α : Type} (reader : CodeReader α) : Nat → List α → CodeReader (List α)
  | 0, before => fun cursor => .ok (before, cursor)
  | count + 1, before => fun cursor =>
      match reader cursor with
      | .ok (value, cursor) => timesFrom reader count (value :: before) cursor
      | .error error => .error error

/-- As many values as asked for. -/
def times {α : Type} (count : Nat) (reader : CodeReader α) : CodeReader (List α) := do
  let reversed ← timesFrom reader count []
  return reversed.reverse

/-- The bytes between the opcode of a switch and its operands. -/
def padding (context : InstructionContext) : CodeReader Unit := do
  let _ ← times (switchPadding context.start) context.byte
  return ()

/-- The type of the class constant that an operand refers to. -/
def refType (context : InstructionContext) : CodeReader RefType := do
  let index ← context.short
  RefType.resolve context.pool index

/-- The class of the class constant that an operand refers to. -/
def className (context : InstructionContext) : CodeReader BinaryName := do
  let index ← context.short
  BinaryName.resolve context.pool index

/-- The instruction that pushes the constant at a position. -/
def literal (context : InstructionContext) (index : PoolIndex) :
    Except BytecodeError (Instruction Nat) := do
  match ← Literal.resolve context.pool index with
  | .integer value => return .pushInt value
  | .long value => return .pushLong value
  | .float bits => return .pushFloat bits
  | .double bits => return .pushDouble bits
  | literal => return .pushLiteral literal

/-- A switch over a range of keys. -/
def tableSwitch (context : InstructionContext) : CodeReader (Instruction Nat) := do
  context.padding
  let default ← context.wideTarget
  let low ← context.signedWord
  let high ← context.signedWord
  if high < low then
    throw (.malformedCode context.start s!"tableswitch with low {low} above high {high}")
  let targets ← times (high.toInt - low.toInt + 1).toNat context.wideTarget
  return .tableSwitch default low targets

/-- A switch over listed keys. -/
def lookupSwitch (context : InstructionContext) : CodeReader (Instruction Nat) := do
  context.padding
  let default ← context.wideTarget
  let count ← context.signedWord
  let targets ← times count.toInt.toNat do
    let key ← context.signedWord
    let target ← context.wideTarget
    return (key, target)
  return .lookupSwitch default targets

/-- An access to a local variable or an increment with a two-byte slot. -/
def wideAccess (context : InstructionContext) : CodeReader (Instruction Nat) := do
  let opcode ← context.byte
  let slot ← context.short
  if 0x15 ≤ opcode && opcode ≤ 0x19 then return .load (LocalKind.ofCode (opcode - 0x15)) slot
  else if 0x36 ≤ opcode && opcode ≤ 0x3a then
    return .store (LocalKind.ofCode (opcode - 0x36)) slot
  else if opcode = 0x84 then return .increment slot (← context.signedShort)
  else throw (.unsupportedOpcode opcode context.start)

/-- An access to a field. -/
def field (context : InstructionContext) (access : FieldAccess) :
    CodeReader (Instruction Nat) := do
  let index ← context.short
  return .field access (← FieldRef.resolve context.pool index)

/-- A call. The operand count that follows the constant of an interface call is not
looked at. -/
def invoke (context : InstructionContext) (kind : CallKind) : CodeReader (Instruction Nat) := do
  let index ← context.short
  let method ← MethodRef.resolve context.pool index
  if kind = .interface then
    let _ ← context.short
  return .invoke kind method

/-- A dynamic call. -/
def invokeDynamic (context : InstructionContext) : CodeReader (Instruction Nat) := do
  let index ← context.short
  let _ ← context.short
  return .invokeDynamic (← DynamicCall.resolve context.pool index)

/-- What follows an opcode that belongs to no family. -/
def single (context : InstructionContext) (opcode : UInt8) : CodeReader (Instruction Nat) :=
  match opcode with
  | 0x10 => do return .pushInt (← context.signedByte).toInt32
  | 0x11 => do return .pushInt (← context.signedShort).toInt32
  | 0x12 => do context.literal (← context.byte).toUInt16
  | 0x13 => do context.literal (← context.short)
  | 0x14 => do context.literal (← context.short)
  | 0x84 => do
      let slot ← context.byte
      let amount ← context.signedByte
      return .increment slot.toUInt16 amount.toInt16
  | 0xa7 => do return .goto (← context.shortTarget)
  | 0xaa => context.tableSwitch
  | 0xab => context.lookupSwitch
  | 0xb2 => context.field .getStatic
  | 0xb3 => context.field .putStatic
  | 0xb4 => context.field .getField
  | 0xb5 => context.field .putField
  | 0xb6 => context.invoke .virtual
  | 0xb7 => context.invoke .special
  | 0xb8 => context.invoke .static
  | 0xb9 => context.invoke .interface
  | 0xba => context.invokeDynamic
  | 0xbb => do return .new (← context.className)
  | 0xbc => do
      let code ← context.byte
      match BaseType.ofArrayCode? code with
      | some element => return .newArray element
      | none => throw (.malformedCode context.start s!"bad newarray type {code}")
  | 0xbd => do return .newRefArray (← context.refType)
  | 0xc0 => do return .checkCast (← context.refType)
  | 0xc1 => do return .instanceOf (← context.refType)
  | 0xc4 => context.wideAccess
  | 0xc5 => do
      let type ← context.refType
      let dimensions ← context.byte
      return .newMultiArray type dimensions
  | 0xc8 => do return .goto (← context.wideTarget)
  | _ => throw (.unsupportedOpcode opcode context.start)

/-- The access to a local variable whose slot is part of the opcode. -/
def localAccess? (opcode : UInt8) : Option (Instruction Nat) :=
  if 0x1a ≤ opcode && opcode ≤ 0x2d then
    let code := opcode - 0x1a
    some (.load (LocalKind.ofCode (code / 4)) (code % 4).toUInt16)
  else if 0x3b ≤ opcode && opcode ≤ 0x4e then
    let code := opcode - 0x3b
    some (.store (LocalKind.ofCode (code / 4)) (code % 4).toUInt16)
  else
    none

/-- The instruction of an opcode, whose operands are read. -/
def afterOpcode (context : InstructionContext) (opcode : UInt8) : CodeReader (Instruction Nat) :=
  match shortConstant? opcode with
  | some instruction => pure instruction
  | none =>
      match localAccess? opcode with
      | some instruction => pure instruction
      | none =>
          if 0x15 ≤ opcode && opcode ≤ 0x19 then do
            return .load (LocalKind.ofCode (opcode - 0x15)) (← context.byte).toUInt16
          else if 0x36 ≤ opcode && opcode ≤ 0x3a then do
            return .store (LocalKind.ofCode (opcode - 0x36)) (← context.byte).toUInt16
          else
            match Condition.ofOpcode? opcode with
            | some condition => do return .branch condition (← context.shortTarget)
            | none =>
                match Operation.ofOpcode? opcode with
                | some operation => pure (.op operation)
                | none => context.single opcode

/-- The instruction at the cursor; its jump targets are offsets. -/
def instruction (context : InstructionContext) : CodeReader (Instruction Nat) := do
  let opcode ← context.byte
  context.afterOpcode opcode

end InstructionContext

/-- Instructions with the offsets at which they stood and, last, the length of the
code. -/
structure DecodedCode where
  instructions : Array (Instruction Nat)
  offsets : Array Nat
deriving Repr

/-- The index of an offset among increasing offsets. -/
def indexOfOffset? (offsets : Array Nat) (offset : Nat) : Option Nat :=
  let index := partitionPoint (fun index => offsets.getD index 0 < offset) 0 offsets.size
  if offsets[index]? = some offset then some index else none

/-- The instruction at an offset, or the number of instructions for the end of the
code. -/
def DecodedCode.indexOf? (code : DecodedCode) (offset : Nat) : Option Nat :=
  indexOfOffset? code.offsets offset

/-- Reads instructions up to the end of the code. Every one takes a byte at least, so
there are no more of them than bytes. -/
def readInstructions (pool : ConstantPool) (codeLength : Nat) :
    Nat → CodeCursor → Array Nat → Array (Instruction Nat) →
      Except BytecodeError (Array Nat × Array (Instruction Nat))
  | 0, _, offsets, instructions => .ok (offsets, instructions)
  | fuel + 1, cursor, offsets, instructions =>
      if cursor.rest.isEmpty then .ok (offsets, instructions)
      else
        let context : InstructionContext := ⟨cursor.offset, codeLength, pool⟩
        match context.instruction cursor with
        | .ok (instruction, next) =>
            readInstructions pool codeLength fuel next (offsets.push cursor.offset)
              (instructions.push instruction)
        | .error error => .error error

/-- Reads the code of a method. -/
def decodeCode (bytes : Bytes) (pool : ConstantPool) : Except BytecodeError DecodedCode := do
  let length := bytes.length
  let (starts, instructions) ← readInstructions pool length length ⟨0, bytes⟩ #[] #[]
  let isStart (target : Nat) := (indexOfOffset? starts target).isSome
  let badTarget? := instructions.findSome? fun instruction =>
    instruction.targets.find? fun target => !isStart target
  match badTarget? with
  | some target => throw (.invalidJumpTarget target)
  | none =>
      return {
        instructions := instructions.map (·.map fun target =>
          (indexOfOffset? starts target).getD 0)
        offsets := starts.push length }

end ClosureConversion
