import ClosureConversion.ClassFile.Constant

/-!
Contract: what can be wrong with a class file or with the code of a method.

Owns: the causes, and the wording of each.

Does not own: what can be wrong with the closures of a class.
-/

namespace ClosureConversion

/-- What is wrong with an instruction where it is executed. -/
inductive FlowError where
  | emptyStack
  /-- A value of this many slots stands where the other width is needed. -/
  | invalidWidth (slots : Nat)
  | notArrayType
  /-- There is no local variable in the slot. -/
  | invalidIndex (slot : UInt16)
  | invalidType
  | incompatibleStacks
  /-- No path leads to the instruction of this index. -/
  | unreachableCode (index : Nat)
  /-- The instructions go on after the last one. -/
  | fallsOffEnd
deriving DecidableEq, Repr

namespace FlowError

/-- The name of a cause in messages. -/
def title : FlowError → String
  | .emptyStack => "EmptyStack"
  | .invalidWidth slots => s!"InvalidWidth({slots})"
  | .notArrayType => "NotArrayType"
  | .invalidIndex slot => s!"InvalidIndex({slot})"
  | .invalidType => "InvalidType"
  | .incompatibleStacks => "IncompatibleStacks"
  | .unreachableCode index => s!"UnreachableCode({index})"
  | .fallsOffEnd => "FallsOffEnd"

end FlowError

/-- What is wrong with a class file or with the code of a method. -/
inductive BytecodeError where
  /-- The bytes end inside a number. -/
  | shortRead
  | badMagic (magic : UInt32)
  /-- The bytes end inside a part whose length was given before it. -/
  | prematureEnd (part : String)
  | poolOverflow (constant : Constant) (offset : UInt16)
  | badConstant (index : PoolIndex) (expected : String)
  | badDescriptor (complaint : String)
  | unsupportedOpcode (opcode : UInt8) (offset : Nat)
  | malformedCode (offset : Nat) (complaint : String)
  | codeTooLong (bytes : Nat)
  | stackTooDeep (slots : Nat)
  | tooManyLocals (slots : Nat)
  | invalidJumpTarget (index : Nat)
  | flow (index : Nat) (instruction : String) (cause : FlowError)
  | missingClass (name : String)
  /-- The class is above itself, and a walk along its superclasses or interfaces never ends. -/
  | circularHierarchy (name : String)
  /-- The frames of a method did not settle. -/
  | unsettledFrames
deriving DecidableEq, Repr

namespace BytecodeError

/-- The wording of an error. -/
def message : BytecodeError → String
  | .shortRead => "I/O error: failed to fill whole buffer"
  | .badMagic magic =>
      s!"bad class file magic 0x{Text.zeroPadded 8 (Text.hexDigits magic.toNat)}"
  | .prematureEnd part => s!"unexpected end of input reading {part}"
  | .poolOverflow constant offset =>
      s!"constant pool overflow at offset {offset} inserting {constant.describe}"
  | .badConstant index expected => s!"constant #{index} is not a valid {expected}"
  | .badDescriptor complaint => s!"bad descriptor: {complaint}"
  | .unsupportedOpcode opcode offset =>
      s!"unsupported opcode 0x{Text.zeroPadded 2 (Text.hexDigits opcode.toNat)} " ++
        s!"at bytecode offset {offset}"
  | .malformedCode offset complaint => s!"malformed code at bytecode offset {offset}: {complaint}"
  | .codeTooLong bytes => s!"method code is too long ({bytes} bytes)"
  | .stackTooDeep slots => s!"method operand stack is too deep ({slots})"
  | .tooManyLocals slots => s!"method uses too many locals ({slots})"
  | .invalidJumpTarget index => s!"invalid jump target {index}"
  | .flow index instruction cause =>
      s!"flow analysis failed at instruction {index} ({instruction}): {cause.title}"
  | .missingClass name => s!"cannot resolve class {name}"
  | .circularHierarchy name => s!"class {name} is above itself"
  | .unsettledFrames => "flow analysis does not settle"

end BytecodeError

end ClosureConversion
