import ClosureConversion.Code.Instruction

/-!
Contract: the numbers by which bytecode tells kinds of values and operations apart.

Owns:
- the codes of kinds, comparisons and array element types;
- the opcode of every instruction without operands, and the instruction of an opcode;
- the one-byte forms of frequent constants.

Does not own: instructions with operands.
-/

namespace ClosureConversion

namespace LocalKind

/-- The kinds in the order of their codes. -/
def all : List LocalKind := [.int, .long, .float, .double, .reference]

def code : LocalKind → UInt8
  | .int => 0
  | .long => 1
  | .float => 2
  | .double => 3
  | .reference => 4

/-- The kind of a code. -/
def ofCode : UInt8 → LocalKind
  | 0 => .int
  | 1 => .long
  | 2 => .float
  | 3 => .double
  | _ => .reference

end LocalKind

namespace ArrayKind

/-- The kinds in the order of their codes. -/
def all : List ArrayKind := [.int, .long, .float, .double, .reference, .byte, .char, .short]

def code : ArrayKind → UInt8
  | .int => 0
  | .long => 1
  | .float => 2
  | .double => 3
  | .reference => 4
  | .byte => 5
  | .char => 6
  | .short => 7

end ArrayKind

namespace NumericKind

/-- The kinds in the order of their codes. -/
def all : List NumericKind := [.int, .long, .float, .double]

end NumericKind

namespace IntegerKind

/-- The kinds in the order of their codes. -/
def all : List IntegerKind := [.int, .long]

end IntegerKind

namespace Comparison

def code : Comparison → UInt8
  | .equal => 0
  | .notEqual => 1
  | .less => 2
  | .greaterOrEqual => 3
  | .greater => 4
  | .lessOrEqual => 5

/-- The comparison of a code. -/
def ofCode : UInt8 → Comparison
  | 0 => .equal
  | 1 => .notEqual
  | 2 => .less
  | 3 => .greaterOrEqual
  | 4 => .greater
  | _ => .lessOrEqual

end Comparison

namespace Identity

def code : Identity → UInt8
  | .same => 0
  | .different => 1

end Identity

namespace Condition

/-- The opcode of the jump that is taken on the condition. -/
def opcode : Condition → UInt8
  | .zero comparison => 0x99 + comparison.code
  | .ints comparison => 0x9f + comparison.code
  | .references comparison => 0xa5 + comparison.code
  | .null comparison => 0xc6 + comparison.code

/-- The condition of the jump with an opcode. -/
def ofOpcode? (opcode : UInt8) : Option Condition :=
  if 0x99 ≤ opcode && opcode ≤ 0x9e then some (.zero (Comparison.ofCode (opcode - 0x99)))
  else if 0x9f ≤ opcode && opcode ≤ 0xa4 then some (.ints (Comparison.ofCode (opcode - 0x9f)))
  else if opcode = 0xa5 then some (.references .same)
  else if opcode = 0xa6 then some (.references .different)
  else if opcode = 0xc6 then some (.null .same)
  else if opcode = 0xc7 then some (.null .different)
  else none

@[simp] theorem ofOpcode?_opcode
    (condition : Condition) :
    ofOpcode? condition.opcode = some condition := by
  cases condition <;> rename_i comparison <;> cases comparison <;> rfl

end Condition

namespace BaseType

/-- The code of an array's element type in the instruction that makes the array. -/
def arrayCode : BaseType → UInt8
  | .boolean => 4
  | .char => 5
  | .float => 6
  | .double => 7
  | .byte => 8
  | .short => 9
  | .int => 10
  | .long => 11

/-- The element type of a code. -/
def ofArrayCode? (code : UInt8) : Option BaseType :=
  all.find? fun type => type.arrayCode = code

@[simp] theorem ofArrayCode?_arrayCode
    (type : BaseType) :
    ofArrayCode? type.arrayCode = some type := by
  cases type <;> rfl

end BaseType

namespace Operation

/-- The instructions that rearrange the operand stack. -/
def allStack : List StackOperation :=
  [.pop, .pop2, .dup, .dupX1, .dupX2, .dup2, .dup2X1, .dup2X2, .swap]

/-- The operations on two numbers of one kind. -/
def allArithmetic : List Arithmetic := [.add, .subtract, .multiply, .divide, .remainder]

/-- The shifts. -/
def allShifts : List Shift := [.left, .arithmeticRight, .logicalRight]

/-- The operations on bits. -/
def allBitwise : List Bitwise := [.and, .or, .xor]

/-- The conversions. -/
def allConversions : List Conversion :=
  [.intToLong, .intToFloat, .intToDouble, .longToInt, .longToFloat, .longToDouble, .floatToInt,
    .floatToLong, .floatToDouble, .doubleToInt, .doubleToLong, .doubleToFloat, .intToByte,
    .intToChar, .intToShort]

/-- The instructions without operands that belong to no family. -/
def allSingle : List Operation :=
  [.nop, .pushNull, .compareLong, .compareFloat .less, .compareFloat .greater,
    .compareDouble .less, .compareDouble .greater, .leave none, .throw, .arrayLength,
    .monitorEnter, .monitorExit]

/-- Every instruction without operands. -/
def all : List Operation :=
  List.flatten
    [allSingle,
      ArrayKind.all.map arrayLoad,
      ArrayKind.all.map arrayStore,
      allStack.map stack,
      allArithmetic.flatMap fun operation => NumericKind.all.map (arithmetic operation),
      NumericKind.all.map negate,
      allShifts.flatMap fun direction => IntegerKind.all.map (shift direction),
      allBitwise.flatMap fun operation => IntegerKind.all.map (bitwise operation),
      allConversions.map convert,
      LocalKind.all.map fun kind => leave (some kind)]

/-- The code of an operation on two numbers, for the kind with the lowest code. -/
def arithmeticOpcode : Arithmetic → UInt8
  | .add => 0x60
  | .subtract => 0x64
  | .multiply => 0x68
  | .divide => 0x6c
  | .remainder => 0x70

/-- The opcode of a shift of an `int`. -/
def shiftOpcode : Shift → UInt8
  | .left => 0x78
  | .arithmeticRight => 0x7a
  | .logicalRight => 0x7c

/-- The opcode of an operation on the bits of two `int`s. -/
def bitwiseOpcode : Bitwise → UInt8
  | .and => 0x7e
  | .or => 0x80
  | .xor => 0x82

/-- The opcode of a conversion. -/
def conversionOpcode : Conversion → UInt8
  | .intToLong => 0x85
  | .intToFloat => 0x86
  | .intToDouble => 0x87
  | .longToInt => 0x88
  | .longToFloat => 0x89
  | .longToDouble => 0x8a
  | .floatToInt => 0x8b
  | .floatToLong => 0x8c
  | .floatToDouble => 0x8d
  | .doubleToInt => 0x8e
  | .doubleToLong => 0x8f
  | .doubleToFloat => 0x90
  | .intToByte => 0x91
  | .intToChar => 0x92
  | .intToShort => 0x93

/-- The opcode of an instruction that rearranges the operand stack. -/
def stackOpcode : StackOperation → UInt8
  | .pop => 0x57
  | .pop2 => 0x58
  | .dup => 0x59
  | .dupX1 => 0x5a
  | .dupX2 => 0x5b
  | .dup2 => 0x5c
  | .dup2X1 => 0x5d
  | .dup2X2 => 0x5e
  | .swap => 0x5f

/-- The opcode of an instruction without operands. -/
def opcode : Operation → UInt8
  | .nop => 0x00
  | .pushNull => 0x01
  | .arrayLoad kind => 0x2e + kind.code
  | .arrayStore kind => 0x4f + kind.code
  | .stack operation => stackOpcode operation
  | .arithmetic operation kind => arithmeticOpcode operation + kind.toLocal.code
  | .negate kind => 0x74 + kind.toLocal.code
  | .shift direction kind => shiftOpcode direction + kind.toLocal.code
  | .bitwise operation kind => bitwiseOpcode operation + kind.toLocal.code
  | .convert conversion => conversionOpcode conversion
  | .compareLong => 0x94
  | .compareFloat .less => 0x95
  | .compareFloat .greater => 0x96
  | .compareDouble .less => 0x97
  | .compareDouble .greater => 0x98
  | .leave (some kind) => 0xac + kind.code
  | .leave none => 0xb1
  | .throw => 0xbf
  | .arrayLength => 0xbe
  | .monitorEnter => 0xc2
  | .monitorExit => 0xc3

/-- The instruction without operands that has an opcode. -/
def ofOpcode? (opcode : UInt8) : Option Operation :=
  all.find? fun operation => operation.opcode = opcode

end Operation

/-- The opcode of an access to a field. -/
def FieldAccess.opcode : FieldAccess → UInt8
  | .getStatic => 0xb2
  | .putStatic => 0xb3
  | .getField => 0xb4
  | .putField => 0xb5

/-- The opcode of a call. -/
def CallKind.opcode : CallKind → UInt8
  | .virtual => 0xb6
  | .special => 0xb7
  | .static => 0xb8
  | .interface => 0xb9

/-! ## Frequent constants -/

/-- The one-byte form of an `int`, which those from minus one to five have. -/
def shortIntOpcode? (value : Int32) : Option UInt8 :=
  if -1 ≤ value.toInt && value.toInt ≤ 5 then some (0x03 + value.toUInt32.toUInt8) else none

/-- The one-byte form of a `long`, which zero and one have. -/
def shortLongOpcode? (value : Int64) : Option UInt8 :=
  if value = 0 then some 0x09
  else if value = 1 then some 0x0a
  else none

/-- The one-byte form of a `float`, which positive zero, one and two have. -/
def shortFloatOpcode? (bits : UInt32) : Option UInt8 :=
  if bits = 0 then some 0x0b
  else if bits = 0x3F800000 then some 0x0c
  else if bits = 0x40000000 then some 0x0d
  else none

/-- The one-byte form of a `double`, which positive zero and one have. -/
def shortDoubleOpcode? (bits : UInt64) : Option UInt8 :=
  if bits = 0 then some 0x0e
  else if bits = 0x3FF0000000000000 then some 0x0f
  else none

/-- The constant that a one-byte form pushes. -/
def shortConstant? {Label : Type} : UInt8 → Option (Instruction Label)
  | 0x02 => some (.pushInt (-1))
  | 0x03 => some (.pushInt 0)
  | 0x04 => some (.pushInt 1)
  | 0x05 => some (.pushInt 2)
  | 0x06 => some (.pushInt 3)
  | 0x07 => some (.pushInt 4)
  | 0x08 => some (.pushInt 5)
  | 0x09 => some (.pushLong 0)
  | 0x0a => some (.pushLong 1)
  | 0x0b => some (.pushFloat 0)
  | 0x0c => some (.pushFloat 0x3F800000)
  | 0x0d => some (.pushFloat 0x40000000)
  | 0x0e => some (.pushDouble 0)
  | 0x0f => some (.pushDouble 0x3FF0000000000000)
  | _ => none

end ClosureConversion
