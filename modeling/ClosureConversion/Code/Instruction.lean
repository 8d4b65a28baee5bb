import ClosureConversion.Reference

/-!
Contract: the instructions of a method.

Owns:
- the kinds of values that variables, arrays and operations tell apart;
- the instructions, over any type of jump labels, with the several encodings of one
  instruction joined into one form;
- where control goes after an instruction, and what its mnemonic is.

Does not own: how instructions are encoded, or what they do to the operand stack.
-/

namespace ClosureConversion

/-- The kinds of values that local variables tell apart. -/
inductive LocalKind where
  | int
  | long
  | float
  | double
  | reference
deriving DecidableEq, Hashable, Repr

namespace LocalKind

/-- The kind of the values of a type. -/
def ofType : FieldType → LocalKind
  | .base .long => .long
  | .base .float => .float
  | .base .double => .double
  | .base _ => .int
  | .ref _ => .reference

/-- How many slots a value takes. -/
def slots : LocalKind → Nat
  | .long => 2
  | .double => 2
  | _ => 1

/-- The letter that mnemonics of the kind begin with. -/
def letter : LocalKind → String
  | .int => "i"
  | .long => "l"
  | .float => "f"
  | .double => "d"
  | .reference => "a"

end LocalKind

/-- The kinds of numbers that operations tell apart. -/
inductive NumericKind where
  | int
  | long
  | float
  | double
deriving DecidableEq, Hashable, Repr

/-- Numbers as the values of local variables. -/
def NumericKind.toLocal : NumericKind → LocalKind
  | .int => .int
  | .long => .long
  | .float => .float
  | .double => .double

/-- The kinds of integers that operations tell apart. -/
inductive IntegerKind where
  | int
  | long
deriving DecidableEq, Hashable, Repr

/-- Integers as the values of local variables. -/
def IntegerKind.toLocal : IntegerKind → LocalKind
  | .int => .int
  | .long => .long

/-- The kinds of arrays that array instructions tell apart. -/
inductive ArrayKind where
  | int
  | long
  | float
  | double
  | reference
  | byte
  | char
  | short
deriving DecidableEq, Hashable, Repr

namespace ArrayKind

/-- The kind of the arrays with elements of a type. -/
def ofElement : FieldType → ArrayKind
  | .base .int => .int
  | .base .long => .long
  | .base .float => .float
  | .base .double => .double
  | .base .byte => .byte
  | .base .boolean => .byte
  | .base .char => .char
  | .base .short => .short
  | .ref _ => .reference

/-- What a local variable that holds an element has to be. -/
def toLocal : ArrayKind → LocalKind
  | .long => .long
  | .float => .float
  | .double => .double
  | .reference => .reference
  | _ => .int

/-- The letter that mnemonics of the kind begin with. -/
def letter : ArrayKind → String
  | .int => "i"
  | .long => "l"
  | .float => "f"
  | .double => "d"
  | .reference => "a"
  | .byte => "b"
  | .char => "c"
  | .short => "s"

end ArrayKind

/-- Instructions that only rearrange the operand stack. -/
inductive StackOperation where
  | pop
  | pop2
  | dup
  | dupX1
  | dupX2
  | dup2
  | dup2X1
  | dup2X2
  | swap
deriving DecidableEq, Hashable, Repr

/-- Operations on two numbers of one kind. -/
inductive Arithmetic where
  | add
  | subtract
  | multiply
  | divide
  | remainder
deriving DecidableEq, Hashable, Repr

/-- Shifts of an integer. -/
inductive Shift where
  | left
  | arithmeticRight
  | logicalRight
deriving DecidableEq, Hashable, Repr

/-- Operations on the bits of two integers of one kind. -/
inductive Bitwise where
  | and
  | or
  | xor
deriving DecidableEq, Hashable, Repr

/-- Conversions between kinds of numbers, and of an `int` to the range of a narrower
type. -/
inductive Conversion where
  | intToLong
  | intToFloat
  | intToDouble
  | longToInt
  | longToFloat
  | longToDouble
  | floatToInt
  | floatToLong
  | floatToDouble
  | doubleToInt
  | doubleToLong
  | doubleToFloat
  | intToByte
  | intToChar
  | intToShort
deriving DecidableEq, Hashable, Repr

namespace Conversion

/-- What is converted. -/
def source : Conversion → NumericKind
  | .longToInt | .longToFloat | .longToDouble => .long
  | .floatToInt | .floatToLong | .floatToDouble => .float
  | .doubleToInt | .doubleToLong | .doubleToFloat => .double
  | _ => .int

/-- What the result is. -/
def target : Conversion → NumericKind
  | .intToLong | .floatToLong | .doubleToLong => .long
  | .intToFloat | .longToFloat | .doubleToFloat => .float
  | .intToDouble | .longToDouble | .floatToDouble => .double
  | _ => .int

end Conversion

/-- What a comparison of floating-point numbers gives if one of them is no number. -/
inductive UnorderedResult where
  | less
  | greater
deriving DecidableEq, Hashable, Repr

/-- Instructions without operands. -/
inductive Operation where
  | nop
  | pushNull
  | arrayLoad (kind : ArrayKind)
  | arrayStore (kind : ArrayKind)
  | stack (operation : StackOperation)
  | arithmetic (operation : Arithmetic) (kind : NumericKind)
  | negate (kind : NumericKind)
  | shift (direction : Shift) (kind : IntegerKind)
  | bitwise (operation : Bitwise) (kind : IntegerKind)
  | convert (conversion : Conversion)
  | compareLong
  | compareFloat (unordered : UnorderedResult)
  | compareDouble (unordered : UnorderedResult)
  /-- Leaves the method, with a value unless the kind is missing. -/
  | leave (kind : Option LocalKind)
  | throw
  | arrayLength
  | monitorEnter
  | monitorExit
deriving DecidableEq, Hashable, Repr

/-- Comparisons by order. -/
inductive Comparison where
  | equal
  | notEqual
  | less
  | greaterOrEqual
  | greater
  | lessOrEqual
deriving DecidableEq, Hashable, Repr

/-- The comparison that holds exactly when the given one does not. -/
def Comparison.negate : Comparison → Comparison
  | .equal => .notEqual
  | .notEqual => .equal
  | .less => .greaterOrEqual
  | .greaterOrEqual => .less
  | .greater => .lessOrEqual
  | .lessOrEqual => .greater

/-- Comparisons by identity. -/
inductive Identity where
  | same
  | different
deriving DecidableEq, Hashable, Repr

/-- The comparison that holds exactly when the given one does not. -/
def Identity.negate : Identity → Identity
  | .same => .different
  | .different => .same

/-- When a conditional jump is taken. -/
inductive Condition where
  /-- An integer compares with zero in this way. -/
  | zero (comparison : Comparison)
  /-- Two integers compare in this way. -/
  | ints (comparison : Comparison)
  /-- Two references compare in this way. -/
  | references (comparison : Identity)
  /-- A reference compares with null in this way. -/
  | null (comparison : Identity)
deriving DecidableEq, Hashable, Repr

/-- The condition that holds exactly when the given one does not. -/
def Condition.negate : Condition → Condition
  | .zero comparison => .zero comparison.negate
  | .ints comparison => .ints comparison.negate
  | .references comparison => .references comparison.negate
  | .null comparison => .null comparison.negate

@[simp] theorem Condition.negate_negate
    (condition : Condition) :
    condition.negate.negate = condition := by
  cases condition <;> rename_i comparison <;> cases comparison <;> rfl

/-- How a method is called. -/
inductive CallKind where
  | virtual
  | special
  | static
  | interface
deriving DecidableEq, Hashable, Repr

/-- Whether the call takes a receiver off the stack. -/
def CallKind.hasReceiver : CallKind → Bool
  | .static => false
  | _ => true

/-- An instruction with its jump targets as labels. The constants that several
encodings push are joined, as are the short and long forms of variable accesses and
jumps. -/
inductive Instruction (Label : Type) where
  | op (operation : Operation)
  | pushInt (value : Int32)
  | pushLong (value : Int64)
  | pushFloat (bits : UInt32)
  | pushDouble (bits : UInt64)
  | pushLiteral (literal : Literal)
  | load (kind : LocalKind) (slot : UInt16)
  | store (kind : LocalKind) (slot : UInt16)
  | increment (slot : UInt16) (amount : Int16)
  | branch (condition : Condition) (target : Label)
  | goto (target : Label)
  | tableSwitch (default : Label) (low : Int32) (targets : List Label)
  | lookupSwitch (default : Label) (targets : List (Int32 × Label))
  | field (access : FieldAccess) (member : FieldRef)
  | invoke (kind : CallKind) (method : MethodRef)
  | invokeDynamic (call : DynamicCall)
  | new (name : BinaryName)
  | newArray (element : BaseType)
  | newRefArray (element : RefType)
  | checkCast (type : RefType)
  | instanceOf (type : RefType)
  | newMultiArray (type : RefType) (dimensions : UInt8)
deriving DecidableEq, Repr

namespace Instruction

variable {Label Target : Type}

/-- The labels that the instruction may jump to; the default of a switch comes
first. -/
def targets : Instruction Label → List Label
  | .branch _ target => [target]
  | .goto target => [target]
  | .tableSwitch default _ targets => default :: targets
  | .lookupSwitch default targets => default :: targets.map Prod.snd
  | _ => []

/-- Whether control may go on to the next instruction. -/
def fallsThrough : Instruction Label → Bool
  | .goto _ => false
  | .tableSwitch _ _ _ => false
  | .lookupSwitch _ _ => false
  | .op (.leave _) => false
  | .op .throw => false
  | _ => true

/-- Whether the instruction jumps on a condition. -/
def isBranch : Instruction Label → Bool
  | .branch _ _ => true
  | _ => false

/-- The instruction with every label replaced. -/
def map (f : Label → Target) : Instruction Label → Instruction Target
  | .op operation => .op operation
  | .pushInt value => .pushInt value
  | .pushLong value => .pushLong value
  | .pushFloat bits => .pushFloat bits
  | .pushDouble bits => .pushDouble bits
  | .pushLiteral literal => .pushLiteral literal
  | .load kind slot => .load kind slot
  | .store kind slot => .store kind slot
  | .increment slot amount => .increment slot amount
  | .branch condition target => .branch condition (f target)
  | .goto target => .goto (f target)
  | .tableSwitch default low targets => .tableSwitch (f default) low (targets.map f)
  | .lookupSwitch default targets =>
      .lookupSwitch (f default) (targets.map fun (key, target) => (key, f target))
  | .field access member => .field access member
  | .invoke kind method => .invoke kind method
  | .invokeDynamic call => .invokeDynamic call
  | .new name => .new name
  | .newArray element => .newArray element
  | .newRefArray element => .newRefArray element
  | .checkCast type => .checkCast type
  | .instanceOf type => .instanceOf type
  | .newMultiArray type dimensions => .newMultiArray type dimensions

end Instruction

/-! ## Mnemonics -/

namespace StackOperation

/-- The mnemonic of an operation. -/
def mnemonic : StackOperation → String
  | .pop => "pop"
  | .pop2 => "pop2"
  | .dup => "dup"
  | .dupX1 => "dup_x1"
  | .dupX2 => "dup_x2"
  | .dup2 => "dup2"
  | .dup2X1 => "dup2_x1"
  | .dup2X2 => "dup2_x2"
  | .swap => "swap"

end StackOperation

namespace Operation

/-- The name of an operation on numbers, without the letter of their kind. -/
def arithmeticName : Arithmetic → String
  | .add => "add"
  | .subtract => "sub"
  | .multiply => "mul"
  | .divide => "div"
  | .remainder => "rem"

/-- The name of a shift, without the letter of its kind. -/
def shiftName : Shift → String
  | .left => "shl"
  | .arithmeticRight => "shr"
  | .logicalRight => "ushr"

/-- The name of an operation on bits, without the letter of its kind. -/
def bitwiseName : Bitwise → String
  | .and => "and"
  | .or => "or"
  | .xor => "xor"

/-- The mnemonic of a conversion. -/
def conversionName : Conversion → String
  | .intToByte => "i2b"
  | .intToChar => "i2c"
  | .intToShort => "i2s"
  | conversion => conversion.source.toLocal.letter ++ "2" ++ conversion.target.toLocal.letter

/-- The letter of what a comparison gives if one of the numbers is no number. -/
def unorderedLetter : UnorderedResult → String
  | .less => "l"
  | .greater => "g"

/-- The mnemonic of an instruction without operands. -/
def mnemonic : Operation → String
  | .nop => "nop"
  | .pushNull => "aconst_null"
  | .arrayLoad kind => kind.letter ++ "aload"
  | .arrayStore kind => kind.letter ++ "astore"
  | .stack operation => operation.mnemonic
  | .arithmetic operation kind => kind.toLocal.letter ++ arithmeticName operation
  | .negate kind => kind.toLocal.letter ++ "neg"
  | .shift direction kind => kind.toLocal.letter ++ shiftName direction
  | .bitwise operation kind => kind.toLocal.letter ++ bitwiseName operation
  | .convert conversion => conversionName conversion
  | .compareLong => "lcmp"
  | .compareFloat unordered => "fcmp" ++ unorderedLetter unordered
  | .compareDouble unordered => "dcmp" ++ unorderedLetter unordered
  | .leave none => "return"
  | .leave (some kind) => kind.letter ++ "return"
  | .throw => "athrow"
  | .arrayLength => "arraylength"
  | .monitorEnter => "monitorenter"
  | .monitorExit => "monitorexit"

end Operation

namespace Condition

/-- The two letters of a comparison by order. -/
def comparisonName : Comparison → String
  | .equal => "eq"
  | .notEqual => "ne"
  | .less => "lt"
  | .greaterOrEqual => "ge"
  | .greater => "gt"
  | .lessOrEqual => "le"

/-- The mnemonic of the jump that is taken on the condition. -/
def mnemonic : Condition → String
  | .zero comparison => "if" ++ comparisonName comparison
  | .ints comparison => "if_icmp" ++ comparisonName comparison
  | .references .same => "if_acmpeq"
  | .references .different => "if_acmpne"
  | .null .same => "ifnull"
  | .null .different => "ifnonnull"

end Condition

/-- The mnemonic of an access to a field. -/
def FieldAccess.mnemonic : FieldAccess → String
  | .getField => "getfield"
  | .getStatic => "getstatic"
  | .putField => "putfield"
  | .putStatic => "putstatic"

/-- The mnemonic of a call. -/
def CallKind.mnemonic : CallKind → String
  | .virtual => "invokevirtual"
  | .special => "invokespecial"
  | .static => "invokestatic"
  | .interface => "invokeinterface"

/-- The mnemonic of an instruction; the several encodings of one share a mnemonic. -/
def Instruction.mnemonic {Label : Type} : Instruction Label → String
  | .op operation => operation.mnemonic
  | .pushInt _ => "iconst"
  | .pushLong _ => "lconst"
  | .pushFloat _ => "fconst"
  | .pushDouble _ => "dconst"
  | .pushLiteral _ => "ldc"
  | .load kind _ => kind.letter ++ "load"
  | .store kind _ => kind.letter ++ "store"
  | .increment _ _ => "iinc"
  | .branch condition _ => condition.mnemonic
  | .goto _ => "goto"
  | .tableSwitch _ _ _ => "tableswitch"
  | .lookupSwitch _ _ => "lookupswitch"
  | .field access _ => access.mnemonic
  | .invoke kind _ => kind.mnemonic
  | .invokeDynamic _ => "invokedynamic"
  | .new _ => "new"
  | .newArray _ => "newarray"
  | .newRefArray _ => "anewarray"
  | .checkCast _ => "checkcast"
  | .instanceOf _ => "instanceof"
  | .newMultiArray _ _ => "multianewarray"

end ClosureConversion
