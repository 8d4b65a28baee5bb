import ClosureConversion.ClassFile.Attribute

/-!
Contract: the code of a method as it stands in a class file, with its debug
information.

Owns: the code attribute, its exception table, and the tables of line numbers and of
local variables, with their binary forms.

Does not own: what the bytes of the code mean.
-/

namespace ClosureConversion

/-- A range of code from which control goes to a handler when an exception of a class
is thrown. The position zero stands for every class. -/
structure ExceptionEntry where
  start : UInt16
  stop : UInt16
  handler : UInt16
  catchType : PoolIndex
deriving DecidableEq, Repr

instance : Binary ExceptionEntry where
  write entry :=
    write entry.start ++ write entry.stop ++ write entry.handler ++ write entry.catchType
  read := do
    let start ← read
    let stop ← read
    let handler ← read
    let catchType ← read
    return ⟨start, stop, handler, catchType⟩

/-- The code of a method. -/
structure CodeAttribute where
  maxStack : UInt16
  maxLocals : UInt16
  bytes : Bytes
  exceptions : List ExceptionEntry
  attributes : List Attribute
deriving DecidableEq, Repr

/-- The length of the code takes four bytes. -/
instance : AttributeContents CodeAttribute where
  attributeName := "Code"
  write code :=
    write code.maxStack ++ write code.maxLocals ++ write code.bytes.length.toUInt32 ++
      code.bytes ++ write code.exceptions ++ write code.attributes
  read := do
    let maxStack ← read
    let maxLocals ← read
    let length : UInt32 ← read
    let bytes ← Reader.take length.toNat "bytecode"
    let exceptions ← read
    let attributes ← read
    return ⟨maxStack, maxLocals, bytes, exceptions, attributes⟩

/-- The offset from which on code belongs to a line of the source. -/
structure LineEntry where
  start : UInt16
  line : UInt16
deriving DecidableEq, Repr

instance : Binary LineEntry where
  write entry := write entry.start ++ write entry.line
  read := do
    let start ← read
    let line ← read
    return ⟨start, line⟩

/-- The lines of the source that the code of a method belongs to. -/
structure LineTable where
  entries : List LineEntry
deriving DecidableEq, Repr

instance : AttributeContents LineTable where
  attributeName := "LineNumberTable"
  write table := write table.entries
  read := LineTable.mk <$> read

/-- A range of code in which a slot holds a variable of the source. -/
structure VariableEntry where
  start : UInt16
  length : UInt16
  name : PoolIndex
  descriptor : PoolIndex
  slot : UInt16
deriving DecidableEq, Repr

instance : Binary VariableEntry where
  write entry :=
    write entry.start ++ write entry.length ++ write entry.name ++ write entry.descriptor ++
      write entry.slot
  read := do
    let start ← read
    let length ← read
    let name ← read
    let descriptor ← read
    let slot ← read
    return ⟨start, length, name, descriptor, slot⟩

/-- The variables of the source that the slots of a method hold. -/
structure VariableTable where
  entries : List VariableEntry
deriving DecidableEq, Repr

instance : AttributeContents VariableTable where
  attributeName := "LocalVariableTable"
  write table := write table.entries
  read := VariableTable.mk <$> read

end ClosureConversion
