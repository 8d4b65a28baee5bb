import ClosureConversion.Code.Body
import ClosureConversion.Code.Decoding
import ClosureConversion.ClassFile.Basic

/-!
Contract: methods with a body.

Owns:
- a method with its body, its owner and its signature;
- which variable of the source a slot holds at an instruction, and which line an
  instruction belongs to;
- reading a method of a class file.

Does not own: writing a method back into a class file.
-/

namespace ClosureConversion

/-- A method with a body. Positions are indices of instructions; `maxLocals` is a lower
bound on the slots its code gets. -/
structure Method extends CodeBody Nat where
  owner : BinaryName
  flags : MethodFlags
  name : UnqualifiedName
  type : MethodType
  /-- Whether its class file lists its variables, if only an empty list. -/
  hasVariableTable : Bool
  maxLocals : UInt16
deriving DecidableEq, Repr

namespace Method

/-- The method with a newly written body. -/
def ofBody (owner : BinaryName) (flags : MethodFlags) (name : UnqualifiedName)
    (type : MethodType) (body : CodeBody Nat) : Method :=
  { body with owner, flags, name, type, hasVariableTable := !body.localVariables.isEmpty, maxLocals := 0 }

/-- Whether the method has no receiver. -/
def isStatic (method : Method) : Bool :=
  method.flags.contains MethodFlags.accStatic

/-- Whether the method is a constructor. -/
def isConstructor (method : Method) : Bool :=
  method.name = UnqualifiedName.init

/-- How many slots the receiver and the parameters take. -/
def parameterSlots (method : Method) : UInt16 :=
  (method.type.parameterSlots !method.isStatic).toUInt16

/-! ## Debug information -/

/-- The variable that a slot holds at an instruction. -/
def variableAt? (method : Method) (slot : UInt16) (index : Nat) : Option (LocalVariable Nat) :=
  method.localVariables.find? fun entry =>
    entry.slot = slot && entry.start ≤ index && index < entry.stop

/-- The variable that a store into a slot assigns: its scope may begin only after the
store. -/
def variableStoredAt? (method : Method) (slot : UInt16) (index : Nat) :
    Option (LocalVariable Nat) :=
  match method.variableAt? slot index with
  | some entry => some entry
  | none => method.variableAt? slot (index + 1)

/-- The line that an instruction belongs to, for lines in the order of their starts. -/
def lineAt? (method : Method) (index : Nat) : Option UInt16 :=
  ((method.lines.toList.takeWhile fun line => line.start ≤ index).getLast?).map SourceLine.line

/-! ## Reading -/

/-- The index of an offset in decoded code. -/
def indexOf (code : DecodedCode) (offset : Nat) : Except BytecodeError Nat :=
  match code.indexOf? offset with
  | some index => .ok index
  | none => .error (.invalidJumpTarget offset)

/-- An exception handler of decoded code. -/
def readHandler (code : DecodedCode) (pool : ConstantPool) (entry : ExceptionEntry) :
    Except BytecodeError (ExceptionRange Nat) := do
  let catchType ←
    if entry.catchType = 0 then pure none
    else some <$> BinaryName.resolve pool entry.catchType
  let start ← indexOf code entry.start.toNat
  let stop ← indexOf code entry.stop.toNat
  let handler ← indexOf code entry.handler.toNat
  return { start, stop, handler, catchType }

/-- A variable of decoded code. -/
def readVariable (code : DecodedCode) (pool : ConstantPool) (entry : VariableEntry) :
    Except BytecodeError (LocalVariable Nat) := do
  let name ← pool.text entry.name
  let start ← indexOf code entry.start.toNat
  let stop ← indexOf code (entry.start.toNat + entry.length.toNat)
  let name ← UnqualifiedName.ofClassFile name
  let descriptor ← pool.text entry.descriptor
  let type ← FieldType.ofClassFile descriptor
  return { start, stop, name, type, slot := entry.slot }

/-- The lines of one attribute of decoded code, if it is a table of lines. -/
def readLines (code : DecodedCode) (pool : ConstantPool) (entry : Attribute) :
    Except BytecodeError (List (SourceLine Nat)) := do
  if entry.holds pool LineTable then
    let table ← entry.contents LineTable
    table.entries.mapM fun line => do
      let start ← indexOf code line.start.toNat
      return { start, line := line.line }
  else
    return []

/-- Reads the body of a method. Of several tables of variables the first one counts, of
several tables of lines all of them. -/
def readBody (code : CodeAttribute) (pool : ConstantPool) :
    Except BytecodeError (CodeBody Nat × Bool) := do
  let decoded ← decodeCode code.bytes pool
  let handlers ← code.exceptions.mapM (readHandler decoded pool)
  let table? ← Attribute.find? code.attributes pool VariableTable
  let localVariables ← ((table?.map VariableTable.entries).getD []).mapM (readVariable decoded pool)
  let lines ← code.attributes.mapM (readLines decoded pool)
  let sorted := lines.flatten.mergeSort fun left right => left.start ≤ right.start
  return ({
    instructions := decoded.instructions
    handlers := handlers.toArray
    localVariables := localVariables.toArray
    lines := sorted.toArray }, table?.isSome)

/-- Reads a method of a class file, if it has a body. -/
def ofMember? (file : ClassFile) (member : Member .method) :
    Except BytecodeError (Option Method) := do
  match ← member.code? file.pool with
  | none => return none
  | some code =>
      let (name, type) ← file.methodSignature member
      let owner ← file.thisName
      let (body, hasVariableTable) ← readBody code file.pool
      return some
        { body with owner, flags := member.flags, name, type, hasVariableTable,
                    maxLocals := code.maxLocals }

end Method

end ClosureConversion
