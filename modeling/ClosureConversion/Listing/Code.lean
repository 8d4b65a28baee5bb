import Std.Data.HashMap
import ClosureConversion.Code.Opcode
import ClosureConversion.Listing.Constant
import ClosureConversion.Method.Basic

/-!
Contract: instructions, bodies and methods in listings.

Owns: the listed form of each, and reading it. An instruction is listed by its mnemonic
and its operands.
-/

namespace ClosureConversion.Listing

/-! ## Instructions -/

/-- The operands of an instruction. -/
def operands {Label : Type} [ToData Label] : Instruction Label → List Data
  | .op _ => []
  | .pushInt value => [toData value]
  | .pushLong value => [toData value]
  | .pushFloat value => [bits 8 value.toNat]
  | .pushDouble value => [bits 16 value.toNat]
  | .pushLiteral literal => [toData literal]
  | .load _ slot => [toData slot]
  | .store _ slot => [toData slot]
  | .increment slot amount => [toData slot, toData amount]
  | .branch _ target => [toData target]
  | .goto target => [toData target]
  | .tableSwitch default low targets => [toData default, toData low, toData targets]
  | .lookupSwitch default targets => [toData default, toData targets]
  | .field _ member => fieldRef member
  | .invoke _ method => methodRef method
  | .invokeDynamic call => dynamicCall call
  | .new name => [toData name]
  | .newArray element => [toData element]
  | .newRefArray element => [toData element]
  | .checkCast type => [toData type]
  | .instanceOf type => [toData type]
  | .newMultiArray type dimensions => [toData type, toData dimensions]

/-- An instruction without operands is listed as a bare mnemonic. -/
instance {Label : Type} [ToData Label] : ToData (Instruction Label) where
  toData instruction :=
    match operands instruction with
    | [] => toData instruction.mnemonic
    | operands => .list (toData instruction.mnemonic :: operands)

/-- The families of instructions whose mnemonics are looked up. -/
inductive Family where
  | op (operation : Operation)
  | branch (condition : Condition)
  | load (kind : LocalKind)
  | store (kind : LocalKind)
  | field (access : FieldAccess)
  | invoke (kind : CallKind)

/-- The families with their mnemonics. -/
def families : List (String × Family) :=
  let codes := (List.range 256).map Nat.toUInt8
  [(codes.filterMap Operation.ofOpcode?).map fun operation =>
      (operation.mnemonic, Family.op operation),
    (codes.filterMap Condition.ofOpcode?).map fun condition =>
      (condition.mnemonic, Family.branch condition),
    LocalKind.all.map fun kind => (kind.letter ++ "load", Family.load kind),
    LocalKind.all.map fun kind => (kind.letter ++ "store", Family.store kind),
    [FieldAccess.getField, .getStatic, .putField, .putStatic].map fun access =>
      (access.mnemonic, Family.field access),
    [CallKind.virtual, .special, .static, .interface].map fun kind =>
      (kind.mnemonic, Family.invoke kind)].flatten

/-- The family of a mnemonic. -/
def familyOf : Std.HashMap String Family :=
  Std.HashMap.ofList families

/-- Reads an instruction of a family, given the list of its mnemonic and operands. -/
def readFamily {Label : Type} [OfData Label] (data : Data) : Family → Reading (Instruction Label)
  | .op operation => .ok (.op operation)
  | .branch condition => .branch condition <$> data.readItem 1
  | .load kind => .load kind <$> data.readItem 1
  | .store kind => .store kind <$> data.readItem 1
  | .field access => .field access <$> ofData (data.drop 1)
  | .invoke kind => .invoke kind <$> ofData (data.drop 1)

/-- Reads an instruction that belongs to no family. -/
def readSingle {Label : Type} [OfData Label] (data : Data) : String → Reading (Instruction Label)
  | "iconst" => .pushInt <$> data.readItem 1
  | "lconst" => .pushLong <$> data.readItem 1
  | "fconst" => (fun value => .pushFloat value.toUInt32) <$> readBits (data.item 1)
  | "dconst" => (fun value => .pushDouble value.toUInt64) <$> readBits (data.item 1)
  | "ldc" => .pushLiteral <$> data.readItem 1
  | "iinc" => do return .increment (← data.readItem 1) (← data.readItem 2)
  | "goto" => .goto <$> data.readItem 1
  | "tableswitch" => do
      return .tableSwitch (← data.readItem 1) (← data.readItem 2) (← data.readItem 3)
  | "lookupswitch" => do return .lookupSwitch (← data.readItem 1) (← data.readItem 2)
  | "invokedynamic" => .invokeDynamic <$> ofData (data.drop 1)
  | "new" => .new <$> data.readItem 1
  | "newarray" => .newArray <$> data.readItem 1
  | "anewarray" => .newRefArray <$> data.readItem 1
  | "checkcast" => .checkCast <$> data.readItem 1
  | "instanceof" => .instanceOf <$> data.readItem 1
  | "multianewarray" => do return .newMultiArray (← data.readItem 1) (← data.readItem 2)
  | _ => throw (.malformed "instruction")

/-- Reads an instruction. -/
def readInstruction {Label : Type} [OfData Label] (data : Data) :
    Reading (Instruction Label) := do
  let data :=
    match data with
    | .text mnemonic => Data.list [.text mnemonic]
    | data => data
  let mnemonic ← data.readItem 0
  match familyOf[mnemonic]? with
  | some family => readFamily data family
  | none => readSingle data mnemonic

instance {Label : Type} [OfData Label] : OfData (Instruction Label) := ⟨readInstruction⟩

/-- Reads an instruction, or copies of one. -/
def readRepeated (data : Data) : Reading (Array (Instruction Nat)) := do
  match data.item 0 with
  | .text "repeat" =>
      let count ← data.readItem 1
      let instruction ← data.readItem 2
      return Array.replicate count instruction
  | _ =>
      let instruction ← ofData data
      return #[instruction]

/-- Reads the instructions of a body; copies of one may be listed as one item. -/
def readInstructions (data : Data) : Reading (Array (Instruction Nat)) := do
  let items : List Data ← ofData data
  items.foldlM (fun read item => do return read ++ (← readRepeated item)) #[]

/-! ## Bodies -/

instance {Label : Type} [ToData Label] : ToData (ExceptionRange Label) :=
  ⟨fun range => toData
    [toData range.start, toData range.stop, toData range.handler, toData range.catchType]⟩

instance {Label : Type} [ToData Label] : ToData (LocalVariable Label) :=
  ⟨fun entry => toData
    [toData entry.start, toData entry.stop, toData entry.name, toData entry.type,
      toData entry.slot]⟩

instance {Label : Type} [ToData Label] : ToData (SourceLine Label) :=
  ⟨fun line => toData (line.start, line.line)⟩

instance {Label : Type} [OfData Label] : OfData (ExceptionRange Label) where
  ofData data := do
    return {
      start := ← data.readItem 0
      stop := ← data.readItem 1
      handler := ← data.readItem 2
      catchType := ← data.readItem 3 }

instance {Label : Type} [OfData Label] : OfData (LocalVariable Label) where
  ofData data := do
    return {
      start := ← data.readItem 0
      stop := ← data.readItem 1
      name := ← data.readItem 2
      type := ← data.readItem 3
      slot := ← data.readItem 4 }

instance {Label : Type} [OfData Label] : OfData (SourceLine Label) where
  ofData data := do
    return { start := ← data.readItem 0, line := ← data.readItem 1 }

/-- The parts of a body. -/
def bodyFields {Label : Type} [ToData Label] (body : CodeBody Label) : List (String × Data) :=
  [("insns", toData body.instructions), ("handlers", toData body.handlers),
    ("vars", toData body.localVariables), ("lines", toData body.lines)]

instance {Label : Type} [ToData Label] : ToData (CodeBody Label) :=
  ⟨fun body => .record (bodyFields body)⟩

instance : OfData (CodeBody Nat) where
  ofData data := do
    return {
      instructions := ← readInstructions (data.get "insns")
      handlers := ← data.read "handlers"
      localVariables := ← data.read "vars"
      lines := ← data.read "lines" }

/-! ## Methods -/

instance (declaration : Declaration) : ToData (AccessFlags declaration) :=
  ⟨fun flags => toData flags.bits⟩

instance (declaration : Declaration) : OfData (AccessFlags declaration) :=
  ⟨fun data => AccessFlags.ofBits <$> ofData data⟩

instance : ToData Method where
  toData method := .record
    (bodyFields method.toCodeBody ++
      [("owner", toData method.owner), ("flags", toData method.flags),
        ("name", toData method.name), ("desc", toData method.type),
        ("has_vars", toData method.hasVariableTable), ("max_locals", toData method.maxLocals)])

/-- Reads a method; only its type has to be listed. -/
def readMethod (owner : BinaryName) (name : UnqualifiedName) (data : Data) : Reading Method := do
  let body ← ofData data
  let owner ← data.readD "owner" owner
  let flags ← data.readD "flags" (.ofBits 9)
  let name ← data.readD "name" name
  let type ← data.read "desc"
  let method := Method.ofBody owner flags name type body
  let hasVariableTable ← data.readD "has_vars" true
  let maxLocals ← data.readD "max_locals" method.parameterSlots
  return { method with hasVariableTable, maxLocals }

/-- The methods of a class file: each is listed, or what is wrong with it. -/
def methods (describe : BytecodeError → Data) (file : ClassFile) : Data :=
  .list (file.methods.map fun member =>
    match Method.ofMember? file member with
    | .ok method? => .record [("ok", toData method?)]
    | .error error => describe error)

end ClosureConversion.Listing
