import ClosureConversion.Closure.Adaptation
import ClosureConversion.Closure.Variable
import ClosureConversion.Listing.Class
import ClosureConversion.Listing.Frame

/-!
Contract: what is known of a name, a type or an instruction on its own, as listings.

Owns: these listings, and the listed form of the kinds of values and accesses.
-/

namespace ClosureConversion.Listing

/-! ## Kinds -/

instance : ToData LocalKind where
  toData
    | .int => toData "Int"
    | .long => toData "Long"
    | .float => toData "Float"
    | .double => toData "Double"
    | .reference => toData "Reference"

instance : ToData ArrayKind where
  toData
    | .byte => toData "Byte"
    | .char => toData "Char"
    | .short => toData "Short"
    | kind => toData kind.toLocal

instance : ToData AccessMode where
  toData
    | .load => toData "Load"
    | .store => toData "Store"
    | .increment => toData "Increment"

instance : ToData LocalAccess :=
  ⟨fun access => toData [toData access.slot, toData access.mode, toData access.kind]⟩

/-! ## Names -/

/-- What is known of a class name. -/
def binaryNameFacts (name : BinaryName) : List (String × Data) :=
  let unboxed := BaseType.ofBoxClass? name
  [("name", toData name), ("package", toData name.package), ("simple", toData name.simpleName),
    ("descriptor", toData name.descriptor), ("unboxed", toData unboxed),
    ("is_box", toData unboxed.isSome)]

/-! ## Instructions -/

/-- What is known of an instruction on its own: its jumps, and the slot it accesses. As
examples it is listed with its targets moved by a distance and its slot replaced. -/
def instructionFacts (distance : Nat) (slot : UInt16) (instruction : Instruction Nat) : Data :=
  let moved : Option (Instruction Nat) := instruction.relocate? slot
  .record
    [("mnemonic", toData instruction.mnemonic), ("targets", toData instruction.targets),
      ("falls_through", toData instruction.fallsThrough),
      ("conditional", toData instruction.isBranch),
      ("shifted", toData (instruction.map (· + distance))),
      ("local", toData instruction.localAccess?), ("relocated", toData moved)]

/-! ## Types -/

/-- What is known of a reference type. -/
def refTypeFacts (type : RefType) : List (String × Data) :=
  [("type", typeTree (.ref type)), ("render", toData type.descriptor),
    ("class_info_name", toData type),
    ("element", toData (type.element?.map FieldType.descriptor))]

/-- What is known of a base type. -/
def baseTypeFacts (type : BaseType) : Data :=
  .record
    [("render", toData type), ("width", toData (width type)),
      ("int_like", toData type.isIntLike), ("boxed", toData type.boxClass)]

/-- What is known of an array type of so many dimensions beyond the first. -/
def arrayFacts (nesting : Nat) (type : RefType) : Data :=
  .record [("dimensions", toData (nesting + 1)), ("render", toData type.descriptor)]

/-- What is known of a field type. -/
def fieldTypeFacts (type : FieldType) : Data :=
  let kind := LocalKind.ofType type
  let array := ArrayKind.ofElement type
  let value : VType := .ofField type
  let drop : Instruction Nat := dropValue type
  let first : Instruction Nat := firstValue type
  .record
    [("type", typeTree type), ("render", toData type), ("width", toData (width type)),
      ("wide", toData type.isWide), ("array", toData type.arrayOf), ("local_kind", toData kind),
      ("local_width", toData kind.slots), ("array_kind", toData array),
      ("array_local", toData array.toLocal), ("vtype", toData value), ("pop", toData drop),
      ("default", toData first)]

/-- What is known of a method type. -/
def methodTypeFacts (type : MethodType) : Data :=
  .record
    [("parameters", .list (type.parameters.map typeTree)),
      ("return", toData (type.result.map typeTree)), ("render", toData type),
      ("length_static", toData (type.parameterSlots false)),
      ("length_this", toData (type.parameterSlots true))]

/-! ## Code -/

/-- An attribute of code with its name; the frames of a stack map are read. -/
def codeAttributeFacts (pool : ConstantPool) (entry : Attribute) : Except BytecodeError Data := do
  let name ← pool.text entry.name
  if entry.holds pool StackMap then return toData (name, (← entry.contents StackMap).frames)
  else return toData (name, hex entry.info)

/-- The code of a method with its attributes read. -/
def assembledCode (pool : ConstantPool) (code : CodeAttribute) :
    Except BytecodeError (List (String × Data)) := do
  let attributes ← code.attributes.mapM (codeAttributeFacts pool)
  return [("max_stack", toData code.maxStack), ("max_locals", toData code.maxLocals),
    ("code", packedHex code.bytes), ("exceptions", toData code.exceptions),
    ("attributes", toData attributes)]

end ClosureConversion.Listing
