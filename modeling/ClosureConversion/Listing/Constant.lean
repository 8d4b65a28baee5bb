import ClosureConversion.ClassFile.Pool
import ClosureConversion.Listing.Data
import ClosureConversion.Reference

/-!
Contract: constants, members and literals in listings.

Owns: the listed form of each, and reading it.
-/

namespace ClosureConversion.Listing

instance : ToData HandleKind := ⟨fun kind => toData kind.number⟩

instance : OfData HandleKind where
  ofData data := do
    let number ← ofData data
    match HandleKind.ofNumber? number with
    | some kind => return kind
    | none => throw (.malformed "kind of method handle")

/-- A constant is listed with its kind first. -/
def constant : Constant → List Data
  | .classInfo name => [toData "Class", toData name]
  | .fieldRef owner signature => [toData "Fieldref", toData owner, toData signature]
  | .methodRef owner signature ofInterface =>
      [toData (if ofInterface then "InterfaceMethodref" else "Methodref"), toData owner,
        toData signature]
  | .string text => [toData "String", toData text]
  | .integer value => [toData "Integer", toData value]
  | .float value => [toData "Float", bits 8 value.toNat]
  | .long value => [toData "Long", toData value]
  | .double value => [toData "Double", bits 16 value.toNat]
  | .nameAndType name descriptor => [toData "NameAndType", toData name, toData descriptor]
  | .utf8 text => [toData "Utf8", toData text]
  | .methodHandle kind member => [toData "MethodHandle", toData kind, toData member]
  | .methodType descriptor => [toData "MethodType", toData descriptor]
  | .dynamic bootstrap signature => [toData "Dynamic", toData bootstrap, toData signature]
  | .invokeDynamic bootstrap signature =>
      [toData "InvokeDynamic", toData bootstrap, toData signature]
  | .moduleInfo name => [toData "Module", toData name]
  | .packageInfo name => [toData "Package", toData name]

instance : ToData Constant := ⟨fun value => .list (constant value)⟩

/-- Reads a constant. -/
def readConstant (data : Data) : Reading Constant := do
  let first : Reading PoolIndex := data.readItem 1
  let second : Reading PoolIndex := data.readItem 2
  let kind : String ← data.readItem 0
  match kind with
  | "Class" => return .classInfo (← first)
  | "Fieldref" => return .fieldRef (← first) (← second)
  | "Methodref" => return .methodRef (← first) (← second) false
  | "InterfaceMethodref" => return .methodRef (← first) (← second) true
  | "String" => return .string (← first)
  | "Integer" => return .integer (← data.readItem 1)
  | "Float" => return .float (← readBits (data.item 1)).toUInt32
  | "Long" => return .long (← data.readItem 1)
  | "Double" => return .double (← readBits (data.item 1)).toUInt64
  | "NameAndType" => return .nameAndType (← first) (← second)
  | "Utf8" => return .utf8 (← data.readItem 1)
  | "MethodHandle" => return .methodHandle (← data.readItem 1) (← second)
  | "MethodType" => return .methodType (← first)
  | "Dynamic" => return .dynamic (← first) (← second)
  | "InvokeDynamic" => return .invokeDynamic (← first) (← second)
  | "Module" => return .moduleInfo (← first)
  | "Package" => return .packageInfo (← first)
  | _ => throw (.malformed "constant")

instance : OfData Constant := ⟨readConstant⟩

/-- Constants are listed with their positions. -/
instance : ToData ConstantTable := ⟨fun table => toData table.toList⟩

instance : ToData BootstrapMethod :=
  ⟨fun bootstrap => toData (bootstrap.handle, bootstrap.arguments)⟩

instance : OfData BootstrapMethod where
  ofData data := do
    let handle ← data.readItem 0
    let arguments ← data.readItem 1
    return ⟨handle, arguments⟩

/-- A pool is read from its constants and bootstrap methods; nothing is the empty
pool. -/
instance : OfData ConstantPool where
  ofData data := do
    let constants ← data.read "constants"
    let bootstraps ← data.read "bootstrap"
    return ConstantPool.ofTable (OffsetSeq.ofList 1 constants) bootstraps

/-! ## Members -/

/-- A field is listed by its class, its name and its type. -/
def fieldRef (field : FieldRef) : List Data :=
  [toData field.owner, toData field.name, toData field.type]

/-- A method is listed by its owner, its name and its type, and whether its owner is an
interface. -/
def methodRef (method : MethodRef) : List Data :=
  [toData method.owner, toData method.name, toData method.type, toData method.ofInterface]

instance : ToData MethodRef := ⟨fun method => .list (methodRef method)⟩

instance : OfData FieldRef where
  ofData data := do
    let owner ← data.readItem 0
    let name ← data.readItem 1
    let type ← data.readItem 2
    return ⟨owner, name, type⟩

instance : OfData MethodRef where
  ofData data := do
    let owner ← data.readItem 0
    let name ← data.readItem 1
    let type ← data.readItem 2
    let ofInterface ← data.readItem 3
    return ⟨owner, name, type, ofInterface⟩

/-- A handle is listed as its kind and its member. -/
instance : ToData Handle where
  toData handle :=
    match handle with
    | .field _ member => .list (toData handle.kind :: fieldRef member)
    | .method _ member => .list (toData handle.kind :: methodRef member)

instance : OfData Handle where
  ofData data := do
    match ← data.readItem 0 with
    | HandleKind.field access => return .field access (← ofData (data.drop 1))
    | HandleKind.method use => return .method use (← ofData (data.drop 1))

/-! ## Literals and dynamic calls -/

instance : ToData Literal where
  toData
    | .integer value => toData ("int", value)
    | .float value => toData ("float", bits 8 value.toNat)
    | .long value => toData ("long", value)
    | .double value => toData ("double", bits 16 value.toNat)
    | .string text => toData ("string", text)
    | .class_ type => toData ("class", type)
    | .methodType type => toData ("method_type", type)
    | .methodHandle handle => toData ("method_handle", handle)

/-- Reads a literal. -/
def readLiteral (data : Data) : Reading Literal := do
  let kind : String ← data.readItem 0
  match kind with
  | "int" => return .integer (← data.readItem 1)
  | "float" => return .float (← readBits (data.item 1)).toUInt32
  | "long" => return .long (← data.readItem 1)
  | "double" => return .double (← readBits (data.item 1)).toUInt64
  | "string" => return .string (← data.readItem 1)
  | "class" => return .class_ (← data.readItem 1)
  | "method_type" => return .methodType (← data.readItem 1)
  | "method_handle" => return .methodHandle (← data.readItem 1)
  | _ => throw (.malformed "literal")

instance : OfData Literal := ⟨readLiteral⟩

/-- A dynamic call is listed by its name and type, its bootstrap method and the arguments
of that. -/
def dynamicCall (call : DynamicCall) : List Data :=
  [toData call.name, toData call.type, toData call.bootstrap, toData call.arguments]

instance : ToData DynamicCall := ⟨fun call => .list (dynamicCall call)⟩

instance : OfData DynamicCall where
  ofData data := do
    let name ← data.readItem 0
    let type ← data.readItem 1
    let bootstrap ← data.readItem 2
    let arguments ← data.readItem 3
    return ⟨bootstrap, arguments, name, type⟩

end ClosureConversion.Listing
