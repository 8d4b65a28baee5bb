import ClosureConversion.ClassFile.Pool
import ClosureConversion.Descriptor.Reading
import ClosureConversion.Reference

/-!
Contract: names, members, literals and dynamic call sites as constants.

Owns, for each of them:
- interning: which constants stand for it, and the order in which they are added;
- resolving: reading it back from its position, and what is wrong if it is not there.

Does not own: the pool itself.
-/

namespace ClosureConversion

open ConstantPool (internText internNameAndType intern internBootstrap)

/-- The field type of a descriptor in a class file. -/
def FieldType.ofClassFile (text : String) : Except BytecodeError FieldType :=
  (FieldType.ofDescriptor text).mapError fun error =>
    .badDescriptor (describeBadDescriptor text error)

/-- The method type of a descriptor in a class file. -/
def MethodType.ofClassFile (text : String) : Except BytecodeError MethodType :=
  (MethodType.ofDescriptor text).mapError fun error =>
    .badDescriptor (describeBadDescriptor text error)

/-- The name of a member in a class file. -/
def UnqualifiedName.ofClassFile (text : String) : Except BytecodeError UnqualifiedName :=
  (UnqualifiedName.ofString text).mapError .badDescriptor

/-! ## Classes -/

/-- The position of the class constant of a type. -/
def RefType.intern (type : RefType) : PoolM PoolIndex := do
  let name ← internText type.classInfoName
  ConstantPool.intern (.classInfo name)

/-- The position of the class constant of a class. -/
def BinaryName.intern (name : BinaryName) : PoolM PoolIndex :=
  (RefType.object name).intern

/-- The type of a class constant. -/
def RefType.resolve (pool : ConstantPool) (index : PoolIndex) : Except BytecodeError RefType := do
  match ← pool.get index with
  | .classInfo name =>
      let text ← pool.text name
      (RefType.ofClassInfoName text).mapError .badDescriptor
  | _ => throw (.badConstant index "class")

/-- The class of a class constant. -/
def BinaryName.resolve (pool : ConstantPool) (index : PoolIndex) :
    Except BytecodeError BinaryName := do
  match ← RefType.resolve pool index with
  | .object name => return name
  | _ => throw (.badConstant index "non-array class")

/-! ## Members -/

/-- The position of a reference to a field. -/
def FieldRef.intern (field : FieldRef) : PoolM PoolIndex := do
  let owner ← field.owner.intern
  let signature ← internNameAndType field.name.text field.type.descriptor
  ConstantPool.intern (.fieldRef owner signature)

/-- The position of a reference to a method. -/
def MethodRef.intern (method : MethodRef) : PoolM PoolIndex := do
  let owner ← method.owner.intern
  let signature ← internNameAndType method.name.text method.type.descriptor
  ConstantPool.intern (.methodRef owner signature method.ofInterface)

/-- The field that a constant refers to. -/
def FieldRef.resolve (pool : ConstantPool) (index : PoolIndex) :
    Except BytecodeError FieldRef := do
  match ← pool.get index with
  | .fieldRef owner signature =>
      let owner ← BinaryName.resolve pool owner
      let (name, descriptor) ← pool.nameAndType signature
      let name ← UnqualifiedName.ofClassFile name
      let type ← FieldType.ofClassFile descriptor
      return ⟨owner, name, type⟩
  | _ => throw (.badConstant index "field reference")

/-- The method that a constant refers to. -/
def MethodRef.resolve (pool : ConstantPool) (index : PoolIndex) :
    Except BytecodeError MethodRef := do
  match ← pool.get index with
  | .methodRef owner signature ofInterface =>
      let owner ← RefType.resolve pool owner
      let (name, descriptor) ← pool.nameAndType signature
      let name ← UnqualifiedName.ofClassFile name
      let type ← MethodType.ofClassFile descriptor
      return ⟨owner, name, type, ofInterface⟩
  | _ => throw (.badConstant index "method reference")

/-! ## Handles and literals -/

/-- The position of a method handle. -/
def Handle.intern (handle : Handle) : PoolM PoolIndex := do
  let member ←
    match handle with
    | .field _ member => member.intern
    | .method _ member => member.intern
  ConstantPool.intern (.methodHandle handle.kind member)

/-- The method handle at a position. -/
def Handle.resolve (pool : ConstantPool) (index : PoolIndex) : Except BytecodeError Handle := do
  match ← pool.get index with
  | .methodHandle (.field access) member => return .field access (← FieldRef.resolve pool member)
  | .methodHandle (.method use) member => return .method use (← MethodRef.resolve pool member)
  | _ => throw (.badConstant index "method handle")

/-- The position of a literal. -/
def Literal.intern (literal : Literal) : PoolM PoolIndex :=
  match literal with
  | .integer value => ConstantPool.intern (.integer value)
  | .float bits => ConstantPool.intern (.float bits)
  | .long value => ConstantPool.intern (.long value)
  | .double bits => ConstantPool.intern (.double bits)
  | .string text => do
      let text ← internText text
      ConstantPool.intern (.string text)
  | .class_ type => type.intern
  | .methodType type => do
      let descriptor ← internText type.descriptor
      ConstantPool.intern (.methodType descriptor)
  | .methodHandle handle => handle.intern

/-- The literal at a position. -/
def Literal.resolve (pool : ConstantPool) (index : PoolIndex) : Except BytecodeError Literal := do
  match ← pool.get index with
  | .integer value => return .integer value
  | .float bits => return .float bits
  | .long value => return .long value
  | .double bits => return .double bits
  | .string text => return .string (← pool.text text)
  | .classInfo _ => return .class_ (← RefType.resolve pool index)
  | .methodType descriptor => return .methodType (← MethodType.ofClassFile (← pool.text descriptor))
  | .methodHandle _ _ => return .methodHandle (← Handle.resolve pool index)
  | _ => throw (.badConstant index "loadable constant")

/-! ## Dynamic calls -/

/-- The position of a dynamic call site, whose bootstrap method is interned too. -/
def DynamicCall.intern (call : DynamicCall) : PoolM PoolIndex := do
  let handle ← call.bootstrap.intern
  let arguments ← call.arguments.mapM Literal.intern
  let bootstrap ← internBootstrap ⟨handle, arguments⟩
  let signature ← internNameAndType call.name.text call.type.descriptor
  ConstantPool.intern (.invokeDynamic bootstrap signature)

/-- The dynamic call site at a position. -/
def DynamicCall.resolve (pool : ConstantPool) (index : PoolIndex) :
    Except BytecodeError DynamicCall := do
  match ← pool.get index with
  | .invokeDynamic bootstrap signature =>
      match pool.bootstraps[bootstrap.toNat]? with
      | none => throw (.badConstant index "invokedynamic with a valid bootstrap method")
      | some bootstrap =>
          let handle ← Handle.resolve pool bootstrap.handle
          let arguments ← bootstrap.arguments.mapM (Literal.resolve pool)
          let (name, descriptor) ← pool.nameAndType signature
          let name ← UnqualifiedName.ofClassFile name
          let type ← MethodType.ofClassFile descriptor
          return ⟨handle, arguments, name, type⟩
  | _ => throw (.badConstant index "invokedynamic")

end ClosureConversion
