import ClosureConversion.Method.Assembly

/-!
Contract: classes that are written rather than read.

Owns: a class with its fields and methods and their bodies, what it declares, and its
class file.

Does not own: what goes into the bodies.
-/

namespace ClosureConversion

/-- A method with its body, if it has any. -/
structure MethodDefinition where
  declaration : MethodDeclaration
  body : Option (CodeBody Nat)
deriving Repr

/-- A class to be written. -/
structure ClassDefinition where
  name : BinaryName
  super : BinaryName
  flags : ClassFlags
  version : Version := .java8
  interfaces : List BinaryName := []
  fields : List FieldDeclaration := []
  methods : List MethodDefinition := []
deriving Repr

namespace ClassDefinition

/-- Adds an interface. -/
def addInterface (definition : ClassDefinition) (name : BinaryName) : ClassDefinition :=
  { definition with interfaces := definition.interfaces ++ [name] }

/-- Adds a field. -/
def addField (definition : ClassDefinition) (field : FieldDeclaration) : ClassDefinition :=
  { definition with fields := definition.fields ++ [field] }

/-- Adds a method. -/
def addMethod (definition : ClassDefinition) (method : MethodDeclaration)
    (body : Option (CodeBody Nat)) : ClassDefinition :=
  { definition with methods := definition.methods ++ [⟨method, body⟩] }

/-- Whether the class has a method of a name and a type. -/
def hasMethod (definition : ClassDefinition) (name : UnqualifiedName) (type : MethodType) :
    Bool :=
  definition.methods.any fun method =>
    method.declaration.name = name && method.declaration.type = type

/-- What the class declares. -/
def declaration (definition : ClassDefinition) : ClassDeclaration where
  name := definition.name
  super := some definition.super
  interfaces := definition.interfaces
  flags := definition.flags
  fields := definition.fields
  methods := definition.methods.map MethodDefinition.declaration
  annotations := []

/-- An annotation without elements. -/
def annotation (name : BinaryName) : PoolM Annotation := do
  let type ← ConstantPool.internText (FieldType.object name).descriptor
  return ⟨type, []⟩

/-- The attribute that holds annotations, unless there are none. -/
def annotationAttribute (names : List BinaryName) : PoolM (List Attribute) := do
  if names.isEmpty then return []
  let annotations ← names.mapM annotation
  let entry ← Attribute.ofContents (InvisibleAnnotations.mk annotations)
  return [entry]

/-- A field of the class file. -/
def fieldMember (field : FieldDeclaration) : PoolM (Member .field) := do
  let name ← ConstantPool.internText field.name.text
  let descriptor ← ConstantPool.internText field.type.descriptor
  let attributes ← annotationAttribute field.annotations
  return { flags := field.flags, name, descriptor, attributes }

/-- The attribute that holds the body of a method, if it has one. -/
def codeAttribute (definition : ClassDefinition) (hierarchy : Hierarchy)
    (method : MethodDefinition) : PoolM (List Attribute) := do
  match method.body with
  | none => return []
  | some body =>
      let declared := method.declaration
      let whole := Method.ofBody definition.name declared.flags declared.name declared.type body
      let code ← whole.assemble hierarchy definition.version
      let entry ← Attribute.ofContents code
      return [entry]

/-- A method of the class file. -/
def methodMember (definition : ClassDefinition) (hierarchy : Hierarchy)
    (method : MethodDefinition) : PoolM (Member .method) := do
  let code ← definition.codeAttribute hierarchy method
  let annotations ← annotationAttribute method.declaration.annotations
  let name ← ConstantPool.internText method.declaration.name.text
  let descriptor ← ConstantPool.internText method.declaration.type.descriptor
  return { flags := method.declaration.flags, name, descriptor, attributes := code ++ annotations }

/-- The parts of the class file; their constants go into the pool. -/
def members (definition : ClassDefinition) (hierarchy : Hierarchy) : PoolM ClassFile := do
  let this ← definition.name.intern
  let super ← definition.super.intern
  let interfaces ← definition.interfaces.mapM BinaryName.intern
  let fields ← definition.fields.mapM fieldMember
  let methods ← definition.methods.mapM (definition.methodMember hierarchy)
  let pool ← get
  return {
    version := definition.version
    pool
    flags := definition.flags
    this
    super
    interfaces
    fields
    methods
    attributes := [] }

/-- The class file. The class itself is known to the hierarchy while its methods are
assembled. -/
def build (definition : ClassDefinition) (hierarchy : Hierarchy) :
    Except BytecodeError ClassFile :=
  match definition.members (hierarchy.shadow definition.declaration) ConstantPool.empty with
  | .ok file _ => .ok file
  | .error error _ => .error error

/-- The bytes of the class file. -/
def toBytes (definition : ClassDefinition) (hierarchy : Hierarchy) :
    Except BytecodeError Bytes := do
  (← definition.build hierarchy).finish

end ClassDefinition

end ClosureConversion
