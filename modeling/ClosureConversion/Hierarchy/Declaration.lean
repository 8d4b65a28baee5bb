import ClosureConversion.ClassFile.Annotation
import ClosureConversion.ClassFile.Basic

/-!
Contract: what a class declares, without the code of its methods.

Owns: the declarations of classes, fields and methods with their annotations, and
reading them off a class file.

Does not own: how classes are found by name.
-/

namespace ClosureConversion

/-- A field as its class declares it. -/
structure FieldDeclaration where
  name : UnqualifiedName
  type : FieldType
  flags : FieldFlags
  annotations : List BinaryName
deriving DecidableEq, Repr

/-- A method as its class declares it. -/
structure MethodDeclaration where
  name : UnqualifiedName
  type : MethodType
  flags : MethodFlags
  annotations : List BinaryName
deriving DecidableEq, Repr

/-- What a class declares. Only the root of all classes has no superclass. -/
structure ClassDeclaration where
  name : BinaryName
  super : Option BinaryName
  interfaces : List BinaryName
  flags : ClassFlags
  fields : List FieldDeclaration
  methods : List MethodDeclaration
  annotations : List BinaryName
deriving DecidableEq, Repr

namespace MethodDeclaration

/-- Whether the method has no receiver. -/
def isStatic (method : MethodDeclaration) : Bool :=
  method.flags.contains MethodFlags.accStatic

/-- Whether the method has no body for others to inherit. -/
def isAbstract (method : MethodDeclaration) : Bool :=
  method.flags.contains MethodFlags.accAbstract

end MethodDeclaration

namespace ClassDeclaration

/-- Whether the class is an interface. -/
def isInterface (declaration : ClassDeclaration) : Bool :=
  declaration.flags.contains ClassFlags.accInterface

/-- The method of a name and a type that the class declares itself. -/
def method? (declaration : ClassDeclaration) (name : UnqualifiedName) (type : MethodType) :
    Option MethodDeclaration :=
  declaration.methods.find? fun method => method.name = name && method.type = type

/-- The field of a name that the class declares itself. -/
def field? (declaration : ClassDeclaration) (name : UnqualifiedName) : Option FieldDeclaration :=
  declaration.fields.find? fun field => field.name = name

/-- The class that the descriptor of an annotation's type spells. -/
def annotationClass (descriptor : String) : Except BytecodeError BinaryName := do
  match ← FieldType.ofClassFile descriptor with
  | .ref (.object name) => return name
  | _ => throw (.badDescriptor s!"annotation type {descriptor} is not a class")

/-- The annotations among the attributes of a declaration. -/
def annotationsOf (attributes : List Attribute) (pool : ConstantPool) :
    Except BytecodeError (List BinaryName) := do
  let descriptors ← annotationTypes attributes pool
  descriptors.mapM annotationClass

/-- A field of a class file. -/
def ofField (pool : ConstantPool) (field : Member .field) :
    Except BytecodeError FieldDeclaration := do
  let name ← pool.text field.name
  let name ← UnqualifiedName.ofClassFile name
  let descriptor ← pool.text field.descriptor
  let type ← FieldType.ofClassFile descriptor
  let annotations ← annotationsOf field.attributes pool
  return { name, type, flags := field.flags, annotations }

/-- A method of a class file. -/
def ofMethod (file : ClassFile) (method : Member .method) :
    Except BytecodeError MethodDeclaration := do
  let (name, type) ← file.methodSignature method
  let annotations ← annotationsOf method.attributes file.pool
  return { name, type, flags := method.flags, annotations }

/-- What the class of a class file declares. -/
def ofClassFile (file : ClassFile) : Except BytecodeError ClassDeclaration := do
  let fields ← file.fields.mapM (ofField file.pool)
  let methods ← file.methods.mapM (ofMethod file)
  let name ← file.thisName
  let super ← file.superName?
  let interfaces ← file.interfaceNames
  let annotations ← annotationsOf file.attributes file.pool
  return { name, super, interfaces, flags := file.flags, fields, methods, annotations }

/-- What the class declares whose class file the bytes are. -/
def ofBytes (bytes : Bytes) : Except BytecodeError ClassDeclaration := do
  ofClassFile (← ClassFile.ofBytes bytes)

end ClassDeclaration

end ClosureConversion
