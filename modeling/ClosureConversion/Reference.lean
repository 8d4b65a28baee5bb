import ClosureConversion.Descriptor.Basic
import ClosureConversion.ClassFile.Constant

/-!
Contract: what instructions refer to by name: fields, methods, literals and dynamic
call sites.

Owns: these references and their written forms.

Does not own: the constants that stand for them in a class file.
-/

namespace ClosureConversion

/-- A field of a class. -/
structure FieldRef where
  owner : BinaryName
  name : UnqualifiedName
  type : FieldType
deriving DecidableEq, Hashable, Repr

/-- A method of a class, an interface or an array. -/
structure MethodRef where
  owner : RefType
  name : UnqualifiedName
  type : MethodType
  ofInterface : Bool
deriving DecidableEq, Hashable, Repr

/-- The class, the name and the type of a field. -/
def FieldRef.describe (field : FieldRef) : String :=
  s!"{field.owner}.{field.name}:{field.type.descriptor}"

/-- The class, the name and the type of a method. -/
def MethodRef.describe (method : MethodRef) : String :=
  s!"{method.owner.classInfoName}.{method.name}{method.type.descriptor}"

/-- Whether the method is a constructor. -/
def MethodRef.isInit (method : MethodRef) : Bool :=
  method.name = UnqualifiedName.init

/-- A field with what is done to it, or a method with how it is called. -/
inductive Handle where
  | field (access : FieldAccess) (member : FieldRef)
  | method (use : MethodUse) (member : MethodRef)
deriving DecidableEq, Hashable, Repr

/-- The kind of a handle. -/
def Handle.kind : Handle → HandleKind
  | .field access _ => .field access
  | .method use _ => .method use

/-- A constant value that an instruction can push. Floating-point numbers are held by
their bits. -/
inductive Literal where
  | integer (value : Int32)
  | float (bits : UInt32)
  | long (value : Int64)
  | double (bits : UInt64)
  | string (text : String)
  | class_ (type : RefType)
  | methodType (type : MethodType)
  | methodHandle (handle : Handle)
deriving DecidableEq, Hashable, Repr

/-- Longs and doubles take two slots. -/
def Literal.isWide : Literal → Bool
  | .long _ => true
  | .double _ => true
  | _ => false

/-- A call whose target a bootstrap method finds. -/
structure DynamicCall where
  bootstrap : Handle
  arguments : List Literal
  name : UnqualifiedName
  type : MethodType
deriving DecidableEq, Hashable, Repr

end ClosureConversion
