import ClosureConversion.OffsetSeq
import ClosureConversion.Name

/-!
Contract: the types of fields and methods, and their written forms.

Owns:
- base types, reference types, field types and method types, and how many slots
  their values take;
- their descriptors, and the spelling of a reference type in a class constant;
- the box classes of the base types.

Does not own: reading descriptors.
-/

namespace ClosureConversion

/-- The types whose values are not references. -/
inductive BaseType where
  | byte
  | char
  | double
  | float
  | int
  | long
  | short
  | boolean
deriving DecidableEq, Hashable, Repr

namespace BaseType

/-- Every base type. -/
def all : List BaseType :=
  [.byte, .char, .double, .float, .int, .long, .short, .boolean]

/-- The letter that stands for the type in a descriptor. -/
def letter : BaseType → Char
  | .byte => 'B'
  | .char => 'C'
  | .double => 'D'
  | .float => 'F'
  | .int => 'I'
  | .long => 'J'
  | .short => 'S'
  | .boolean => 'Z'

/-- The type that a letter stands for. -/
def ofLetter? : Char → Option BaseType
  | 'B' => some .byte
  | 'C' => some .char
  | 'D' => some .double
  | 'F' => some .float
  | 'I' => some .int
  | 'J' => some .long
  | 'S' => some .short
  | 'Z' => some .boolean
  | _ => none

/-- Longs and doubles take two slots. -/
def isWide : BaseType → Bool
  | .long | .double => true
  | _ => false

instance : Width BaseType := ⟨fun type => if type.isWide then 2 else 1⟩

/-- Whether values of the type are integers on the operand stack. -/
def isIntLike : BaseType → Bool
  | .int | .char | .short | .byte | .boolean => true
  | _ => false

/-- The class whose instances hold a value of the type. -/
def boxClass : BaseType → BinaryName
  | .byte => .byte
  | .char => .character
  | .double => .double
  | .float => .float
  | .int => .integer
  | .long => .long
  | .short => .short
  | .boolean => .boolean

/-- The type that the instances of a class hold. -/
def ofBoxClass? (name : BinaryName) : Option BaseType :=
  all.find? fun type => type.boxClass = name

end BaseType

/-- The types whose values are references. `nesting` counts the dimensions of an
array beyond the first. -/
inductive RefType where
  | object (name : BinaryName)
  | objectArray (nesting : Nat) (name : BinaryName)
  | primitiveArray (nesting : Nat) (element : BaseType)
deriving DecidableEq, Hashable, Repr

/-- The types that a variable may have. -/
inductive FieldType where
  | base (type : BaseType)
  | ref (type : RefType)
deriving DecidableEq, Hashable, Repr

namespace FieldType

/-- The instances of a class. -/
abbrev object (name : BinaryName) : FieldType :=
  .ref (.object name)

abbrev int : FieldType := .base .int
abbrev long : FieldType := .base .long
abbrev float : FieldType := .base .float
abbrev double : FieldType := .base .double
abbrev char : FieldType := .base .char
abbrev short : FieldType := .base .short
abbrev byte : FieldType := .base .byte
abbrev boolean : FieldType := .base .boolean

/-- Longs and doubles take two slots. -/
def isWide : FieldType → Bool
  | .base type => type.isWide
  | .ref _ => false

instance : Width FieldType := ⟨fun type => if type.isWide then 2 else 1⟩

end FieldType

/-- The descriptor of a class. -/
def BinaryName.descriptor (name : BinaryName) : String :=
  "L" ++ name.text ++ ";"

namespace RefType

/-- The array whose elements have the given type. -/
def arrayOf : FieldType → RefType
  | .base type => .primitiveArray 0 type
  | .ref (.object name) => .objectArray 0 name
  | .ref (.objectArray nesting name) => .objectArray (nesting + 1) name
  | .ref (.primitiveArray nesting type) => .primitiveArray (nesting + 1) type

/-- The type of the elements of an array. -/
def element? : RefType → Option FieldType
  | .object _ => none
  | .objectArray 0 name => some (.object name)
  | .objectArray (nesting + 1) name => some (.ref (.objectArray nesting name))
  | .primitiveArray 0 type => some (.base type)
  | .primitiveArray (nesting + 1) type => some (.ref (.primitiveArray nesting type))

/-- One opening bracket for each dimension. -/
def brackets (dimensions : Nat) : String :=
  String.ofList (List.replicate dimensions '[')

/-- The descriptor of a reference type. -/
def descriptor : RefType → String
  | .object name => name.descriptor
  | .objectArray nesting name => brackets (nesting + 1) ++ name.descriptor
  | .primitiveArray nesting type => brackets (nesting + 1) ++ String.singleton type.letter

/-- The spelling in a class constant: the bare name of a class, the descriptor of an
array. -/
def classInfoName : RefType → String
  | .object name => name.text
  | type => type.descriptor

/-- The elements of an array of a type have that type. -/
@[simp] theorem element?_arrayOf
    (type : FieldType) :
    (arrayOf type).element? = some type := by
  cases type with
  | base type => rfl
  | ref type => cases type <;> rfl

end RefType

namespace FieldType

/-- The array whose elements have the given type. -/
def arrayOf (type : FieldType) : FieldType :=
  .ref (RefType.arrayOf type)

/-- The descriptor of a field type. -/
def descriptor : FieldType → String
  | .base type => String.singleton type.letter
  | .ref type => type.descriptor

end FieldType

/-- The type of a method: `none` for one that returns nothing. -/
structure MethodType where
  parameters : List FieldType
  result : Option FieldType
deriving DecidableEq, Hashable, Repr

namespace MethodType

/-- How many slots the parameters take, the receiver included if there is one. -/
def parameterSlots (type : MethodType) (hasReceiver : Bool) : Nat :=
  (if hasReceiver then 1 else 0) + totalWidth type.parameters

/-- The part of a descriptor that says what a method returns. -/
def resultDescriptor : Option FieldType → String
  | none => "V"
  | some type => type.descriptor

/-- The descriptor of a method type. -/
def descriptor (type : MethodType) : String :=
  "(" ++ String.join (type.parameters.map FieldType.descriptor) ++ ")" ++
    resultDescriptor type.result

end MethodType

end ClosureConversion
