import ClosureConversion.ClassFile.PoolReference

/-!
Contract: the types that the verifier gives to the values of a frame.

Owns:
- the types, over any way of naming classes and allocation sites;
- the types of frames under analysis, and those of a stack map with their binary
  form;
- turning the former into the latter.

Does not own: which types may stand in for which.
-/

namespace ClosureConversion

/-- The type of a value. `uninitialized` names the instruction that made an object
whose constructor has not run yet. -/
inductive VerificationType (Class Site : Type) where
  | top
  | int
  | float
  | double
  | long
  | null
  | uninitializedThis
  | object (type : Class)
  | uninitialized (site : Site)
deriving DecidableEq, Hashable, Repr

/-- Types under analysis: sites are indices of instructions. -/
abbrev VType := VerificationType RefType Nat

/-- Types in a stack map: classes are positions in the pool, sites are offsets in the
code. -/
abbrev StackMapType := VerificationType PoolIndex UInt16

namespace VerificationType

variable {Class Site : Type}

/-- Whether the value is a reference. -/
def isReference : VerificationType Class Site → Bool
  | .null => true
  | .uninitializedThis => true
  | .object _ => true
  | .uninitialized _ => true
  | _ => false

/-- Whether the value is a reference to an object whose constructor has run, if it is
to an object at all. -/
def isInitializedReference : VerificationType Class Site → Bool
  | .null => true
  | .object _ => true
  | _ => false

/-- Longs and doubles take two slots. -/
def isWide : VerificationType Class Site → Bool
  | .long => true
  | .double => true
  | _ => false

instance : Width (VerificationType Class Site) := ⟨fun type => if type.isWide then 2 else 1⟩

/-- The type of the values of a field. -/
def ofField : FieldType → VerificationType RefType Site
  | .base .float => .float
  | .base .long => .long
  | .base .double => .double
  | .base _ => .int
  | .ref type => .object type

/-- The tag of a type and what follows it. -/
def toBytes : StackMapType → Bytes
  | .top => [0]
  | .int => [1]
  | .float => [2]
  | .double => [3]
  | .long => [4]
  | .null => [5]
  | .uninitializedThis => [6]
  | .object type => 7 :: write type
  | .uninitialized offset => 8 :: write offset

/-- What follows a tag. -/
def readTagged (tag : UInt8) : Reader StackMapType :=
  match tag with
  | 0 => pure .top
  | 1 => pure .int
  | 2 => pure .float
  | 3 => pure .double
  | 4 => pure .long
  | 5 => pure .null
  | 6 => pure .uninitializedThis
  | 7 => .object <$> read
  | 8 => .uninitialized <$> read
  | unknown => throw (.malformedCode 0 s!"invalid verification type tag {unknown}")

instance : Binary StackMapType where
  write := toBytes
  read := do
    let tag : UInt8 ← read
    readTagged tag

/-- The type in a stack map, for the offsets at which the instructions stand. -/
def toStackMap (type : VType) (offsets : Array Nat) : PoolM StackMapType :=
  match type with
  | .top => pure .top
  | .int => pure .int
  | .float => pure .float
  | .double => pure .double
  | .long => pure .long
  | .null => pure .null
  | .uninitializedThis => pure .uninitializedThis
  | .object type => .object <$> type.intern
  | .uninitialized site =>
      match offsets[site]? with
      | some offset => pure (.uninitialized offset.toUInt16)
      | none => throw (.invalidJumpTarget site)

end VerificationType

end ClosureConversion
