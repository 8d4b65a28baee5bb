import ClosureConversion.ClassFile.PoolReference

/-!
Contract: the attributes of a class file and of its parts.

Owns:
- an attribute as it stands in a class file, with contents that are only bytes;
- the kinds of contents, each with its name, and finding the contents of a kind.

Does not own: the kinds themselves.
-/

namespace ClosureConversion

/-- An attribute: the position of its name and the bytes of its contents. -/
structure Attribute where
  name : PoolIndex
  info : Bytes
deriving DecidableEq, Repr

/-- The length of the contents takes four bytes. -/
instance : Binary Attribute where
  write entry :=
    write entry.name ++ write entry.info.length.toUInt32 ++ entry.info
  read := do
    let name ← read
    let length : UInt32 ← read
    let info ← Reader.take length.toNat "attribute"
    return ⟨name, info⟩

/-- Kinds of contents that an attribute of a certain name has. -/
class AttributeContents (α : Type) extends Binary α where
  attributeName : String

export AttributeContents (attributeName)

namespace Attribute

/-- Whether an attribute has a name. -/
def isNamed (entry : Attribute) (pool : ConstantPool) (name : String) : Bool :=
  match pool.text entry.name with
  | .ok text => text = name
  | .error _ => false

/-- Whether an attribute has the name that goes with a kind of contents. -/
def holds (entry : Attribute) (pool : ConstantPool) (α : Type) [AttributeContents α] : Bool :=
  entry.isNamed pool (attributeName α)

/-- The contents of an attribute; what follows them is not looked at. -/
def contents (entry : Attribute) (α : Type) [AttributeContents α] : Except BytecodeError α :=
  decode entry.info

/-- The contents of the first attribute of a kind. -/
def find? (attributes : List Attribute) (pool : ConstantPool) (α : Type) [AttributeContents α] :
    Except BytecodeError (Option α) :=
  match attributes.find? (·.holds pool α) with
  | some entry => some <$> entry.contents α
  | none => pure none

/-- The attributes with the first one of a kind replaced, or with the new one last if
there is none of the kind. -/
def replace (attributes : List Attribute) (pool : ConstantPool) (α : Type) [AttributeContents α]
    (entry : Attribute) : List Attribute :=
  match attributes.findIdx? (·.holds pool α) with
  | some index => attributes.set index entry
  | none => attributes ++ [entry]

/-- The attribute with the given contents; its name goes into the pool. -/
def ofContents {α : Type} [AttributeContents α] (contents : α) : PoolM Attribute := do
  let name ← ConstantPool.internText (attributeName α)
  return ⟨name, write contents⟩

end Attribute

end ClosureConversion
