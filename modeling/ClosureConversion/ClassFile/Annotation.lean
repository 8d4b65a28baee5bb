import ClosureConversion.ClassFile.Attribute

/-!
Contract: the annotations of a declaration.

Owns: annotations and the values of their elements, with their binary form, and the
types of all annotations among the attributes of a declaration.

Does not own: what any annotation means.
-/

namespace ClosureConversion

/-- The value of an element of an annotation. -/
inductive ElementValue where
  /-- A constant; the tag is the letter of its type. -/
  | constant (tag : UInt8) (value : PoolIndex)
  | enum (type name : PoolIndex)
  | class_ (descriptor : PoolIndex)
  | nested (type : PoolIndex) (elements : List (PoolIndex × ElementValue))
  | array (values : List ElementValue)
deriving Repr

/-- An annotation: the position of its type's descriptor, and its elements with the
positions of their names. -/
structure Annotation where
  type : PoolIndex
  elements : List (PoolIndex × ElementValue)
deriving Repr

namespace ElementValue

/-- The tag of a value and what follows it. -/
def toBytes : ElementValue → Bytes
  | .constant tag value => tag :: write value
  | .enum type name => 'e'.toUInt8 :: write type ++ write name
  | .class_ descriptor => 'c'.toUInt8 :: write descriptor
  | .nested type elements =>
      '@'.toUInt8 :: write type ++ write elements.length.toUInt16 ++
        elements.attach.flatMap fun ⟨element, _⟩ => write element.1 ++ toBytes element.2
  | .array values =>
      '['.toUInt8 :: write values.length.toUInt16 ++
        values.attach.flatMap fun ⟨value, _⟩ => toBytes value
decreasing_by
  all_goals simp_wf
  · rename_i member
    have smaller := List.sizeOf_lt_of_mem member
    cases element
    simp at smaller ⊢
    omega
  · rename_i member
    have smaller := List.sizeOf_lt_of_mem member
    omega

/-- The tags of constants: the letters of the base types, and the one of texts. -/
def constantTags : List UInt8 :=
  "BCDFIJSZs".toList.map Char.toUInt8

/-- A value that holds others at most so many levels deep. -/
def readNested : Nat → Reader ElementValue
  | 0 => throw .shortRead
  | depth + 1 => do
      let element : Reader (PoolIndex × ElementValue) := do
        let name ← read
        let value ← readNested depth
        return (name, value)
      let tag : UInt8 ← read
      if constantTags.contains tag then
        .constant tag <$> read
      else if tag = 'e'.toUInt8 then do
        let type ← read
        let name ← read
        return .enum type name
      else if tag = 'c'.toUInt8 then
        .class_ <$> read
      else if tag = '@'.toUInt8 then do
        let type ← read
        let count : UInt16 ← read
        .nested type <$> Reader.times count.toNat element
      else if tag = '['.toUInt8 then do
        let count : UInt16 ← read
        .array <$> Reader.times count.toNat (readNested depth)
      else
        throw (.badDescriptor
          s!"unknown annotation element tag {Text.quotedChar (Char.ofNat tag.toNat)}")

/-- Every level takes a byte, so a value is no deeper than there are bytes. -/
instance : Binary ElementValue where
  write := toBytes
  read := fun bytes => readNested (bytes.length + 1) bytes

end ElementValue

instance : Binary Annotation where
  write annotation := write annotation.type ++ write annotation.elements
  read := do
    let type ← read
    let elements ← read
    return ⟨type, elements⟩

/-- Annotations that are visible at run time. -/
structure VisibleAnnotations where
  annotations : List Annotation
deriving Repr

instance : AttributeContents VisibleAnnotations where
  attributeName := "RuntimeVisibleAnnotations"
  write contents := write contents.annotations
  read := VisibleAnnotations.mk <$> read

/-- Annotations that are not visible at run time. -/
structure InvisibleAnnotations where
  annotations : List Annotation
deriving Repr

instance : AttributeContents InvisibleAnnotations where
  attributeName := "RuntimeInvisibleAnnotations"
  write contents := write contents.annotations
  read := InvisibleAnnotations.mk <$> read

/-- The annotations that an attribute holds. -/
def Attribute.annotations (entry : Attribute) (pool : ConstantPool) :
    Except BytecodeError (List Annotation) :=
  if entry.holds pool VisibleAnnotations then
    VisibleAnnotations.annotations <$> entry.contents VisibleAnnotations
  else if entry.holds pool InvisibleAnnotations then
    InvisibleAnnotations.annotations <$> entry.contents InvisibleAnnotations
  else
    pure []

/-- The descriptors of the types of all annotations among attributes, in order. -/
def annotationTypes (attributes : List Attribute) (pool : ConstantPool) :
    Except BytecodeError (List String) := do
  let types ← attributes.mapM fun entry => do
    let annotations ← entry.annotations pool
    annotations.mapM fun annotation => pool.text annotation.type
  return types.flatten

end ClosureConversion
