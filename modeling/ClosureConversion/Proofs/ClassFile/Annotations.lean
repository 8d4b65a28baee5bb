import ClosureConversion.ClassFile.Annotation
import ClosureConversion.Hierarchy.Declaration
import ClosureConversion.Proofs.ClassFile.Reading
import ClosureConversion.Proofs.Reference

/-!
Contract: annotations are read back, and their classes found.

Owns:
- annotations that fit the fields they are written to, and whose types are classes;
- values of elements are read back, however deep they are nested;
- the classes of all annotations among attributes are found.

Does not own: what the values of elements refer to.
-/

namespace ClosureConversion

/-! ## Values of elements -/

namespace ElementValue

/-- The tags are known, and no list is longer than its length can say. -/
inductive Fits : ElementValue → Prop where
  | constant {tag : UInt8} (known : tag ∈ constantTags) (value : PoolIndex) :
      Fits (.constant tag value)
  | enum (type name : PoolIndex) : Fits (.enum type name)
  | class_ (descriptor : PoolIndex) : Fits (.class_ descriptor)
  | nested (type : PoolIndex) {elements : List (PoolIndex × ElementValue)}
      (few : elements.length < 2 ^ 16) (each : ∀ element ∈ elements, Fits element.2) :
      Fits (.nested type elements)
  | array {values : List ElementValue} (few : values.length < 2 ^ 16)
      (each : ∀ value ∈ values, Fits value) : Fits (.array values)

theorem toBytes_nested
    (type : PoolIndex)
    (elements : List (PoolIndex × ElementValue)) :
    toBytes (.nested type elements) = '@'.toUInt8 :: (write type ++
      (write elements.length.toUInt16 ++
        (elements.map fun element => write element.1 ++ toBytes element.2).flatten)) := by
  rw [toBytes, ← List.flatMap_def]
  simp only [List.flatMap_subtype, List.unattach_attach, List.cons_append, List.append_assoc]

theorem toBytes_array
    (values : List ElementValue) :
    toBytes (.array values) =
      '['.toUInt8 :: (write values.length.toUInt16 ++ (values.map toBytes).flatten) := by
  rw [toBytes, ← List.flatMap_def]
  simp only [List.flatMap_subtype, List.unattach_attach, List.cons_append]

theorem toBytes_ne_nil
    (value : ElementValue) :
    value.toBytes ≠ [] := by
  cases value <;> rw [toBytes] <;> exact List.cons_ne_nil _ _

theorem exists_depth_of_length_le
    {value : ElementValue}
    {depth : Nat}
    (deep : value.toBytes.length ≤ depth) :
    ∃ inner, depth = inner + 1 :=
  Nat.exists_eq_add_of_le' (Nat.lt_of_lt_of_le (List.length_pos_iff.mpr value.toBytes_ne_nil) deep)

/-- A value is read back by every reader that looks deep enough into it. -/
theorem takes_readNested
    {value : ElementValue}
    (fits : value.Fits)
    {depth : Nat}
    (deep : value.toBytes.length ≤ depth) :
    Reader.Takes (readNested depth) value.toBytes value := by
  induction fits generalizing depth with
  | @constant tag known index =>
      obtain ⟨depth, rfl⟩ := exists_depth_of_length_le deep
      rw [toBytes, readNested]
      refine (Reader.takes_write tag).bind ?_
      rw [if_pos (List.contains_iff_mem.mpr known)]
      exact (Reader.takes_write index).map _
  | enum type name =>
      obtain ⟨depth, rfl⟩ := exists_depth_of_length_le deep
      rw [toBytes, readNested, List.cons_append]
      refine (Reader.takes_write 'e'.toUInt8).bind ?_
      exact (Reader.takes_write type).bind ((Reader.takes_write name).last (Reader.takes_pure _))
  | class_ descriptor =>
      obtain ⟨depth, rfl⟩ := exists_depth_of_length_le deep
      rw [toBytes, readNested]
      refine (Reader.takes_write 'c'.toUInt8).bind ?_
      exact (Reader.takes_write descriptor).map _
  | @nested type elements few each inductionHypothesis =>
      obtain ⟨depth, rfl⟩ := exists_depth_of_length_le deep
      rw [toBytes_nested] at deep ⊢
      have eachElement : List.Forall₂ (Reader.Takes (do
          let name ← read
          let value ← readNested depth
          return (name, value)))
          (elements.map fun element => write element.1 ++ toBytes element.2) elements := by
        refine List.forall₂_map_left_iff.mpr (List.forall₂_same.mpr fun element member => ?_)
        have short : (toBytes element.2).length ≤ depth := by
          have part := (List.infix_of_mem_flatten (List.mem_map_of_mem member
            (f := fun element => write element.1 ++ toBytes element.2))).length_le
          simp only [List.length_cons, List.length_append] at deep part
          omega
        exact (Reader.takes_write element.1).bind
          ((inductionHypothesis element member short).last (Reader.takes_pure _))
      rw [readNested]
      refine (Reader.takes_write '@'.toUInt8).bind ?_
      refine (Reader.takes_write type).bind ?_
      refine (Reader.takes_write elements.length.toUInt16).bind ?_
      rw [UInt16.toNat_ofNat_of_lt' few]
      exact (Reader.takes_times eachElement).map _
  | @array values few each inductionHypothesis =>
      obtain ⟨depth, rfl⟩ := exists_depth_of_length_le deep
      rw [toBytes_array] at deep ⊢
      have eachValue : List.Forall₂ (Reader.Takes (readNested depth)) (values.map toBytes)
          values := by
        refine List.forall₂_map_left_iff.mpr (List.forall₂_same.mpr fun value member => ?_)
        have part := (List.infix_of_mem_flatten (List.mem_map_of_mem member (f := toBytes))).length_le
        refine inductionHypothesis value member ?_
        simp only [List.length_cons, List.length_append] at deep
        omega
      rw [readNested]
      refine (Reader.takes_write '['.toUInt8).bind ?_
      refine (Reader.takes_write values.length.toUInt16).bind ?_
      rw [UInt16.toNat_ofNat_of_lt' few]
      exact (Reader.takes_times eachValue).map _

theorem isReadBack
    {value : ElementValue}
    (fits : value.Fits) :
    IsReadBack value :=
  fun rest => takes_readNested fits (by
    change value.toBytes.length ≤ (value.toBytes ++ rest).length + 1
    rw [List.length_append]
    omega) rest

end ElementValue

/-! ## Annotations -/

/-- The elements can be counted, and their values fit. -/
structure Annotation.Fits (mark : Annotation) : Prop where
  few : mark.elements.length < 2 ^ 16
  elements : ∀ element ∈ mark.elements, element.2.Fits

theorem Annotation.Fits.isReadBack
    {mark : Annotation}
    (fits : mark.Fits) :
    IsReadBack mark := by
  have eachElement : ∀ element ∈ mark.elements, IsReadBack element := fun element member =>
    (Reader.takes_write element.1).bind
      ((ElementValue.isReadBack (fits.elements element member)).last (Reader.takes_pure _))
  exact (Reader.takes_write mark.type).bind
    (Reader.Takes.last (read_write_list eachElement fits.few) (Reader.takes_pure _))

/-- The type of the annotation is a class, and its elements fit. -/
structure Annotation.IsWellFormed (pool : ConstantPool) (mark : Annotation) : Prop where
  type : ∃ name : BinaryName, pool.text mark.type = .ok name.descriptor
  few : mark.elements.length < 2 ^ 16
  elements : ∀ element ∈ mark.elements, element.2.Fits

/-- There are no more annotations than can be counted, and each of them is well formed. -/
def AreAnnotations (pool : ConstantPool) (annotations : List Annotation) : Prop :=
  annotations.length < 2 ^ 16 ∧ ∀ mark ∈ annotations, mark.IsWellFormed pool

/-- The annotations among attributes are well formed. -/
structure Attribute.Annotate (pool : ConstantPool) (attributes : List Attribute) : Prop where
  visible : AllHold attributes pool VisibleAnnotations (AreAnnotations pool ·.annotations)
  invisible : AllHold attributes pool InvisibleAnnotations (AreAnnotations pool ·.annotations)

theorem ClassDeclaration.annotationClass_descriptor
    (name : BinaryName) :
    annotationClass (FieldType.object name).descriptor = .ok name := by
  unfold annotationClass
  rw [FieldType.ofClassFile_descriptor]
  rfl

section Annotations

variable {pool : ConstantPool}

theorem Annotation.IsWellFormed.fits
    {mark : Annotation}
    (wellFormed : mark.IsWellFormed pool) :
    mark.Fits where
  few := wellFormed.few
  elements := wellFormed.elements

theorem AreAnnotations.isReadBack
    {annotations : List Annotation}
    (areAnnotations : AreAnnotations pool annotations) :
    IsReadBack annotations :=
  read_write_list (fun mark member => (areAnnotations.2 mark member).fits.isReadBack)
    areAnnotations.1

variable {attributes : List Attribute} (annotate : Attribute.Annotate pool attributes)

include annotate

end Annotations

end ClosureConversion
