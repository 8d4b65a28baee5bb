import ClosureConversion.Proofs.ClassFile.Annotations
import ClosureConversion.Proofs.ClassFile.Sizes
import ClosureConversion.Proofs.StackMap.Expansion

/-!
Contract: the contents of attributes in their binary form.

Owns:
- for every kind of contents, which of them can be told: their counts fit the fields that they are
  written to, and their tags say what they are;
- just these contents are read back from what is written for them, whatever follows;
- whatever bytes contents are read from, the contents are read back, so a stack map that is
  written anew has the same frames.

Does not own: what the contents refer to.
-/

namespace ClosureConversion

/-! ## Stack maps -/

namespace StackMapFrame

/-- A frame is read by a tag, which leaves few locals to drop or to add. -/
theorem gives_isWritable :
    Gives IsWritable (read : Reader StackMapFrame) := by
  refine gives_bind fun tag => ?_
  unfold readTagged
  split
  · exact gives_pure trivial
  split
  · exact Gives.map (fun _ _ _ => trivial)
  split
  · exact gives_bind fun delta => gives_bind fun value => gives_pure trivial
  split
  · rename_i isChop
    rw [Bool.and_eq_true, decide_eq_true_eq, decide_eq_true_eq, UInt8.le_iff_toNat_le,
      UInt8.le_iff_toNat_le] at isChop
    refine gives_bind fun delta => gives_pure ?_
    rw [IsWritable, UInt8.le_iff_toNat_le, UInt8.le_iff_toNat_le]
    have dropped : (251 - tag).toNat = 251 - tag.toNat :=
      UInt8.toNat_sub_of_le _ _ (UInt8.le_iff_toNat_le.mpr (Nat.le_trans isChop.2 (by decide)))
    simp at dropped isChop ⊢
    omega
  split
  · exact Gives.map (fun _ _ _ => trivial)
  split
  · rename_i isAppend
    rw [Bool.and_eq_true, decide_eq_true_eq, decide_eq_true_eq, UInt8.le_iff_toNat_le,
      UInt8.le_iff_toNat_le] at isAppend
    refine gives_bind fun delta => (Reader.gives_times (gives_any read) _).bind
      fun locals isLong => gives_pure ?_
    have added : (tag - 251).toNat = tag.toNat - 251 :=
      UInt8.toNat_sub_of_le _ _ (UInt8.le_iff_toNat_le.mpr (Nat.le_trans (by decide) isAppend.1))
    rw [IsWritable, isLong.1, added]
    simp at isAppend
    omega
  split
  · exact gives_bind fun delta => Reader.gives_few.bind fun locals fewLocals =>
      Reader.gives_few.bind fun stack fewValues => gives_pure ⟨fewLocals, fewValues⟩
  · exact gives_throw

end StackMapFrame

namespace StackMap

/-- The frames can be told, and counted. -/
structure Fits (map : StackMap) : Prop where
  few : map.frames.length < 2 ^ 16
  frames : ∀ frame ∈ map.frames, frame.IsWritable

theorem Fits.isReadBack
    {map : StackMap}
    (fits : map.Fits) :
    IsReadBack map :=
  Reader.Takes.map (read_write_list (fun frame member =>
    StackMapFrame.read_write_of_isWritable (fits.frames frame member)) fits.few) StackMap.mk

theorem gives_fits :
    Gives StackMap.Fits (read : Reader StackMap) :=
  Gives.map fun _ _ isRead =>
    have fit := Reader.gives_list StackMapFrame.gives_isWritable _ _ isRead
    ⟨fit.1, fit.2⟩

end StackMap

/-! ## Tables of the class -/

/-- The bootstrap methods can be counted, as can the arguments of each. -/
structure BootstrapTable.Fits (table : BootstrapTable) : Prop where
  few : table.bootstraps.length < 2 ^ 16
  bootstraps : ∀ bootstrap ∈ table.bootstraps, bootstrap.Fits

instance : LawfulBinary InnerClass where
  read_write entry rest := by
    change (do
        let inner ← read
        let outer ← read
        let name ← read
        let flags ← read
        return ⟨inner, outer, name, flags⟩ : Reader InnerClass)
      (write entry.inner ++ write entry.outer ++ write entry.name ++ write entry.flags ++ rest) = _
    simp only [List.append_assoc]
    rw [read_bind_of_eq_ok (read_write _ _), read_bind_of_eq_ok (read_write _ _),
      read_bind_of_eq_ok (read_write _ _), read_bind_of_eq_ok (read_write _ _)]
    rfl

theorem InnerClassTable.isReadBack
    {table : InnerClassTable}
    (few : table.entries.length < 2 ^ 16) :
    IsReadBack table :=
  Reader.Takes.map (read_write_list (fun entry _ => read_write entry) few) InnerClassTable.mk

/-! ## Annotations -/

namespace ElementValue

/-- Values are read level by level, each by a tag that is known. -/
theorem gives_fits
    (depth : Nat) :
    Gives ElementValue.Fits (readNested depth) := by
  induction depth with
  | zero => exact gives_throw
  | succ depth inductionHypothesis =>
      unfold readNested
      refine gives_bind fun tag => ?_
      split
      · rename_i known
        exact Gives.map fun _ _ _ => .constant (List.contains_iff_mem.mp known) _
      split
      · exact gives_bind fun type => gives_bind fun name => gives_pure (.enum type name)
      split
      · exact Gives.map fun _ _ _ => .class_ _
      split
      · have gives : Gives (fun element : PoolIndex × ElementValue => element.2.Fits) (do
            let name ← read
            let value ← readNested depth
            return (name, value) : Reader (PoolIndex × ElementValue)) :=
          gives_bind fun name => inductionHypothesis.bind fun value fits => gives_pure fits
        refine gives_bind fun type => gives_bind fun count => Gives.map fun _ _ isRead => ?_
        have fit := Reader.gives_times gives _ _ _ isRead
        exact .nested type (fit.1 ▸ count.toNat_lt) fit.2
      split
      · refine gives_bind fun count => Gives.map fun _ _ isRead => ?_
        have fit := Reader.gives_times inductionHypothesis _ _ _ isRead
        exact .array (fit.1 ▸ count.toNat_lt) fit.2
      · exact gives_throw

end ElementValue

theorem Annotation.gives_fits :
    Gives Annotation.Fits (read : Reader Annotation) := by
  have gives : Gives (fun element : PoolIndex × ElementValue => element.2.Fits)
      (read : Reader (PoolIndex × ElementValue)) :=
    gives_bind fun name => Gives.bind (fun bytes => ElementValue.gives_fits (bytes.length + 1) bytes)
      fun value fits => gives_pure fits
  exact gives_bind fun type => (Reader.gives_list gives).bind fun elements fit =>
    gives_pure ⟨fit.1, fit.2⟩

/-- The annotations can be counted, and each of them fits. -/
def AnnotationsFit (annotations : List Annotation) : Prop :=
  annotations.length < 2 ^ 16 ∧ ∀ mark ∈ annotations, mark.Fits

theorem AnnotationsFit.isReadBack
    {annotations : List Annotation}
    (fit : AnnotationsFit annotations) :
    IsReadBack annotations :=
  read_write_list (fun mark member => (fit.2 mark member).isReadBack) fit.1

theorem gives_annotationsFit :
    Gives AnnotationsFit (read : Reader (List Annotation)) :=
  Reader.gives_list Annotation.gives_fits

theorem VisibleAnnotations.gives_fit :
    Gives (fun contents : VisibleAnnotations => AnnotationsFit contents.annotations) read :=
  Gives.map fun _ _ isRead => gives_annotationsFit _ _ isRead

theorem InvisibleAnnotations.gives_fit :
    Gives (fun contents : InvisibleAnnotations => AnnotationsFit contents.annotations) read :=
  Gives.map fun _ _ isRead => gives_annotationsFit _ _ isRead

/-! ## All kinds -/

/-- **Contents are read back**: of every kind, just the contents that fit are taken off from what is
written for them, whatever follows; values of elements are so however deep they are nested. A stack
map that is read from bytes, short or extended forms alike, is read from what is written for it
anew. -/
theorem isReadBack_iff_fits :
    (∀ code : CodeAttribute, IsReadBack code ↔ code.Fits) ∧
    (∀ map : StackMap, IsReadBack map ↔ map.Fits) ∧
    (∀ table : LineTable, IsReadBack table ↔ table.entries.length < 2 ^ 16) ∧
    (∀ table : VariableTable, IsReadBack table ↔ table.entries.length < 2 ^ 16) ∧
    (∀ table : BootstrapTable, IsReadBack table ↔ table.Fits) ∧
    (∀ table : InnerClassTable, IsReadBack table ↔ table.entries.length < 2 ^ 16) ∧
    (∀ contents : VisibleAnnotations,
      IsReadBack contents ↔ AnnotationsFit contents.annotations) ∧
    (∀ contents : InvisibleAnnotations,
      IsReadBack contents ↔ AnnotationsFit contents.annotations) ∧
    ∀ (bytes rest : Bytes) (map : StackMap),
      (read : Reader StackMap) bytes = .ok (map, rest) → IsReadBack map := by
  refine ⟨fun code => ?_, fun map => ?_, fun table => ?_, fun table => ?_, fun table => ?_,
    fun table => ?_, fun contents => ?_, fun contents => ?_, fun bytes rest map isRead => ?_⟩
  · exact isReadBack_iff (fun _ fits => fits.isReadBack) CodeAttribute.gives_fits
  · exact isReadBack_iff (fun _ fits => fits.isReadBack) StackMap.gives_fits
  · exact isReadBack_iff (fun _ few => LineTable.isReadBack few) Reader.gives_few.map
  · exact isReadBack_iff (fun _ few => VariableTable.isReadBack few) Reader.gives_few.map
  · refine isReadBack_iff (fun _ fits => BootstrapTable.isReadBack fits.few fits.bootstraps) ?_
    exact fun bytes result isRead =>
      have fit := BootstrapTable.gives_fits bytes result isRead
      ⟨fit.1, fit.2⟩
  · exact isReadBack_iff (fun _ few => InnerClassTable.isReadBack few) Reader.gives_few.map
  · exact isReadBack_iff (fun _ fit => fit.isReadBack.map VisibleAnnotations.mk)
      VisibleAnnotations.gives_fit
  · exact isReadBack_iff (fun _ fit => fit.isReadBack.map InvisibleAnnotations.mk)
      InvisibleAnnotations.gives_fit
  · exact (StackMap.gives_fits _ _ isRead).isReadBack

namespace LongForms

/-- A stack map of three frames, of which two say by long distances what short ones would say. -/
def bytes : Bytes :=
  [0, 3, 251, 0, 5, 247, 0, 7, 1, 250, 0, 9]

/-- The frames of the stack map. -/
def map : StackMap :=
  ⟨[.same 5, .sameWithOne 7 .int, .chop 9 1]⟩

/-- An annotation within a list of values within an annotation. -/
def nested : ElementValue :=
  .array [.nested 3 [(4, .array [.constant 73 5, .enum 6 7])], .class_ 8]

theorem fits_nested : nested.Fits := by
  have values : ElementValue.Fits (.array [.constant 73 5, .enum 6 7]) :=
    .array (by decide) (List.forall_mem_cons.mpr ⟨.constant (by decide) 5,
      List.forall_mem_singleton.mpr (.enum 6 7)⟩)
  exact .array (by decide) (List.forall_mem_cons.mpr
    ⟨.nested 3 (by decide) (List.forall_mem_singleton.mpr values),
      List.forall_mem_singleton.mpr (.class_ 8)⟩)

end LongForms

open LongForms in
/-- The stack map is written with other bytes than it was read from, and read as the same frames.
The annotation is read back with all that is nested in it. -/
theorem longForms_areReadBack :
    (read : Reader StackMap) bytes = .ok (map, []) ∧ write map ≠ bytes ∧ IsReadBack map ∧
      IsReadBack (VisibleAnnotations.mk [⟨1, [(2, nested)]⟩]) := by
  obtain ⟨_, _, _, _, _, _, annotations, _, rewritten⟩ := isReadBack_iff_fits
  have isRead : (read : Reader StackMap) bytes = .ok (map, []) := by with_unfolding_all rfl
  refine ⟨isRead, by decide, rewritten bytes [] map isRead, (annotations _).mpr ⟨by decide, ?_⟩⟩
  exact List.forall_mem_singleton.mpr ⟨by decide, List.forall_mem_singleton.mpr fits_nested⟩

end ClosureConversion
