import ClosureConversion.Proofs.ClassFile.Reading

/-!
Contract: class files that are written say the same when they are read.

Owns:
- where the constants of a table stand if they follow one another, each as wide as it is;
- class files that say the same, part by part and position by position;
- a class file whose sizes fit says the same after it was written and read.

Does not own: class files whose sizes do not fit.
-/

namespace ClosureConversion

/-! ## Positions -/

namespace OffsetSeq

variable {α : Type} [Width α]

/-- An element of a longer sequence is an earlier one, or stands right after those before it. -/
theorem mem_toList_pushAll_iff
    {sequence : OffsetSeq α}
    {values : List α}
    {offset : Nat}
    {value : α} :
    (offset, value) ∈ (sequence.pushAll values).toList ↔
      (offset, value) ∈ sequence.toList ∨ ∃ front back, values = front ++ value :: back ∧
        offset = sequence.endOffset + totalWidth front := by
  induction values generalizing sequence with
  | nil =>
      constructor
      · exact .inl
      · rintro (member | ⟨front, back, isEmpty, _⟩)
        · exact member
        · cases List.append_eq_nil_iff.mp isEmpty.symm |>.2
  | cons first values inductionHypothesis =>
      have pushed : (sequence.push first).endOffset = sequence.endOffset + width first := rfl
      change (offset, value) ∈ ((sequence.push first).pushAll values).toList ↔ _
      rw [inductionHypothesis, toList_push, List.mem_append, List.mem_singleton, Prod.mk.injEq,
        pushed]
      constructor
      · rintro ((member | ⟨rfl, rfl⟩) | ⟨front, back, rfl, rfl⟩)
        · exact .inl member
        · exact .inr ⟨[], values, rfl, rfl⟩
        · exact .inr ⟨first :: front, back, rfl, Nat.add_assoc _ _ _⟩
      · rintro (member | ⟨_ | ⟨other, front⟩, back, isSplit, rfl⟩)
        · exact .inl (.inl member)
        · cases isSplit
          exact .inl (.inr ⟨rfl, rfl⟩)
        · cases isSplit
          exact .inr ⟨front, back, rfl, (Nat.add_assoc _ _ _).symm⟩

end OffsetSeq

theorem OffsetSeq.IsOrdered.pushAll
    {table : ConstantTable}
    (ordered : table.IsOrdered)
    (constants : List Constant) :
    (table.pushAll constants).IsOrdered :=
  ordered.pushAll_of_wide fun constant _ => ConstantPool.width_pos constant

theorem ConstantTable.IsContiguous.isOrdered
    {table : ConstantTable}
    (contiguous : table.IsContiguous) :
    table.IsOrdered := by
  have ordered : (empty.pushAll table.values).IsOrdered :=
    (OffsetSeq.isOrdered_startingAt 1).pushAll table.values
  rwa [← show table = empty.pushAll table.values from contiguous] at ordered

/-- A constant stands at the position after the widths of those before it, and nothing stands
anywhere else, so that a wide one takes two positions. -/
theorem ConstantPool.get_eq_ok_iff_of_isContiguous
    {pool : ConstantPool}
    (contiguous : pool.constants.IsContiguous)
    (small : pool.constants.endOffset < 2 ^ 16)
    {index : PoolIndex}
    {constant : Constant} :
    pool.get index = .ok constant ↔ ∃ front back,
      pool.constants.values = front ++ constant :: back ∧ index.toNat = 1 + totalWidth front := by
  have ordered := contiguous.isOrdered
  have consistent := isConsistent_ofTable ordered
    (fun entry member => Nat.lt_trans (ordered.bounded entry member) small) []
  have isTable : pool.constants = ConstantTable.empty.pushAll pool.constants.values := contiguous
  calc pool.get index = .ok constant
      ↔ (index.toNat, constant) ∈ pool.constants.toList := consistent.get_eq_ok_iff
    _ ↔ (index.toNat, constant) ∈
          (ConstantTable.empty.pushAll pool.constants.values).toList := by rw [← isTable]
    _ ↔ _ := OffsetSeq.mem_toList_pushAll_iff.trans (or_iff_right List.not_mem_nil)

/-- A position that something stands at is not the one that means nothing. -/
theorem ConstantPool.IsConsistent.ne_zero_of_get_eq_ok
    {pool : ConstantPool}
    (consistent : pool.IsConsistent)
    (contiguous : pool.constants.IsContiguous)
    {index : PoolIndex}
    {constant : Constant}
    (stands : pool.get index = .ok constant) :
    index ≠ 0 := by
  rintro rfl
  have member := consistent.get_eq_ok_iff.mp stands
  rw [show pool.constants = ConstantTable.empty.pushAll pool.constants.values from contiguous]
    at member
  rcases OffsetSeq.mem_toList_pushAll_iff.mp member with isEarlier | ⟨front, _, _, isOffset⟩
  · cases isEarlier
  · have starts : ConstantTable.empty.endOffset = 1 := rfl
    have isZero : (0 : PoolIndex).toNat = 0 := rfl
    omega

/-! ## Class files -/

/-- Two class files have the same parts, and each constant of one stands at the same position of
the other. -/
structure ClassFile.Matches (file other : ClassFile) : Prop where
  version : file.version = other.version
  constants : ∀ index constant,
    file.pool.get index = .ok constant ↔ other.pool.get index = .ok constant
  values : file.pool.constants.values = other.pool.constants.values
  bootstraps : file.pool.bootstraps = other.pool.bootstraps
  flags : file.flags = other.flags
  this : file.this = other.this
  super : file.super = other.super
  interfaces : file.interfaces = other.interfaces
  fields : file.fields = other.fields
  methods : file.methods = other.methods
  attributes : file.attributes = other.attributes

/-- The bootstrap methods of the pool are those that the attributes hold: there are none if there
is no attribute with them. -/
def ClassFile.HasOwnBootstraps (file : ClassFile) : Prop :=
  ∃ table?, Attribute.find? file.attributes (ConstantPool.ofTable file.pool.constants [])
      BootstrapTable = .ok table? ∧
    (table?.map BootstrapTable.bootstraps).getD [] = file.pool.bootstraps

/-- **Round trip**: a class file whose sizes fit, and whose bootstrap methods are those that its
attributes hold, is read from what is written for it, whatever follows. What is read says the same,
and its constants stand one after another, each as wide as it is. -/
theorem ClassFile.exists_matches_of_toBytes
    {file : ClassFile}
    (contiguous : file.pool.constants.IsContiguous)
    (fits : file.Fits)
    (hasOwn : file.HasOwnBootstraps)
    (rest : Bytes) :
    ∃ found : ClassFile, reader (file.toBytes ++ rest) = .ok (found, rest) ∧ found.Matches file ∧
      ∀ index constant, found.pool.get index = .ok constant ↔ ∃ front back,
        file.pool.constants.values = front ++ constant :: back ∧
          index.toNat = 1 + totalWidth front := by
  obtain ⟨table?, isTable, same⟩ := hasOwn
  refine ⟨_, takes_toBytes contiguous fits isTable rest, ?_, fun index constant => ?_⟩
  · exact {
      version := rfl
      constants := fun _ _ => Iff.rfl
      values := rfl
      bootstraps := same
      flags := rfl
      this := rfl
      super := rfl
      interfaces := rfl
      fields := rfl
      methods := rfl
      attributes := rfl }
  · exact ConstantPool.get_eq_ok_iff_of_isContiguous contiguous fits.positions

namespace WideClass

/-- Constants of both widths, and what a bootstrap method needs. -/
def constants : List Constant :=
  [.utf8 "demo/Wide", .classInfo 1, .long (-1), .float 0x7fc00001, .double 0x8000000000000000,
    .utf8 "BootstrapMethods", .utf8 "\u00e9\x00", .methodHandle (.method .invokeStatic) 13,
    .utf8 "()V", .nameAndType 9 11, .methodRef 2 12 false]

/-- A class file with a bootstrap method whose argument is wide. -/
def file : ClassFile where
  version := .java11
  pool := .ofTable (.ofList 1 constants) [⟨10, [3]⟩]
  flags := ClassFlags.accPublic
  this := 2
  super := 0
  interfaces := [2]
  fields := [⟨FieldFlags.accFinal, 9, 11, [⟨9, [1, 2, 3]⟩]⟩]
  methods := []
  attributes := [⟨9, []⟩, ⟨8, write (BootstrapTable.mk [⟨10, [3]⟩])⟩]

theorem values_constants : file.pool.constants.values = constants := by
  with_unfolding_all rfl

theorem isContiguous_file : file.pool.constants.IsContiguous := by
  with_unfolding_all rfl

theorem fits_file : file.Fits := by
  have texts : ∀ constant ∈ file.pool.constants.values, constant.Fits := by
    rw [values_constants]
    decide +kernel
  have positions : file.pool.constants.endOffset < 2 ^ 16 := by with_unfolding_all decide
  have short : ∀ {info : Bytes} {name : PoolIndex}, info.length < 2 ^ 32 →
      (Attribute.mk name info).Fits := id
  exact {
    texts
    positions
    interfaces := by decide
    fieldCount := by decide
    fields := List.forall_mem_singleton.mpr
      ⟨by decide, List.forall_mem_singleton.mpr (short (by decide))⟩
    methodCount := by decide
    methods := List.forall_mem_nil _
    attributeCount := by decide
    attributes := List.forall_mem_cons.mpr
      ⟨short (by decide), List.forall_mem_singleton.mpr (short (by decide))⟩
    bootstrapCount := by decide
    bootstraps := List.forall_mem_singleton.mpr (show [3].length < 2 ^ 16 by decide) }

theorem hasOwnBootstraps_file : file.HasOwnBootstraps :=
  ⟨some ⟨[⟨10, [3]⟩]⟩, by with_unfolding_all rfl, rfl⟩

end WideClass

open WideClass in
/-- The wide constant at the third position takes the fourth one, too. -/
theorem wideClass_isReadBack :
    file.pool.constants.IsContiguous ∧ file.Fits ∧ file.HasOwnBootstraps ∧
      ∃ found : ClassFile, ClassFile.reader (file.toBytes ++ [0]) = .ok (found, [0]) ∧
        found.Matches file ∧ found.pool.get 3 = .ok (.long (-1)) ∧
          (∀ constant, found.pool.get 4 ≠ .ok constant) ∧
            found.pool.get 5 = .ok (.float 0x7fc00001) := by
  obtain ⟨found, isRead, matched, _⟩ :=
    ClassFile.exists_matches_of_toBytes isContiguous_file fits_file hasOwnBootstraps_file [0]
  refine ⟨isContiguous_file, fits_file, hasOwnBootstraps_file, found, isRead, matched, ?_,
    fun constant isFound => ?_, ?_⟩
  · exact (matched.constants _ _).mpr (by decide +kernel)
  · have isNone : file.pool.get 4 = .error (.badConstant 4 "constant") := by decide +kernel
    cases isNone.symm.trans ((matched.constants _ _).mp isFound)
  · exact (matched.constants _ _).mpr (by decide +kernel)

end ClosureConversion
