import ClosureConversion.Proofs.ClassFile.Storage

/-!
Contract: how class files stand in bytes.

Owns:
- the bytes that a class file can be stored as: its texts may have any contents that are read as
  them, and bits that are no flags may be set;
- that whatever stands in such bytes is read from them.

Does not own: what the parts of a class file have to be like.
-/

namespace ClosureConversion

/-! ## Parts -/

/-- What a class file holds for a constant is read as the constant. -/
theorem Constant.IsStoredAs.takes
    {constant : Constant}
    {stored : Bytes}
    (isStored : constant.IsStoredAs stored) :
    Reader.Takes read stored constant := by
  cases isStored with
  | text content short =>
      intro rest
      have count : content.length.toUInt16.toNat = content.length := UInt16.toNat_ofNat_of_lt' short
      rw [Constant.textBytes, List.cons_append, List.cons_append, Constant.read_tagged,
        List.append_assoc]
      change (do
          let count : UInt16 ← read
          let bytes ← Reader.take count.toNat "utf8 constant"
          return .utf8 (Text.ModifiedUtf8.decode bytes) : Reader Constant) _ = _
      rw [read_bind_of_eq_ok (read_write _ _), count, read_bind_of_eq_ok (take_append _ _ _)]
      rfl
  | other notText =>
      refine Constant.isReadBack ?_
      cases constant with
      | utf8 text => exact absurd rfl (notText text)
      | _ => trivial

/-- The bytes that a class file can hold for a member, which may set bits that are no flags. -/
inductive Member.IsStoredAs {declaration : Declaration} : Member declaration → Bytes → Prop
  | intro (bits : UInt16) (name descriptor : PoolIndex) {attributes : List Attribute}
      (few : attributes.length < 2 ^ 16) (fit : ∀ entry ∈ attributes, entry.Fits) :
      IsStoredAs ⟨AccessFlags.ofBits bits, name, descriptor, attributes⟩
        (write bits ++ (write name ++ (write descriptor ++ write attributes)))

theorem Member.IsStoredAs.takes
    {declaration : Declaration}
    {member : Member declaration}
    {stored : Bytes}
    (isStored : member.IsStoredAs stored) :
    Reader.Takes read stored member := by
  cases isStored with
  | intro bits name descriptor few fit =>
      apply ((Reader.takes_write bits).map AccessFlags.ofBits).bind
      apply (Reader.takes_write name).bind
      apply (Reader.takes_write descriptor).bind
      exact (Attribute.isReadBack_list few fit).last (Reader.takes_pure _)

/-- A class file can hold what is written for a member. -/
theorem Member.isStoredAs_write
    {declaration : Declaration}
    {member : Member declaration}
    (fits : member.Fits) :
    member.IsStoredAs (write member) := by
  obtain ⟨flags, name, descriptor, attributes⟩ := member
  have isStored : IsStoredAs
      (⟨AccessFlags.ofBits flags.bits, name, descriptor, attributes⟩ : Member declaration) _ :=
    .intro flags.bits name descriptor fits.few fits.attributes
  rw [AccessFlags.ofBits_bits, ← List.append_assoc, ← List.append_assoc] at isStored
  exact isStored

theorem Member.areStoredAs_map_write
    {declaration : Declaration}
    {members : List (Member declaration)}
    (fit : ∀ member ∈ members, member.Fits) :
    List.Forall₂ IsStoredAs members (members.map write) :=
  List.forall₂_map_right_iff.mpr
    (List.forall₂_same.mpr fun member isMember => isStoredAs_write (fit member isMember))

/-! ## Class files -/

/-- The bootstrap methods of a pool are those that the attributes of a kind hold, or none if there is
no such attribute. -/
structure Attribute.HoldBootstraps (attributes : List Attribute) (pool : ConstantPool) : Prop where
  each : AllHold attributes pool BootstrapTable fun table =>
    table.bootstraps = pool.bootstraps ∧ table.bootstraps.length < 2 ^ 16 ∧
      ∀ bootstrap ∈ table.bootstraps, bootstrap.Fits
  noneOfKind : (∀ entry ∈ attributes, entry.holds pool BootstrapTable = false) →
    pool.bootstraps = []

theorem Attribute.HoldBootstraps.exists_find?_eq_ok
    {attributes : List Attribute}
    {pool : ConstantPool}
    (hold : HoldBootstraps attributes pool) :
    ∃ table?, find? attributes pool BootstrapTable = .ok table? ∧
      (table?.map BootstrapTable.bootstraps).getD [] = pool.bootstraps := by
  unfold find?
  split
  · rename_i entry isFirst
    have isKind := List.find?_some isFirst
    obtain ⟨table, found, same, _⟩ := hold.each.exists_contents_eq_ok
      (fun _ legal => BootstrapTable.isReadBack legal.2.1 legal.2.2)
      (List.mem_of_find?_eq_some isFirst) isKind
    exact ⟨some table, by rw [found]; rfl, same⟩
  · rename_i isNone
    rw [List.find?_eq_none] at isNone
    exact ⟨none, rfl, (hold.noneOfKind fun entry member =>
      Bool.eq_false_iff.mpr (isNone entry member)).symm⟩

namespace ClassFile

/-- The parts of a class file that can be stored in several ways. -/
structure StoredParts where
  constants : List Bytes
  flags : UInt16
  fields : List Bytes
  methods : List Bytes

/-- The bytes of a class file with some of its parts stored in certain ways. -/
def bytesWith (file : ClassFile) (parts : StoredParts) : Bytes :=
  write magic ++ (write file.version ++
    ((write file.pool.constants.endOffset.toUInt16 ++ parts.constants.flatten) ++
    (write parts.flags ++ (write file.this ++ (write file.super ++ (write file.interfaces ++
    ((write file.fields.length.toUInt16 ++ parts.fields.flatten) ++
    ((write file.methods.length.toUInt16 ++ parts.methods.flatten) ++
      write file.attributes))))))))

/-- The parts of a class file can be stored in these ways, and all else can be stored. -/
structure IsStoredWith (file : ClassFile) (parts : StoredParts) : Prop where
  constants : List.Forall₂ Constant.IsStoredAs file.pool.constants.values parts.constants
  positions : file.pool.constants.endOffset < 2 ^ 16
  contiguous : file.pool.constants.IsContiguous
  pool : file.pool = .ofTable file.pool.constants file.pool.bootstraps
  flags : AccessFlags.ofBits parts.flags = file.flags
  interfaceCount : file.interfaces.length < 2 ^ 16
  fieldCount : file.fields.length < 2 ^ 16
  fields : List.Forall₂ Member.IsStoredAs file.fields parts.fields
  methodCount : file.methods.length < 2 ^ 16
  methods : List.Forall₂ Member.IsStoredAs file.methods parts.methods
  attributeCount : file.attributes.length < 2 ^ 16
  attributes : ∀ entry ∈ file.attributes, entry.Fits
  bootstraps : Attribute.HoldBootstraps file.attributes file.pool

/-- The bytes hold the class file, and nothing else. -/
def IsStoredAs (file : ClassFile) (bytes : Bytes) : Prop :=
  ∃ parts, file.IsStoredWith parts ∧ bytes = file.bytesWith parts

/-- What is written for a class file holds it. -/
theorem isStoredAs_toBytes
    {file : ClassFile}
    (fits : file.Fits)
    (contiguous : file.pool.constants.IsContiguous)
    (isPool : file.pool = .ofTable file.pool.constants file.pool.bootstraps)
    (bootstraps : Attribute.HoldBootstraps file.attributes file.pool) :
    file.IsStoredAs file.toBytes := by
  let parts : StoredParts :=
    ⟨file.pool.constants.values.map write, file.flags.bits, file.fields.map write,
      file.methods.map write⟩
  have isStored : file.IsStoredWith parts := {
    constants := Constant.areStoredAs_map_write fits.texts
    positions := fits.positions
    contiguous
    pool := isPool
    flags := AccessFlags.ofBits_bits file.flags
    interfaceCount := fits.interfaces
    fieldCount := fits.fieldCount
    fields := Member.areStoredAs_map_write fits.fields
    methodCount := fits.methodCount
    methods := Member.areStoredAs_map_write fits.methods
    attributeCount := fits.attributeCount
    attributes := fits.attributes
    bootstraps }
  refine ⟨parts, isStored, ?_⟩
  unfold toBytes bytesWith
  simp only [parts, ← List.flatMap_def, List.append_assoc]
  rfl

end ClassFile

end ClosureConversion
