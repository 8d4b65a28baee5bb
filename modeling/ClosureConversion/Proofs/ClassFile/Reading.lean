import ClosureConversion.ClassFile.Basic
import ClosureConversion.Proofs.Binary
import ClosureConversion.Proofs.ModifiedUtf8
import ClosureConversion.Proofs.Pool

/-!
Contract: class files are read back from their bytes.

Owns:
- values that are read back from what is written for them, and that constants, attributes,
  members and bootstrap methods are, as far as their sizes fit the fields they are written to;
- tables whose constants follow one another, of which those that were read are examples;
- class files all of whose sizes fit, which are read back from their bytes.

Does not own: what the conversion of a class writes.
-/

namespace ClosureConversion

/-- The value is what reading finds where it was written, whatever follows it. -/
def IsReadBack {α : Type} [Binary α] (value : α) : Prop :=
  Reader.Takes read (write value) value

/-- As many bytes as were written are taken off. -/
theorem take_append
    (bytes rest : Bytes)
    (part : String) :
    Reader.take bytes.length part (bytes ++ rest) = .ok (bytes, rest) := by
  simp [Reader.take, List.splitAt_eq]

/-! ## Constants -/

instance : LawfulBinary HandleKind where
  read_write kind rest := by
    change (do
        let number : UInt8 ← read
        match HandleKind.ofNumber? number with
        | some kind => return kind
        | none => throw (.badConstant number.toUInt16 "method handle kind") : Reader HandleKind)
      (write kind.number ++ rest) = _
    rw [read_bind_of_eq_ok (read_write kind.number rest)]
    simp only [HandleKind.ofNumber?_number]
    rfl

namespace Constant

/-- The length of a text fits the sixteen bits that it is written in. -/
def Fits : Constant → Prop
  | .utf8 text => (Text.ModifiedUtf8.encode text).length < 2 ^ 16
  | _ => True

instance : DecidablePred Fits
  | .utf8 text => inferInstanceAs (Decidable ((Text.ModifiedUtf8.encode text).length < 2 ^ 16))
  | .classInfo _ | .fieldRef _ _ | .methodRef _ _ _ | .string _ | .integer _ | .float _ | .long _
  | .double _ | .nameAndType _ _ | .methodHandle _ _ | .methodType _ | .dynamic _ _
  | .invokeDynamic _ _ | .moduleInfo _ | .packageInfo _ => .isTrue trivial

/-- What follows a tag is read as the tag says. -/
theorem read_tagged
    (tag : UInt8)
    (bytes : Bytes) :
    (read : Reader Constant) (tag :: bytes) = readTagged tag bytes :=
  read_bind_of_eq_ok (read_write tag bytes)

theorem isReadBack
    {constant : Constant}
    (fits : constant.Fits) :
    IsReadBack constant := by
  intro rest
  change read (constant.toBytes ++ rest) = _
  cases constant with
  | utf8 text =>
      have count : (Text.ModifiedUtf8.encode text).length.toUInt16.toNat =
          (Text.ModifiedUtf8.encode text).length := UInt16.toNat_ofNat_of_lt' fits
      rw [toBytes, List.cons_append, List.cons_append, read_tagged, List.append_assoc]
      change (do
          let count : UInt16 ← read
          let bytes ← Reader.take count.toNat "utf8 constant"
          return .utf8 (Text.ModifiedUtf8.decode bytes) : Reader Constant) _ = _
      rw [read_bind_of_eq_ok (read_write _ _), count, read_bind_of_eq_ok (take_append _ _ _),
        Text.ModifiedUtf8.decode_encode]
      rfl
  | classInfo name =>
      exact (read_tagged 7 _).trans (read_map_of_eq_ok (read_write name rest) _)
  | fieldRef owner signature =>
      exact (read_tagged 9 _).trans (read_bind_write _ owner signature rest)
  | methodRef owner signature ofInterface =>
      cases ofInterface with
      | false => exact (read_tagged 10 _).trans (read_bind_write _ owner signature rest)
      | true => exact (read_tagged 11 _).trans (read_bind_write _ owner signature rest)
  | string text =>
      exact (read_tagged 8 _).trans (read_map_of_eq_ok (read_write text rest) _)
  | integer value =>
      exact (read_tagged 3 _).trans (read_map_of_eq_ok (read_write value rest) _)
  | float bits =>
      exact (read_tagged 4 _).trans (read_map_of_eq_ok (read_write bits rest) _)
  | long value =>
      exact (read_tagged 5 _).trans (read_map_of_eq_ok (read_write value rest) _)
  | double bits =>
      exact (read_tagged 6 _).trans (read_map_of_eq_ok (read_write bits rest) _)
  | nameAndType name descriptor =>
      exact (read_tagged 12 _).trans (read_bind_write _ name descriptor rest)
  | methodHandle kind member =>
      exact (read_tagged 15 _).trans (read_bind_write _ kind member rest)
  | methodType descriptor =>
      exact (read_tagged 16 _).trans (read_map_of_eq_ok (read_write descriptor rest) _)
  | dynamic bootstrap signature =>
      exact (read_tagged 17 _).trans (read_bind_write _ bootstrap signature rest)
  | invokeDynamic bootstrap signature =>
      exact (read_tagged 18 _).trans (read_bind_write _ bootstrap signature rest)
  | moduleInfo name =>
      exact (read_tagged 19 _).trans (read_map_of_eq_ok (read_write name rest) _)
  | packageInfo name =>
      exact (read_tagged 20 _).trans (read_map_of_eq_ok (read_write name rest) _)

end Constant

/-! ## Tables of constants -/

namespace ConstantTable

theorem length_le_totalWidth
    (constants : List Constant) :
    constants.length ≤ totalWidth constants := by
  induction constants with
  | nil => exact Nat.le_refl 0
  | cons constant constants inductionHypothesis =>
      have wide := ConstantPool.width_pos constant
      change constants.length + 1 ≤ width constant + totalWidth constants
      omega

/-- The constants follow one another from the first position on. -/
def IsContiguous (table : ConstantTable) : Prop :=
  table = empty.pushAll table.values

theorem isContiguous_pushAll
    {table : ConstantTable}
    (contiguous : table.IsContiguous)
    (constants : List Constant) :
    IsContiguous (table.pushAll constants) := by
  unfold IsContiguous
  rw [OffsetSeq.values_pushAll, OffsetSeq.pushAll_append]
  exact congrArg (OffsetSeq.pushAll · constants) contiguous

/-- Reading adds constants after those read before. -/
theorem exists_pushAll_of_readUpTo_eq_ok
    {bound fuel : Nat}
    {before after : ConstantTable}
    {bytes rest : Bytes}
    (isRead : readUpTo bound fuel before bytes = .ok (after, rest)) :
    ∃ constants, after = before.pushAll constants := by
  induction fuel generalizing before bytes with
  | zero =>
      cases isRead
      exact ⟨[], rfl⟩
  | succ fuel inductionHypothesis =>
      simp only [readUpTo] at isRead
      split at isRead
      · split at isRead
        · rename_i constant next isConstant
          obtain ⟨constants, rfl⟩ := inductionHypothesis isRead
          exact ⟨constant :: constants, rfl⟩
        · cases isRead
      · cases isRead
        exact ⟨[], rfl⟩

theorem isContiguous_of_read_eq_ok
    {table : ConstantTable}
    {bytes rest : Bytes}
    (isRead : (read : Reader ConstantTable) bytes = .ok (table, rest)) :
    table.IsContiguous := by
  change ((read : Reader UInt16) bytes >>= fun counted =>
    readUpTo counted.1.toNat counted.1.toNat empty counted.2) = _ at isRead
  obtain ⟨_, _, isTable⟩ := bind_eq_ok.mp isRead
  obtain ⟨constants, rfl⟩ := exists_pushAll_of_readUpTo_eq_ok isTable
  exact isContiguous_pushAll (show IsContiguous empty from rfl) constants

/-- Constants are taken off up to the offset at which the last one ends. -/
theorem takes_readUpTo
    {constants : List Constant}
    {stored : List Bytes}
    (each : List.Forall₂ (Reader.Takes read) stored constants)
    {fuel : Nat}
    (enough : constants.length ≤ fuel)
    (before : ConstantTable) :
    Reader.Takes (readUpTo (before.pushAll constants).endOffset fuel before) stored.flatten
      (before.pushAll constants) := by
  induction each generalizing before fuel with
  | nil =>
      intro rest
      cases fuel with
      | zero => rfl
      | succ fuel =>
          exact if_neg (Nat.lt_irrefl before.endOffset)
  | @cons chunk constant stored constants takesFirst _ inductionHypothesis =>
      obtain ⟨fuel, rfl⟩ := Nat.exists_eq_add_of_le' (Nat.lt_of_lt_of_le (Nat.succ_pos _) enough)
      have below : before.endOffset < (before.pushAll (constant :: constants)).endOffset := by
        have wide := ConstantPool.width_pos constant
        rw [OffsetSeq.endOffset_pushAll]
        change _ < _ + (width constant + totalWidth constants)
        omega
      intro rest
      rw [List.flatten_cons, List.append_assoc]
      simp only [readUpTo]
      rw [if_pos below, takesFirst]
      exact inductionHypothesis (Nat.le_of_succ_le_succ enough) (before.push constant) rest

/-- A table is the position after its last one, if that can be written, and its constants. -/
theorem takes_read
    {table : ConstantTable}
    {stored : List Bytes}
    (contiguous : table.IsContiguous)
    (each : List.Forall₂ (Reader.Takes read) stored table.values)
    (small : table.endOffset < 2 ^ 16) :
    Reader.Takes read (write table.endOffset.toUInt16 ++ stored.flatten) table := by
  have count : table.endOffset.toUInt16.toNat = table.endOffset :=
    UInt16.toNat_ofNat_of_lt' small
  have ends : table.endOffset = (empty.pushAll table.values).endOffset :=
    congrArg OffsetSeq.endOffset contiguous
  have enough : table.values.length ≤ table.endOffset := by
    have short := length_le_totalWidth table.values
    rw [ends, OffsetSeq.endOffset_pushAll]
    omega
  have takes := takes_readUpTo each enough empty
  rw [← ends, ← show table = empty.pushAll table.values from contiguous] at takes
  refine (Reader.takes_write table.endOffset.toUInt16).bind ?_
  rwa [count]

/-- A table is read back if its texts fit and its last position can be written. -/
theorem isReadBack
    {table : ConstantTable}
    (contiguous : table.IsContiguous)
    (fit : ∀ constant ∈ table.values, constant.Fits)
    (small : table.endOffset < 2 ^ 16) :
    IsReadBack table :=
  takes_read contiguous (List.forall₂_map_left_iff.mpr
    (List.forall₂_same.mpr fun constant member => Constant.isReadBack (fit constant member))) small

end ConstantTable

/-! ## Attributes and members -/

instance : LawfulBinary Version where
  read_write version rest :=
    read_bind_write (fun minor major => Version.mk major minor) version.minor version.major rest

instance (declaration : Declaration) : LawfulBinary (AccessFlags declaration) where
  read_write flags rest := by
    change (AccessFlags.ofBits <$> read : Reader (AccessFlags declaration))
      (write flags.bits ++ rest) = _
    rw [read_map_of_eq_ok (read_write flags.bits rest), AccessFlags.ofBits_bits]

namespace Attribute

/-- The length of the contents fits the four bytes that it is written in. -/
def Fits (entry : Attribute) : Prop :=
  entry.info.length < 2 ^ 32

theorem isReadBack
    {entry : Attribute}
    (fits : entry.Fits) :
    IsReadBack entry := by
  intro rest
  have count : entry.info.length.toUInt32.toNat = entry.info.length :=
    UInt32.toNat_ofNat_of_lt' fits
  change (do
      let name ← read
      let length : UInt32 ← read
      let info ← Reader.take length.toNat "attribute"
      return ⟨name, info⟩ : Reader Attribute)
    (write entry.name ++ write entry.info.length.toUInt32 ++ entry.info ++ rest) = _
  rw [List.append_assoc, List.append_assoc, read_bind_of_eq_ok (read_write _ _),
    read_bind_of_eq_ok (read_write _ _), count, read_bind_of_eq_ok (take_append _ _ _)]
  rfl

/-- The contents are found that an attribute was written for. -/
theorem contents_eq_ok
    {α : Type}
    [AttributeContents α]
    {entry : Attribute}
    {contents : α}
    (isWritten : entry.info = write contents)
    (readBack : IsReadBack contents) :
    entry.contents α = .ok contents := by
  rw [Attribute.contents, isWritten]
  exact readBack.decode_eq_ok

/-- The attributes of a kind are written for contents of which something holds. -/
def AllHold (attributes : List Attribute) (pool : ConstantPool) (α : Type) [AttributeContents α]
    (Holds : α → Prop) : Prop :=
  ∀ entry ∈ attributes, entry.holds pool α = true →
    ∃ contents, entry.info = write contents ∧ Holds contents

/-- The contents of such attributes are found if whatever it is that holds of them lets them be
read back. -/
theorem AllHold.exists_contents_eq_ok
    {attributes : List Attribute}
    {pool : ConstantPool}
    {α : Type}
    [AttributeContents α]
    {Holds : α → Prop}
    (all : AllHold attributes pool α Holds)
    (readBack : ∀ contents, Holds contents → IsReadBack contents)
    {entry : Attribute}
    (member : entry ∈ attributes)
    (holds : entry.holds pool α = true) :
    ∃ contents, entry.contents α = .ok contents ∧ Holds contents := by
  obtain ⟨contents, isWritten, legal⟩ := all entry member holds
  exact ⟨contents, contents_eq_ok isWritten (readBack contents legal), legal⟩

/-- Several attributes are read back if there are not too many of them. -/
theorem isReadBack_list
    {entries : List Attribute}
    (few : entries.length < 2 ^ 16)
    (fit : ∀ entry ∈ entries, entry.Fits) :
    IsReadBack entries :=
  read_write_list (fun entry member => isReadBack (fit entry member)) few

end Attribute

namespace Member

variable {declaration : Declaration}

/-- The attributes of the member fit the fields they are written to. -/
structure Fits (member : Member declaration) : Prop where
  few : member.attributes.length < 2 ^ 16
  attributes : ∀ entry ∈ member.attributes, entry.Fits

theorem isReadBack
    {member : Member declaration}
    (fits : member.Fits) :
    IsReadBack member := by
  intro rest
  change (do
      let flags ← read
      let name ← read
      let descriptor ← read
      let attributes ← read
      return ⟨flags, name, descriptor, attributes⟩ : Reader (Member declaration))
    (write member.flags ++ write member.name ++ write member.descriptor ++
      write member.attributes ++ rest) = _
  rw [List.append_assoc, List.append_assoc, List.append_assoc,
    read_bind_of_eq_ok (read_write _ _), read_bind_of_eq_ok (read_write _ _),
    read_bind_of_eq_ok (read_write _ _),
    read_bind_of_eq_ok (Attribute.isReadBack_list fits.few fits.attributes rest)]
  rfl

end Member

namespace BootstrapMethod

/-- The number of arguments fits the sixteen bits that it is written in. -/
def Fits (bootstrap : BootstrapMethod) : Prop :=
  bootstrap.arguments.length < 2 ^ 16

theorem isReadBack
    {bootstrap : BootstrapMethod}
    (fits : bootstrap.Fits) :
    IsReadBack bootstrap := by
  intro rest
  change (do
      let handle ← read
      let arguments ← read
      return ⟨handle, arguments⟩ : Reader BootstrapMethod)
    (write bootstrap.handle ++ write bootstrap.arguments ++ rest) = _
  rw [List.append_assoc, read_bind_of_eq_ok (read_write _ _), read_bind_of_eq_ok
    (read_write_list (fun argument _ => read_write argument) fits rest)]
  rfl

end BootstrapMethod

theorem BootstrapTable.isReadBack
    {table : BootstrapTable}
    (few : table.bootstraps.length < 2 ^ 16)
    (fit : ∀ bootstrap ∈ table.bootstraps, bootstrap.Fits) :
    IsReadBack table :=
  Reader.Takes.map
    (read_write_list (fun bootstrap member => BootstrapMethod.isReadBack (fit bootstrap member)) few)
    BootstrapTable.mk

/-! ## Class files -/

namespace ClassFile

/-- Every size in the class file fits the field that it is written to. -/
structure Fits (file : ClassFile) : Prop where
  texts : ∀ constant ∈ file.pool.constants.values, constant.Fits
  positions : file.pool.constants.endOffset < 2 ^ 16
  interfaces : file.interfaces.length < 2 ^ 16
  fieldCount : file.fields.length < 2 ^ 16
  fields : ∀ field ∈ file.fields, field.Fits
  methodCount : file.methods.length < 2 ^ 16
  methods : ∀ method ∈ file.methods, method.Fits
  attributeCount : file.attributes.length < 2 ^ 16
  attributes : ∀ entry ∈ file.attributes, entry.Fits
  bootstrapCount : file.pool.bootstraps.length < 2 ^ 16
  bootstraps : ∀ bootstrap ∈ file.pool.bootstraps, bootstrap.Fits

section Writing

variable {file : ClassFile} (contiguous : file.pool.constants.IsContiguous) (fits : file.Fits)
  {table? : Option BootstrapTable}
  (isTable : Attribute.find? file.attributes (ConstantPool.ofTable file.pool.constants [])
    BootstrapTable = .ok table?)

include contiguous fits isTable

/-- The bytes of a class file that fits are taken off, whatever follows them, and give the class
file with the bootstrap methods that its attributes hold. -/
theorem takes_toBytes :
    Reader.Takes reader file.toBytes { file with
      pool := ConstantPool.ofTable file.pool.constants
        ((table?.map BootstrapTable.bootstraps).getD []) } := by
  intro rest
  unfold toBytes reader
  simp only [List.append_assoc]
  rw [read_bind_of_eq_ok (read_write magic _), if_neg (not_not_intro rfl)]
  rw [read_bind_of_eq_ok (read_write _ _),
    read_bind_of_eq_ok (ConstantTable.isReadBack contiguous fits.texts fits.positions _),
    read_bind_of_eq_ok (read_write _ _), read_bind_of_eq_ok (read_write _ _),
    read_bind_of_eq_ok (read_write _ _),
    read_bind_of_eq_ok (read_write_list (fun index _ => read_write index) fits.interfaces _),
    read_bind_of_eq_ok (read_write_list
      (fun field member => Member.isReadBack (fits.fields field member)) fits.fieldCount _),
    read_bind_of_eq_ok (read_write_list
      (fun method member => Member.isReadBack (fits.methods method member)) fits.methodCount _),
    read_bind_of_eq_ok (Attribute.isReadBack_list fits.attributeCount fits.attributes _), isTable]
  cases table? with
  | none => rfl
  | some table => rfl

/-- A class file that fits is read back from its bytes, with the bootstrap methods that its
attributes hold. -/
theorem ofBytes_toBytes :
    ofBytes file.toBytes = .ok { file with
      pool := ConstantPool.ofTable file.pool.constants
        ((table?.map BootstrapTable.bootstraps).getD []) } := by
  have whole := takes_toBytes contiguous fits isTable []
  rw [List.append_nil] at whole
  rw [ofBytes, whole]
  rfl

end Writing

/-- A class file is read part by part: the number that it begins with, its version and its
constants come first, and its pool gets the bootstrap methods that its attributes hold. -/
theorem exists_reads_of_ofBytes_eq_ok
    {bytes : Bytes}
    {file : ClassFile}
    (isRead : ofBytes bytes = .ok file) :
    ∃ found afterMagic afterVersion afterTable,
      (read : Reader UInt32) bytes = .ok (found, afterMagic) ∧
      (read : Reader Version) afterMagic = .ok (file.version, afterVersion) ∧
      (read : Reader ConstantTable) afterVersion = .ok (file.pool.constants, afterTable) ∧
      ∃ table?, Attribute.find? file.attributes (ConstantPool.ofTable file.pool.constants [])
          BootstrapTable = .ok table? ∧
        file.pool = ConstantPool.ofTable file.pool.constants
          ((table?.map BootstrapTable.bootstraps).getD []) := by
  obtain ⟨⟨whole, rest⟩, isWhole, isFile⟩ := map_eq_ok.mp isRead
  obtain rfl : whole = file := isFile
  unfold reader at isWhole
  obtain ⟨found, afterMagic, isMagic, isWhole⟩ := thread_bind_eq_ok.mp isWhole
  split at isWhole
  · cases isWhole
  obtain ⟨version, afterVersion, isVersion, isWhole⟩ := thread_bind_eq_ok.mp isWhole
  obtain ⟨table, afterTable, isTable, isWhole⟩ := thread_bind_eq_ok.mp isWhole
  obtain ⟨flags, _, _, isWhole⟩ := thread_bind_eq_ok.mp isWhole
  obtain ⟨this, _, _, isWhole⟩ := thread_bind_eq_ok.mp isWhole
  obtain ⟨super, _, _, isWhole⟩ := thread_bind_eq_ok.mp isWhole
  obtain ⟨interfaces, _, _, isWhole⟩ := thread_bind_eq_ok.mp isWhole
  obtain ⟨fields, _, _, isWhole⟩ := thread_bind_eq_ok.mp isWhole
  obtain ⟨methods, _, _, isWhole⟩ := thread_bind_eq_ok.mp isWhole
  obtain ⟨attributes, _, _, isWhole⟩ := thread_bind_eq_ok.mp isWhole
  obtain ⟨table?, _, isFound, isWhole⟩ := thread_bind_eq_ok.mp isWhole
  obtain ⟨isFound, rfl⟩ := thread_lift_eq_ok.mp isFound
  refine ⟨found, afterMagic, afterVersion, afterTable, isMagic, ?_⟩
  cases table? with
  | none =>
      cases thread_pure_eq_ok.mp isWhole
      exact ⟨isVersion, isTable, none, isFound, rfl⟩
  | some bootstraps =>
      cases thread_pure_eq_ok.mp isWhole
      exact ⟨isVersion, isTable, some bootstraps, isFound, rfl⟩

/-- The pool of a class file that was read is that of its table, with the bootstrap methods that
its attributes hold. -/
theorem pool_of_ofBytes_eq_ok
    {bytes : Bytes}
    {file : ClassFile}
    (isRead : ofBytes bytes = .ok file) :
    file.pool.constants.IsContiguous ∧ file.pool.IsConsistent ∧
      ∃ table?, Attribute.find? file.attributes (ConstantPool.ofTable file.pool.constants [])
          BootstrapTable = .ok table? ∧
        file.pool = ConstantPool.ofTable file.pool.constants
          ((table?.map BootstrapTable.bootstraps).getD []) := by
  obtain ⟨_, _, _, _, _, _, isTable, table?, isFound, isPool⟩ :=
    exists_reads_of_ofBytes_eq_ok isRead
  refine ⟨ConstantTable.isContiguous_of_read_eq_ok isTable, ?_, table?, isFound, isPool⟩
  rw [isPool]
  exact ConstantPool.isConsistent_of_read_eq_ok isTable _

end ClassFile

end ClosureConversion
