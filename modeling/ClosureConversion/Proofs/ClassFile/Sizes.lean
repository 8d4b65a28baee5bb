import ClosureConversion.Proofs.ClassFile.Replacing
import ClosureConversion.Proofs.ClassFile.RoundTrip
import ClosureConversion.Proofs.ClassFile.Storage
import ClosureConversion.Proofs.Code.Rereading

/-!
Contract: nothing is read that does not fit the fields it is read from.

Owns:
- that lists, attributes, members, bootstrap methods and code that are read fit their fields, so
  that what is written for them is read as the same just if they fit;
- a class file is read from what is written for it just if all of its sizes fit, and its
  bootstrap methods are those that its attributes hold.

Does not own: which sizes the class files have that are written.
-/

namespace ClosureConversion

/-! ## Readers -/

namespace Reader

variable {α : Type} {Known : α → Prop}

theorem gives_take
    (count : Nat)
    (part : String) :
    Gives (fun taken => taken.length = count) (take count part) :=
  fun _ _ isTaken => (take_eq_ok isTaken).2

theorem gives_timesFrom
    {reader : Reader α}
    (gives : Gives Known reader)
    (count : Nat)
    (before : List α) :
    Gives (fun values => values.length = count + before.length ∧
      ∀ value ∈ values, value ∈ before ∨ Known value) (timesFrom reader count before) := by
  induction count generalizing before with
  | zero => exact gives_pure ⟨(Nat.zero_add _).symm, fun _ member => .inl member⟩
  | succ count inductionHypothesis =>
      intro bytes result isRead
      simp only [timesFrom] at isRead
      split at isRead
      · rename_i first between isFirst
        obtain ⟨isLong, areKnown⟩ := inductionHypothesis (first :: before) between result isRead
        refine ⟨by rw [isLong, List.length_cons]; omega, fun value member => ?_⟩
        rcases areKnown value member with isEarlier | known
        · rcases List.mem_cons.mp isEarlier with rfl | isEarlier
          · exact .inr (gives _ _ isFirst)
          · exact .inl isEarlier
        · exact .inr known
      · cases isRead

theorem gives_times
    {reader : Reader α}
    (gives : Gives Known reader)
    (count : Nat) :
    Gives (fun values => values.length = count ∧ ∀ value ∈ values, Known value)
      (times count reader) := by
  refine (gives_timesFrom gives count []).bind fun reversed areKnown => gives_pure ⟨?_, ?_⟩
  · rw [List.length_reverse, areKnown.1]
    rfl
  · exact fun value member =>
      (areKnown.2 value (List.mem_reverse.mp member)).resolve_left List.not_mem_nil

/-- A list is read with the number of its elements, which has sixteen bits. -/
theorem gives_list
    [Binary α]
    (gives : Gives Known (read : Reader α)) :
    Gives (fun values => values.length < 2 ^ 16 ∧ ∀ value ∈ values, Known value)
      (read : Reader (List α)) := by
  refine gives_bind fun count => ?_
  intro bytes result isRead
  obtain ⟨isLong, areKnown⟩ := gives_times gives count.toNat _ _ isRead
  exact ⟨isLong ▸ count.toNat_lt, areKnown⟩

theorem gives_few
    [Binary α] :
    Gives (fun values => values.length < 2 ^ 16) (read : Reader (List α)) :=
  fun _ _ isRead => (gives_list (gives_any read) _ _ isRead).1

end Reader

/-- A value is read from what is written for it just if it is of the only kind that is read, all of
which is read back. -/
theorem decode_write_eq_ok_iff
    {α : Type}
    [Binary α]
    {Known : α → Prop}
    (readBack : ∀ value, Known value → IsReadBack value)
    (gives : Gives Known (read : Reader α))
    {value : α} :
    decode (write value) = .ok value ↔ Known value := by
  constructor
  · intro decoded
    obtain ⟨⟨found, rest⟩, isRead, isFound⟩ := map_eq_ok.mp decoded
    obtain rfl : found = value := isFound
    exact gives _ _ isRead
  · exact fun known => (readBack value known).decode_eq_ok

/-- The values that are read back from what is written for them are those of a domain if all of the
domain are and nothing else is ever read. -/
theorem isReadBack_iff
    {α : Type}
    [Binary α]
    {Known : α → Prop}
    (readBack : ∀ value, Known value → IsReadBack value)
    (gives : Gives Known (read : Reader α))
    {value : α} :
    IsReadBack value ↔ Known value :=
  ⟨fun isReadBack => gives _ _ (isReadBack []), readBack value⟩

/-! ## Attributes and members -/

theorem Attribute.gives_fits :
    Gives Attribute.Fits (read : Reader Attribute) := by
  refine gives_bind fun name => gives_bind fun length => ?_
  refine (Reader.gives_take _ _).bind fun info isLong => gives_pure ?_
  change info.length < 2 ^ 32
  exact isLong ▸ length.toNat_lt

theorem Member.gives_fits
    {declaration : Declaration} :
    Gives Member.Fits (read : Reader (Member declaration)) := by
  refine gives_bind fun flags => gives_bind fun name => ?_
  refine gives_bind fun descriptor => ?_
  exact (Reader.gives_list Attribute.gives_fits).bind fun attributes fit =>
    gives_pure ⟨fit.1, fit.2⟩

theorem BootstrapMethod.gives_fits :
    Gives BootstrapMethod.Fits (read : Reader BootstrapMethod) :=
  gives_bind fun _ => Reader.gives_few.bind fun _ few => gives_pure few

theorem BootstrapTable.gives_fits :
    Gives (fun table : BootstrapTable => table.bootstraps.length < 2 ^ 16 ∧
      ∀ bootstrap ∈ table.bootstraps, bootstrap.Fits) read :=
  (Reader.gives_list BootstrapMethod.gives_fits).map

/-! ## Code -/

theorem CodeAttribute.gives_fits :
    Gives CodeAttribute.Fits (read : Reader CodeAttribute) := by
  refine gives_bind fun maxStack => gives_bind fun maxLocals => ?_
  refine gives_bind fun length => ?_
  refine (Reader.gives_take _ _).bind fun bytes isLong => ?_
  refine Reader.gives_few.bind fun exceptions few => ?_
  exact (Reader.gives_list Attribute.gives_fits).bind fun attributes fit =>
    gives_pure ⟨isLong ▸ length.toNat_lt, few, fit.1, fit.2⟩

/-- Code is read from what is written for it just if its exception table, its attributes and the
code itself fit. -/
theorem CodeAttribute.decode_write_eq_ok_iff
    {code : CodeAttribute} :
    decode (write code) = .ok code ↔ code.Fits :=
  ClosureConversion.decode_write_eq_ok_iff (fun _ fits => fits.isReadBack) CodeAttribute.gives_fits

theorem LineTable.decode_write_eq_ok_iff
    {table : LineTable} :
    decode (write table) = .ok table ↔ table.entries.length < 2 ^ 16 :=
  ClosureConversion.decode_write_eq_ok_iff (fun _ few => LineTable.isReadBack few)
    Reader.gives_few.map

theorem VariableTable.decode_write_eq_ok_iff
    {table : VariableTable} :
    decode (write table) = .ok table ↔ table.entries.length < 2 ^ 16 :=
  ClosureConversion.decode_write_eq_ok_iff (fun _ few => VariableTable.isReadBack few)
    Reader.gives_few.map

/-! ## Constants -/

namespace Constant

/-- What stands for a constant and is written for it fits. -/
theorem IsStoredAs.fits
    {constant : Constant}
    {stored : Bytes}
    (isStored : constant.IsStoredAs stored)
    (isWritten : stored = constant.toBytes) :
    constant.Fits := by
  cases isStored with
  | text content short =>
      have sameContent : content = Text.ModifiedUtf8.encode (Text.ModifiedUtf8.decode content) :=
        textBytes_injective isWritten
      change (Text.ModifiedUtf8.encode _).length < 2 ^ 16
      rwa [← sameContent]
  | other notText =>
      cases constant with
      | utf8 text => exact absurd rfl (notText text)
      | _ => trivial

/-- Constants stand in what is written for them only if all of them fit. -/
theorem fit_of_areStored
    {constants : List Constant}
    {stored : List Bytes}
    (areStored : List.Forall₂ IsStoredAs constants stored)
    {others rest : Bytes}
    (areWritten : constants.flatMap write ++ others = stored.flatten ++ rest) :
    ∀ constant ∈ constants, constant.Fits := by
  induction areStored with
  | nil => exact List.forall_mem_nil _
  | @cons constant entry constants stored isStored _ inductionHypothesis =>
      rw [List.flatMap_cons, List.flatten_cons, List.append_assoc, List.append_assoc]
        at areWritten
      have isWritten : entry = constant.toBytes := by
        apply isStored.eq_toBytes_of_isPrefix
        exact ⟨[], by rw [List.append_nil]; exact areWritten.symm⟩
      rw [isWritten] at areWritten
      exact List.forall_mem_cons.mpr ⟨isStored.fits isWritten,
        inductionHypothesis (List.append_cancel_left areWritten)⟩

end Constant

namespace ConstantTable

/-- The last constant that is read starts below the bound. -/
theorem endOffset_le_of_readUpTo_eq_ok
    {bound fuel : Nat}
    {before after : ConstantTable}
    {bytes rest : Bytes}
    (isRead : readUpTo bound fuel before bytes = .ok (after, rest)) :
    after.endOffset ≤ max before.endOffset (bound + 1) := by
  induction fuel generalizing before bytes with
  | zero =>
      cases isRead
      exact Nat.le_max_left _ _
  | succ fuel inductionHypothesis =>
      simp only [readUpTo] at isRead
      split at isRead
      · rename_i isBelow
        split at isRead
        · rename_i constant next isConstant
          have narrow : width constant ≤ 2 := by
            change (if constant.isWide then 2 else 1) ≤ 2
            split <;> decide
          have pushed : (before.push constant).endOffset = before.endOffset + width constant := rfl
          have later := inductionHypothesis isRead
          omega
        · cases isRead
      · cases isRead
        exact Nat.le_max_left _ _

/-- A table is read from what is written for it only if its texts fit and its last position can be
written. -/
theorem fits_of_read_eq_ok
    {table : ConstantTable}
    {others rest : Bytes}
    (isRead : (read : Reader ConstantTable) (write table ++ others) = .ok (table, rest)) :
    (∀ constant ∈ table.values, constant.Fits) ∧ table.endOffset < 2 ^ 16 := by
  have parts : (write table : Bytes) =
      write table.endOffset.toUInt16 ++ table.values.flatMap write := rfl
  rw [parts, List.append_assoc] at isRead
  change ((read : Reader UInt16) >>= fun count => readUpTo count.toNat count.toNat empty) _ = _
    at isRead
  rw [read_bind_of_eq_ok (read_write _ _)] at isRead
  obtain ⟨constants, stored, isTable, areWritten, areStored⟩ :=
    exists_stored_of_readUpTo_eq_ok isRead
  have sameValues : table.values = constants := by
    rw [isTable, OffsetSeq.values_pushAll]
    rfl
  refine ⟨sameValues ▸ Constant.fit_of_areStored areStored (sameValues ▸ areWritten), ?_⟩
  -- A bound that wrapped around would have stopped the reading before the end of the table.
  have bounded := endOffset_le_of_readUpTo_eq_ok isRead
  have first : empty.endOffset = 1 := rfl
  rw [first, Nat.toUInt16_eq, UInt16.toNat_ofNat'] at bounded
  omega

end ConstantTable

/-! ## Class files -/

namespace ClassFile

variable {file : ClassFile}

/-- The bytes are read as a class file that says the same, and nothing follows it. -/
def IsRecoveredFrom (file : ClassFile) (bytes : Bytes) : Prop :=
  ∃ found, reader bytes = .ok (found, []) ∧ found.Matches file

/-- The attributes hold the bootstrap methods once the table of these is put among them. -/
theorem hasOwnBootstraps_of_replace
    {attributes : List Attribute}
    {entry : Attribute}
    (carries : entry.Carries file.pool (BootstrapTable.mk file.pool.bootstraps))
    (isReplaced : file.attributes = Attribute.replace attributes file.pool BootstrapTable entry)
    (fits : file.Fits) :
    file.HasOwnBootstraps := by
  have sameTable : Attribute.find? file.attributes (ConstantPool.ofTable file.pool.constants [])
      BootstrapTable = Attribute.find? file.attributes file.pool BootstrapTable :=
    Attribute.find?_congr fun entry _ => Attribute.holds_congr rfl entry
  have held := Attribute.contents_eq_ok carries.info
    (BootstrapTable.isReadBack fits.bootstrapCount fits.bootstraps)
  refine ⟨some ⟨file.pool.bootstraps⟩, ?_, rfl⟩
  rw [sameTable]
  unfold Attribute.find?
  rw [isReplaced, Attribute.find?_replace (Attribute.holds_iff.mpr carries.named)]
  dsimp only
  rw [held]
  rfl

/-- The bootstrap methods that are found in attributes fit. -/
theorem bootstraps_fit_of_find?_eq_ok
    {attributes : List Attribute}
    {pool : ConstantPool}
    {table? : Option BootstrapTable}
    (isTable : Attribute.find? attributes pool BootstrapTable = .ok table?) :
    ((table?.map BootstrapTable.bootstraps).getD []).length < 2 ^ 16 ∧
      ∀ bootstrap ∈ (table?.map BootstrapTable.bootstraps).getD [], bootstrap.Fits := by
  unfold Attribute.find? at isTable
  split at isTable
  · obtain ⟨table, isDecoded, rfl⟩ := map_eq_ok.mp isTable
    obtain ⟨⟨found, rest⟩, isRead, isFound⟩ := map_eq_ok.mp isDecoded
    obtain rfl : found = table := isFound
    exact BootstrapTable.gives_fits _ _ isRead
  · cases isTable
    exact ⟨by decide, List.forall_mem_nil _⟩

/-- What is read as a class file fits, its constants apart. -/
theorem gives_fits :
    Gives (fun file => (∀ constant ∈ file.pool.constants.values, constant.Fits) →
      file.pool.constants.endOffset < 2 ^ 16 → file.Fits) reader := by
  unfold reader
  refine gives_bind fun found => ?_
  split
  · exact gives_throw
  refine gives_bind fun version => gives_bind fun table => ?_
  refine gives_bind fun flags => gives_bind fun this => ?_
  refine gives_bind fun super => ?_
  refine Reader.gives_few.bind fun interfaces fewInterfaces => ?_
  refine (Reader.gives_list Member.gives_fits).bind fun fields fieldsFit => ?_
  refine (Reader.gives_list Member.gives_fits).bind fun methods methodsFit => ?_
  refine (Reader.gives_list Attribute.gives_fits).bind fun attributes attributesFit => ?_
  rintro bytes ⟨file, rest⟩ isRead texts positions
  obtain ⟨table?, between, isFound, isRead⟩ := thread_bind_eq_ok.mp isRead
  obtain ⟨isTable, rfl⟩ := thread_lift_eq_ok.mp isFound
  obtain ⟨fewBootstraps, bootstrapsFit⟩ := bootstraps_fit_of_find?_eq_ok isTable
  have whole : ∀ pool : ConstantPool,
      (∀ constant ∈ pool.constants.values, constant.Fits) → pool.constants.endOffset < 2 ^ 16 →
      pool.bootstraps = (table?.map BootstrapTable.bootstraps).getD [] →
      ClassFile.Fits ⟨version, pool, flags, this, super, interfaces, fields, methods, attributes⟩ :=
    fun pool texts positions bootstraps => {
      texts
      positions
      interfaces := fewInterfaces
      fieldCount := fieldsFit.1
      fields := fieldsFit.2
      methodCount := methodsFit.1
      methods := methodsFit.2
      attributeCount := attributesFit.1
      attributes := attributesFit.2
      bootstrapCount := bootstraps ▸ fewBootstraps
      bootstraps := bootstraps ▸ bootstrapsFit }
  cases table? with
  | none =>
      cases thread_pure_eq_ok.mp isRead
      exact whole _ texts positions rfl
  | some bootstraps =>
      cases thread_pure_eq_ok.mp isRead
      exact whole _ texts positions rfl

/-- Class files of the same parts fit the same fields. -/
theorem Matches.fits
    {found : ClassFile}
    (matched : found.Matches file)
    (fits : found.Fits)
    (positions : file.pool.constants.endOffset < 2 ^ 16) :
    file.Fits where
  texts := matched.values ▸ fits.texts
  positions := positions
  interfaces := matched.interfaces ▸ fits.interfaces
  fieldCount := matched.fields ▸ fits.fieldCount
  fields := matched.fields ▸ fits.fields
  methodCount := matched.methods ▸ fits.methodCount
  methods := matched.methods ▸ fits.methods
  attributeCount := matched.attributes ▸ fits.attributeCount
  attributes := matched.attributes ▸ fits.attributes
  bootstrapCount := matched.bootstraps ▸ fits.bootstrapCount
  bootstraps := matched.bootstraps ▸ fits.bootstraps

/-- A class file is recovered from what is written for it just if each of its sizes fits the field
that it is written to, and its bootstrap methods are those that its attributes hold. -/
theorem isRecoveredFrom_toBytes_iff
    (contiguous : file.pool.constants.IsContiguous) :
    file.IsRecoveredFrom file.toBytes ↔ file.Fits ∧ file.HasOwnBootstraps := by
  constructor
  · rintro ⟨found, isRead, matched⟩
    have isFound : ofBytes file.toBytes = .ok found := by
      rw [ofBytes, isRead]
      rfl
    obtain ⟨number, afterMagic, afterVersion, afterTable, isMagic, isVersion, isTable, table?,
      isBootstraps, isPool⟩ := exists_reads_of_ofBytes_eq_ok isFound
    have sameTable : found.pool.constants = file.pool.constants := by
      have foundContiguous := ConstantTable.isContiguous_of_read_eq_ok isTable
      unfold ConstantTable.IsContiguous at contiguous foundContiguous
      rw [contiguous, foundContiguous, matched.values]
    simp only [toBytes, List.append_assoc] at isMagic
    cases (read_write magic _).symm.trans isMagic
    have afterwards := (read_write file.version _).symm.trans isVersion
    rw [Except.ok.injEq, Prod.mk.injEq] at afterwards
    rw [sameTable, ← afterwards.2] at isTable
    obtain ⟨texts, positions⟩ := ConstantTable.fits_of_read_eq_ok isTable
    refine ⟨matched.fits (gives_fits _ _ isRead (sameTable ▸ texts) (sameTable ▸ positions))
      positions, table?, ?_, ?_⟩
    · rw [← matched.attributes, ← sameTable]
      exact isBootstraps
    · rw [← matched.bootstraps, isPool]
      rfl
  · rintro ⟨fits, hasOwn⟩
    obtain ⟨found, isRead, matched, _⟩ := exists_matches_of_toBytes contiguous fits hasOwn []
    rw [List.append_nil] at isRead
    exact ⟨found, isRead, matched⟩

end ClassFile

end ClosureConversion
