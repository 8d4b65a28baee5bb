import ClosureConversion.Proofs.ClassFile.Reading

/-!
Contract: how constants stand in a class file.

Owns:
- the bytes that a class file can hold for a constant: those that are written for it, or, for a
  text, any content that is read as the text;
- that reading takes off just such bytes, for one constant and for a table;
- that the constants of a class file stand ten bytes after its start;
- that stored constants begin what is written for them and for others just if every text is
  stored as it is written.

Does not own: the constants that a conversion adds.
-/

namespace ClosureConversion

/-! ## Taking off what is read -/

/-- A converted value is read just if the value is. -/
theorem read_map_eq_ok
    {α β : Type}
    {reader : Reader α}
    {convert : α → β}
    {before after : Bytes}
    {result : β} :
    (convert <$> reader) before = .ok (result, after) ↔
      ∃ value, reader before = .ok (value, after) ∧ convert value = result := by
  rw [map_eq_pure_bind, thread_bind_eq_ok]
  constructor
  · rintro ⟨value, between, isRead, equal⟩
    cases thread_pure_eq_ok.mp equal
    exact ⟨value, isRead, rfl⟩
  · rintro ⟨value, isRead, rfl⟩
    exact ⟨value, after, isRead, rfl⟩

theorem take_eq_ok
    {count : Nat}
    {part : String}
    {bytes taken rest : Bytes}
    (isTaken : Reader.take count part bytes = .ok (taken, rest)) :
    bytes = taken ++ rest ∧ taken.length = count := by
  unfold Reader.take at isTaken
  dsimp only at isTaken
  split at isTaken
  · rename_i isLong
    cases isTaken
    exact ⟨by rw [List.splitAt_eq, List.take_append_drop], isLong⟩
  · cases isTaken

instance : ExactBinary HandleKind where
  eq_write_append {bytes rest kind} isRead := by
    obtain ⟨number, between, isNumber, isKind⟩ := thread_bind_eq_ok.mp isRead
    cases isFound : HandleKind.ofNumber? number with
    | none =>
        rw [isFound] at isKind
        cases isKind
    | some found =>
        rw [isFound] at isKind
        cases thread_pure_eq_ok.mp isKind
        have isNumbered := List.find?_some isFound
        rw [decide_eq_true_iff] at isNumbered
        rw [eq_write_append isNumber, ← isNumbered]
        rfl

instance : ExactBinary Version where
  eq_write_append {bytes rest version} isRead := by
    obtain ⟨minor, major, rfl, equal⟩ :=
      eq_write_append_of_halves (α := UInt16) isRead
    exact equal

/-! ## Constants -/

namespace Constant

/-- What stands for a text with such a content: a tag, the length of the content, and the
content. -/
def textBytes (content : Bytes) : Bytes :=
  1 :: write content.length.toUInt16 ++ content

/-- The bytes that a class file can hold for a constant. A text can stand there with any content
that is read as the text, every other constant as it is written. -/
inductive IsStoredAs : Constant → Bytes → Prop
  | text (content : Bytes) (short : content.length < 2 ^ 16) :
      IsStoredAs (.utf8 (Text.ModifiedUtf8.decode content)) (textBytes content)
  | other {constant : Constant} (notText : ∀ text, constant ≠ .utf8 text) :
      IsStoredAs constant constant.toBytes

variable {bytes rest : Bytes} {constant : Constant}

/-- A constant with one part stands as it is written. -/
theorem isStoredAs_of_map_eq_ok
    {α : Type}
    [Binary α]
    [ExactBinary α]
    {make : α → Constant}
    (tag : UInt8)
    (toBytes_make : ∀ part, (make part).toBytes = tag :: write part)
    (notText : ∀ part text, make part ≠ .utf8 text)
    (isRead : (make <$> read : Reader Constant) bytes = .ok (constant, rest)) :
    ∃ stored, tag :: bytes = stored ++ rest ∧ constant.IsStoredAs stored := by
  obtain ⟨part, isPart, rfl⟩ := read_map_eq_ok.mp isRead
  refine ⟨_, ?_, .other (notText part)⟩
  rw [toBytes_make, eq_write_append isPart]
  rfl

/-- A constant with two parts stands as it is written. -/
theorem isStoredAs_of_bind_eq_ok
    {α β : Type}
    [Binary α]
    [ExactBinary α]
    [Binary β]
    [ExactBinary β]
    {make : α → β → Constant}
    (tag : UInt8)
    (toBytes_make : ∀ first second,
      (make first second).toBytes = tag :: write first ++ write second)
    (notText : ∀ first second text, make first second ≠ .utf8 text)
    (isRead : (do let first ← read; let second ← read; return make first second : Reader Constant)
      bytes = .ok (constant, rest)) :
    ∃ stored, tag :: bytes = stored ++ rest ∧ constant.IsStoredAs stored := by
  obtain ⟨first, between, isFirst, isRead⟩ := thread_bind_eq_ok.mp isRead
  obtain ⟨second, after, isSecond, isRead⟩ := thread_bind_eq_ok.mp isRead
  cases thread_pure_eq_ok.mp isRead
  refine ⟨_, ?_, .other (notText first second)⟩
  rw [toBytes_make, eq_write_append isFirst, eq_write_append isSecond, List.append_assoc]
  rfl

/-- What is read as a constant is what a class file holds for it. -/
theorem isStoredAs_of_read_eq_ok
    (isRead : (read : Reader Constant) bytes = .ok (constant, rest)) :
    ∃ stored, bytes = stored ++ rest ∧ constant.IsStoredAs stored := by
  obtain ⟨tag, between, isTag, isRead⟩ := thread_bind_eq_ok.mp isRead
  rw [eq_write_append isTag]
  change ∃ stored, tag :: between = stored ++ rest ∧ constant.IsStoredAs stored
  unfold readTagged at isRead
  split at isRead
  · obtain ⟨count, after, isCount, isRead⟩ := thread_bind_eq_ok.mp isRead
    obtain ⟨content, _, isContent, isRead⟩ := thread_bind_eq_ok.mp isRead
    cases thread_pure_eq_ok.mp isRead
    obtain ⟨rfl, isLong⟩ := take_eq_ok isContent
    refine ⟨_, ?_, .text content (isLong ▸ count.toNat_lt)⟩
    rw [eq_write_append isCount, textBytes, isLong, Nat.toUInt16_eq, UInt16.ofNat_toNat]
    simp
  · exact isStoredAs_of_map_eq_ok 3 (fun _ => rfl) nofun isRead
  · exact isStoredAs_of_map_eq_ok 4 (fun _ => rfl) nofun isRead
  · exact isStoredAs_of_map_eq_ok 5 (fun _ => rfl) nofun isRead
  · exact isStoredAs_of_map_eq_ok 6 (fun _ => rfl) nofun isRead
  · exact isStoredAs_of_map_eq_ok 7 (fun _ => rfl) nofun isRead
  · exact isStoredAs_of_map_eq_ok 8 (fun _ => rfl) nofun isRead
  · exact isStoredAs_of_bind_eq_ok 9 (fun _ _ => rfl) nofun isRead
  · exact isStoredAs_of_bind_eq_ok 10 (fun _ _ => rfl) nofun isRead
  · exact isStoredAs_of_bind_eq_ok 11 (fun _ _ => rfl) nofun isRead
  · exact isStoredAs_of_bind_eq_ok 12 (fun _ _ => rfl) nofun isRead
  · exact isStoredAs_of_bind_eq_ok 15 (fun _ _ => rfl) nofun isRead
  · exact isStoredAs_of_map_eq_ok 16 (fun _ => rfl) nofun isRead
  · exact isStoredAs_of_bind_eq_ok 17 (fun _ _ => rfl) nofun isRead
  · exact isStoredAs_of_bind_eq_ok 18 (fun _ _ => rfl) nofun isRead
  · exact isStoredAs_of_map_eq_ok 19 (fun _ => rfl) nofun isRead
  · exact isStoredAs_of_map_eq_ok 20 (fun _ => rfl) nofun isRead
  · cases isRead

theorem textBytes_injective :
    Function.Injective textBytes := by
  intro content other equal
  exact congrArg (List.drop 3) equal

/-- What stands for a text is what is written for it just if its content is written for some
text. -/
theorem textBytes_eq_toBytes_iff
    {content : Bytes} :
    textBytes content = toBytes (.utf8 (Text.ModifiedUtf8.decode content)) ↔
      ∃ text, content = Text.ModifiedUtf8.encode text := by
  constructor
  · intro equal
    exact ⟨_, textBytes_injective equal⟩
  · rintro ⟨text, rfl⟩
    rw [Text.ModifiedUtf8.decode_encode]
    rfl

/-- A class file can hold what is written for a constant. -/
theorem isStoredAs_toBytes
    (fits : constant.Fits) :
    constant.IsStoredAs constant.toBytes := by
  cases constant with
  | utf8 text =>
      have isStored := IsStoredAs.text (Text.ModifiedUtf8.encode text) fits
      rwa [Text.ModifiedUtf8.decode_encode] at isStored
  | _ => exact .other nofun

theorem areStoredAs_map_write
    {constants : List Constant}
    (fit : ∀ constant ∈ constants, constant.Fits) :
    List.Forall₂ IsStoredAs constants (constants.map write) := by
  rw [List.forall₂_map_right_iff]
  exact List.forall₂_same.mpr fun constant member => isStoredAs_toBytes (fit constant member)

/-- A constant is stored as it is written just if its content is written for some text, if it is
one. -/
theorem IsStoredAs.eq_toBytes_iff
    {stored : Bytes}
    (isStored : constant.IsStoredAs stored) :
    stored = constant.toBytes ↔
      ∀ content, stored = textBytes content → ∃ text, content = Text.ModifiedUtf8.encode text := by
  cases isStored with
  | text content _ =>
      rw [textBytes_eq_toBytes_iff]
      constructor
      · intro isWritten other equal
        exact textBytes_injective equal ▸ isWritten
      · exact fun areWritten => areWritten content rfl
  | other notText =>
      refine ⟨fun _ content equal => ?_, fun _ => rfl⟩
      have tag : constant.toBytes.head? = some 1 := congrArg List.head? equal
      cases constant with
      | utf8 text => exact absurd rfl (notText text)
      | methodRef owner signature ofInterface => cases ofInterface <;> cases tag
      | _ => cases tag

/-- What stands for a constant begins what is written for it and others only if it is what is
written for it. The length that precedes a text is written modulo two to the sixteenth, but what
is written for the text is not that much longer. -/
theorem IsStoredAs.eq_toBytes_of_isPrefix
    {stored later others : Bytes}
    (isStored : constant.IsStoredAs stored)
    (isPrefix : stored ++ later <+: constant.toBytes ++ others) :
    stored = constant.toBytes := by
  cases isStored with
  | other _ => rfl
  | text content short =>
      obtain ⟨rest, equal⟩ := isPrefix
      let written := Text.ModifiedUtf8.encode (Text.ModifiedUtf8.decode content)
      replace equal : write content.length.toUInt16 ++ (content ++ (later ++ rest)) =
          write written.length.toUInt16 ++ (written ++ others) := by
        have tail := congrArg List.tail equal
        rwa [textBytes, toBytes, List.cons_append, List.cons_append, List.cons_append,
          List.cons_append, List.cons_append, List.tail_cons, List.tail_cons, List.append_assoc,
          List.append_assoc, List.append_assoc] at tail
      have fields := congrArg (read : Reader UInt16) equal
      rw [read_write, read_write, Except.ok.injEq, Prod.mk.injEq] at fields
      obtain ⟨sameLength, sameContents⟩ := fields
      have lengths : content.length = written.length % 2 ^ 16 := by
        have numbers := congrArg UInt16.toNat sameLength
        rwa [Nat.toUInt16_eq, Nat.toUInt16_eq, UInt16.toNat_ofNat', UInt16.toNat_ofNat',
          Nat.mod_eq_of_lt short] at numbers
      have begins : content <+: written :=
        List.prefix_of_prefix_length_le ⟨_, sameContents⟩ (List.prefix_append _ _)
          (lengths ▸ Nat.mod_le _ _)
      have bound := Text.ModifiedUtf8.length_encode_decode_le_of_isPrefix begins
      have sameLength : content.length = written.length := by
        change written.length ≤ _ at bound
        omega
      exact textBytes_eq_toBytes_iff.mpr ⟨_, begins.eq_of_length sameLength⟩

/-- Stored constants begin what is written for them and for others just if every text among them
is stored with a content that is written for some text. -/
theorem flatten_isPrefix_iff
    {constants : List Constant}
    {stored : List Bytes}
    (areStored : List.Forall₂ IsStoredAs constants stored)
    (added : List Constant) :
    stored.flatten <+: (constants ++ added).flatMap write ↔
      ∀ content, textBytes content ∈ stored → ∃ text, content = Text.ModifiedUtf8.encode text := by
  induction areStored with
  | nil => exact iff_of_true List.nil_prefix fun _ member => nomatch member
  | @cons constant entry constants stored isStored _ inductionHypothesis =>
      rw [List.flatten_cons, List.cons_append, List.flatMap_cons]
      constructor
      · intro isPrefix content member
        have isWritten := isStored.eq_toBytes_of_isPrefix isPrefix
        rcases List.mem_cons.mp member with equal | member
        · exact isStored.eq_toBytes_iff.mp isWritten content equal.symm
        · rw [isWritten] at isPrefix
          exact inductionHypothesis.mp ((List.prefix_append_right_inj _).mp isPrefix) content member
      · intro areWritten
        have isWritten : entry = constant.toBytes := isStored.eq_toBytes_iff.mpr
          fun content equal => areWritten content (equal ▸ List.mem_cons_self)
        rw [isWritten]
        exact (List.prefix_append_right_inj _).mpr
          (inductionHypothesis.mpr fun content member =>
            areWritten content (List.mem_cons_of_mem _ member))

end Constant

/-! ## Class files -/

/-- Reading constants takes off what a class file holds for them. -/
theorem ConstantTable.exists_stored_of_readUpTo_eq_ok
    {bound fuel : Nat}
    {before after : ConstantTable}
    {bytes rest : Bytes}
    (isRead : readUpTo bound fuel before bytes = .ok (after, rest)) :
    ∃ constants stored, after = before.pushAll constants ∧ bytes = stored.flatten ++ rest ∧
      List.Forall₂ Constant.IsStoredAs constants stored := by
  induction fuel generalizing before bytes with
  | zero =>
      cases isRead
      exact ⟨[], [], rfl, rfl, .nil⟩
  | succ fuel inductionHypothesis =>
      simp only [readUpTo] at isRead
      split at isRead
      · split at isRead
        · rename_i constant next isConstant
          obtain ⟨constants, stored, rfl, rfl, areStored⟩ := inductionHypothesis isRead
          obtain ⟨entry, rfl, isStored⟩ := Constant.isStoredAs_of_read_eq_ok isConstant
          exact ⟨constant :: constants, entry :: stored, rfl,
            by rw [List.flatten_cons, List.append_assoc], .cons isStored areStored⟩
        · cases isRead
      · cases isRead
        exact ⟨[], [], rfl, rfl, .nil⟩

namespace ClassFile

/-- The bytes hold the constants of the class file, each as it is stored: ten bytes precede
them, for what every class file begins with, the version, and how many constants there are. -/
def Holds (file : ClassFile) (bytes : Bytes) (stored : List Bytes) : Prop :=
  List.Forall₂ Constant.IsStoredAs file.pool.constants.values stored ∧
    ∃ header rest, header.length = 10 ∧ bytes = header ++ stored.flatten ++ rest

/-- A class file that is read stands in its bytes with all of its constants. -/
theorem exists_holds_of_ofBytes_eq_ok
    {bytes : Bytes}
    {file : ClassFile}
    (isRead : ofBytes bytes = .ok file) :
    ∃ stored, file.Holds bytes stored := by
  obtain ⟨found, afterMagic, afterVersion, afterTable, isMagic, isVersion, isTable, _⟩ :=
    exists_reads_of_ofBytes_eq_ok isRead
  obtain ⟨count, between, isCount, isTable⟩ := thread_bind_eq_ok.mp isTable
  obtain ⟨constants, stored, isAdded, rfl, areStored⟩ :=
    ConstantTable.exists_stored_of_readUpTo_eq_ok isTable
  refine ⟨stored, ?_, write found ++ write file.version ++ write count, afterTable, rfl, ?_⟩
  · rw [isAdded, OffsetSeq.values_pushAll]
    exact areStored
  · rw [eq_write_append isMagic, eq_write_append isVersion, eq_write_append isCount]
    simp only [List.append_assoc]

/-- The bytes of the constants of a class file, as they are written. -/
def constantBytes (file : ClassFile) : Bytes :=
  file.pool.constants.values.flatMap write

/-- The constants of a class file are written ten bytes after its start. -/
theorem exists_toBytes_eq
    (file : ClassFile) :
    ∃ header rest, header.length = 10 ∧ file.toBytes = header ++ file.constantBytes ++ rest := by
  refine ⟨write magic ++ write file.version ++ write file.pool.constants.endOffset.toUInt16,
    write file.flags ++ write file.this ++ write file.super ++ write file.interfaces ++
      write file.fields ++ write file.methods ++ write file.attributes, rfl, ?_⟩
  have table : (write file.pool.constants : Bytes) =
      write file.pool.constants.endOffset.toUInt16 ++ file.constantBytes := rfl
  unfold toBytes
  rw [table]
  simp only [List.append_assoc]

/-- The bytes of a class file hold its constants as they are written. -/
theorem holds_toBytes
    {file : ClassFile}
    (fit : ∀ constant ∈ file.pool.constants.values, constant.Fits) :
    file.Holds file.toBytes (file.pool.constants.values.map write) := by
  obtain ⟨header, rest, isLong, isWhole⟩ := file.exists_toBytes_eq
  refine ⟨Constant.areStoredAs_map_write fit, header, rest, isLong, ?_⟩
  rw [isWhole, constantBytes, List.flatMap_def]

end ClassFile

end ClosureConversion
