import ClosureConversion.Proofs.ClassFile.Storage
import ClosureConversion.Proofs.Session.Conservation

/-!
Contract: what becomes of the constants of a class in its bytes.

Owns:
- the bytes of the constants of a class file that is written;
- that a converted class begins with the constants of its class as they were stored, byte for
  byte, just if every text was stored with a content that is written for some text.

Does not own: what constants a conversion adds.
-/

namespace ClosureConversion

section Conversion

variable {Memory : Type} {settings : Settings} {hierarchy : Hierarchy}
  {convention : Convention Memory} {cache : ClosureCache} {input : Bytes} {file : ClassFile}
  {before after : Memory} {converted : ConvertedClass}

/-- A class stays as it is, or its constants are written again, with those that are added after
them. -/
theorem exists_constantBytes_of_convertClass_eq_ok
    (isRead : ClassFile.ofBytes input = .ok file)
    (isConverted : convertClass settings hierarchy convention cache input before =
      .ok converted after) :
    (converted.bytes = input ∧ converted.closures = []) ∨
      ∃ (written : ClassFile) (header rest : Bytes) (added : List Constant), header.length = 10 ∧
        converted.bytes = header ++ written.constantBytes ++ rest ∧
        written.constantBytes = (file.pool.constants.values ++ added).flatMap write := by
  obtain ⟨prepared, prepares, sameBytes, areClosures⟩ :=
    exists_complete_of_convertClass_eq_ok isConverted
  rw [sameBytes]
  rcases exists_written_of_prepareClass_eq_ok isRead prepares with ⟨isSame, isUnchanged⟩ |
    ⟨owner, made, rewritten, installed, written, _, _, arePlanned, isMade, _, areRewritten,
      isInstalled, isSynced, areBytes⟩
  · rw [isUnchanged.closures] at areClosures
    exact .inl ⟨isSame, (Except.ok.inj areClosures).symm⟩
  · obtain ⟨added, isAdded, _⟩ := (ClassFile.isWrittenAs_of_convert isRead arePlanned areRewritten
      isInstalled isSynced).grown.appended
    obtain ⟨header, rest, isLong, isWhole⟩ := written.exists_toBytes_eq
    refine .inr ⟨written, header, rest, added, isLong, areBytes.trans isWhole, ?_⟩
    unfold ClassFile.constantBytes
    rw [isAdded, OffsetSeq.values_pushAll]

/-- **Fidelity of constants**: a class stays as it is, or what is written for it begins with the
constants of the class as they were stored, byte for byte, just if every text among them was
stored with a content that is written for some text. -/
theorem stored_isPrefix_iff_of_convertClass_eq_ok
    (isRead : ClassFile.ofBytes input = .ok file)
    (isConverted : convertClass settings hierarchy convention cache input before =
      .ok converted after) :
    (∃ stored, file.Holds input stored) ∧
      ((converted.bytes = input ∧ converted.closures = []) ∨
        ∃ (written : ClassFile) (header rest : Bytes), header.length = 10 ∧
          converted.bytes = header ++ written.constantBytes ++ rest ∧
          ∀ stored, file.Holds input stored → (stored.flatten <+: written.constantBytes ↔
            ∀ content, Constant.textBytes content ∈ stored →
              ∃ text, content = Text.ModifiedUtf8.encode text)) := by
  refine ⟨ClassFile.exists_holds_of_ofBytes_eq_ok isRead, ?_⟩
  rcases exists_constantBytes_of_convertClass_eq_ok isRead isConverted with isSame |
    ⟨written, header, rest, added, isLong, areBytes, areAll⟩
  · exact .inl isSame
  · refine .inr ⟨written, header, rest, isLong, areBytes, fun stored holds => ?_⟩
    rw [areAll]
    exact Constant.flatten_isPrefix_iff holds.1 added

end Conversion

open RebuiltFactory OwnFactory in
/-- The constants of the class that declares a factory and calls it come first in what it is
converted to. -/
theorem ownFactory_keepsConstants :
    ClassFile.ofBytes makerFile.toBytes = .ok makerFile ∧
      ∃ converted, convertClass .standard .core (.logging (script true)) .empty
          makerFile.toBytes [] = .ok converted [(question, .ok true)] ∧
        converted.closures ≠ [] ∧
        makerFile.Holds makerFile.toBytes ((constants maker).map write) ∧
        ∃ (written : ClassFile) (header rest : Bytes), header.length = 10 ∧
          converted.bytes = header ++ written.constantBytes ++ rest ∧
          ((constants maker).map write).flatten <+: written.constantBytes := by
  obtain ⟨bytes, prepares⟩ := exists_prepareClass_makerFile
  obtain ⟨converted, isConverted, hasClosures⟩ :=
    exists_convertClass_of_prepares prepares rfl exists_toBytes_firstClosure
  have fit : ∀ constant ∈ constants maker, constant.Fits := by decide +kernel
  have holds : makerFile.Holds makerFile.toBytes ((constants maker).map write) :=
    ClassFile.holds_toBytes fit
  refine ⟨ofBytes_makerFile, converted, isConverted, hasClosures, holds, ?_⟩
  rcases (stored_isPrefix_iff_of_convertClass_eq_ok ofBytes_makerFile isConverted).2 with
    ⟨_, noClosures⟩ | ⟨written, header, rest, isLong, areBytes, begins⟩
  · exact absurd noClosures hasClosures
  · refine ⟨written, header, rest, isLong, areBytes, (begins _ holds).mpr fun content member => ?_⟩
    obtain ⟨constant, isConstant, equal⟩ := List.mem_map.mp member
    exact (Constant.isStoredAs_toBytes (fit constant isConstant)).eq_toBytes_iff.mp rfl content equal

namespace LoneSurrogate

open OwnFactory RebuiltFactory

/-- A text that is half of a surrogate pair. -/
def half : Bytes := [0xed, 0xa0, 0x80]

/-- The class with the factory, with a text among its constants that is half of a surrogate pair,
as it is read. -/
def spoiltFile : ClassFile :=
  { makerFile with
    pool := .ofTable (.ofList 1 (constants maker ++ [.utf8 "\uFFFD"])) [] }

/-- The constants of the class as they are stored. -/
def stored : List Bytes :=
  (constants maker).map write ++ [Constant.textBytes half]

/-- The bytes of the class. -/
def input : Bytes :=
  write ClassFile.magic ++ write makerFile.version ++ write (17 : UInt16) ++ stored.flatten ++
    (write makerFile.flags ++ write makerFile.this ++ write makerFile.super ++
      write makerFile.interfaces ++ write makerFile.fields ++ write makerFile.methods ++
      write makerFile.attributes)

theorem ofBytes_input : ClassFile.ofBytes input = .ok spoiltFile := by
  with_unfolding_all rfl

theorem ofClassFile_spoiltFile : ClassDeclaration.ofClassFile spoiltFile = .ok makerClass := by
  with_unfolding_all rfl

theorem exists_prepareClass_input :
    ∃ bytes, prepareClass .standard .core (.logging (script true)) input [] =
      .ok (preparedWith (runMethod maker) plan firstClosure bytes) [(question, .ok true)] := by
  have isRead : Method.ofMember? spoiltFile supplyMember = .ok (some supplyMethod) := by
    with_unfolding_all rfl
  exact exists_prepareClass_runMember ofBytes_input ofClassFile_spoiltFile rfl rfl
    (planMember_of_noCalls isRead rfl) (by with_unfolding_all rfl) (by with_unfolding_all rfl) rfl
    (by decide)

theorem decode_half : Text.ModifiedUtf8.decode half = "\uFFFD" := by
  with_unfolding_all rfl

theorem holds_input : spoiltFile.Holds input stored := by
  have fit : ∀ constant ∈ constants maker, constant.Fits := by decide +kernel
  have lone : Constant.IsStoredAs (.utf8 "\uFFFD") (Constant.textBytes half) :=
    decode_half ▸ .text half (by decide)
  exact ⟨List.rel_append (Constant.areStoredAs_map_write fit) (.cons lone .nil), _, _, rfl, rfl⟩

end LoneSurrogate

open LoneSurrogate OwnFactory in
/-- Half of a surrogate pair among the constants of a class is not kept when the class is
converted. -/
theorem loneSurrogate_isLost :
    ClassFile.ofBytes input = .ok spoiltFile ∧ spoiltFile.Holds input stored ∧
      Constant.textBytes half ∈ stored ∧
      ∃ converted, convertClass .standard .core (.logging (script true)) .empty input [] =
          .ok converted [(question, .ok true)] ∧
        converted.closures ≠ [] ∧
        ∃ (written : ClassFile) (header rest : Bytes), header.length = 10 ∧
          converted.bytes = header ++ written.constantBytes ++ rest ∧
          ¬ stored.flatten <+: written.constantBytes := by
  obtain ⟨bytes, prepares⟩ := exists_prepareClass_input
  obtain ⟨converted, isConverted, hasClosures⟩ :=
    RebuiltFactory.exists_convertClass_of_prepares prepares rfl
      RebuiltFactory.exists_toBytes_firstClosure
  have stands : Constant.textBytes half ∈ stored := List.mem_append_right _ List.mem_cons_self
  refine ⟨ofBytes_input, holds_input, stands, converted, isConverted, hasClosures, ?_⟩
  rcases exists_constantBytes_of_convertClass_eq_ok ofBytes_input isConverted with
    ⟨_, noClosures⟩ | ⟨written, header, rest, added, isLong, areBytes, areAll⟩
  · exact absurd noClosures hasClosures
  · refine ⟨written, header, rest, isLong, areBytes, fun isPrefix => ?_⟩
    rw [areAll] at isPrefix
    obtain ⟨text, isText⟩ :=
      (Constant.flatten_isPrefix_iff holds_input.1 added).mp isPrefix half stands
    -- A content that is written for a text is written for the text that it is read as.
    have isRead := congrArg Text.ModifiedUtf8.decode isText
    rw [decode_half, Text.ModifiedUtf8.decode_encode] at isRead
    rw [← isRead] at isText
    revert isText
    decide

end ClosureConversion
