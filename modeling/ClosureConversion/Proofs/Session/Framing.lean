import ClosureConversion.Proofs.Session.SelfConsistency
import ClosureConversion.Proofs.Session.Writing
import ClosureConversion.Proofs.StackMap.Frames

/-!
Contract: the frames in the methods of a converted class.

Owns:
- methods that stay as they are have the frames that they had;
- methods that are rewritten and bridges have frames, in a version that asks for stack maps;
- so all methods have them just if those had them that stay as they are.

Does not own: frames of other code than that of methods.
-/

namespace ClosureConversion

/-! ## Reading code -/

/-- Every attribute of a method, and of the code in it, has a name at a position of the pool. -/
structure Member.NamesAttributes (pool : ConstantPool) (member : Member .method) : Prop where
  attributes : ∀ entry ∈ member.attributes, entry.name.toNat < pool.constants.endOffset
  code : ∀ code, member.code? pool = .ok (some code) →
    ∀ entry ∈ code.attributes, entry.name.toNat < pool.constants.endOffset

/-- Whatever code the attributes of methods are written from, its sizes fit the fields that they
are written to, and sixteen bits tell the bootstrap methods apart. -/
structure ClassFile.MethodsFit (file : ClassFile) : Prop where
  bootstraps : file.pool.bootstraps.length ≤ 2 ^ 16
  code : ∀ member ∈ file.methods, ∀ entry ∈ member.attributes, ∀ code : CodeAttribute,
    entry.info = write code → code.Fits

/-- A list of values that all take some bytes is written to at least as many for each. -/
theorem mul_length_le_length_write
    {α : Type}
    [Binary α]
    {size : Nat}
    (long : ∀ value : α, size ≤ (write value).length)
    (values : List α) :
    size * values.length ≤ (write values).length := by
  change size * values.length ≤ (write values.length.toUInt16 ++ values.flatMap write).length
  rw [List.length_append]
  refine Nat.le_add_left_of_le ?_
  induction values with
  | nil => exact Nat.zero_le _
  | cons value values inductionHypothesis =>
      rw [List.flatMap_cons, List.length_append, List.length_cons, Nat.mul_succ, Nat.add_comm]
      exact Nat.add_le_add (long value) inductionHypothesis

/-- Sizes that are written to attributes that are short enough fit. -/
theorem ClassFile.methodsFit_of_length_lt
    {file : ClassFile}
    (fewBootstraps : file.pool.bootstraps.length ≤ 2 ^ 16)
    (short : ∀ member ∈ file.methods, ∀ entry ∈ member.attributes,
      entry.info.length < 6 * 2 ^ 16) :
    file.MethodsFit where
  bootstraps := fewBootstraps
  code := by
    intro member isMember entry isEntry code isWritten
    have isShort := short member isMember entry isEntry
    rw [isWritten] at isShort
    have exceptions : 6 * code.exceptions.length ≤ (write code.exceptions).length :=
      mul_length_le_length_write (fun entry => (by decide : 6 ≤ 8)) code.exceptions
    have attributes : 6 * code.attributes.length ≤ (write code.attributes).length :=
      mul_length_le_length_write (fun entry => by
        change 6 ≤ (write entry.name ++ write entry.info.length.toUInt32 ++ entry.info).length
        rw [List.length_append]
        exact Nat.le_add_right 6 _) code.attributes
    have parts : (write code).length =
        (write code.maxStack ++ write code.maxLocals ++ write code.bytes.length.toUInt32 ++
          code.bytes ++ write code.exceptions ++ write code.attributes).length := rfl
    simp only [List.length_append] at parts
    exact CodeAttribute.fits_of_length_lt (by omega) (by omega) (by omega)

/-- Every method of a class whose methods are planned can be read. -/
theorem KeepsMethods.exists_ofMember?_eq_ok
    {Memory : Type}
    {settings : Settings}
    {hierarchy : Hierarchy}
    {convention : Convention Memory}
    {file : ClassFile}
    {later : ConstantPool}
    {before after : Memory}
    {members kept : List (Member .method)}
    (keeps : KeepsMethods settings hierarchy convention file later before members kept after) :
    ∀ member ∈ members, ∃ method?, Method.ofMember? file member = .ok method? := by
  induction keeps with
  | nil => exact fun _ member => absurd member List.not_mem_nil
  | withoutCode noCode _ inductionHypothesis =>
      exact List.forall_mem_cons.mpr ⟨⟨none, noCode⟩, inductionHypothesis⟩
  | withoutCalls isRead _ _ inductionHypothesis =>
      exact List.forall_mem_cons.mpr ⟨⟨_, isRead⟩, inductionHypothesis⟩
  | withCalls isRead _ _ _ _ _ inductionHypothesis =>
      exact List.forall_mem_cons.mpr ⟨⟨_, isRead⟩, inductionHypothesis⟩

/-- A method that is read has the same frames in a pool that grew. -/
theorem Member.hasFrames_iff_of_grownFrom
    {file : ClassFile}
    {later : ConstantPool}
    (consistent : file.pool.IsConsistent)
    (laterConsistent : later.IsConsistent)
    (grown : later.GrownFrom file.pool)
    {member : Member .method}
    (named : member.NamesAttributes file.pool)
    (isRead : ∃ method?, Method.ofMember? file member = .ok method?) :
    member.HasFrames later ↔ member.HasFrames file.pool := by
  have sameNames (entries : List Attribute)
      (inPool : ∀ entry ∈ entries, entry.name.toNat < file.pool.constants.endOffset)
      (α : Type) [AttributeContents α] :
      Attribute.find? entries later α = Attribute.find? entries file.pool α :=
    Attribute.find?_congr fun entry isEntry =>
      Attribute.holds_of_grownFrom grown consistent laterConsistent (.inl (inPool entry isEntry))
  have sameCode : member.code? later = member.code? file.pool :=
    sameNames member.attributes named.attributes CodeAttribute
  unfold HasFrames
  rw [sameCode]
  refine forall_congr' fun code => forall_congr' fun isCode => ?_
  obtain ⟨decoded, isDecoded⟩ : ∃ decoded, decodeCode code.bytes file.pool = .ok decoded := by
    obtain ⟨method?, isRead⟩ := isRead
    rcases Method.decodeCode_of_ofMember?_eq_ok isRead with ⟨_, noCode⟩ |
      ⟨_, other, decoded, _, isOther, isDecoded, _⟩
    · cases isCode.symm.trans noCode
    · cases isCode.symm.trans isOther
      exact ⟨decoded, isDecoded⟩
  have stillDecoded : decodeCode code.bytes later = .ok decoded :=
    persists_decodeCode (grown.includes consistent laterConsistent) code.bytes decoded isDecoded
  unfold CodeAttribute.HasFrames
  rw [sameNames code.attributes (named.code code isCode) StackMap, isDecoded, stillDecoded]

/-! ## New code -/

section New

variable {made : Hierarchy} {version : Version} {written : ClassFile}

/-- A method whose code was assembled has frames where the code is read as it was written. -/
theorem Member.hasFrames_of_isWrittenAs
    (mapped : version.usesStackMaps = true)
    (consistent : written.pool.IsConsistent)
    (fits : written.MethodsFit)
    {member : Member .method}
    (isMember : member ∈ written.methods)
    {code : Attribute}
    (isCode : code ∈ member.attributes)
    (isFirst : member.attributes.find? (·.holds written.pool CodeAttribute) = some code)
    {method : Method}
    (isWritten : method.IsWrittenAs made version written.pool code)
    (switchesFit : ∀ instruction ∈ method.instructions, instruction.SwitchFits) :
    member.HasFrames written.pool := by
  obtain ⟨contents, ⟨before, after, beforeConsistent, assembled, extends_⟩, carries⟩ := isWritten
  have contentsFit : contents.Fits := fits.code member isMember code isCode contents carries.info
  have isRead : code.contents CodeAttribute = .ok contents :=
    Attribute.contents_eq_ok carries.info contentsFit.isReadBack
  intro other isOther
  unfold code? Attribute.find? at isOther
  rw [isFirst] at isOther
  dsimp only at isOther
  rw [isRead] at isOther
  cases isOther
  exact Method.hasFrames_of_assemble_eq_ok mapped beforeConsistent assembled consistent extends_
    fits.bootstraps switchesFit

end New

/-! ## Converted classes -/

/-- The methods of the class that keep their code. -/
def ClassFile.untouched (file : ClassFile) (planned : List PlannedMethod) : List (Member .method) :=
  (file.methods.zipIdx.filter fun entry =>
    !(planned.map PlannedMethod.index).contains entry.2).map Prod.fst

namespace ClassFile.IsWrittenAs

variable {Memory : Type} {settings : Settings} {hierarchy made : Hierarchy}
  {convention : Convention Memory} {planned : List PlannedMethod} {table : BridgeTable}
  {before after : Memory} {input : Bytes} {file written : ClassFile}

/-- All methods that are written have frames just if those have them that keep their code. -/
theorem hasFrames_iff
    (isRead : ofBytes input = .ok file)
    (named : ∀ member ∈ file.methods, member.NamesAttributes file.pool)
    (isWritten : file.IsWrittenAs settings hierarchy convention planned made table before after
      written)
    (fits : written.MethodsFit)
    (mapped : written.version.usesStackMaps = true) :
    (∀ member ∈ written.methods, member.HasFrames written.pool) ↔
      ∀ member ∈ file.untouched planned, member.HasFrames file.pool := by
  obtain ⟨_, consistent, table?, _, isPool⟩ := pool_of_ofBytes_eq_ok isRead
  have recorded : ∀ entry ∈ file.pool.constants.toList,
      file.pool.firstPositions[entry.2]? ≠ none := by
    rw [isPool]
    exact fun entry member => ConstantPool.recorded_of_mem_toList member
  obtain ⟨kept, bridges, methods, keeps, become, areBridges⟩ := isWritten.methods
  have areRead := keeps.exists_ofMember?_eq_ok
  have staysFramed : ∀ member ∈ file.methods,
      (member.HasFrames written.pool ↔ member.HasFrames file.pool) := fun member isMember =>
    Member.hasFrames_iff_of_grownFrom consistent isWritten.consistent isWritten.grown
      (named member isMember) (areRead member isMember)
  constructor
  · intro allFramed member isUntouched
    obtain ⟨entry, isEntry, rfl⟩ := List.mem_map.mp isUntouched
    obtain ⟨isEntry, notPlanned⟩ := List.mem_filter.mp isEntry
    have isMember : entry.1 ∈ file.methods := List.fst_mem_of_mem_zipIdx isEntry
    obtain ⟨other, isOther, becomes⟩ := exists_mem_of_forall₂ become.flip isEntry
    have isFramed := allFramed other (methods ▸ List.mem_append_left _ isOther)
    cases becomes with
    | same => exact (staysFramed _ isMember).mp isFramed
    | rewritten isPlanned isIndex =>
        rw [← isIndex] at notPlanned
        simp [List.mem_map_of_mem isPlanned] at notPlanned
  · intro untouchedFramed other isOther
    have isWrittenMember := isOther
    rw [methods] at isOther
    rcases List.mem_append.mp isOther with isKept | isBridge
    · obtain ⟨entry, isEntry, becomes⟩ := exists_mem_of_forall₂ become isKept
      have isMember : entry.1 ∈ file.methods := List.fst_mem_of_mem_zipIdx isEntry
      cases becomes with
      | same notPlanned =>
          refine (staysFramed _ isMember).mpr (untouchedFramed _ ?_)
          exact List.mem_map_of_mem (List.mem_filter.mpr ⟨isEntry, by simpa using notPlanned⟩)
      | @rewritten planned rewritten code isPlanned _ isRead isRewritten isCode =>
          have sameCode := replaceCode_eq consistent recorded isRead isWritten.consistent
            isWritten.grown code
          rw [← sameCode] at isWrittenMember ⊢
          obtain ⟨contents, _, carries⟩ := id isCode
          have isFirst : (Attribute.replace entry.1.attributes written.pool CodeAttribute code).find?
              (·.holds written.pool CodeAttribute) = some code :=
            Attribute.find?_replace (Attribute.holds_iff.mpr carries.named)
          exact Member.hasFrames_of_isWrittenAs mapped isWritten.consistent fits isWrittenMember
            (List.mem_of_find?_eq_some isFirst) isFirst isCode
            (switchFits_of_rewrite_eq_ok isRewritten (Method.switchFits_of_ofMember?_eq_ok isRead))
    · obtain ⟨bridge, _, isOf⟩ := exists_mem_of_forall₂ areBridges isBridge
      obtain ⟨code, attributes, isCode⟩ := isOf.attributes
      obtain ⟨contents, _, carries⟩ := id isCode
      have isFirst : other.attributes.find? (·.holds written.pool CodeAttribute) = some code := by
        rw [attributes, List.find?_cons, Attribute.holds_iff.mpr carries.named]
      exact Member.hasFrames_of_isWrittenAs mapped isWritten.consistent fits isWrittenMember
        (List.mem_of_find?_eq_some isFirst) isFirst isCode (bridge.switchFits_whole table.owner)

end ClassFile.IsWrittenAs

/-- **Framing**: a class that is converted stays as it is, or, in a version that asks for stack
maps, all its methods have a frame wherever a jump, a switch or an exception handler leads, just
if those had one that call no factory; the version is the one that is set, if one is. -/
theorem hasFrames_iff_of_convertClass_eq_ok
    {Memory : Type}
    {settings : Settings}
    {hierarchy : Hierarchy}
    {convention : Convention Memory}
    {cache : ClosureCache}
    {input : Bytes}
    {file : ClassFile}
    (isRead : ClassFile.ofBytes input = .ok file)
    (named : ∀ member ∈ file.methods, member.NamesAttributes file.pool)
    {before after : Memory}
    {converted : ConvertedClass}
    (isConverted : convertClass settings hierarchy convention cache input before =
      .ok converted after) :
    (converted.bytes = input ∧ converted.closures = []) ∨
      ∃ (prepared : PreparedClass) (written : ClassFile),
        prepareClass settings hierarchy convention input before = .ok prepared after ∧
          converted.bytes = written.toBytes ∧
          written.version = settings.versionFor file.version ∧
          (written.MethodsFit → written.version.usesStackMaps = true →
            ((∀ member ∈ written.methods, member.HasFrames written.pool) ↔
              ∀ member ∈ file.untouched prepared.planned, member.HasFrames file.pool)) := by
  obtain ⟨prepared, prepares, sameBytes, areClosures⟩ :=
    exists_complete_of_convertClass_eq_ok isConverted
  rcases exists_written_of_prepareClass_eq_ok isRead prepares with ⟨isSame, isUnchanged⟩ |
    ⟨owner, made, rewritten, installed, written, _, _, arePlanned, _, _, areRewritten, isInstalled,
      isSynced, areBytes⟩
  · rw [isUnchanged.closures] at areClosures
    exact .inl ⟨sameBytes.trans isSame, (Except.ok.inj areClosures).symm⟩
  · have isWritten := ClassFile.isWrittenAs_of_convert isRead arePlanned areRewritten isInstalled
      isSynced
    exact .inr ⟨prepared, written, prepares, sameBytes.trans areBytes, isWritten.version,
      isWritten.hasFrames_iff isRead named⟩

namespace RaisedVersion

open OwnFactory RebuiltFactory

/-- The version of converted classes is set. -/
def raised : Settings :=
  { Settings.standard with outputVersion := .fixed .java8 }

/-- The code of a factory that may branch. -/
def factoryCode (branches : Bool) : CodeAttribute where
  maxStack := 1
  maxLocals := 1
  bytes := if branches then [0x1a, 0x99, 0, 5, 0x01, 0xb0, 0x01, 0xb0] else [0x01, 0xb0]
  exceptions := []
  attributes := []

/-- The factory in its class file. -/
def factoryMember (branches : Bool) : Member .method :=
  { supplyMember with
    attributes := [⟨5, write (factoryCode branches)⟩,
      ⟨14, write (InvisibleAnnotations.mk [⟨15, []⟩])⟩] }

/-- The instructions of the factory. -/
def instructions (branches : Bool) : Array (Instruction Nat) :=
  if branches then #[.load .int 0, .branch (.zero .equal) 4, .op .pushNull,
    .op (.leave (some .reference)), .op .pushNull, .op (.leave (some .reference))]
  else #[.op .pushNull, .op (.leave (some .reference))]

/-- The class with the factory in a version without stack maps. -/
def oldFile (branches : Bool) : ClassFile :=
  { makerFile with version := ⟨49, 0⟩, methods := [factoryMember branches, runMember] }

theorem ofBytes_oldFile
    (branches : Bool) :
    ClassFile.ofBytes (oldFile branches).toBytes = .ok (oldFile branches) := by
  cases branches <;> with_unfolding_all rfl

theorem ofClassFile_oldFile
    (branches : Bool) :
    ClassDeclaration.ofClassFile (oldFile branches) = .ok makerClass := by
  cases branches <;> with_unfolding_all rfl

theorem code?_factoryMember
    (branches : Bool) :
    (factoryMember branches).code? (oldFile branches).pool = .ok (some (factoryCode branches)) := by
  cases branches <;> with_unfolding_all rfl

theorem ofMember?_factoryMember
    (branches : Bool) :
    Method.ofMember? (oldFile branches) (factoryMember branches) =
      .ok (some { supplyMethod with instructions := instructions branches }) := by
  cases branches <;> with_unfolding_all rfl

theorem ofMember?_runMember
    (branches : Bool) :
    Method.ofMember? (oldFile branches) runMember = .ok (some (runMethod maker)) := by
  cases branches <;> with_unfolding_all rfl

theorem decodeCode_factoryCode
    (branches : Bool) :
    decodeCode (factoryCode branches).bytes (oldFile branches).pool =
      .ok ⟨instructions branches, if branches then #[0, 1, 4, 5, 6, 7, 8] else #[0, 1, 2]⟩ := by
  cases branches <;> with_unfolding_all rfl

theorem namesAttributes_oldFile
    (branches : Bool) :
    ∀ member ∈ (oldFile branches).methods, member.NamesAttributes (oldFile branches).pool := by
  intro member isMember
  rcases List.mem_cons.mp isMember with rfl | isRun
  · refine ⟨by cases branches <;> decide, fun code isCode => ?_⟩
    cases (code?_factoryMember branches).symm.trans isCode
    exact fun _ member => absurd member List.not_mem_nil
  · cases List.mem_singleton.mp isRun
    have readsCode : runMember.code? (oldFile branches).pool =
        .ok (some ⟨1, 0, [0x04, 0xb8, 0, 11, 0xb0], [], []⟩) := by
      cases branches <;> with_unfolding_all rfl
    refine ⟨by cases branches <;> decide, fun code isCode => ?_⟩
    cases readsCode.symm.trans isCode
    exact fun _ member => absurd member List.not_mem_nil

/-- The factory has all the frames that it needs just if it has no branch. -/
theorem hasFrames_factoryMember_iff
    (branches : Bool) :
    (factoryMember branches).HasFrames (oldFile branches).pool ↔ branches = false := by
  constructor
  · intro framed
    obtain ⟨decoded, map?, isDecoded, isMap, targets, _⟩ := framed _ (code?_factoryMember branches)
    cases Except.ok.inj isMap
    cases (decodeCode_factoryCode branches).symm.trans isDecoded
    cases branches
    · rfl
    · obtain ⟨_, isOffset, _⟩ := targets (.branch (.zero .equal) 4)
        (Array.mem_def.mpr (by decide)) 4 (by decide)
      cases isOffset
  · rintro rfl code isCode
    cases (code?_factoryMember false).symm.trans isCode
    refine ⟨_, none, decodeCode_factoryCode false, rfl, ?_, fun _ member => nomatch member⟩
    decide

theorem exists_convertClass_oldFile
    (branches : Bool) :
    ∃ bytes converted,
      prepareClass raised .core (.logging (script true)) (oldFile branches).toBytes [] =
          .ok (preparedWith (runMethod maker) plan firstClosure bytes) [(question, .ok true)] ∧
        convertClass raised .core (.logging (script true)) .empty (oldFile branches).toBytes [] =
            .ok converted [(question, .ok true)] ∧
          converted.closures ≠ [] := by
  have noSite : planMember raised (Hierarchy.core.declare makerClass) (.logging (script true))
      (oldFile branches) 0 0 (factoryMember branches) [] = .ok none [] :=
    planMember_of_noCalls (ofMember?_factoryMember branches) (by cases branches <;> rfl)
  obtain ⟨bytes, prepares⟩ := exists_prepareClass_runMember (ofBytes_oldFile branches)
    (ofClassFile_oldFile branches) rfl rfl noSite (ofMember?_runMember branches)
    (by with_unfolding_all rfl) rfl (by cases branches <;> decide)
  obtain ⟨converted, isConverted, hasClosures⟩ :=
    exists_convertClass_of_prepares prepares rfl exists_toBytes_firstClosure
  exact ⟨bytes, converted, prepares, isConverted, hasClosures⟩

end RaisedVersion

open RaisedVersion OwnFactory in
/-- A class whose version is raised has all the frames that it needs if its factory has no
branch. -/
theorem raisedVersion_hasFrames :
    (ClassFile.ofBytes (oldFile false).toBytes = .ok (oldFile false) ∧
        ∀ member ∈ (oldFile false).methods, member.NamesAttributes (oldFile false).pool) ∧
      ∃ (converted : ConvertedClass) (written : ClassFile),
        convertClass raised .core (.logging (script true)) .empty (oldFile false).toBytes [] =
            .ok converted [(question, .ok true)] ∧
          converted.bytes = written.toBytes ∧ written.version = .java8 ∧
          (written.MethodsFit → ∀ member ∈ written.methods, member.HasFrames written.pool) := by
  obtain ⟨bytes, converted, prepares, isConverted, hasClosures⟩ :=
    exists_convertClass_oldFile false
  refine ⟨⟨ofBytes_oldFile false, namesAttributes_oldFile false⟩, converted, ?_⟩
  rcases hasFrames_iff_of_convertClass_eq_ok (ofBytes_oldFile false)
    (namesAttributes_oldFile false) isConverted with
    ⟨_, noClosures⟩ | ⟨prepared, written, isPrepared, areBytes, version, framed⟩
  · exact absurd noClosures hasClosures
  · obtain ⟨rfl, _⟩ := EStateM.Result.ok.inj (prepares.symm.trans isPrepared)
    refine ⟨written, isConverted, areBytes, version, fun fits => ?_⟩
    refine (framed fits (by rw [version]; decide)).mpr fun member isUntouched => ?_
    obtain rfl : member = factoryMember false := List.mem_singleton.mp isUntouched
    exact (hasFrames_factoryMember_iff false).mpr rfl

open RaisedVersion OwnFactory in
/-- A class whose version is raised has a factory without a frame where its branch leads. -/
theorem raisedVersion_hasNoFrames :
    ClassFile.ofBytes (oldFile true).toBytes = .ok (oldFile true) ∧
      ∃ (converted : ConvertedClass) (written : ClassFile),
        convertClass raised .core (.logging (script true)) .empty (oldFile true).toBytes [] =
            .ok converted [(question, .ok true)] ∧
          converted.bytes = written.toBytes ∧ written.version.usesStackMaps = true ∧
          factoryMember true ∈ written.methods ∧
          ¬ (factoryMember true).HasFrames written.pool := by
  obtain ⟨bytes, converted, prepares, isConverted, hasClosures⟩ :=
    exists_convertClass_oldFile true
  obtain ⟨prepared, isPrepared, sameBytes, _⟩ := exists_complete_of_convertClass_eq_ok isConverted
  obtain ⟨rfl, _⟩ := EStateM.Result.ok.inj (prepares.symm.trans isPrepared)
  rcases exists_written_of_prepareClass_eq_ok (ofBytes_oldFile true) prepares with
    ⟨_, isUnchanged⟩ | ⟨_, _, _, _, written, _, _, arePlanned, _, _, areRewritten, isInstalled,
      isSynced, areBytes⟩
  · cases isUnchanged.closures
  · have isWritten := ClassFile.isWrittenAs_of_convert (ofBytes_oldFile true) arePlanned
      areRewritten isInstalled isSynced
    obtain ⟨_, consistent, _⟩ := ClassFile.pool_of_ofBytes_eq_ok (ofBytes_oldFile true)
    obtain ⟨kept, bridges, methods, keeps, become, _⟩ := isWritten.methods
    have isFirst : ((factoryMember true, 0) : Member .method × Nat) ∈
        (oldFile true).methods.zipIdx := List.mem_cons_self
    obtain ⟨other, isOther, becomes⟩ := exists_mem_of_forall₂ become.flip isFirst
    refine ⟨ofBytes_oldFile true, converted, written, isConverted, sameBytes.trans areBytes, ?_, ?_,
      fun framed => ?_⟩
    · rw [isWritten.version]
      decide
    · cases becomes with
      | same => exact methods ▸ List.mem_append_left _ isOther
      | rewritten isPlanned isIndex =>
          cases List.mem_singleton.mp isPlanned
          cases isIndex
    · have still := (Member.hasFrames_iff_of_grownFrom consistent isWritten.consistent
        isWritten.grown (namesAttributes_oldFile true _ List.mem_cons_self)
        (keeps.exists_ofMember?_eq_ok _ List.mem_cons_self)).mp framed
      cases (hasFrames_factoryMember_iff true).mp still

end ClosureConversion
