import ClosureConversion.Proofs.ClassFile.Constants
import ClosureConversion.Proofs.Code.Fitting
import ClosureConversion.Proofs.Session.Conservation

/-!
Contract: whether class files can be read that are written for classes.

Owns:
- the class files that stand in memory when a class is built and when one is converted;
- the positions of their constants can always be written; other sizes are not checked, so what is
  written is read as the same class file just if all of them fit;
- that all of them fit in what is written for a class whose texts and code are short.

Does not own: that what is read is a class that a virtual machine accepts.
-/

namespace ClosureConversion

/-! ## Built classes -/

namespace ClassDefinition

variable {definition : ClassDefinition} {hierarchy : Hierarchy} {built written : ClassFile}

/-- The class file stands in memory when the bytes of a class are written: it is built, and its
bootstrap methods are put into their attribute. -/
def Builds (definition : ClassDefinition) (hierarchy : Hierarchy) (written : ClassFile) : Prop :=
  ∃ built, definition.build hierarchy = .ok built ∧ built.syncBootstraps = .ok written

theorem exists_builds_of_toBytes_eq_ok
    {bytes : Bytes}
    (isWritten : definition.toBytes hierarchy = .ok bytes) :
    ∃ written, definition.Builds hierarchy written ∧ bytes = written.toBytes := by
  unfold toBytes at isWritten
  obtain ⟨built, isBuilt, finished⟩ := bind_eq_ok.mp isWritten
  obtain ⟨written, isSynced, rfl⟩ := map_eq_ok.mp finished
  exact ⟨written, ⟨built, isBuilt, isSynced⟩, rfl⟩

theorem onlyAdds_methodMember
    (definition : ClassDefinition)
    (hierarchy : Hierarchy)
    (method : MethodDefinition) :
    OnlyAdds (definition.methodMember hierarchy method) :=
  (definition.onlyAdds_codeAttribute hierarchy method).bind fun _ =>
    (onlyAdds_annotationAttribute _).bind fun _ =>
      (ConstantPool.onlyAdds_internText _).bind fun _ =>
        (ConstantPool.onlyAdds_internText _).bind fun _ => onlyAdds_pure _

/-- A field that is made a member has its name in every later pool. -/
theorem yields_fieldMember
    (field : FieldDeclaration) :
    Yields (fieldMember field) fun final member =>
      final.text member.name = .ok field.name.text := by
  apply (ConstantPool.yields_internText field.name.text).bind
  intro name
  apply (ConstantPool.onlyAdds_internText field.type.descriptor).yields.bind
  intro descriptor
  apply (onlyAdds_annotationAttribute field.annotations).yields.bind
  intro attributes
  exact yields_pure fun _ _ _ _ isName => isName

/-- The parts of a class file that is built, with the pool that they were put into one after
another. -/
theorem parts_of_build_eq_ok
    (isBuilt : definition.build hierarchy = .ok built) :
    built.flags = definition.flags ∧ built.attributes = [] ∧
    ∃ withThis withSuper withInterfaces withFields,
      definition.name.intern ConstantPool.empty = .ok built.this withThis ∧
      definition.super.intern withThis = .ok built.super withSuper ∧
      definition.interfaces.mapM BinaryName.intern withSuper =
        .ok built.interfaces withInterfaces ∧
      definition.fields.mapM fieldMember withInterfaces = .ok built.fields withFields ∧
      definition.methods.mapM
        (definition.methodMember (hierarchy.shadow definition.declaration)) withFields =
          .ok built.methods built.pool := by
  unfold build at isBuilt
  split at isBuilt
  · rename_i file _ done
    cases isBuilt
    obtain ⟨this, withThis, isThis, done⟩ := run_bind_eq_ok.mp done
    obtain ⟨super, withSuper, isSuper, done⟩ := run_bind_eq_ok.mp done
    obtain ⟨interfaces, withInterfaces, areInterfaces, done⟩ := run_bind_eq_ok.mp done
    obtain ⟨fields, withFields, areFields, done⟩ := run_bind_eq_ok.mp done
    obtain ⟨members, pool, areMembers, done⟩ := run_bind_eq_ok.mp done
    cases done
    exact ⟨rfl, rfl, withThis, withSuper, withInterfaces, withFields, isThis, isSuper,
      areInterfaces, areFields, areMembers⟩
  · cases isBuilt

/-- The pool of a class file that is built grew out of the empty one, and it has the names of the
fields. -/
theorem grownFrom_empty_of_build_eq_ok
    (isBuilt : definition.build hierarchy = .ok built) :
    built.pool.IsConsistent ∧ built.pool.GrownFrom .empty ∧
      ∀ field ∈ definition.fields, .utf8 field.name.text ∈ built.pool.constants.values := by
  obtain ⟨_, _, withThis, withSuper, withInterfaces, withFields, isThis, isSuper, areInterfaces,
    areFields, areMembers⟩ := parts_of_build_eq_ok isBuilt
  obtain ⟨thisConsistent, thisGrown⟩ :=
    definition.name.onlyAdds_intern _ _ _ ConstantPool.isConsistent_empty isThis
  obtain ⟨superConsistent, superGrown⟩ :=
    definition.super.onlyAdds_intern _ _ _ thisConsistent isSuper
  obtain ⟨interfacesConsistent, interfacesGrown⟩ :=
    onlyAdds_mapM BinaryName.onlyAdds_intern _ _ _ _ superConsistent areInterfaces
  obtain ⟨fieldsConsistent, fieldsGrown⟩ :=
    onlyAdds_mapM onlyAdds_fieldMember _ _ _ _ interfacesConsistent areFields
  obtain ⟨consistent, grown⟩ :=
    onlyAdds_mapM (definition.onlyAdds_methodMember _) _ _ _ _ fieldsConsistent areMembers
  obtain ⟨_, _, named⟩ :=
    yields_mapM definition.fields (fun field _ => yields_fieldMember field)
      _ _ _ interfacesConsistent areFields
  refine ⟨consistent, grown.trans (fieldsGrown.trans (interfacesGrown.trans
    (superGrown.trans thisGrown))), fun field member => ?_⟩
  obtain ⟨entry, _, isNamed⟩ :=
    exists_mem_of_forall₂ (named built.pool consistent grown.toExtends).flip member
  exact ConstantPool.mem_values_of_get_eq_ok (ConstantPool.get_of_text_eq_ok isNamed)

/-- The class file that stands in memory when a class is written has its constants one after
another, at positions that can be written, the names of the fields among them. If it fits, its
attributes hold its bootstrap methods. -/
theorem Builds.isContiguous
    (builds : definition.Builds hierarchy written) :
    written.pool.constants.IsContiguous ∧ written.pool.constants.endOffset < 2 ^ 16 ∧
      (∀ field ∈ definition.fields, .utf8 field.name.text ∈ written.pool.constants.values) ∧
      (written.Fits → written.HasOwnBootstraps) := by
  obtain ⟨built, isBuilt, isSynced⟩ := builds
  obtain ⟨consistent, grown, names⟩ := grownFrom_empty_of_build_eq_ok isBuilt
  obtain ⟨_, noAttributes, _⟩ := parts_of_build_eq_ok isBuilt
  obtain ⟨pool, attributes, rfl, poolConsistent, poolGrown, sameBootstraps, synced⟩ :=
    ClassFile.exists_attributes_of_syncBootstraps_eq_ok consistent isSynced
  obtain ⟨added, isAdded, _⟩ := (poolGrown.trans grown).appended
  refine ⟨?_, ?_, fun field member => ?_, fun fits => ?_⟩
  · change pool.constants.IsContiguous
    rw [isAdded]
    exact ConstantTable.isContiguous_pushAll (show ConstantTable.empty.IsContiguous from rfl) added
  · change pool.constants.endOffset < 2 ^ 16
    exact Nat.lt_of_le_of_lt ((poolGrown.trans grown).endOffset_le (by decide)) (by decide)
  · obtain ⟨more, isMore, _⟩ := poolGrown.appended
    change _ ∈ pool.constants.values
    rw [isMore, OffsetSeq.values_pushAll]
    exact List.mem_append_left _ (names field member)
  · rcases synced with ⟨noneNew, sameAttributes⟩ | ⟨_, entry, isKind, isInfo, isReplaced⟩
    · rw [noAttributes] at sameAttributes
      refine ⟨none, ?_, ?_⟩
      · rw [sameAttributes]
        rfl
      · have seeded : built.pool.seededBootstraps = 0 := grown.seeded
        unfold ConstantPool.hasNewBootstraps at noneNew
        rw [seeded, decide_eq_false_iff_not, not_not] at noneNew
        rw [sameBootstraps, List.length_eq_zero_iff.mp noneNew]
        rfl
    · refine ClassFile.hasOwnBootstraps_of_replace ⟨?_, Attribute.holds_iff.mp isKind⟩ isReplaced
        fits
      rw [sameBootstraps]
      exact isInfo

/-- A name of a field that is too long for its length to be written is not recovered, nor is
anything that is written with it. -/
theorem Builds.not_isRecoveredFrom_of_length_le
    (builds : definition.Builds hierarchy written)
    {field : FieldDeclaration}
    (member : field ∈ definition.fields)
    (long : 2 ^ 16 ≤ (Text.ModifiedUtf8.encode field.name.text).length) :
    ¬ written.IsRecoveredFrom written.toBytes := by
  obtain ⟨contiguous, _, names, _⟩ := builds.isContiguous
  rw [ClassFile.isRecoveredFrom_toBytes_iff contiguous]
  rintro ⟨fits, _⟩
  exact absurd (fits.texts _ (names field member)) (Nat.not_lt.mpr long)

end ClassDefinition

/-! ## Converted classes -/

/-- The class file stands in memory when the bytes of a prepared class are written: the planned
methods of the class file that was read are rewritten, the bridges are added, and the bootstrap
methods are put into their attribute. -/
def PreparedClass.Finishes (prepared : PreparedClass) (settings : Settings) (hierarchy : Hierarchy)
    (owner : ClassDeclaration) (file written : ClassFile) : Prop :=
  ∃ made rewritten installed,
    ClosureClasses.ofPlans hierarchy owner (settings.versionFor file.version) prepared.planned =
      .ok made ∧
    prepared.planned.foldlM (rewriteMember made.hierarchy)
      { file with version := settings.versionFor file.version } = .ok rewritten ∧
    made.bridges.install made.hierarchy rewritten = .ok installed ∧
    installed.syncBootstraps = .ok written

/-- What is written for a class file that was read is recovered just if it fits and its attributes
hold its bootstrap methods, which they do if the attributes that were read have names. -/
theorem ClassFile.IsWrittenAs.isRecoveredFrom_toBytes_iff
    {Memory : Type}
    {settings : Settings}
    {hierarchy : Hierarchy}
    {convention : Convention Memory}
    {input : Bytes}
    {file written : ClassFile}
    {planned : List PlannedMethod}
    {made : Hierarchy}
    {table : BridgeTable}
    {before after : Memory}
    (isWritten : file.IsWrittenAs settings hierarchy convention planned made table before after
      written)
    (isRead : ofBytes input = .ok file) :
    (written.IsRecoveredFrom written.toBytes ↔ written.Fits ∧ written.HasOwnBootstraps) ∧
      (file.NamesAttributes → written.Fits → written.HasOwnBootstraps) ∧
      (file.pool.constants.endOffset < 2 ^ 16 → written.pool.constants.endOffset < 2 ^ 16) := by
  refine ⟨ClassFile.isRecoveredFrom_toBytes_iff (isWritten.isContiguous isRead),
    fun named fits => isWritten.hasOwnBootstraps isRead named fits, fun small => ?_⟩
  have within := isWritten.grown.endOffset_le (Nat.le_of_lt_succ small)
  exact Nat.lt_succ_of_le within

/-- **Recovery**: what is written for a class is read, to its end, as the class file that stands in
memory then, just if every size in the class file fits the field that it is written to. The
positions of the constants of a class that is built always do; those of a converted class do if
they did before. The same goes for the code of a method and its tables. -/
theorem isRecoveredFrom_iff_fits
    (hierarchy : Hierarchy) :
    (∀ (definition : ClassDefinition) (bytes : Bytes),
      definition.toBytes hierarchy = .ok bytes →
      ∃ written, definition.Builds hierarchy written ∧ bytes = written.toBytes ∧
        written.pool.constants.endOffset < 2 ^ 16 ∧
        (written.IsRecoveredFrom bytes ↔ written.Fits)) ∧
    (∀ (Memory : Type) (settings : Settings) (convention : Convention Memory)
      (cache : ClosureCache) (input : Bytes) (file : ClassFile) (before after : Memory)
      (converted : ConvertedClass),
      ClassFile.ofBytes input = .ok file →
      convertClass settings hierarchy convention cache input before = .ok converted after →
      (converted.bytes = input ∧ converted.closures = []) ∨
      ∃ prepared owner written,
        prepareClass settings hierarchy convention input before = .ok prepared after ∧
        ClassDeclaration.ofClassFile file = .ok owner ∧
        prepared.Finishes settings (hierarchy.declare owner) owner file written ∧
        converted.bytes = written.toBytes ∧
        (written.IsRecoveredFrom converted.bytes ↔ written.Fits ∧ written.HasOwnBootstraps) ∧
        (file.NamesAttributes → written.Fits → written.HasOwnBootstraps) ∧
        (file.pool.constants.endOffset < 2 ^ 16 → written.pool.constants.endOffset < 2 ^ 16)) ∧
    (∀ code : CodeAttribute, decode (write code) = .ok code ↔ code.Fits) ∧
    (∀ table : LineTable, decode (write table) = .ok table ↔ table.entries.length < 2 ^ 16) ∧
    (∀ table : VariableTable,
      decode (write table) = .ok table ↔ table.entries.length < 2 ^ 16) := by
  refine ⟨?_, ?_, fun _ => CodeAttribute.decode_write_eq_ok_iff,
    fun _ => LineTable.decode_write_eq_ok_iff, fun _ => VariableTable.decode_write_eq_ok_iff⟩
  · intro definition bytes isWritten
    obtain ⟨written, builds, rfl⟩ := ClassDefinition.exists_builds_of_toBytes_eq_ok isWritten
    obtain ⟨contiguous, small, _, hasOwn⟩ := builds.isContiguous
    refine ⟨written, builds, rfl, small, ?_⟩
    rw [ClassFile.isRecoveredFrom_toBytes_iff contiguous]
    exact and_iff_left_of_imp hasOwn
  · intro Memory settings convention cache input file before after converted isRead isConverted
    obtain ⟨prepared, prepares, sameBytes, areClosures⟩ :=
      exists_complete_of_convertClass_eq_ok isConverted
    rcases exists_written_of_prepareClass_eq_ok isRead prepares with ⟨isSame, isUnchanged⟩ |
      ⟨owner, made, rewritten, installed, written, isOwner, _, arePlanned, isMade, _, areRewritten,
        isInstalled, isSynced, areBytes⟩
    · rw [isUnchanged.closures] at areClosures
      exact .inl ⟨sameBytes.trans isSame, (Except.ok.inj areClosures).symm⟩
    · have isWritten := ClassFile.isWrittenAs_of_convert isRead arePlanned areRewritten isInstalled
        isSynced
      refine .inr ⟨prepared, owner, written, prepares, isOwner,
        ⟨made, rewritten, installed, isMade, areRewritten, isInstalled, isSynced⟩,
        sameBytes.trans areBytes, ?_⟩
      rw [sameBytes, areBytes]
      exact isWritten.isRecoveredFrom_toBytes_iff isRead

/-! ## Sizes of classes -/

/-- The work leaves a pool whose texts fit with texts that fit, and without further bootstrap
methods; what it yields has a property. -/
def KeepsFit {α : Type} (work : PoolM α) (Holds : α → Prop) : Prop :=
  ∀ before value after, (∀ constant ∈ before.constants.values, constant.Fits) →
    work before = .ok value after →
    (∀ constant ∈ after.constants.values, constant.Fits) ∧
      after.bootstraps = before.bootstraps ∧ Holds value

section KeepsFit

variable {α β : Type} {Holds : α → Prop} {HoldsNext : β → Prop}

theorem keepsFit_pure
    {value : α}
    (holds : Holds value) :
    KeepsFit (pure value) Holds := by
  intro before result after fit done
  obtain ⟨rfl, rfl⟩ := run_pure_eq_ok.mp done
  exact ⟨fit, rfl, holds⟩

theorem KeepsFit.bind
    {work : PoolM α}
    {next : α → PoolM β}
    (keeps : KeepsFit work Holds)
    (keepsNext : ∀ value, Holds value → KeepsFit (next value) HoldsNext) :
    KeepsFit (work >>= next) HoldsNext := by
  intro before result after fit done
  obtain ⟨value, between, first, done⟩ := run_bind_eq_ok.mp done
  obtain ⟨betweenFit, same, holds⟩ := keeps _ _ _ fit first
  obtain ⟨afterFit, sameNext, holdsNext⟩ := keepsNext value holds _ _ _ betweenFit done
  exact ⟨afterFit, sameNext.trans same, holdsNext⟩

theorem keepsFit_mapM
    {work : α → PoolM β}
    {values : List α}
    (each : ∀ value ∈ values, KeepsFit (work value) HoldsNext) :
    KeepsFit (values.mapM work) fun results =>
      results.length = values.length ∧ ∀ result ∈ results, HoldsNext result := by
  induction values with
  | nil => exact keepsFit_pure ⟨rfl, List.forall_mem_nil _⟩
  | cons value values inductionHypothesis =>
      rw [List.mapM_cons]
      refine (each value List.mem_cons_self).bind fun result holds => ?_
      have keepsOthers := inductionHypothesis fun other member =>
        each other (List.mem_cons_of_mem _ member)
      exact keepsOthers.bind fun results areAll => keepsFit_pure
        ⟨congrArg (· + 1) areAll.1, List.forall_mem_cons.mpr ⟨holds, areAll.2⟩⟩

theorem keepsFit_intern
    {constant : Constant}
    (fits : constant.Fits) :
    KeepsFit (ConstantPool.intern constant) fun _ => True := by
  intro before index after fit done
  refine ⟨?_, ConstantPool.bootstraps_of_intern_eq_ok done, trivial⟩
  unfold ConstantPool.intern at done
  split at done
  · cases done
    exact fit
  · dsimp only at done
    split at done
    · cases done
      intro other member
      change other ∈ (before.constants.push constant).values at member
      rw [OffsetSeq.values, OffsetSeq.toList_push, List.map_append] at member
      rcases List.mem_append.mp member with isEarlier | isNew
      · exact fit other isEarlier
      · rw [List.mem_singleton.mp isNew]
        exact fits
    · cases done

theorem BinaryName.keepsFit_intern
    {name : BinaryName}
    (short : (Text.ModifiedUtf8.encode name.text).length < 2 ^ 16) :
    KeepsFit name.intern fun _ => True :=
  (ClosureConversion.keepsFit_intern (show Constant.Fits (.utf8 name.text) from short)).bind
    fun _ _ => ClosureConversion.keepsFit_intern trivial

end KeepsFit

namespace ClassDefinition

variable {definition : ClassDefinition} {hierarchy : Hierarchy} {written : ClassFile}

/-- The lengths of the texts of a member can be written, as can the number of its annotations. -/
structure IsShortMember (name descriptor : String) (annotations : List BinaryName) : Prop where
  name : (Text.ModifiedUtf8.encode name).length < 2 ^ 16
  descriptor : (Text.ModifiedUtf8.encode descriptor).length < 2 ^ 16
  annotationCount : annotations.length < 2 ^ 16
  annotations : ∀ mark ∈ annotations,
    (Text.ModifiedUtf8.encode (FieldType.object mark).descriptor).length < 2 ^ 16

instance (name descriptor : String) (annotations : List BinaryName) :
    Decidable (IsShortMember name descriptor annotations) :=
  decidable_of_iff
    ((Text.ModifiedUtf8.encode name).length < 2 ^ 16 ∧
      (Text.ModifiedUtf8.encode descriptor).length < 2 ^ 16 ∧ annotations.length < 2 ^ 16 ∧
        ∀ mark ∈ annotations,
          (Text.ModifiedUtf8.encode (FieldType.object mark).descriptor).length < 2 ^ 16)
    ⟨fun ⟨name, descriptor, annotationCount, annotations⟩ =>
      ⟨name, descriptor, annotationCount, annotations⟩,
    fun short => ⟨short.name, short.descriptor, short.annotationCount, short.annotations⟩⟩

/-- The attributes of a member are at most one, which fits. -/
def IsShortList (attributes : List Attribute) : Prop :=
  attributes.length ≤ 1 ∧ ∀ entry ∈ attributes, entry.Fits

/-- The lengths of the texts of a class can be written, as can those of its code and the numbers of
its parts. -/
structure IsShort (definition : ClassDefinition) (hierarchy : Hierarchy) : Prop where
  name : (Text.ModifiedUtf8.encode definition.name.text).length < 2 ^ 16
  super : (Text.ModifiedUtf8.encode definition.super.text).length < 2 ^ 16
  interfaceCount : definition.interfaces.length < 2 ^ 16
  interfaces : ∀ name ∈ definition.interfaces,
    (Text.ModifiedUtf8.encode name.text).length < 2 ^ 16
  fieldCount : definition.fields.length < 2 ^ 16
  fields : ∀ field ∈ definition.fields,
    IsShortMember field.name.text field.type.descriptor field.annotations
  methodCount : definition.methods.length < 2 ^ 16
  methods : ∀ method ∈ definition.methods,
    IsShortMember method.declaration.name.text method.declaration.type.descriptor
        method.declaration.annotations ∧
      KeepsFit (definition.codeAttribute (hierarchy.shadow definition.declaration) method)
        IsShortList

theorem length_flatMap_write
    {marks : List Annotation}
    (plain : ∀ mark ∈ marks, mark.elements = []) :
    (marks.flatMap write).length = 4 * marks.length := by
  induction marks with
  | nil => rfl
  | cons mark marks inductionHypothesis =>
      have written : (write mark).length = 4 := by
        change (write mark.type ++ write mark.elements).length = 4
        rw [plain mark List.mem_cons_self]
        rfl
      rw [List.flatMap_cons, List.length_append, written, List.length_cons,
        inductionHypothesis fun other member => plain other (List.mem_cons_of_mem _ member)]
      omega

theorem keepsFit_ofContents
    {α : Type}
    [AttributeContents α]
    {contents : α}
    (named : Constant.Fits (.utf8 (attributeName α)))
    (small : (write contents).length < 2 ^ 32) :
    KeepsFit (do return [← Attribute.ofContents contents]) IsShortList := by
  have fits : KeepsFit (Attribute.ofContents contents) Attribute.Fits :=
    (keepsFit_intern named).bind fun _ _ => keepsFit_pure small
  exact fits.bind fun entry entryFits =>
    keepsFit_pure ⟨Nat.le_refl 1, List.forall_mem_singleton.mpr entryFits⟩

theorem keepsFit_annotationAttribute
    {names : List BinaryName}
    (few : names.length < 2 ^ 16)
    (short : ∀ name ∈ names,
      (Text.ModifiedUtf8.encode (FieldType.object name).descriptor).length < 2 ^ 16) :
    KeepsFit (annotationAttribute names) IsShortList := by
  have each : ∀ name ∈ names, KeepsFit ( annotation name) fun mark => mark.elements = [] :=
    fun name member => (keepsFit_intern (show Constant.Fits (.utf8 _) from short name member)).bind
      fun _ _ => keepsFit_pure rfl
  unfold annotationAttribute
  split
  · exact keepsFit_pure ⟨Nat.zero_le 1, List.forall_mem_nil _⟩
  · refine (keepsFit_mapM each).bind fun marks areMarks => ?_
    have written : (write (InvisibleAnnotations.mk marks)).length = 2 + 4 * marks.length := by
      change (write marks.length.toUInt16 ++ marks.flatMap write).length = _
      rw [List.length_append, length_flatMap_write areMarks.2]
      rfl
    exact keepsFit_ofContents (by decide) (by omega)

theorem keepsFit_fieldMember
    {field : FieldDeclaration}
    (short : IsShortMember field.name.text field.type.descriptor field.annotations) :
    KeepsFit (fieldMember field) Member.Fits := by
  have nameFits : Constant.Fits (.utf8 field.name.text) := short.name
  have descriptorFits : Constant.Fits (.utf8 field.type.descriptor) := short.descriptor
  refine (keepsFit_intern nameFits).bind fun _ _ => ?_
  refine (keepsFit_intern descriptorFits).bind fun _ _ => ?_
  refine (keepsFit_annotationAttribute short.annotationCount short.annotations).bind ?_
  exact fun attributes fit => keepsFit_pure ⟨Nat.lt_of_le_of_lt fit.1 (by decide), fit.2⟩

theorem keepsFit_methodMember
    {method : MethodDefinition}
    (coded : KeepsFit (definition.codeAttribute hierarchy method) IsShortList)
    (short : IsShortMember method.declaration.name.text method.declaration.type.descriptor
      method.declaration.annotations) :
    KeepsFit (definition.methodMember hierarchy method) Member.Fits := by
  have nameFits : Constant.Fits (.utf8 method.declaration.name.text) := short.name
  have descriptorFits : Constant.Fits (.utf8 method.declaration.type.descriptor) :=
    short.descriptor
  refine coded.bind fun code codeFits => ?_
  refine (keepsFit_annotationAttribute short.annotationCount short.annotations).bind ?_
  intro annotations fit
  refine (keepsFit_intern nameFits).bind fun _ _ => ?_
  refine (keepsFit_intern descriptorFits).bind fun _ _ => ?_
  have few : (code ++ annotations).length ≤ 2 := by
    rw [List.length_append]
    exact Nat.add_le_add codeFits.1 fit.1
  exact keepsFit_pure ⟨Nat.lt_of_le_of_lt few (by decide),
    List.forall_mem_append.mpr ⟨codeFits.2, fit.2⟩⟩

/-- What is written for such a class fits. -/
theorem Builds.fits
    (builds : definition.Builds hierarchy written)
    (short : definition.IsShort hierarchy) :
    written.Fits := by
  obtain ⟨_, positions, _⟩ := builds.isContiguous
  obtain ⟨built, isBuilt, isSynced⟩ := builds
  obtain ⟨_, grown, _⟩ := grownFrom_empty_of_build_eq_ok isBuilt
  obtain ⟨_, noAttributes, _, _, _, _, isThis, isSuper, areInterfaces, areFields, areMembers⟩ :=
    parts_of_build_eq_ok isBuilt
  obtain ⟨thisFit, thisSame, _⟩ :=
    BinaryName.keepsFit_intern short.name _ _ _ (List.forall_mem_nil _) isThis
  obtain ⟨superFit, superSame, _⟩ :=
    BinaryName.keepsFit_intern short.super _ _ _ thisFit isSuper
  obtain ⟨interfacesFit, interfacesSame, interfaceCount, _⟩ :=
    keepsFit_mapM (fun name member => BinaryName.keepsFit_intern (short.interfaces name member))
      _ _ _ superFit areInterfaces
  obtain ⟨fieldsFit, fieldsSame, fieldCount, fields⟩ :=
    keepsFit_mapM (fun field member => keepsFit_fieldMember (short.fields field member))
      _ _ _ interfacesFit areFields
  obtain ⟨methodsFit, methodsSame, methodCount, methods⟩ :=
    keepsFit_mapM (fun method member => (short.methods method member).elim
      fun isShort coded => keepsFit_methodMember coded isShort) _ _ _ fieldsFit areMembers
  have noBootstraps : built.pool.bootstraps = [] := by
    rw [methodsSame, fieldsSame, interfacesSame, superSame, thisSame]
    rfl
  have isSame : written = built := by
    have seeded : built.pool.seededBootstraps = 0 := grown.seeded
    unfold ClassFile.syncBootstraps ConstantPool.hasNewBootstraps at isSynced
    rw [seeded, noBootstraps] at isSynced
    exact (Except.ok.inj isSynced).symm
  subst isSame
  exact {
    texts := methodsFit
    positions
    interfaces := interfaceCount ▸ short.interfaceCount
    fieldCount := fieldCount ▸ short.fieldCount
    fields
    methodCount := methodCount ▸ short.methodCount
    methods
    attributeCount := by
      rw [noAttributes]
      decide
    attributes := by
      rw [noAttributes]
      exact List.forall_mem_nil _
    bootstrapCount := by
      rw [noBootstraps]
      decide
    bootstraps := by
      rw [noBootstraps]
      exact List.forall_mem_nil _ }

end ClassDefinition

/-! ## Names of fields -/

namespace NamedFields

/-- A name of one letter, repeated. -/
def name (more : Nat) : UnqualifiedName where
  text := String.ofList (List.replicate (more + 1) 'a')
  isUnqualified := by
    rw [String.toList_ofList]
    refine ⟨List.cons_ne_nil _ _, fun character member => ?_⟩
    rw [List.eq_of_mem_replicate member]
    decide

/-- A class with the fields. -/
def definition (fields : List FieldDeclaration) : ClassDefinition where
  name := ⟨"demo/Named", by decide⟩
  super := .object
  flags := ClassFlags.accPublic
  fields := fields

/-- A field with a name of one letter, repeated. -/
def field (more : Nat) : FieldDeclaration where
  name := name more
  type := .base .int
  flags := FieldFlags.accPublic
  annotations := []

theorem length_encode_name
    (more : Nat) :
    (Text.ModifiedUtf8.encode (name more).text).length = more + 1 := by
  have short : Text.ModifiedUtf8.encodeChar 'a' = [97] := by decide
  unfold Text.ModifiedUtf8.encode name
  rw [String.toList_ofList, List.flatMap_replicate, short]
  simp

theorem exists_toBytes
    (more : Nat) :
    ∃ bytes, (definition [field more]).toBytes .core = .ok bytes := by
  have isPlain : (definition [field more]).IsPlain .core 0 := {
    fields := List.forall_mem_singleton.mpr rfl
    methods := List.forall_mem_nil _ }
  exact isPlain.exists_toBytes (show 8 ≤ ConstantPool.positionLimit by decide)

theorem isShort_definition
    {more : Nat}
    (small : more + 1 < 2 ^ 16) :
    (definition [field more]).IsShort .core where
  name := show (Text.ModifiedUtf8.encode "demo/Named").length < 2 ^ 16 by decide
  super := show (Text.ModifiedUtf8.encode "java/lang/Object").length < 2 ^ 16 by decide
  interfaceCount := show 0 < 2 ^ 16 by decide
  interfaces := List.forall_mem_nil _
  fieldCount := show 1 < 2 ^ 16 by decide
  fields := List.forall_mem_singleton.mpr {
    name := length_encode_name more ▸ small
    descriptor :=
      show (Text.ModifiedUtf8.encode (FieldType.base .int).descriptor).length < 2 ^ 16 by decide
    annotationCount := show 0 < 2 ^ 16 by decide
    annotations := List.forall_mem_nil _ }
  methodCount := show 0 < 2 ^ 16 by decide
  methods := List.forall_mem_nil _

end NamedFields

open NamedFields RebuiltFactory OwnFactory in
/-- The longest name that a field can have in a class file is read from it. What is written for the
class that declares a factory and calls it is recovered if it fits. -/
theorem longestName_isRecovered :
    (∃ bytes written, (definition [field 65534]).toBytes .core = .ok bytes ∧
      (definition [field 65534]).Builds .core written ∧ written.IsRecoveredFrom bytes ∧
      .utf8 (field 65534).name.text ∈ written.pool.constants.values) ∧
    ∃ (converted : ConvertedClass) (written : ClassFile),
      convertClass .standard .core (.logging (script true)) .empty makerFile.toBytes [] =
        .ok converted [(question, .ok true)] ∧
      converted.bytes = written.toBytes ∧ written.pool.constants.endOffset < 2 ^ 16 ∧
      (written.Fits → written.IsRecoveredFrom converted.bytes) := by
  obtain ⟨isBuilt, isConverted, _⟩ := isRecoveredFrom_iff_fits .core
  constructor
  · obtain ⟨bytes, isWritten⟩ := exists_toBytes 65534
    obtain ⟨written, builds, rfl, _, isRecovered⟩ := isBuilt _ bytes isWritten
    obtain ⟨_, _, names, _⟩ := builds.isContiguous
    exact ⟨_, written, isWritten, builds,
      isRecovered.mpr (builds.fits (isShort_definition (by decide))),
      names (field 65534) List.mem_cons_self⟩
  · obtain ⟨bytes, prepares⟩ := exists_prepareClass_makerFile
    obtain ⟨converted, converts, hasClosures⟩ :=
      exists_convertClass_of_prepares prepares rfl exists_toBytes_firstClosure
    rcases isConverted _ _ _ _ _ _ _ _ _ ofBytes_makerFile converts with
      ⟨_, noClosures⟩ | ⟨_, _, written, _, _, _, areBytes, isRecovered, hasOwn, small⟩
    · exact absurd noClosures hasClosures
    · have named : makerFile.NamesAttributes := fun entry member => nomatch member
      exact ⟨converted, written, converts, areBytes, small (by with_unfolding_all decide),
        fun fits => isRecovered.mpr ⟨fits, hasOwn named fits⟩⟩

open NamedFields in
/-- A class whose field has a name that is one letter longer is written, too, but not read. -/
theorem longerName_isNotRecovered :
    ∃ bytes written, (definition [field 65535]).toBytes .core = .ok bytes ∧
      (definition [field 65535]).Builds .core written ∧ bytes = written.toBytes ∧
      ¬ written.IsRecoveredFrom bytes := by
  obtain ⟨bytes, isWritten⟩ := exists_toBytes 65535
  obtain ⟨written, builds, rfl⟩ := ClassDefinition.exists_builds_of_toBytes_eq_ok isWritten
  refine ⟨_, written, isWritten, builds, rfl, ?_⟩
  exact builds.not_isRecoveredFrom_of_length_le List.mem_cons_self (length_encode_name 65535).ge

end ClosureConversion
