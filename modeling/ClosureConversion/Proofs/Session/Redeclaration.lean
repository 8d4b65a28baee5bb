import ClosureConversion.Proofs.ClassFile.Contents
import ClosureConversion.Proofs.Session.Recovery

/-!
Contract: a class declares the same before it is written and after it is read.

Owns:
- that a class stands in front of class files as its own bytes do among them;
- what the annotations of a member that is built are read as, from its own pool and from every
  later one;
- that the fields, the methods and the class of a class file that is built are read as the
  declarations that they were built from;
- that the bytes of a class declare what the class does, if every size fits the field that it is
  written to.

Does not own: the bodies of methods, or which sizes fit.
-/

namespace ClosureConversion

/-! ## Hierarchies -/

/-- It makes no difference to any name whether a declaration is put in front of the class files or
the bytes that declare it are. -/
theorem Hierarchy.resolve_shadow_eq
    {declaration : ClassDeclaration}
    {bytes : Bytes}
    (isRead : ClassDeclaration.ofBytes bytes = .ok declaration)
    {groups : List (List (BinaryName × Bytes))}
    {name : BinaryName} :
    ((ofClassFiles groups).shadow declaration).resolve name =
      (ofClassFiles ([(declaration.name, bytes)] :: groups)).resolve name := by
  unfold resolve resolveLoaded shadow ofClassFiles
  by_cases named : declaration.name = name
  · simp [named, isRead]
  · simp [named]

/-! ## Annotations among attributes -/

section Annotations

variable {pool : ConstantPool}

/-- An attribute of any other kind holds no annotations. -/
theorem Attribute.annotations_eq_nil
    {entry : Attribute}
    {name : String}
    (named : pool.text entry.name = .ok name)
    (isOther : name ≠ attributeName VisibleAnnotations ∧
      name ≠ attributeName InvisibleAnnotations) :
    entry.annotations pool = .ok [] := by
  unfold annotations
  rw [holds_of_text named, holds_of_text named, decide_eq_false isOther.1,
    decide_eq_false isOther.2]
  rfl

/-- Annotations without elements are found in the attribute that holds them, if they can be
counted. -/
theorem Attribute.Carries.annotations_eq_ok
    {entry : Attribute}
    {marks : List Annotation}
    (carries : entry.Carries pool (InvisibleAnnotations.mk marks))
    (few : marks.length < 2 ^ 16)
    (plain : ∀ mark ∈ marks, mark.elements = []) :
    entry.annotations pool = .ok marks := by
  have fit : ∀ mark ∈ marks, mark.Fits := fun mark member =>
    ⟨by rw [plain mark member]; decide, by rw [plain mark member]; exact List.forall_mem_nil _⟩
  have readBack : IsReadBack (InvisibleAnnotations.mk marks) :=
    (AnnotationsFit.isReadBack ⟨few, fit⟩).map InvisibleAnnotations.mk
  unfold annotations
  rw [holds_of_text carries.named, holds_of_text carries.named, if_neg (by decide),
    if_pos (by decide), contents_eq_ok carries.info readBack]
  rfl

theorem annotationTypes_cons
    {entry : Attribute}
    {attributes : List Attribute}
    {marks : List Annotation}
    {types others : List String}
    (found : entry.annotations pool = .ok marks)
    (areTypes : marks.mapM (fun mark => pool.text mark.type) = .ok types)
    (areOthers : annotationTypes attributes pool = .ok others) :
    annotationTypes (entry :: attributes) pool = .ok (types ++ others) := by
  unfold annotationTypes at areOthers ⊢
  obtain ⟨lists, areLists, areJoined⟩ := bind_eq_ok.mp areOthers
  cases areJoined
  rw [List.mapM_cons, found, ok_bind, areTypes, ok_bind, areLists]
  rfl

/-- The types of the annotations among the attributes are the classes of the names. -/
def Attribute.AnnotateWith
    (pool : ConstantPool)
    (names : List BinaryName)
    (attributes : List Attribute) : Prop :=
  annotationTypes attributes pool = .ok (names.map fun name => (FieldType.object name).descriptor)

theorem Attribute.AnnotateWith.annotationsOf_eq_ok
    {names : List BinaryName}
    {attributes : List Attribute}
    (annotated : AnnotateWith pool names attributes) :
    ClassDeclaration.annotationsOf attributes pool = .ok names := by
  unfold ClassDeclaration.annotationsOf
  rw [annotated, ok_bind]
  apply mapM_eq_ok_of_forall₂
  exact List.forall₂_map_left_iff.mpr
    (List.forall₂_same.mpr fun name _ => ClassDeclaration.annotationClass_descriptor name)

/-- An attribute of any other kind in front of the others leaves the annotations as they are. -/
theorem Attribute.AnnotateWith.cons
    {names : List BinaryName}
    {entry : Attribute}
    {attributes : List Attribute}
    (annotated : AnnotateWith pool names attributes)
    {name : String}
    (named : pool.text entry.name = .ok name)
    (isOther : name ≠ attributeName VisibleAnnotations ∧
      name ≠ attributeName InvisibleAnnotations) :
    AnnotateWith pool names (entry :: attributes) :=
  annotationTypes_cons (annotations_eq_nil named isOther) rfl annotated

end Annotations

/-! ## Members -/

namespace ClassDefinition

variable {definition : ClassDefinition} {hierarchy : Hierarchy} {written : ClassFile}

/-- The annotations of a member that is built are read back, if they can be counted. -/
theorem yields_annotationAttribute
    {names : List BinaryName}
    (few : names.length < 2 ^ 16) :
    Yields (annotationAttribute names) fun final attributes =>
      Attribute.AnnotateWith final names attributes := by
  have each : ∀ name : BinaryName, Yields ( annotation name) fun final mark =>
      mark.elements = [] ∧ final.text mark.type = .ok (FieldType.object name).descriptor :=
    fun name => (ConstantPool.yields_internText _).bind fun type =>
      yields_pure fun _ _ isType => ⟨rfl, isType⟩
  unfold annotationAttribute
  split
  · rename_i isEmpty
    rw [List.isEmpty_iff.mp isEmpty]
    exact yields_pure fun _ _ => rfl
  · refine (yields_mapM names fun name _ => each name).bind fun marks => ?_
    refine (Attribute.yields_ofContents (InvisibleAnnotations.mk marks)).bind fun entry => ?_
    refine yields_pure fun final _ carried annotated => ?_
    have carries : entry.Carries final (InvisibleAnnotations.mk marks) := ⟨carried.1, carried.2⟩
    have found := carries.annotations_eq_ok (annotated.length_eq ▸ few) fun mark member => by
      obtain ⟨name, _, isPlain, _⟩ := exists_mem_of_forall₂ annotated member
      exact isPlain
    have areTypes : marks.mapM (fun mark => final.text mark.type) =
        .ok (names.map fun name => (FieldType.object name).descriptor) :=
      mapM_eq_ok_of_forall₂ (List.forall₂_map_right_iff.mpr
        (annotated.flip.imp fun _ _ isAnnotated => isAnnotated.2))
    have none : annotationTypes [] final = .ok [] := rfl
    unfold Attribute.AnnotateWith
    rw [annotationTypes_cons found areTypes none, List.append_nil]

/-- A field that is made a member is read as the field, from every later pool. -/
theorem yields_fieldMember_read
    {field : FieldDeclaration}
    (few : field.annotations.length < 2 ^ 16) :
    Yields (fieldMember field) fun final member =>
      ClassDeclaration.ofField final member = .ok field := by
  refine (ConstantPool.yields_internText field.name.text).bind fun name => ?_
  refine (ConstantPool.yields_internText field.type.descriptor).bind fun descriptor => ?_
  refine (yields_annotationAttribute few).bind fun attributes => ?_
  refine yields_pure fun final _ annotated isDescriptor isName => ?_
  unfold ClassDeclaration.ofField
  simp only [isName, isDescriptor, annotated.annotationsOf_eq_ok, ok_bind,
    UnqualifiedName.ofClassFile_text, FieldType.ofClassFile_descriptor]
  rfl

/-- The code of a method holds no annotations. -/
theorem yields_codeAttribute
    (definition : ClassDefinition)
    (hierarchy : Hierarchy)
    (method : MethodDefinition) :
    Yields (definition.codeAttribute hierarchy method) fun final attributes =>
      attributes = [] ∨ ∃ entry, attributes = [entry] ∧ final.text entry.name = .ok "Code" := by
  unfold codeAttribute
  split
  · exact yields_pure fun _ _ => .inl rfl
  · refine (Method.onlyAdds_assemble _ hierarchy definition.version).yields.bind fun code => ?_
    refine (Attribute.yields_ofContents code).bind fun entry => ?_
    exact yields_pure fun final _ carried _ => .inr ⟨entry, rfl, carried.2⟩

/-- The annotations of a method that is made a member are read back, from every later pool. -/
theorem yields_methodMember_annotations
    (definition : ClassDefinition)
    (hierarchy : Hierarchy)
    {method : MethodDefinition}
    (few : method.declaration.annotations.length < 2 ^ 16) :
    Yields (definition.methodMember hierarchy method) fun final member =>
      Attribute.AnnotateWith final method.declaration.annotations member.attributes := by
  refine (definition.yields_codeAttribute hierarchy method).bind fun code => ?_
  refine (yields_annotationAttribute few).bind fun annotations => ?_
  refine (ConstantPool.onlyAdds_internText _).yields.bind fun name => ?_
  refine (ConstantPool.onlyAdds_internText _).yields.bind fun descriptor => ?_
  refine yields_pure fun final _ _ _ annotated isCode => ?_
  rcases isCode with rfl | ⟨entry, rfl, isNamed⟩
  · exact annotated
  · exact annotated.cons isNamed ⟨by decide, by decide⟩

theorem ofMethod_eq_ok
    {file : ClassFile}
    {member : Member .method}
    {declared : MethodDeclaration}
    (declares : member.Declares file.pool declared)
    (annotated : Attribute.AnnotateWith file.pool declared.annotations member.attributes) :
    ClassDeclaration.ofMethod file member = .ok declared := by
  unfold ClassDeclaration.ofMethod
  simp only [ClassFile.methodSignature_of_declares declares, annotated.annotationsOf_eq_ok,
    ok_bind, declares.flags]
  rfl

/-! ## Classes -/

/-- The annotations of each member can be counted. -/
structure CountsAnnotations (definition : ClassDefinition) : Prop where
  fields : ∀ field ∈ definition.fields, field.annotations.length < 2 ^ 16
  methods : ∀ method ∈ definition.methods, method.declaration.annotations.length < 2 ^ 16

/-- The parts of a class file that is built are read as those of the class, from every later
pool. -/
theorem parts_read_of_build_eq_ok
    {built : ClassFile}
    (isBuilt : definition.build hierarchy = .ok built)
    (counts : definition.CountsAnnotations)
    {later : ConstantPool}
    (consistent : later.IsConsistent)
    (extending : later.Extends built.pool)
    (attributes : List Attribute) :
    BinaryName.resolve later built.this = .ok definition.name ∧
      BinaryName.resolve later built.super = .ok definition.super ∧
      built.interfaces.mapM (BinaryName.resolve later) = .ok definition.interfaces ∧
      built.fields.mapM (ClassDeclaration.ofField later) = .ok definition.fields ∧
      built.methods.mapM (ClassDeclaration.ofMethod { built with pool := later, attributes }) =
        .ok (definition.methods.map MethodDefinition.declaration) := by
  obtain ⟨_, _, withThis, withSuper, withInterfaces, withFields, isThis, isSuper, areInterfaces,
    areFields, areMembers⟩ := parts_of_build_eq_ok isBuilt
  obtain ⟨thisConsistent, _, named⟩ :=
    definition.name.yields_intern _ _ _ ConstantPool.isConsistent_empty isThis
  obtain ⟨superConsistent, superExtends, hasSuper⟩ :=
    definition.super.yields_intern _ _ _ thisConsistent isSuper
  obtain ⟨interfacesConsistent, interfacesExtend, hasInterfaces⟩ :=
    yields_mapM definition.interfaces (fun name _ => name.yields_intern) _ _ _ superConsistent
      areInterfaces
  obtain ⟨fieldsConsistent, fieldsExtend, hasFields⟩ :=
    yields_mapM definition.fields
      (fun field member => yields_fieldMember_read (counts.fields field member))
      _ _ _ interfacesConsistent areFields
  obtain ⟨_, poolExtends, hasMethods⟩ :=
    yields_mapM definition.methods
      (fun method member => (definition.yields_methodMember _ method).and
        (definition.yields_methodMember_annotations _ (counts.methods method member)))
      _ _ _ fieldsConsistent areMembers
  -- The later pool extends each of those that the parts were put into one after another.
  have extendsFields := extending.trans poolExtends
  have extendsInterfaces := extendsFields.trans fieldsExtend
  have extendsSuper := extendsInterfaces.trans interfacesExtend
  refine ⟨named later consistent (extendsSuper.trans superExtends),
    hasSuper later consistent extendsSuper, ?_, ?_, ?_⟩
  · exact mapM_eq_ok_of_forall₂ (hasInterfaces later consistent extendsInterfaces).flip
  · exact mapM_eq_ok_of_forall₂ (hasFields later consistent extendsFields).flip
  · have areRead := (hasMethods later consistent extending).flip
    exact mapM_eq_ok_of_forall₂ (List.forall₂_map_right_iff.mpr
      (areRead.imp fun _ _ isRead => ofMethod_eq_ok isRead.1 isRead.2))

/-- The class file that stands in memory when a class is written declares what the class does. -/
theorem Builds.ofClassFile_eq_ok
    (builds : definition.Builds hierarchy written)
    (counts : definition.CountsAnnotations) :
    ClassDeclaration.ofClassFile written = .ok definition.declaration := by
  obtain ⟨contiguous, _⟩ := builds.isContiguous
  obtain ⟨built, isBuilt, isSynced⟩ := builds
  obtain ⟨sameFlags, noAttributes, _⟩ := parts_of_build_eq_ok isBuilt
  obtain ⟨poolConsistent, _⟩ := grownFrom_empty_of_build_eq_ok isBuilt
  obtain ⟨later, attributes, rfl, consistent, grown, _, synced⟩ :=
    ClassFile.exists_attributes_of_syncBootstraps_eq_ok poolConsistent isSynced
  obtain ⟨isName, isSuperName, areInterfaceNames, areFields, areMethods⟩ :=
    parts_read_of_build_eq_ok isBuilt counts consistent grown.toExtends attributes
  have superStands : built.super ≠ 0 := by
    obtain ⟨constant, stands, _⟩ := bind_eq_ok.mp (bind_eq_ok.mp isSuperName).choose_spec.1
    exact consistent.ne_zero_of_get_eq_ok contiguous stands
  have none : Attribute.AnnotateWith later [] [] := rfl
  have unannotated : Attribute.AnnotateWith later [] attributes := by
    rw [noAttributes] at synced
    rcases synced with ⟨_, rfl⟩ | ⟨_, entry, isKind, _, rfl⟩
    · exact none
    · exact none.cons (Attribute.holds_iff.mp isKind) ⟨by decide, by decide⟩
  unfold ClassDeclaration.ofClassFile ClassFile.thisName ClassFile.superName?
    ClassFile.interfaceNames
  rw [areFields, ok_bind, areMethods, ok_bind, isName, ok_bind, if_neg superStands, isSuperName,
    areInterfaceNames, unannotated.annotationsOf_eq_ok, sameFlags]
  rfl

/-- Every size in the class fits the field of the class file that it is written to. The number of
the annotations of a member is not among the sizes of a class file in memory, where an attribute
holds its bytes already. -/
structure IsWithinBounds (definition : ClassDefinition) (hierarchy : Hierarchy) : Prop where
  sizes : ∀ written, definition.Builds hierarchy written → written.Fits
  annotations : definition.CountsAnnotations

/-- **Redeclaration**: the bytes of a class within the bounds declare what the class does. Whatever
other classes there are, each name is resolved to the same declaration with the class in front of
them as with its bytes among the class files. -/
theorem ofBytes_eq_declaration
    {bytes : Bytes}
    (isWritten : definition.toBytes hierarchy = .ok bytes)
    (bounds : definition.IsWithinBounds hierarchy) :
    ClassDeclaration.ofBytes bytes = .ok definition.declaration ∧
      ∀ (groups : List (List (BinaryName × Bytes))) (name : BinaryName),
        ((Hierarchy.ofClassFiles groups).shadow definition.declaration).resolve name =
          (Hierarchy.ofClassFiles ([(definition.name, bytes)] :: groups)).resolve name := by
  obtain ⟨written, builds, rfl⟩ := exists_builds_of_toBytes_eq_ok isWritten
  obtain ⟨contiguous, _, _, hasOwn⟩ := builds.isContiguous
  have fits := bounds.sizes written builds
  obtain ⟨table?, isTable, same⟩ := hasOwn fits
  have includes : (ConstantPool.ofTable written.pool.constants
      ((table?.map BootstrapTable.bootstraps).getD [])).Includes written.pool := {
    get := fun _ _ stands => stands
    bootstraps := same ▸ List.prefix_refl _ }
  have declares := ClassDeclaration.persists_ofClassFile includes (ConstantPool.text_congr rfl) _
    (builds.ofClassFile_eq_ok bounds.annotations)
  have isRead : ClassDeclaration.ofBytes written.toBytes = .ok definition.declaration := by
    unfold ClassDeclaration.ofBytes
    rw [ClassFile.ofBytes_toBytes contiguous fits isTable, ok_bind, declares]
  exact ⟨isRead, fun groups name => Hierarchy.resolve_shadow_eq isRead⟩

end ClassDefinition

/-! ## A class with annotated members -/

namespace MarkedClass

def mark : BinaryName := ⟨"demo/Mark", by decide⟩

def field : FieldDeclaration where
  name := ⟨"tally", by decide⟩
  type := .base .int
  flags := FieldFlags.accPublic
  annotations := [mark]

/-- A method without a body. -/
def refresh : MethodDefinition where
  declaration := {
    name := ⟨"refresh", by decide⟩
    type := ⟨[], none⟩
    flags := MethodFlags.accAbstract
    annotations := [⟨"demo/Refreshing", by decide⟩, mark] }
  body := none

/-- A body that returns at once. -/
def idle : CodeBody Nat where
  instructions := #[.op (.leave none)]

def clear : MethodDefinition where
  declaration := {
    name := ⟨"clear", by decide⟩
    type := ⟨[.base .int], none⟩
    flags := MethodFlags.accStatic
    annotations := [mark] }
  body := some idle

/-- An abstract class with an interface, whose field and whose methods are annotated. -/
def definition : ClassDefinition where
  name := ⟨"demo/Marked", by decide⟩
  super := .object
  flags := ClassFlags.accAbstract
  interfaces := [.runnable]
  fields := [field]
  methods := [refresh, clear]

/-- The classes that are known while the methods are assembled. -/
def hierarchy : Hierarchy :=
  Hierarchy.core.shadow definition.declaration

/-- What is known before the only instruction of the body. -/
def frames : FlowAnalysis where
  frames := #[some ⟨[.int], []⟩]
  maxStack := 0
  maxLocals := 1

theorem assemble_clear :
    (definition.whole clear.declaration idle).assemble hierarchy definition.version =
      pure (CodeAttribute.mk 0 1 [0xb1] [] []) := by
  have isPlain : (definition.whole clear.declaration idle).IsPlain hierarchy frames := by decide
  funext pool
  have isEncoded : encode (frames.overwriteDead idle.instructions) pool =
      .ok ⟨[0xb1], #[0, 1], []⟩ pool := by
    with_unfolding_all rfl
  rw [isPlain.assemble_of_encode_eq_ok definition.version isEncoded rfl]
  with_unfolding_all rfl

theorem codeAttribute_clear :
    definition.codeAttribute hierarchy clear = do
      return [← Attribute.ofContents (CodeAttribute.mk 0 1 [0xb1] [] [])] := by
  rw [ClassDefinition.codeAttribute_of_body_eq_some rfl]
  exact congrArg (· >>= _) assemble_clear

theorem exists_toBytes :
    ∃ bytes, definition.toBytes .core = .ok bytes := by
  have marked := ClassDefinition.fitsIn_fieldMember field
  have uncoded : FitsIn 0 (definition.codeAttribute hierarchy refresh) := by
    rw [ClassDefinition.codeAttribute_of_body_eq_none rfl]
    exact fitsIn_pure []
  have coded : FitsIn 1 (definition.codeAttribute hierarchy clear) := by
    rw [codeAttribute_clear]
    exact (Attribute.fitsIn_ofContents _).bind fun entry => fitsIn_pure [entry]
  refine ClassDefinition.exists_toBytes_of_fitsIn (List.forall_mem_singleton.mpr marked)
    (List.forall_mem_cons.mpr ⟨ClassDefinition.fitsIn_methodMember uncoded,
      List.forall_mem_singleton.mpr ((ClassDefinition.fitsIn_methodMember coded).mono ?_)⟩) ?_
  · decide
  · decide

theorem isShort_definition : definition.IsShort .core where
  name := by decide
  super := by decide
  interfaceCount := by decide
  interfaces := by decide
  fieldCount := by decide
  fields := by decide
  methodCount := by decide
  methods := by
    have refreshed : KeepsFit (definition.codeAttribute hierarchy refresh)
        ClassDefinition.IsShortList := by
      rw [ClassDefinition.codeAttribute_of_body_eq_none rfl]
      exact keepsFit_pure ⟨Nat.zero_le 1, List.forall_mem_nil _⟩
    have cleared : KeepsFit (definition.codeAttribute hierarchy clear)
        ClassDefinition.IsShortList := by
      rw [codeAttribute_clear]
      exact ClassDefinition.keepsFit_ofContents (by decide) (by decide)
    exact List.forall_mem_cons.mpr ⟨⟨by decide, refreshed⟩,
      List.forall_mem_singleton.mpr ⟨by decide, cleared⟩⟩

end MarkedClass

open MarkedClass in
/-- A class with annotated members, of which one method has a body, declares the same before it is
written and after it is read. -/
theorem markedClass_isDeclared :
    ∃ bytes, definition.toBytes .core = .ok bytes ∧ definition.IsWithinBounds .core ∧
      ClassDeclaration.ofBytes bytes = .ok definition.declaration := by
  obtain ⟨bytes, isWritten⟩ := exists_toBytes
  have bounds : definition.IsWithinBounds .core := {
    sizes := fun _ builds => builds.fits isShort_definition
    annotations := {
      fields := by decide
      methods := by decide } }
  obtain ⟨isRead, _⟩ := ClassDefinition.ofBytes_eq_declaration isWritten bounds
  exact ⟨bytes, isWritten, bounds, isRead⟩

end ClosureConversion
