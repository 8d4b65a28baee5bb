import ClosureConversion.ClassDefinition
import ClosureConversion.Proofs.ClassFile.Replacing

/-!
Contract: the methods that a class file declares.

Owns:
- class files that declare given methods, and the members that declare a method of a name and a
  type;
- a call finds its method if one member alone declares it, which is static just if the call is;
- the class file that is written for a class declares the methods of the class, and a bridge
  that is written is declared under its name.

Does not own: where methods are called.
-/

namespace ClosureConversion

/-! ## Declaring -/

/-- The member declares a method, in a class file with such a pool. -/
structure Member.Declares (pool : ConstantPool) (member : Member .method)
    (declared : MethodDeclaration) : Prop where
  flags : member.flags = declared.flags
  name : pool.text member.name = .ok declared.name.text
  descriptor : pool.text member.descriptor = .ok declared.type.descriptor

/-- The declaration is one of a method that a reference names. -/
def MethodDeclaration.isFor (declared : MethodDeclaration) (method : MethodRef) : Bool :=
  declared.name = method.name && declared.type = method.type

namespace ClassFile

/-- The class file declares the methods, one by one. -/
def DeclaresMethods (file : ClassFile) (methods : List MethodDeclaration) : Prop :=
  List.Forall₂ (fun member declared => member.flags = declared.flags ∧
    file.methodSignature member = .ok (declared.name, declared.type)) file.methods methods

/-- Whether a member of the class file declares a method that a reference names. -/
def isDeclarer (file : ClassFile) (method : MethodRef) (member : Member .method) : Bool :=
  match file.methodSignature member with
  | .ok signature => signature = (method.name, method.type)
  | .error _ => false

/-- The members of the class file that declare a method that a reference names. -/
def declarers (file : ClassFile) (method : MethodRef) : List (Member .method) :=
  file.methods.filter (file.isDeclarer method)

/-- A call finds the method that it names in a class file: one member alone declares it, which is
static just if the call is, and the reference takes the class for an interface just if it is
one. -/
structure Resolves (file : ClassFile) (kind : CallKind) (method : MethodRef) : Prop where
  declared : ∃ member, file.declarers method = [member] ∧
    (member.flags.contains MethodFlags.accStatic = true ↔ kind = .static)
  interface : method.ofInterface = file.flags.contains ClassFlags.accInterface

theorem methodSignature_of_declares
    {file : ClassFile}
    {member : Member .method}
    {declared : MethodDeclaration}
    (declares : member.Declares file.pool declared) :
    file.methodSignature member = .ok (declared.name, declared.type) := by
  unfold methodSignature
  rw [declares.name, ok_bind, declares.descriptor, ok_bind, UnqualifiedName.ofClassFile_text,
    ok_bind, MethodType.ofClassFile_descriptor]
  rfl

theorem isDeclarer_eq
    {file : ClassFile}
    {member : Member .method}
    {declared : MethodDeclaration}
    (signature : file.methodSignature member = .ok (declared.name, declared.type))
    (method : MethodRef) :
    file.isDeclarer method member = declared.isFor method := by
  unfold isDeclarer MethodDeclaration.isFor
  rw [signature]
  simp

/-- The members that declare a method have the declarations of it. -/
theorem DeclaresMethods.declarers
    {file : ClassFile}
    {methods : List MethodDeclaration}
    (declares : file.DeclaresMethods methods)
    (method : MethodRef) :
    List.Forall₂ (fun member declared => member.flags = declared.flags)
      (file.declarers method) (methods.filter (·.isFor method)) := by
  unfold DeclaresMethods at declares
  unfold ClassFile.declarers
  generalize file.methods = members at declares ⊢
  induction declares with
  | nil => exact .nil
  | @cons member declared members methods isDeclared _ inductionHypothesis =>
      obtain ⟨flags, signature⟩ := isDeclared
      rw [List.filter_cons, List.filter_cons, isDeclarer_eq signature]
      split
      · exact .cons flags inductionHypothesis
      · exact inductionHypothesis

/-- Whether a call finds a method goes by the declarations alone. -/
theorem DeclaresMethods.resolves_iff
    {file : ClassFile}
    {methods : List MethodDeclaration}
    (declares : file.DeclaresMethods methods)
    {kind : CallKind}
    {method : MethodRef}
    {known : MethodDeclaration}
    (isDeclared : known ∈ methods)
    (isKnown : known.isFor method = true)
    (isStatic : known.isStatic = true ↔ kind = .static) :
    file.Resolves kind method ↔ (methods.filter (·.isFor method)).length = 1 ∧
      method.ofInterface = file.flags.contains ClassFlags.accInterface := by
  have sameFlags := declares.declarers method
  constructor
  · rintro ⟨⟨member, isSole, _⟩, interface⟩
    rw [isSole] at sameFlags
    exact ⟨sameFlags.length_eq.symm, interface⟩
  · rintro ⟨isSole, interface⟩
    obtain ⟨declared, isSole⟩ := List.length_eq_one_iff.mp isSole
    have isOnly : known ∈ methods.filter (·.isFor method) :=
      List.mem_filter.mpr ⟨isDeclared, isKnown⟩
    rw [isSole] at sameFlags isOnly
    cases List.mem_singleton.mp isOnly
    obtain ⟨member, rest, flags, isLast, equal⟩ := List.forall₂_cons_right_iff.mp sameFlags
    cases isLast
    refine ⟨⟨member, equal, ?_⟩, interface⟩
    rw [flags]
    exact isStatic

end ClassFile

/-! ## Writing -/

namespace Method

/-- The attribute holds the code of the method as it was assembled. -/
def IsWrittenAs (method : Method) (hierarchy : Hierarchy) (version : Version)
    (pool : ConstantPool) (code : Attribute) : Prop :=
  ∃ contents, Yielded (method.assemble hierarchy version) pool contents ∧
    code.Carries pool contents

theorem onlyAdds_code
    (method : Method)
    (hierarchy : Hierarchy)
    (version : Version) :
    OnlyAdds (method.assemble hierarchy version >>= Attribute.ofContents) :=
  (method.onlyAdds_assemble hierarchy version).bind fun contents =>
    Attribute.onlyAdds_ofContents contents

theorem yields_code
    (method : Method)
    (hierarchy : Hierarchy)
    (version : Version) :
    Yields (method.assemble hierarchy version >>= Attribute.ofContents) fun final code =>
      method.IsWrittenAs hierarchy version final code := by
  apply (method.onlyAdds_assemble hierarchy version).yields_yielded.bind
  intro contents
  exact (Attribute.yields_ofContents contents).imp fun final code means isAssembled =>
    ⟨contents, isAssembled, means.1, means.2⟩

end Method

namespace ClassDefinition

variable {definition : ClassDefinition} {hierarchy : Hierarchy}

theorem onlyAdds_annotationAttribute
    (names : List BinaryName) :
    OnlyAdds (annotationAttribute names) := by
  have each : ∀ name : BinaryName, OnlyAdds <| annotation name := fun name =>
    (ConstantPool.onlyAdds_internText _).bind fun type => onlyAdds_pure _
  unfold annotationAttribute
  split
  · exact onlyAdds_pure []
  · exact (onlyAdds_mapM each names).bind fun annotations =>
      (Attribute.onlyAdds_ofContents _).bind fun entry => onlyAdds_pure [entry]

theorem onlyAdds_fieldMember
    (field : FieldDeclaration) :
    OnlyAdds (fieldMember field) :=
  (ConstantPool.onlyAdds_internText _).bind fun name =>
    (ConstantPool.onlyAdds_internText _).bind fun descriptor =>
      (onlyAdds_annotationAttribute _).bind fun attributes =>
        onlyAdds_pure (Member.mk field.flags name descriptor attributes)

theorem onlyAdds_codeAttribute
    (definition : ClassDefinition)
    (hierarchy : Hierarchy)
    (method : MethodDefinition) :
    OnlyAdds (definition.codeAttribute hierarchy method) := by
  unfold codeAttribute
  split
  · exact onlyAdds_pure []
  · exact (Method.onlyAdds_assemble _ hierarchy definition.version).bind fun code =>
      (Attribute.onlyAdds_ofContents _).bind fun entry => onlyAdds_pure [entry]

/-- A method that is made a member is declared by it in every later pool. -/
theorem yields_methodMember
    (definition : ClassDefinition)
    (hierarchy : Hierarchy)
    (method : MethodDefinition) :
    Yields (definition.methodMember hierarchy method) fun final member =>
      member.Declares final method.declaration := by
  apply (definition.onlyAdds_codeAttribute hierarchy method).yields.bind
  intro code
  apply (onlyAdds_annotationAttribute method.declaration.annotations).yields.bind
  intro annotations
  apply (ConstantPool.yields_internText method.declaration.name.text).bind
  intro name
  apply (ConstantPool.yields_internText method.declaration.type.descriptor).bind
  intro descriptor
  exact yields_pure fun final _ isDescriptor isName _ _ => ⟨rfl, isName, isDescriptor⟩

/-- The class file that is written for a class has its name and declares its methods. -/
theorem exists_file_of_toBytes_eq_ok
    {bytes : Bytes}
    (isWritten : definition.toBytes hierarchy = .ok bytes) :
    ∃ file : ClassFile, bytes = file.toBytes ∧ file.thisName = .ok definition.name ∧
      file.flags = definition.flags ∧
      file.DeclaresMethods (definition.methods.map MethodDefinition.declaration) := by
  unfold toBytes build at isWritten
  obtain ⟨built, isBuilt, finished⟩ := bind_eq_ok.mp isWritten
  obtain ⟨written, isSynced, rfl⟩ := map_eq_ok.mp finished
  split at isBuilt
  · rename_i file _ done
    cases isBuilt
    obtain ⟨this, withThis, isThis, done⟩ := run_bind_eq_ok.mp done
    obtain ⟨super, withSuper, isSuper, done⟩ := run_bind_eq_ok.mp done
    obtain ⟨interfaces, withInterfaces, areInterfaces, done⟩ := run_bind_eq_ok.mp done
    obtain ⟨fields, withFields, areFields, done⟩ := run_bind_eq_ok.mp done
    obtain ⟨members, pool, areMembers, done⟩ := run_bind_eq_ok.mp done
    cases done
    obtain ⟨thisConsistent, _, named⟩ :=
      definition.name.yields_intern _ _ _ ConstantPool.isConsistent_empty isThis
    obtain ⟨superConsistent, superGrown⟩ :=
      definition.super.onlyAdds_intern _ _ _ thisConsistent isSuper
    obtain ⟨interfacesConsistent, interfacesGrown⟩ :=
      onlyAdds_mapM BinaryName.onlyAdds_intern _ _ _ _ superConsistent areInterfaces
    obtain ⟨fieldsConsistent, fieldsGrown⟩ :=
      onlyAdds_mapM onlyAdds_fieldMember _ _ _ _ interfacesConsistent areFields
    obtain ⟨poolConsistent, poolExtends, declared⟩ :=
      yields_mapM definition.methods (fun method _ => definition.yields_methodMember _ method)
        _ _ _ fieldsConsistent areMembers
    obtain ⟨later, attributes, rfl, laterConsistent, laterGrown, _⟩ :=
      ClassFile.exists_attributes_of_syncBootstraps_eq_ok poolConsistent isSynced
    have extends_ : later.Extends withThis := laterGrown.toExtends.trans (poolExtends.trans
      (fieldsGrown.trans (interfacesGrown.trans superGrown)).toExtends)
    refine ⟨_, rfl, named later laterConsistent extends_, rfl, ?_⟩
    exact List.forall₂_map_right_iff.mpr ((declared later laterConsistent
      laterGrown.toExtends).flip.imp fun member method declares =>
        ⟨declares.flags, ClassFile.methodSignature_of_declares declares⟩)
  · cases isBuilt

end ClassDefinition

/-! ## Bridges -/

/-- The declaration of a bridge in a class. -/
def Bridge.declaration (owner : BinaryName) (bridge : Bridge) : MethodDeclaration where
  name := bridge.name
  type := bridge.use.type owner
  flags := BridgeTable.flags
  annotations := []

/-- A bridge as a method of a class. -/
def Bridge.whole (owner : BinaryName) (bridge : Bridge) : Method :=
  .ofBody owner BridgeTable.flags bridge.name (bridge.use.type owner) (bridge.body owner)

/-- The member is a bridge of a class, in a class file of a version with such a pool: it declares
the bridge and has nothing but its code. -/
structure Member.IsOfBridge (hierarchy : Hierarchy) (version : Version) (pool : ConstantPool)
    (owner : BinaryName) (bridge : Bridge) (member : Member .method) : Prop where
  declares : member.Declares pool (bridge.declaration owner)
  attributes : ∃ code, member.attributes = [code] ∧
    (bridge.whole owner).IsWrittenAs hierarchy version pool code

/-- A bridge that is made a member of a class file is one in every later pool. -/
theorem BridgeTable.yields_member
    (table : BridgeTable)
    (hierarchy : Hierarchy)
    (version : Version)
    (bridge : Bridge) :
    Yields (table.member hierarchy version bridge) fun final member =>
      member.IsOfBridge hierarchy version final table.owner bridge := by
  apply (Method.onlyAdds_assemble _ hierarchy version).yields_yielded.bind
  intro contents
  apply (Attribute.yields_ofContents contents).bind
  intro code
  apply (ConstantPool.yields_internText bridge.name.text).bind
  intro name
  apply (ConstantPool.yields_internText _).bind
  intro descriptor
  exact yields_pure fun final _ isDescriptor isName isCode isAssembled =>
    ⟨⟨rfl, isName, isDescriptor⟩, code, rfl, contents, isAssembled, isCode.1, isCode.2⟩

end ClosureConversion
