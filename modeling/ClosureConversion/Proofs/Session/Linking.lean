import ClosureConversion.Proofs.Session.SelfConsistency
import ClosureConversion.Proofs.Session.Writing

/-!
Contract: the calls that are inserted into converted code find the methods that they name.

Owns:
- the calls that are inserted into the code that is made for a class, and where other calls there
  come from;
- the class files of a converted class and of its closures, with the methods that they declare;
- an inserted call finds its method just if its class declares that once, and bridges are found
  just if the converted class is no interface.

Does not own: calls that the source made.
-/

namespace ClosureConversion

/-! ## Inserted calls -/

/-- The method by which a bridge of a class is called. -/
def Bridge.reference (owner : BinaryName) (bridge : Bridge) : MethodRef :=
  ⟨.object owner, bridge.name, bridge.use.type owner, false⟩

/-- A call of a method that conversion adds: of a method of the class of a closure, or of a
bridge. -/
inductive PreparedClass.Links (prepared : PreparedClass) : CallKind → MethodRef → Prop where
  | closure {entry : PlannedMethod} {plan : SitePlan} {kind : CallKind} {method : MethodRef}
      (isPlanned : entry ∈ prepared.planned) (isSite : plan ∈ entry.plan.sites)
      (calls : plan.Calls kind method) : prepared.Links kind method
  | bridge {bridge : Bridge} (isBridge : bridge ∈ prepared.bridges) :
      prepared.Links .static (bridge.reference prepared.name)

/-- The instruction is in the code that is made for the class or for one of its closures. -/
def PreparedClass.Holds (prepared : PreparedClass) (instruction : Instruction Nat) : Prop :=
  prepared.Runs instruction ∨ ∃ definition ∈ prepared.closures, instruction ∈ definition.code

/-- Where a call in new code comes from: a method of the class made it before, it converts between
a value and an object, the class of a closure calls the constructor of its superclass, or it is
inserted. -/
inductive PreparedClass.Explains (prepared : PreparedClass) : Instruction Nat → Prop where
  | source {entry : PlannedMethod} {instruction : Instruction Nat}
      (isPlanned : entry ∈ prepared.planned)
      (isSource : instruction ∈ entry.method.instructions.toList) : prepared.Explains instruction
  | box (type : BaseType) : prepared.Explains (boxValue type)
  | unbox (type : BaseType) : prepared.Explains (unboxValue type)
  | super {definition : ClassDefinition} (isClosure : definition ∈ prepared.closures) :
      prepared.Explains (superCall definition.super)
  | link {kind : CallKind} {method : MethodRef} (links : prepared.Links kind method) :
      prepared.Explains (.invoke kind method)

section Explaining

variable {prepared : PreparedClass} {entry : PlannedMethod}

theorem explains_of_isInserted
    (isPlanned : entry ∈ prepared.planned)
    {instruction : Instruction Nat}
    (isInserted : IsInserted entry.plan.sites instruction) :
    prepared.Explains instruction := by
  cases isInserted with
  | calls isSite calls => exact .link (.closure isPlanned isSite calls)
  | box type => exact .box type
  | unbox type => exact .unbox type

/-- Calls that replaced those of a planned method are explained. -/
theorem explains_of_callsOnly
    (isPlanned : entry ∈ prepared.planned)
    {Allowed : Instruction Nat → Prop}
    (allowed : ∀ instruction, Allowed instruction → prepared.Explains instruction)
    {code : List (Instruction Nat)}
    (calls : CallsOnly prepared.name Allowed prepared.bridges entry.method.instructions.toList code)
    {instruction : Instruction Nat}
    (member : instruction ∈ code)
    (isCall : instruction.IsCall) :
    prepared.Explains instruction := by
  rcases calls instruction member isCall with isSource | isAllowed | ⟨bridge, isBridge, rfl⟩
  · exact .source isPlanned isSource
  · exact allowed instruction isAllowed
  · exact .link (.bridge isBridge)

/-- Every call in the code that is made for a class is explained. -/
theorem explains_of_isMadeWith
    {owner : ClassDeclaration}
    (sameName : prepared.name = owner.name)
    {hierarchy : Hierarchy}
    {version : Version}
    {made : ClosureClasses}
    (isMade : ClosureClasses.ofPlans hierarchy owner version prepared.planned = .ok made)
    (isMadeWith : prepared.IsMadeWith made)
    {instruction : Instruction Nat}
    (holds : prepared.Holds instruction)
    (isCall : instruction.IsCall) :
    prepared.Explains instruction := by
  obtain ⟨_, uses, areBuilt⟩ := isBuiltAs_of_ofPlans_eq_ok isMade
  rw [← isMadeWith.closures, ← isMadeWith.bridges, ← sameName] at areBuilt
  rw [← isMadeWith.bridges] at uses
  rcases holds with (⟨isPlanned, isRewritten, member⟩ | ⟨isBridge, member⟩) |
    ⟨definition, isClosure, member⟩
  · exact explains_of_callsOnly isPlanned (fun _ => explains_of_isInserted isPlanned)
      (callsOnly_of_rewrite_eq_ok prepared.name prepared.bridges isRewritten) member isCall
  · obtain ⟨entry, isPlanned, isSource⟩ := uses _ isBridge
    rw [Bridge.eq_use_of_mem_body member isCall]
    exact .source isPlanned isSource
  · obtain ⟨site, isSite, isBuilt⟩ := exists_mem_of_forall₂ areBuilt isClosure
    obtain ⟨entry, isPlanned, isOfEntry⟩ := List.mem_flatMap.mp isSite
    obtain ⟨_, _, rfl⟩ := List.mem_map.mp isOfEntry
    refine explains_of_callsOnly isPlanned (fun other isAllowed => ?_) isBuilt.calls member isCall
    rcases isAllowed with isInserted | rfl
    · exact explains_of_isInserted isPlanned isInserted
    · exact .super isClosure

end Explaining

/-! ## The classes of closures -/

/-- The class of the closure is to declare one method alone that a reference names. -/
def SitePlan.IsSole (plan : SitePlan) (method : MethodRef) : Prop :=
  (plan.declaredMethods.filter (·.isFor method)).length = 1

/-- A class file with the methods that the plan of a site wants the class of its closure to
declare. -/
structure SitePlan.IsDeclaredBy (plan : SitePlan) (file : ClassFile) : Prop where
  name : file.thisName = .ok plan.className
  flags : file.flags = closureFlags
  methods : file.DeclaresMethods plan.declaredMethods

/-- The methods that are called of the class of a closure are not static, and the class is none
that the references take for an interface. -/
theorem SitePlan.IsDeclaredBy.resolves_iff
    {plan : SitePlan}
    {file : ClassFile}
    (isDeclared : plan.IsDeclaredBy file)
    {kind : CallKind}
    {method : MethodRef}
    (calls : plan.Calls kind method) :
    file.Resolves kind method ↔ plan.IsSole method := by
  have noInterface : file.flags.contains ClassFlags.accInterface = false := by
    rw [isDeclared.flags]
    decide
  cases calls with
  | construct =>
      rw [isDeclared.methods.resolves_iff List.mem_cons_self
        (by simp [MethodDeclaration.isFor, declares, constructor])
        (by simp [MethodDeclaration.isStatic, declares]; decide), noInterface]
      exact and_iff_left rfl
  | @default field isDefault =>
      have member : defaultDeclaration field ∈ plan.declaredMethods :=
        List.mem_append_left _ (List.mem_cons_of_mem _ (List.mem_map_of_mem isDefault))
      rw [isDeclared.methods.resolves_iff member
        (by simp [MethodDeclaration.isFor, defaultDeclaration, declares, defaultAccessor])
        (by simp [MethodDeclaration.isStatic, defaultDeclaration, declares]; decide), noInterface]
      exact and_iff_left rfl

/-- The class of a closure that is completed without a cache is written with the methods that are
planned for it. -/
theorem exists_file_of_closureEntry_eq_ok
    {prepared : PreparedClass}
    {owner : BinaryName}
    {bridges : List Bridge}
    {site : PlannedSite}
    {definition : ClassDefinition}
    (isBuilt : site.IsBuiltAs owner bridges definition)
    {entry : BinaryName × Bytes}
    (isEntry : prepared.closureEntry .empty definition = .ok entry) :
    ∃ file : ClassFile, site.self.IsDeclaredBy file ∧
      (file.thisName = .ok entry.1 ∧ entry.2 = file.toBytes) := by
  obtain ⟨bytes, isWritten, equal⟩ := bind_eq_ok.mp isEntry
  cases equal
  obtain ⟨file, areBytes, name, flags, methods⟩ := ClassDefinition.exists_file_of_toBytes_eq_ok
    (mapError_eq_ok.mp (mapError_eq_ok.mp isWritten))
  rw [isBuilt.methods] at methods
  exact ⟨file, ⟨isBuilt.name ▸ name, flags.trans isBuilt.flags, methods⟩, name, areBytes⟩

/-! ## The converted class -/

namespace ClassFile.IsWrittenAs

variable {Memory : Type} {settings : Settings} {hierarchy made : Hierarchy}
  {convention : Convention Memory} {planned : List PlannedMethod} {table : BridgeTable}
  {before after : Memory} {file written : ClassFile}

theorem thisName_eq_ok
    (isWritten : file.IsWrittenAs settings hierarchy convention planned made table before after
      written)
    (consistent : file.pool.IsConsistent)
    {name : BinaryName}
    (isName : file.thisName = .ok name) :
    written.thisName = .ok name :=
  persists_thisName (isWritten.grown.includes consistent isWritten.consistent) isWritten.this
    name isName

/-- What is written declares the methods of the class and its bridges. -/
theorem declaresMethods
    (isWritten : file.IsWrittenAs settings hierarchy convention planned made table before after
      written)
    (consistent : file.pool.IsConsistent)
    {owner : ClassDeclaration}
    (isOwner : ClassDeclaration.ofClassFile file = .ok owner) :
    written.DeclaresMethods
      (owner.methods ++ table.bridges.map (Bridge.declaration table.owner)) := by
  obtain ⟨kept, bridges, methods, _, become, areBridges⟩ := isWritten.methods
  have includes := isWritten.grown.includes consistent isWritten.consistent
  unfold DeclaresMethods
  rw [methods]
  refine List.rel_append ?_ (List.forall₂_map_right_iff.mpr
    (areBridges.flip.imp fun member bridge isOf =>
      ⟨isOf.declares.flags, methodSignature_of_declares isOf.declares⟩))
  unfold ClassDeclaration.ofClassFile at isOwner
  obtain ⟨fields, _, isOwner⟩ := bind_eq_ok.mp isOwner
  obtain ⟨declared, areDeclared, isOwner⟩ := bind_eq_ok.mp isOwner
  obtain ⟨name, _, isOwner⟩ := bind_eq_ok.mp isOwner
  obtain ⟨super, _, isOwner⟩ := bind_eq_ok.mp isOwner
  obtain ⟨interfaces, _, isOwner⟩ := bind_eq_ok.mp isOwner
  obtain ⟨annotations, _, equal⟩ := bind_eq_ok.mp isOwner
  cases equal
  have sameMembers : List.Forall₂ (fun member other : Member .method => other.flags = member.flags ∧
      other.name = member.name ∧ other.descriptor = member.descriptor) file.methods kept := by
    rw [← List.zipIdx_map_fst 0 file.methods]
    refine List.forall₂_map_left_iff.mpr (become.imp fun entry other becomes => ?_)
    cases becomes <;> exact ⟨rfl, rfl, rfl⟩
  refine forall₂_comp ?_ sameMembers.flip (forall₂_of_mapM_eq_ok areDeclared)
  rintro other member declaration ⟨flags, name, descriptor⟩ isDeclared
  obtain ⟨⟨declaredName, type⟩, signature, isDeclared⟩ := bind_eq_ok.mp isDeclared
  obtain ⟨_, _, equal⟩ := bind_eq_ok.mp isDeclared
  cases equal
  refine ⟨flags, ?_⟩
  have sameSignature : written.methodSignature other = written.methodSignature member := by
    unfold methodSignature
    rw [name, descriptor]
  rw [sameSignature]
  exact persists_methodSignature includes member _ signature

end ClassFile.IsWrittenAs

/-- Among the methods of its class and all its bridges, a bridge is the only one of its name. -/
theorem BridgeTable.IsOf.length_filter_reference
    {table : BridgeTable}
    {owner : ClassDeclaration}
    (isOf : table.IsOf owner)
    {bridge : Bridge}
    (isBridge : bridge ∈ table.bridges) :
    ((owner.methods ++ table.bridges.map (Bridge.declaration owner.name)).filter
      (·.isFor (bridge.reference owner.name))).length = 1 := by
  have noMethod : owner.methods.filter (·.isFor (bridge.reference owner.name)) = [] := by
    refine List.filter_eq_nil_iff.mpr fun declared member isFor => ?_
    have sameName : declared.name = bridge.name :=
      of_decide_eq_true (Bool.and_eq_true_iff.mp isFor).1
    exact isOf.free bridge isBridge declared member sameName
  have sole : table.bridges.filter (fun other =>
      (other.declaration owner.name).isFor (bridge.reference owner.name)) =
        table.bridges.filter fun other => other.name = bridge.name := by
    refine List.filter_congr fun other isOther => ?_
    unfold MethodDeclaration.isFor
    by_cases sameName : other.name = bridge.name
    · rw [List.inj_on_of_nodup_map isOf.distinct isOther isBridge sameName]
      simp [Bridge.declaration, Bridge.reference]
    · simp [Bridge.declaration, Bridge.reference, sameName]
  rw [List.filter_append, noMethod, List.nil_append, List.filter_map, List.length_map]
  change (table.bridges.filter fun other =>
    (other.declaration owner.name).isFor (bridge.reference owner.name)).length = 1
  rw [sole]
  have counted := List.count_eq_one_of_mem isOf.distinct (List.mem_map_of_mem isBridge)
  rw [List.count, List.countP_map, List.countP_eq_length_filter] at counted
  exact counted

/-! ## Linking -/

/-- The class files of a converted class and of its closures have different names, all calls in
their code are explained, and of those that are inserted, those of methods of closures find them
just if the class of the closure is to declare them once, and those of bridges just if the
converted class is no interface. -/
structure PreparedClass.IsLinkedAs (prepared : PreparedClass) (converted : ConvertedClass)
    (woven : ClassFile) (files : List ClassFile) : Prop where
  bytes : converted.bytes = woven.toBytes
  name : woven.thisName = .ok prepared.name
  closures : List.Forall₂ (fun file entry => file.thisName = .ok entry.1 ∧ entry.2 = file.toBytes)
    files converted.closures
  distinct : (prepared.name :: converted.closures.map Prod.fst).Nodup
  explains : ∀ instruction, prepared.Holds instruction → instruction.IsCall →
    prepared.Explains instruction
  closureCalls : ∀ entry ∈ prepared.planned, ∀ plan ∈ entry.plan.sites,
    ∃ file ∈ files, file.thisName = .ok plan.className ∧ ∀ kind method, plan.Calls kind method →
      method.owner = .object plan.className ∧ (file.Resolves kind method ↔ plan.IsSole method)
  bridgeCalls : ∀ bridge ∈ prepared.bridges,
    (woven.Resolves .static (bridge.reference prepared.name) ↔
      woven.flags.contains ClassFlags.accInterface = false)

/-- **Linking**: a class that is converted without classes of closures made before stays as it is,
or every call that is inserted names a method that its class declares, which is static just if
the call is; the call finds it just if the class of the closure has no other method of that name
and type, or, for a bridge, if the class is no interface. -/
theorem isLinkedAs_of_convertClass_eq_ok
    {Memory : Type}
    {settings : Settings}
    {hierarchy : Hierarchy}
    {convention : Convention Memory}
    {input : Bytes}
    {file : ClassFile}
    (isRead : ClassFile.ofBytes input = .ok file)
    {before after : Memory}
    {converted : ConvertedClass}
    (isConverted : convertClass settings hierarchy convention .empty input before =
      .ok converted after) :
    (converted.bytes = input ∧ converted.closures = []) ∨
      ∃ prepared woven files,
        prepareClass settings hierarchy convention input before = .ok prepared after ∧
          woven.flags = file.flags ∧ prepared.IsLinkedAs converted woven files := by
  obtain ⟨prepared, prepares, sameBytes, areClosures⟩ :=
    exists_complete_of_convertClass_eq_ok isConverted
  rcases exists_written_of_prepareClass_eq_ok isRead prepares with ⟨isSame, isUnchanged⟩ |
    ⟨owner, made, rewritten, installed, woven, isOwner, sameName, arePlanned, isMade, isMadeWith,
      areRewritten, isInstalled, isSynced, areBytes⟩
  · rw [isUnchanged.closures] at areClosures
    exact .inl ⟨sameBytes.trans isSame, (Except.ok.inj areClosures).symm⟩
  · have isWritten := ClassFile.isWrittenAs_of_convert isRead arePlanned areRewritten isInstalled
      isSynced
    obtain ⟨_, consistent, _⟩ := ClassFile.pool_of_ofBytes_eq_ok isRead
    obtain ⟨isOf, _, areBuilt⟩ := isBuiltAs_of_ofPlans_eq_ok isMade
    rw [← isMadeWith.closures] at areBuilt
    have eachEntry : List.Forall₂ (fun definition entry =>
        prepared.closureEntry .empty definition = .ok entry) prepared.closures
        converted.closures := forall₂_of_mapM_eq_ok areClosures
    have eachFile : List.Forall₂ (fun site entry => ∃ file : ClassFile,
        site.self.IsDeclaredBy file ∧ (file.thisName = .ok entry.1 ∧ entry.2 = file.toBytes))
        (prepared.planned.flatMap PlannedMethod.sites) converted.closures := by
      refine forall₂_comp ?_ areBuilt eachEntry
      exact fun _ _ _ isBuilt isEntry => exists_file_of_closureEntry_eq_ok isBuilt isEntry
    obtain ⟨files, areDeclared, areFiles⟩ := exists_between_of_forall₂ eachFile
    have name := isWritten.thisName_eq_ok consistent (thisName_of_ofClassFile_eq_ok isOwner)
    rw [← sameName] at name
    refine .inr ⟨prepared, woven, files, prepares, isWritten.flags, sameBytes.trans areBytes, name,
      areFiles, ?_,
      fun instruction holds isCall =>
        explains_of_isMadeWith sameName isMade isMadeWith holds isCall, ?_, ?_⟩
    · rw [PreparedClass.map_fst_of_closureEntries areClosures]
      obtain ⟨distinct, named⟩ := nodup_name_of_prepareClass_eq_ok prepares
      refine List.nodup_cons.mpr ⟨fun member => ?_, distinct⟩
      obtain ⟨definition, isClosure, isName⟩ := List.mem_map.mp member
      obtain ⟨_, _, _, isNamed⟩ := named definition isClosure
      exact closureName_ne isNamed isName
    · intro entry isPlanned plan isSite
      have isSelf : plan ∈ (prepared.planned.flatMap PlannedMethod.sites).map
          PlannedSite.self := by
        rw [map_self_sites]
        exact List.mem_flatMap.mpr ⟨entry, isPlanned, isSite⟩
      obtain ⟨site, member, rfl⟩ := List.mem_map.mp isSelf
      obtain ⟨file, isFile, isDeclared⟩ := exists_mem_of_forall₂ areDeclared.flip member
      refine ⟨file, isFile, isDeclared.name, fun kind method calls =>
        ⟨?_, isDeclared.resolves_iff calls⟩⟩
      cases calls <;> rfl
    · intro bridge isBridge
      rw [isMadeWith.bridges] at isBridge
      have declares := isWritten.declaresMethods consistent isOwner
      rw [isOf.ofOwner] at declares
      have member : bridge.declaration owner.name ∈
          owner.methods ++ made.bridges.bridges.map (Bridge.declaration owner.name) :=
        List.mem_append_right _ (List.mem_map_of_mem isBridge)
      rw [sameName, declares.resolves_iff member
        (by simp [MethodDeclaration.isFor, Bridge.declaration, Bridge.reference])
        (by simp [MethodDeclaration.isStatic, Bridge.declaration]; decide),
        and_iff_right (isOf.length_filter_reference isBridge)]
      exact eq_comm

namespace PrivateHelper

open OwnFactory RebuiltFactory

theorem isUnqualified_secret : IsUnqualified "secret".toList := by
  decide

/-- The method that is private to the class, or the interface. -/
def secret (isInterface : Bool) : MethodRef where
  owner := .object maker
  name := ⟨"secret", isUnqualified_secret⟩
  type := ⟨[], some (.base .int)⟩
  ofInterface := isInterface

/-- The factory of the class, or of the interface. -/
def ownFactory (isInterface : Bool) : MethodRef :=
  { factory with ofInterface := isInterface }

/-- The flags of the methods that others use. -/
def shared : MethodFlags := MethodFlags.accPublic.union MethodFlags.accStatic

/-- The flags of the method that is private. -/
def hidden : MethodFlags := MethodFlags.accPrivate.union MethodFlags.accStatic

/-- The flags of the class, or of the interface. -/
def ownFlags (isInterface : Bool) : ClassFlags :=
  if isInterface then
    (ClassFlags.accPublic.union ClassFlags.accInterface).union ClassFlags.accAbstract
  else ClassFlags.accPublic

/-- The factory in the class file. -/
def factoryMember : Member .method :=
  { supplyMember with flags := shared }

/-- The private method in the class file. -/
def secretMember : Member .method :=
  ⟨hidden, 16, 17, [⟨5, write (CodeAttribute.mk 1 0 [0x04, 0xac] [] [])⟩]⟩

/-- The call of the factory with what the private method gives, in the class file. -/
def callerMember : Member .method :=
  ⟨shared, 12, 13,
    [⟨5, write (CodeAttribute.mk 1 0 [0xb8, 0, 19, 0xb8, 0, 20, 0xb0] [] [])⟩]⟩

/-- The file of a class, or of an interface, with a closure that calls a private method. -/
def secretFile (isInterface : Bool) : ClassFile :=
  { makerFile with
    pool := .ofTable (.ofList 1 (constants maker ++ [.utf8 "secret", .utf8 "()I",
      .nameAndType 16 17, .methodRef 7 18 isInterface, .methodRef 7 10 isInterface])) []
    flags := ownFlags isInterface
    methods := [factoryMember, secretMember, callerMember] }

/-- What the class, or the interface, declares. -/
def secretClass (isInterface : Bool) : ClassDeclaration where
  name := maker
  super := some .object
  interfaces := []
  flags := ownFlags isInterface
  fields := []
  methods := [⟨factory.name, factory.type, shared, [Settings.standard.factoryMark]⟩,
    declares hidden ⟨"secret", isUnqualified_secret⟩ (secret isInterface).type,
    declares shared ⟨"run", isUnqualified_run⟩ (runMethod maker).type]
  annotations := []

/-- Only the factory is one. -/
def answers : Hierarchy → Question → Answer :=
  fun _ asked => .ok (asked = question)

/-- What is asked about the class, or the interface. -/
def asked : List (Question × Answer) :=
  [(.factory maker ⟨"secret", isUnqualified_secret⟩ ⟨[], some (.base .int)⟩, .ok false),
    (question, .ok true)]

/-- The method that calls the factory. -/
def callerMethod (isInterface : Bool) : Method :=
  { runMethod maker with
    flags := shared
    instructions := #[.invoke .static (secret isInterface),
      .invoke .static (ownFactory isInterface), .op (.leave (some .reference))] }

/-- The site of the closure. -/
def secretSite (isInterface : Bool) : LambdaSite :=
  { site with factory := ownFactory isInterface }

/-- The plan of the method that calls the factory. -/
def secretPlan (isInterface : Bool) : MethodPlan where
  sites := [⟨secretSite isInterface, {}, outcome, closureName⟩]
  boxes := []

/-- The bridge by which the closure calls the private method. -/
def secretBridge (isInterface : Bool) : Bridge where
  use := .method .static (secret isInterface)
  name := bridgeName 0

/-- The class of the closure. -/
def secretClosure (isInterface : Bool) : ClassDefinition :=
  closure [] plainType [.load .reference 0, superCall .object, .op (.leave none)]
    [.invoke .static ((secretBridge isInterface).reference maker), .op (.leave (some .int))]

/-- What is made of the class, or of the interface. -/
def secretMade (isInterface : Bool) : ClosureClasses where
  hierarchy := (Hierarchy.core.declare (secretClass isInterface)).declare
    (secretClosure isInterface).declaration
  bridges := ((BridgeTable.ofClass (secretClass isInterface)).add (secretBridge isInterface).use).2
  classes := [secretClosure isInterface]

/-- The method that makes the closure. -/
def secretRewritten : Method :=
  { firstRewritten with flags := shared }

theorem ofBytes_secretFile
    (isInterface : Bool) :
    ClassFile.ofBytes (secretFile isInterface).toBytes = .ok (secretFile isInterface) := by
  cases isInterface <;> with_unfolding_all rfl

theorem ofClassFile_secretFile
    (isInterface : Bool) :
    ClassDeclaration.ofClassFile (secretFile isInterface) = .ok (secretClass isInterface) := by
  cases isInterface <;> with_unfolding_all rfl

theorem abstractMethod_secretSite
    (isInterface : Bool) :
    (secretSite isInterface).abstractMethod (Hierarchy.core.declare (secretClass isInterface)) =
      .ok outcome := by
  have found : (Hierarchy.core.declare (secretClass isInterface)).resolve supplier =
      .ok (CoreClass.functional supplier outcome.name outcome.type.parameters
        outcome.type.result) := by
    cases isInterface <;> with_unfolding_all rfl
  have isSole : (Hierarchy.core.declare (secretClass isInterface)).soleCandidate supplier 0
      (CoreClass.functional supplier outcome.name outcome.type.parameters outcome.type.result) =
        .ok (some outcome) := by
    cases isInterface <;> with_unfolding_all rfl
  exact LambdaSite.abstractMethod_eq_ok found isSole

theorem planMembers_secretFile
    (isInterface : Bool) :
    planMembers .standard (Hierarchy.core.declare (secretClass isInterface)) (.logging answers)
      (secretFile isInterface) 0 0 (secretFile isInterface).methods [] =
        .ok [⟨2, callerMethod isInterface, secretPlan isInterface⟩] asked := by
  let known := Hierarchy.core.declare (secretClass isInterface)
  have readsFactory : Method.ofMember? (secretFile isInterface) factoryMember =
      .ok (some { supplyMethod with flags := shared }) := by
    cases isInterface <;> with_unfolding_all rfl
  have readsSecret : Method.ofMember? (secretFile isInterface) secretMember = .ok (some
      { runMethod maker with
        instructions := #[.pushInt 1, .op (.leave (some .int))]
        flags := hidden
        name := (secret isInterface).name
        type := (secret isInterface).type }) := by
    cases isInterface <;> with_unfolding_all rfl
  have readsCaller : Method.ofMember? (secretFile isInterface) callerMember =
      .ok (some (callerMethod isInterface)) := by
    cases isInterface <;> with_unfolding_all rfl
  have called : factoryCalls (callerMethod isInterface) known (.logging answers) [] =
      .ok [1] asked := by
    cases isInterface <;> with_unfolding_all rfl
  have analyzed : (callerMethod isInterface).analyze known = .ok frames := by
    cases isInterface <;> decide +kernel
  have detected : detectSites (callerMethod isInterface) frames [1] 0 known (.logging answers)
      (Place.ofMethod (callerMethod isInterface)) asked =
        .ok [secretSite isInterface] asked := by
    cases isInterface <;> with_unfolding_all rfl
  have captured : analyzeCaptures (callerMethod isInterface) [secretSite isInterface] known
      (.logging answers) (Place.ofMethod (callerMethod isInterface)) asked =
        .ok ⟨[{}], []⟩ asked := by
    cases isInterface <;> with_unfolding_all rfl
  have resolved : abstractMethods [secretSite isInterface] known
      (Place.ofMethod (callerMethod isInterface)) = .ok [outcome] := by
    unfold abstractMethods
    rw [List.mapM_cons, abstractMethod_secretSite]
    rfl
  have named : classNames [secretSite isInterface] .standard maker = .ok [closureName] := by
    cases isInterface <;> with_unfolding_all rfl
  have isPlanned : planMember .standard known (.logging answers) (secretFile isInterface) 2 0
      callerMember [] =
        .ok (some ⟨2, callerMethod isInterface, secretPlan isInterface⟩) asked :=
    planMember_eq_ok.mpr ⟨rfl, readsCaller, [1], _, called, rfl, planMethod_eq_ok.mpr
      ⟨frames, [secretSite isInterface], ⟨[{}], []⟩, [outcome], [closureName], _, analyzed,
        detected, captured, resolved, named, rfl⟩⟩
  exact run_bind_eq_ok.mpr ⟨none, _, planMember_of_noCalls readsFactory rfl,
    run_bind_eq_ok.mpr ⟨none, _, planMember_of_noCalls readsSecret rfl,
      run_bind_eq_ok.mpr ⟨_, _, isPlanned, run_bind_eq_ok.mpr ⟨[], _, rfl, rfl⟩⟩⟩⟩

theorem ofPlans_secret
    (isInterface : Bool) :
    ClosureClasses.ofPlans (Hierarchy.core.declare (secretClass isInterface))
      (secretClass isInterface) .java8
      [⟨2, callerMethod isInterface, secretPlan isInterface⟩] = .ok (secretMade isInterface) := by
  cases isInterface <;> with_unfolding_all rfl

theorem rewrite_secret
    (isInterface : Bool) :
    (callerMethod isInterface).rewrite (secretPlan isInterface)
      (Place.ofMethod (callerMethod isInterface)) = .ok secretRewritten := by
  cases isInterface <;> with_unfolding_all rfl

/-- The class, or the interface, prepared. -/
def secretPrepared (isInterface : Bool) (bytes : Bytes) : PreparedClass where
  name := maker
  bytes := bytes
  planned := [⟨2, callerMethod isInterface, secretPlan isInterface⟩]
  bridges := [secretBridge isInterface]
  closures := [secretClosure isInterface]
  hierarchy := (secretMade isInterface).hierarchy

theorem exists_prepareClass_secretFile
    (isInterface : Bool) :
    ∃ bytes, prepareClass .standard .core (.logging answers) (secretFile isInterface).toBytes [] =
      .ok (secretPrepared isInterface bytes) asked := by
  have staysPlain : ∀ entry ∈ [PlannedMethod.mk 2 (callerMethod isInterface)
      (secretPlan isInterface)], ∃ rewritten analysis,
      entry.method.rewrite entry.plan entry.place = .ok rewritten ∧
        rewritten.IsPlain (secretMade isInterface).hierarchy analysis ∧ rewritten.room ≤ 60 := by
    intro entry member
    cases List.mem_singleton.mp member
    exact ⟨_, firstFrames, rewrite_secret isInterface, by cases isInterface <;> decide, by decide⟩
  have plainBridges : ∀ bridge ∈ (secretMade isInterface).bridges.bridges, ∃ analysis,
      (bridge.whole maker).IsPlain (secretMade isInterface).hierarchy analysis ∧
        (bridge.whole maker).room ≤ 60 := by
    intro bridge member
    cases List.mem_singleton.mp member
    exact ⟨⟨#[some ⟨[], []⟩, some ⟨[], [.int]⟩], 1, 0⟩, by cases isInterface <;> decide,
      by cases isInterface <;> decide⟩
  exact exists_prepareClass_eq_ok (ofBytes_secretFile isInterface)
    (ofClassFile_secretFile isInterface) rfl (planMembers_secretFile isInterface) rfl
    (ofPlans_secret isInterface) staysPlain plainBridges (by cases isInterface <;> decide)

theorem isPlain_secretClosure
    (isInterface : Bool) :
    (secretClosure isInterface).IsPlain (secretMade isInterface).hierarchy 40 where
  fields := fun _ member => absurd member List.not_mem_nil
  methods := by
    let receiver : VType := .object (.object closureName)
    intro method member
    rcases List.mem_cons.mp member with rfl | isLast
    · exact ⟨rfl, _, closureFrames [(.uninitializedThis, []),
        (.uninitializedThis, [.uninitializedThis]), (receiver, [])], rfl,
        by cases isInterface <;> decide, by cases isInterface <;> decide⟩
    · cases List.mem_singleton.mp isLast
      exact ⟨rfl, _, closureFrames [(receiver, []), (receiver, [.int])], rfl,
        by cases isInterface <;> decide, by cases isInterface <;> decide⟩

theorem exists_convertClass_secretFile
    (isInterface : Bool) :
    ∃ bytes converted,
      prepareClass .standard .core (.logging answers) (secretFile isInterface).toBytes [] =
          .ok (secretPrepared isInterface bytes) asked ∧
        convertClass .standard .core (.logging answers) .empty (secretFile isInterface).toBytes
          [] = .ok converted asked ∧
        converted.closures ≠ [] := by
  obtain ⟨bytes, prepares⟩ := exists_prepareClass_secretFile isInterface
  obtain ⟨converted, isConverted, hasClosures⟩ := exists_convertClass_of_prepares prepares rfl
    ((isPlain_secretClosure isInterface).exists_toBytes (by cases isInterface <;> decide))
  exact ⟨bytes, converted, prepares, isConverted, hasClosures⟩

/-- The closure calls the bridge. -/
theorem holds_secretBridge
    (isInterface : Bool)
    (bytes : Bytes) :
    (secretPrepared isInterface bytes).Holds
      (.invoke .static ((secretBridge isInterface).reference maker)) := by
  refine .inr ⟨secretClosure isInterface, List.mem_singleton_self _, ?_⟩
  cases isInterface <;> decide

end PrivateHelper

open PrivateHelper in
/-- A closure in a class finds the bridge that it calls. -/
theorem classHelper_isLinked :
    ClassFile.ofBytes (secretFile false).toBytes = .ok (secretFile false) ∧
      ∃ (converted : ConvertedClass) (prepared : PreparedClass) (woven : ClassFile),
        convertClass .standard .core (.logging answers) .empty (secretFile false).toBytes [] =
            .ok converted asked ∧
          converted.bytes = woven.toBytes ∧ woven.thisName = .ok prepared.name ∧
          prepared.Holds (.invoke .static ((secretBridge false).reference prepared.name)) ∧
          woven.Resolves .static ((secretBridge false).reference prepared.name) := by
  obtain ⟨bytes, converted, prepares, isConverted, hasClosures⟩ :=
    exists_convertClass_secretFile false
  refine ⟨ofBytes_secretFile false, converted, ?_⟩
  rcases isLinkedAs_of_convertClass_eq_ok (ofBytes_secretFile false) isConverted with
    ⟨_, noClosures⟩ | ⟨prepared, woven, _, isPrepared, flags, isLinked⟩
  · exact absurd noClosures hasClosures
  · obtain ⟨rfl, _⟩ := EStateM.Result.ok.inj (prepares.symm.trans isPrepared)
    have isClass : woven.flags.contains ClassFlags.accInterface = false := by
      rw [flags]
      decide
    exact ⟨_, woven, isConverted, isLinked.bytes, isLinked.name, holds_secretBridge false bytes,
      (isLinked.bridgeCalls _ (List.mem_singleton_self _)).mpr isClass⟩

open PrivateHelper in
/-- A closure in an interface does not find the bridge that it calls. -/
theorem interfaceHelper_isNotLinked :
    ClassFile.ofBytes (secretFile true).toBytes = .ok (secretFile true) ∧
      ∃ (converted : ConvertedClass) (prepared : PreparedClass) (woven : ClassFile),
        convertClass .standard .core (.logging answers) .empty (secretFile true).toBytes [] =
            .ok converted asked ∧
          prepareClass .standard .core (.logging answers) (secretFile true).toBytes [] =
            .ok prepared asked ∧
          converted.bytes = woven.toBytes ∧ woven.flags.contains ClassFlags.accInterface = true ∧
          prepared.Holds (.invoke .static ((secretBridge true).reference prepared.name)) ∧
          ¬ woven.Resolves .static ((secretBridge true).reference prepared.name) := by
  obtain ⟨bytes, converted, prepares, isConverted, hasClosures⟩ :=
    exists_convertClass_secretFile true
  obtain ⟨prepared, isPrepared, sameBytes, _⟩ := exists_complete_of_convertClass_eq_ok isConverted
  obtain ⟨rfl, _⟩ := EStateM.Result.ok.inj (prepares.symm.trans isPrepared)
  rcases exists_written_of_prepareClass_eq_ok (ofBytes_secretFile true) prepares with
    ⟨_, isUnchanged⟩ | ⟨_, _, _, _, woven, _, _, arePlanned, _, _, areRewritten, isInstalled,
      isSynced, areBytes⟩
  · cases isUnchanged.bridges
  · have flags : woven.flags = ownFlags true :=
      (ClassFile.isWrittenAs_of_convert (ofBytes_secretFile true) arePlanned areRewritten
        isInstalled isSynced).flags
    have isInterface : woven.flags.contains ClassFlags.accInterface = true := by
      rw [flags]
      decide
    refine ⟨ofBytes_secretFile true, converted, _, woven, isConverted, prepares,
      sameBytes.trans areBytes, isInterface, holds_secretBridge true bytes, fun resolves => ?_⟩
    cases resolves.interface.trans isInterface

end ClosureConversion
