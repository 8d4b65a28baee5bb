import ClosureConversion.Proofs.ClassFile.Declaring
import ClosureConversion.Proofs.Closure.Naming
import ClosureConversion.Proofs.Code.Fitting

/-!
Contract: converting a class is preparing it and then completing it from the classes of closures
that there are.

Owns:
- prepared classes, which lack nothing but the bytes of the classes of their closures, and what
  they are made from;
- completing a prepared class: classes that were made before are taken as they are, all others are
  built;
- what a session does with a class, in terms of these.

Does not own: what the convention of a session is asked while a class is prepared.
-/

namespace ClosureConversion

/-- A class whose conversion lacks nothing but the bytes of the classes of its closures. -/
structure PreparedClass where
  name : BinaryName
  bytes : Bytes
  /-- The methods that make the closures. -/
  planned : List PlannedMethod
  /-- The methods that are added, by which the closures use private members. -/
  bridges : List Bridge
  closures : List ClassDefinition
  /-- The classes that are known, those of the closures among them. -/
  hierarchy : Hierarchy

namespace PreparedClass

/-- A class without closures stays as it is. -/
def unchanged (name : BinaryName) (input : Bytes) (hierarchy : Hierarchy) : PreparedClass where
  name := name
  bytes := input
  planned := []
  bridges := []
  closures := []
  hierarchy := hierarchy

/-- Nothing was made for the class. -/
structure IsUnchanged (prepared : PreparedClass) : Prop where
  planned : prepared.planned = []
  bridges : prepared.bridges = []
  closures : prepared.closures = []

/-- The bridges and the classes of closures were made for the class. -/
structure IsMadeWith (prepared : PreparedClass) (made : ClosureClasses) : Prop where
  bridges : prepared.bridges = made.bridges.bridges
  closures : prepared.closures = made.classes
  hierarchy : prepared.hierarchy = made.hierarchy

/-- The bytes of the class of a closure. -/
def build (prepared : PreparedClass) (definition : ClassDefinition) : Except ClosureError Bytes :=
  ((Place.ofClass definition.name).locateBytecode
    (definition.toBytes prepared.hierarchy)).mapError (·.within (Place.ofClass prepared.name))

/-- The class of a closure with its bytes, which are those that were made before if there are
any. -/
def closureEntry (prepared : PreparedClass) (cache : ClosureCache) (definition : ClassDefinition) :
    Except ClosureError (BinaryName × Bytes) :=
  match cache.get? definition.name with
  | some bytes => .ok (definition.name, bytes)
  | none => do
      let bytes ← prepared.build definition
      return (definition.name, bytes)

/-- The class with the classes of its closures. -/
def complete (prepared : PreparedClass) (cache : ClosureCache) :
    Except ClosureError ConvertedClass := do
  let closures ← prepared.closures.mapM (prepared.closureEntry cache)
  return { name := prepared.name, bytes := prepared.bytes, closures }

/-- What is made of a prepared class, and the classes of closures that are kept then. -/
def finish (prepared : PreparedClass) (cache : ClosureCache) :
    Except ClosureError (ConvertedClass × ClosureCache) := do
  let converted ← prepared.complete cache
  let (kept, cache) := cache.insertAll converted.closures
  return ({ converted with closures := kept }, cache)

end PreparedClass

/-! ## Preparing -/

/-- Prepares a class whose methods are planned. -/
def preparePlanned (settings : Settings) (hierarchy : Hierarchy) (file : ClassFile)
    (name : BinaryName) (owner : ClassDeclaration) (planned : List PlannedMethod) :
    Except ClosureError PreparedClass := do
  let place := Place.ofClass name
  let version := settings.versionFor file.version
  let made ← ClosureClasses.ofPlans hierarchy owner version planned
  let file ← planned.foldlM (rewriteMember made.hierarchy) { file with version }
  let file ← place.locateBytecode (made.bridges.install made.hierarchy file)
  let bytes ← place.locateBytecode file.finish
  return {
    name
    bytes
    planned
    bridges := made.bridges.bridges
    closures := made.classes
    hierarchy := made.hierarchy }

/-- Prepares a class file. -/
def prepareFile {Memory : Type} (settings : Settings) (hierarchy : Hierarchy)
    (convention : Convention Memory) (file : ClassFile) (name : BinaryName) (input : Bytes) :
    Deciding Memory PreparedClass := do
  let owner ← MonadExcept.ofExcept
    ((Place.ofClass name).locateBytecode (ClassDeclaration.ofClassFile file))
  let hierarchy := hierarchy.declare owner
  let planned ← planMembers settings hierarchy convention file 0 0 file.methods
  if planned.isEmpty then return .unchanged name input hierarchy
  MonadExcept.ofExcept (preparePlanned settings hierarchy file name owner planned)

/-- Prepares a class, unless it is filtered out. -/
def prepareClass {Memory : Type} (settings : Settings) (hierarchy : Hierarchy)
    (convention : Convention Memory) (input : Bytes) : Deciding Memory PreparedClass := do
  let file ← MonadExcept.ofExcept (Place.unknown.locateBytecode (ClassFile.ofBytes input))
  let name ← MonadExcept.ofExcept (Place.unknown.locateBytecode file.thisName)
  if settings.filter.accepts name then
    withinPlace (Place.ofClass name) (prepareFile settings hierarchy convention file name input)
  else
    return .unchanged name input hierarchy

/-- A prepared class stays as it is, or has the classes of closures that are made for its planned
methods. -/
theorem prepareClass_eq_ok
    {Memory : Type}
    {settings : Settings}
    {hierarchy : Hierarchy}
    {convention : Convention Memory}
    {input : Bytes}
    {prepared : PreparedClass}
    {before after : Memory}
    (prepares : prepareClass settings hierarchy convention input before = .ok prepared after) :
    ∃ file, ClassFile.ofBytes input = .ok file ∧ file.thisName = .ok prepared.name ∧
      (settings.filter.accepts prepared.name = false ∧ prepared.IsUnchanged ∨
        ∃ owner, ClassDeclaration.ofClassFile file = .ok owner ∧
          planMembers settings (hierarchy.declare owner) convention file 0 0 file.methods before =
            .ok prepared.planned after ∧
          (prepared.IsUnchanged ∨
            ∃ made, ClosureClasses.ofPlans (hierarchy.declare owner) owner
                (settings.versionFor file.version) prepared.planned = .ok made ∧
              prepared.IsMadeWith made)) := by
  unfold prepareClass at prepares
  obtain ⟨file, _, read, prepares⟩ := run_bind_eq_ok.mp prepares
  obtain ⟨isRead, rfl⟩ := run_ofExcept_eq_ok.mp read
  obtain ⟨name, _, named, prepares⟩ := run_bind_eq_ok.mp prepares
  obtain ⟨isName, rfl⟩ := run_ofExcept_eq_ok.mp named
  replace isName := mapError_eq_ok.mp isName
  refine ⟨file, mapError_eq_ok.mp isRead, ?_⟩
  split at prepares
  · obtain ⟨owner, _, found, prepares⟩ := run_bind_eq_ok.mp (withinPlace_eq_ok.mp prepares)
    obtain ⟨isOwner, rfl⟩ := run_ofExcept_eq_ok.mp found
    replace isOwner := mapError_eq_ok.mp isOwner
    obtain ⟨planned, between, arePlanned, prepares⟩ := run_bind_eq_ok.mp prepares
    split at prepares
    · rename_i isEmpty
      cases List.isEmpty_iff.mp isEmpty
      cases prepares
      exact ⟨isName, .inr ⟨owner, isOwner, arePlanned, .inl ⟨rfl, rfl, rfl⟩⟩⟩
    · obtain ⟨isPrepared, rfl⟩ := run_ofExcept_eq_ok.mp prepares
      obtain ⟨made, isMade, isPrepared⟩ := bind_eq_ok.mp isPrepared
      obtain ⟨rewritten, _, isPrepared⟩ := bind_eq_ok.mp isPrepared
      obtain ⟨installed, _, isPrepared⟩ := bind_eq_ok.mp isPrepared
      obtain ⟨bytes, _, isPrepared⟩ := bind_eq_ok.mp isPrepared
      cases isPrepared
      exact ⟨isName, .inr ⟨owner, isOwner, arePlanned,
        .inr ⟨made, isMade, rfl, rfl, rfl⟩⟩⟩
  · rename_i isRejected
    cases prepares
    exact ⟨isName, .inl ⟨Bool.not_eq_true _ ▸ isRejected, rfl, rfl, rfl⟩⟩

/-- A prepared class stays as it is, or its class file is written with what is planned and made for
it. -/
theorem exists_written_of_prepareClass_eq_ok
    {Memory : Type}
    {settings : Settings}
    {hierarchy : Hierarchy}
    {convention : Convention Memory}
    {input : Bytes}
    {file : ClassFile}
    {prepared : PreparedClass}
    {before after : Memory}
    (isRead : ClassFile.ofBytes input = .ok file)
    (prepares : prepareClass settings hierarchy convention input before = .ok prepared after) :
    (prepared.bytes = input ∧ prepared.IsUnchanged) ∨
      ∃ owner made rewritten installed written,
        ClassDeclaration.ofClassFile file = .ok owner ∧ prepared.name = owner.name ∧
        planMembers settings (hierarchy.declare owner) convention file 0 0 file.methods before =
          .ok prepared.planned after ∧
        ClosureClasses.ofPlans (hierarchy.declare owner) owner (settings.versionFor file.version)
          prepared.planned = .ok made ∧
        prepared.IsMadeWith made ∧
        prepared.planned.foldlM (rewriteMember made.hierarchy)
          { file with version := settings.versionFor file.version } = .ok rewritten ∧
        made.bridges.install made.hierarchy rewritten = .ok installed ∧
        installed.syncBootstraps = .ok written ∧ prepared.bytes = written.toBytes := by
  unfold prepareClass at prepares
  obtain ⟨other, _, read, prepares⟩ := run_bind_eq_ok.mp prepares
  obtain ⟨isOther, rfl⟩ := run_ofExcept_eq_ok.mp read
  cases (mapError_eq_ok.mp isOther).symm.trans isRead
  obtain ⟨name, _, named, prepares⟩ := run_bind_eq_ok.mp prepares
  obtain ⟨isName, rfl⟩ := run_ofExcept_eq_ok.mp named
  split at prepares
  · obtain ⟨owner, _, found, prepares⟩ := run_bind_eq_ok.mp (withinPlace_eq_ok.mp prepares)
    obtain ⟨isOwner, rfl⟩ := run_ofExcept_eq_ok.mp found
    obtain ⟨planned, between, arePlanned, prepares⟩ := run_bind_eq_ok.mp prepares
    split at prepares
    · cases prepares
      exact .inl ⟨rfl, rfl, rfl, rfl⟩
    · obtain ⟨isPrepared, rfl⟩ := run_ofExcept_eq_ok.mp prepares
      obtain ⟨made, isMade, isPrepared⟩ := bind_eq_ok.mp isPrepared
      obtain ⟨rewritten, areRewritten, isPrepared⟩ := bind_eq_ok.mp isPrepared
      obtain ⟨installed, isInstalled, isPrepared⟩ := bind_eq_ok.mp isPrepared
      obtain ⟨bytes, areBytes, equal⟩ := bind_eq_ok.mp isPrepared
      cases equal
      obtain ⟨written, isSynced, rfl⟩ := map_eq_ok.mp (mapError_eq_ok.mp areBytes)
      replace isOwner := mapError_eq_ok.mp isOwner
      have sameName : name = owner.name := Except.ok.inj
        ((mapError_eq_ok.mp isName).symm.trans (thisName_of_ofClassFile_eq_ok isOwner))
      exact .inr ⟨owner, made, rewritten, installed, written, isOwner, sameName, arePlanned, isMade,
        ⟨rfl, rfl, rfl⟩, areRewritten, mapError_eq_ok.mp isInstalled, isSynced, rfl⟩
  · cases prepares
    exact .inl ⟨rfl, rfl, rfl, rfl⟩

/-- A class with no planned methods stays as it is. -/
theorem prepareClass_of_noPlans
    {Memory : Type}
    {settings : Settings}
    {hierarchy : Hierarchy}
    {convention : Convention Memory}
    {input : Bytes}
    {file : ClassFile}
    {owner : ClassDeclaration}
    {before after : Memory}
    (isRead : ClassFile.ofBytes input = .ok file)
    (isOwner : ClassDeclaration.ofClassFile file = .ok owner)
    (accepted : settings.filter.accepts owner.name = true)
    (noPlans : planMembers settings (hierarchy.declare owner) convention file 0 0 file.methods
      before = .ok [] after) :
    prepareClass settings hierarchy convention input before =
      .ok (.unchanged owner.name input (hierarchy.declare owner)) after := by
  have isName := thisName_of_ofClassFile_eq_ok isOwner
  unfold prepareClass
  refine run_bind_eq_ok.mpr ⟨file, before,
    run_ofExcept_eq_ok.mpr ⟨mapError_eq_ok.mpr isRead, rfl⟩, ?_⟩
  refine run_bind_eq_ok.mpr ⟨owner.name, before,
    run_ofExcept_eq_ok.mpr ⟨mapError_eq_ok.mpr isName, rfl⟩, ?_⟩
  rw [if_pos accepted, withinPlace_eq_ok]
  refine run_bind_eq_ok.mpr ⟨owner, before,
    run_ofExcept_eq_ok.mpr ⟨mapError_eq_ok.mpr isOwner, rfl⟩, ?_⟩
  exact run_bind_eq_ok.mpr ⟨[], after, noPlans, rfl⟩

/-- The classes of the closures of a prepared class have the names that were planned for them. -/
theorem map_name_of_prepareClass_eq_ok
    {Memory : Type}
    {settings : Settings}
    {hierarchy : Hierarchy}
    {convention : Convention Memory}
    {input : Bytes}
    {file : ClassFile}
    {owner : ClassDeclaration}
    {planned : List PlannedMethod}
    {prepared : PreparedClass}
    {before between after : Memory}
    (isRead : ClassFile.ofBytes input = .ok file)
    (isOwner : ClassDeclaration.ofClassFile file = .ok owner)
    (accepted : settings.filter.accepts owner.name = true)
    (arePlanned : planMembers settings (hierarchy.declare owner) convention file 0 0 file.methods
      before = .ok planned between)
    (prepares : prepareClass settings hierarchy convention input before = .ok prepared after) :
    prepared.closures.map ClassDefinition.name = (sitePlans planned).map SitePlan.className := by
  obtain ⟨other, isOther, isName, ⟨isRejected, _⟩ | ⟨declared, isDeclared, werePlanned, isMade⟩⟩ :=
    prepareClass_eq_ok prepares
  all_goals
    cases isRead.symm.trans isOther
    have isNamed := thisName_of_ofClassFile_eq_ok isOwner
  · rw [← Except.ok.inj (isNamed.symm.trans isName), accepted] at isRejected
    cases isRejected
  · cases isOwner.symm.trans isDeclared
    obtain ⟨samePlans, _⟩ := EStateM.Result.ok.inj (arePlanned.symm.trans werePlanned)
    subst samePlans
    rcases isMade with isUnchanged | ⟨made, isMade, isMadeWith⟩
    · rw [isUnchanged.closures, isUnchanged.planned]
      rfl
    · rw [isMadeWith.closures, map_name_of_ofPlans_eq_ok isMade]

/-- The classes of the closures of a prepared class have the names of its sites, no two of them the
same. -/
theorem siteNames_of_prepareClass_eq_ok
    {Memory : Type}
    {settings : Settings}
    {hierarchy : Hierarchy}
    {convention : Convention Memory}
    {input : Bytes}
    {prepared : PreparedClass}
    {before after : Memory}
    (prepares : prepareClass settings hierarchy convention input before = .ok prepared after) :
    (prepared.closures.map ClassDefinition.name).Nodup ∧
      ∀ definition ∈ prepared.closures, ∃ entry ∈ sitePlans prepared.planned,
        settings.closureName prepared.name entry.site.target entry.site.line entry.site.id =
          .ok definition.name := by
  obtain ⟨file, _, isName, ⟨_, isUnchanged⟩ | ⟨owner, isOwner, arePlanned,
    isUnchanged | ⟨made, isMade, isMadeWith⟩⟩⟩ := prepareClass_eq_ok prepares
  · rw [isUnchanged.closures]
    exact ⟨.nil, fun _ member => absurd member List.not_mem_nil⟩
  · rw [isUnchanged.closures]
    exact ⟨.nil, fun _ member => absurd member List.not_mem_nil⟩
  · have sameName := Except.ok.inj (isName.symm.trans (thisName_of_ofClassFile_eq_ok isOwner))
    obtain ⟨distinct, named⟩ := nodup_className_of_planMembers_eq_ok isOwner arePlanned
    have names := map_name_of_ofPlans_eq_ok isMade
    rw [isMadeWith.closures, names, sameName]
    refine ⟨distinct, fun definition member => ?_⟩
    obtain ⟨entry, isEntry, isName⟩ := List.mem_map.mp (names ▸ List.mem_map_of_mem member)
    exact ⟨entry, isEntry, isName ▸ named entry isEntry⟩

/-- The classes of the closures of a prepared class have names that are made of its own, no two of
them the same. -/
theorem nodup_name_of_prepareClass_eq_ok
    {Memory : Type}
    {settings : Settings}
    {hierarchy : Hierarchy}
    {convention : Convention Memory}
    {input : Bytes}
    {prepared : PreparedClass}
    {before after : Memory}
    (prepares : prepareClass settings hierarchy convention input before = .ok prepared after) :
    (prepared.closures.map ClassDefinition.name).Nodup ∧
      ∀ definition ∈ prepared.closures, ∃ target line number,
        settings.closureName prepared.name target line number = .ok definition.name := by
  obtain ⟨distinct, named⟩ := siteNames_of_prepareClass_eq_ok prepares
  refine ⟨distinct, fun definition member => ?_⟩
  obtain ⟨entry, _, isName⟩ := named definition member
  exact ⟨_, _, _, isName⟩

/-! ## Plain methods -/

/-- Methods that stay plain are rewritten one after another if the pool has room for them. -/
theorem exists_foldlM_rewriteMember
    {hierarchy : Hierarchy}
    {room : Nat}
    {planned : List PlannedMethod}
    (staysPlain : ∀ entry ∈ planned, ∃ rewritten analysis,
      entry.method.rewrite entry.plan entry.place = .ok rewritten ∧
        rewritten.IsPlain hierarchy analysis ∧ rewritten.room ≤ room)
    (file : ClassFile)
    (enough : file.pool.constants.endOffset + (room + 1) * planned.length ≤
      ConstantPool.positionLimit) :
    ∃ result, planned.foldlM (rewriteMember hierarchy) file = .ok result ∧
      result.pool.constants.endOffset ≤
        file.pool.constants.endOffset + (room + 1) * planned.length := by
  induction planned generalizing file with
  | nil => exact ⟨file, rfl, Nat.le_refl _⟩
  | cons entry planned inductionHypothesis =>
      obtain ⟨rewritten, analysis, isRewritten, isPlain, small⟩ :=
        staysPlain entry List.mem_cons_self
      have fits : FitsIn (room + 1) (do
          Attribute.ofContents (← rewritten.assemble hierarchy file.version)) :=
        ((isPlain.fitsIn_assemble file.version).mono small).bind Attribute.fitsIn_ofContents
      rw [List.length_cons, Nat.mul_succ] at enough ⊢
      obtain ⟨code, pool, assembled, poolEnd, _⟩ := fits file.pool (by omega)
      have stepped : rewriteMember hierarchy file entry = .ok { file with
          pool
          methods := file.methods.modify entry.index (·.replaceCode pool code) } := by
        unfold rewriteMember
        rw [isRewritten, ok_bind]
        dsimp only
        rw [assembled]
        rfl
      obtain ⟨result, isResult, resultEnd⟩ := inductionHypothesis
        (fun other member => staysPlain other (List.mem_cons_of_mem _ member))
        { file with pool, methods := file.methods.modify entry.index (·.replaceCode pool code) }
        (show pool.constants.endOffset + _ ≤ _ by omega)
      replace resultEnd : result.pool.constants.endOffset ≤
        pool.constants.endOffset + (room + 1) * planned.length := resultEnd
      refine ⟨result, ?_, by omega⟩
      rw [List.foldlM_cons, stepped]
      exact isResult

/-- A bridge that is plain is made a member wherever the pool has room for it. -/
theorem BridgeTable.fitsIn_member
    {table : BridgeTable}
    {hierarchy : Hierarchy}
    {bridge : Bridge}
    {analysis : FlowAnalysis}
    (isPlain : (bridge.whole table.owner).IsPlain hierarchy analysis)
    (version : Version) :
    FitsIn ((bridge.whole table.owner).room + 3) (table.member hierarchy version bridge) :=
  (isPlain.fitsIn_assemble version).bind fun code =>
    (Attribute.fitsIn_ofContents code).bind fun entry =>
      (ConstantPool.fitsIn_intern (.utf8 bridge.name.text)).bind fun name =>
        (ConstantPool.fitsIn_intern (.utf8 (bridge.use.type table.owner).descriptor)).bind
          fun descriptor => fitsIn_pure (Member.mk flags name descriptor [entry])

/-- Bridges that are plain are added to a class file whose pool has room for them. -/
theorem exists_install_eq_ok
    {table : BridgeTable}
    {hierarchy : Hierarchy}
    {room : Nat}
    (arePlain : ∀ bridge ∈ table.bridges, ∃ analysis,
      (bridge.whole table.owner).IsPlain hierarchy analysis ∧
        (bridge.whole table.owner).room ≤ room)
    (file : ClassFile)
    (enough : file.pool.constants.endOffset + (room + 3) * table.bridges.length ≤
      ConstantPool.positionLimit) :
    ∃ result, table.install hierarchy file = .ok result ∧
      result.pool.constants.endOffset ≤
        file.pool.constants.endOffset + (room + 3) * table.bridges.length := by
  have fits : ∀ bridge ∈ table.bridges,
      FitsIn (room + 3) (table.member hierarchy file.version bridge) := by
    intro bridge member
    obtain ⟨analysis, isPlain, small⟩ := arePlain bridge member
    exact (BridgeTable.fitsIn_member isPlain file.version).mono (Nat.add_le_add_right small 3)
  obtain ⟨members, pool, areMembers, poolEnd, _⟩ :=
    fitsIn_mapM table.bridges fits file.pool enough
  refine ⟨{ file with pool, methods := file.methods ++ members }, ?_, poolEnd⟩
  unfold BridgeTable.install
  rw [areMembers]

/-- A class is prepared if its methods stay plain, its bridges are plain, and its pool has room for
them. -/
theorem exists_prepareClass_eq_ok
    {Memory : Type}
    {settings : Settings}
    {hierarchy : Hierarchy}
    {convention : Convention Memory}
    {input : Bytes}
    {file : ClassFile}
    {owner : ClassDeclaration}
    {planned : List PlannedMethod}
    {made : ClosureClasses}
    {room : Nat}
    {before after : Memory}
    (isRead : ClassFile.ofBytes input = .ok file)
    (isOwner : ClassDeclaration.ofClassFile file = .ok owner)
    (accepted : settings.filter.accepts owner.name = true)
    (arePlanned : planMembers settings (hierarchy.declare owner) convention file 0 0 file.methods
      before = .ok planned after)
    (isNonempty : planned.isEmpty = false)
    (isMade : ClosureClasses.ofPlans (hierarchy.declare owner) owner
      (settings.versionFor file.version) planned = .ok made)
    (staysPlain : ∀ entry ∈ planned, ∃ rewritten analysis,
      entry.method.rewrite entry.plan entry.place = .ok rewritten ∧
        rewritten.IsPlain made.hierarchy analysis ∧ rewritten.room ≤ room)
    (plainBridges : ∀ bridge ∈ made.bridges.bridges, ∃ analysis,
      (bridge.whole made.bridges.owner).IsPlain made.hierarchy analysis ∧
        (bridge.whole made.bridges.owner).room ≤ room)
    (enough : file.pool.constants.endOffset + (room + 1) * planned.length +
      (room + 3) * made.bridges.bridges.length + 1 ≤ ConstantPool.positionLimit) :
    ∃ bytes, prepareClass settings hierarchy convention input before =
      .ok ⟨owner.name, bytes, planned, made.bridges.bridges, made.classes, made.hierarchy⟩
        after := by
  obtain ⟨rewritten, isRewritten, rewrittenEnd⟩ := exists_foldlM_rewriteMember staysPlain
    { file with version := settings.versionFor file.version }
    (show file.pool.constants.endOffset + _ ≤ _ by omega)
  replace rewrittenEnd : rewritten.pool.constants.endOffset ≤
    file.pool.constants.endOffset + (room + 1) * planned.length := rewrittenEnd
  obtain ⟨installed, isInstalled, installedEnd⟩ := exists_install_eq_ok plainBridges rewritten
    (by omega)
  obtain ⟨bytes, finished⟩ : ∃ bytes, installed.finish = .ok bytes :=
    ClassFile.exists_finish (by omega)
  refine ⟨bytes, ?_⟩
  unfold prepareClass
  refine run_bind_eq_ok.mpr ⟨file, before,
    run_ofExcept_eq_ok.mpr ⟨mapError_eq_ok.mpr isRead, rfl⟩, ?_⟩
  refine run_bind_eq_ok.mpr ⟨owner.name, before, run_ofExcept_eq_ok.mpr
    ⟨mapError_eq_ok.mpr (thisName_of_ofClassFile_eq_ok isOwner), rfl⟩, ?_⟩
  rw [if_pos accepted, withinPlace_eq_ok]
  refine run_bind_eq_ok.mpr ⟨owner, before,
    run_ofExcept_eq_ok.mpr ⟨mapError_eq_ok.mpr isOwner, rfl⟩, ?_⟩
  refine run_bind_eq_ok.mpr ⟨planned, after, arePlanned, ?_⟩
  rw [if_neg (ne_true_of_eq_false isNonempty)]
  refine run_ofExcept_eq_ok.mpr ⟨?_, rfl⟩
  refine bind_eq_ok.mpr ⟨made, isMade, bind_eq_ok.mpr ⟨rewritten, isRewritten, ?_⟩⟩
  exact bind_eq_ok.mpr ⟨_, mapError_eq_ok.mpr isInstalled, bind_eq_ok.mpr
    ⟨bytes, mapError_eq_ok.mpr finished, rfl⟩⟩

/-! ## Completing -/

theorem withinPlace_bind
    {Memory α β : Type}
    {place : Place}
    {first : Deciding Memory α}
    {next : α → Deciding Memory β} :
    withinPlace place (first >>= next) =
      withinPlace place first >>= fun value => withinPlace place (next value) := by
  funext memory
  rw [run_bind]
  unfold withinPlace
  rw [run_bind]
  cases first memory <;> rfl

theorem withinPlace_ofExcept
    {Memory α : Type}
    {place : Place}
    {result : Except ClosureError α} :
    (withinPlace place (MonadExcept.ofExcept result) : Deciding Memory α) =
      MonadExcept.ofExcept (result.mapError (·.within place)) := by
  cases result <;> rfl

/-- The classes of the closures of a prepared class are made or taken as they are. -/
theorem mapError_closureBytes
    (prepared : PreparedClass)
    (cache : ClosureCache)
    {made : ClosureClasses}
    (closures : made.classes = prepared.closures)
    (hierarchy : made.hierarchy = prepared.hierarchy) :
    (closureBytes cache made).mapError (·.within (Place.ofClass prepared.name)) =
      prepared.closures.mapM (prepared.closureEntry cache) := by
  unfold closureBytes
  rw [mapError_mapM, closures, hierarchy]
  congr 1
  funext definition
  unfold PreparedClass.closureEntry PreparedClass.build
  cases cache.get? definition.name with
  | some bytes => rfl
  | none =>
      dsimp only
      rw [mapError_bind]
      rfl

theorem mapError_convertPlanned
    {settings : Settings}
    {hierarchy : Hierarchy}
    {cache : ClosureCache}
    {file : ClassFile}
    {name : BinaryName}
    {owner : ClassDeclaration}
    {planned : List PlannedMethod} :
    (convertPlanned settings hierarchy cache file name owner planned).mapError
        (·.within (Place.ofClass name)) =
      ((preparePlanned settings hierarchy file name owner planned).mapError
        (·.within (Place.ofClass name)) >>= fun prepared => prepared.complete cache) := by
  unfold convertPlanned preparePlanned
  simp only [mapError_bind, bind_assoc]
  congr 1
  funext made
  congr 1
  funext rewritten
  congr 1
  funext installed
  congr 1
  funext bytes
  rw [mapError_closureBytes
    ⟨name, bytes, planned, made.bridges.bridges, made.classes, made.hierarchy⟩ cache rfl rfl]
  rfl

/-- Converting a class is preparing it and then completing it. -/
theorem convertClass_eq
    {Memory : Type}
    {settings : Settings}
    {hierarchy : Hierarchy}
    {convention : Convention Memory}
    {cache : ClosureCache}
    {input : Bytes} :
    convertClass settings hierarchy convention cache input =
      (prepareClass settings hierarchy convention input >>= fun prepared =>
        MonadExcept.ofExcept (prepared.complete cache)) := by
  unfold convertClass prepareClass
  simp only [bind_assoc]
  congr 1
  funext file
  congr 1
  funext name
  split
  · unfold convertFile prepareFile
    simp only [withinPlace_bind, bind_assoc]
    congr 1
    funext owner
    congr 1
    funext planned
    split
    · rfl
    · rw [withinPlace_ofExcept, withinPlace_ofExcept, mapError_convertPlanned]
      cases (preparePlanned settings (hierarchy.declare owner) file name owner planned) <;> rfl
  · rfl

/-- A class that is converted was prepared before. -/
theorem exists_complete_of_convertClass_eq_ok
    {Memory : Type}
    {settings : Settings}
    {hierarchy : Hierarchy}
    {convention : Convention Memory}
    {cache : ClosureCache}
    {input : Bytes}
    {before after : Memory}
    {converted : ConvertedClass}
    (isConverted : convertClass settings hierarchy convention cache input before =
      .ok converted after) :
    ∃ prepared, prepareClass settings hierarchy convention input before = .ok prepared after ∧
      converted.bytes = prepared.bytes ∧
      prepared.closures.mapM (prepared.closureEntry cache) = .ok converted.closures := by
  rw [convertClass_eq] at isConverted
  obtain ⟨prepared, _, prepares, isCompleted⟩ := run_bind_eq_ok.mp isConverted
  obtain ⟨completes, rfl⟩ := run_ofExcept_eq_ok.mp isCompleted
  obtain ⟨closures, areClosures, equal⟩ := bind_eq_ok.mp completes
  cases equal
  exact ⟨prepared, prepares, rfl, areClosures⟩

/-- What a session does with a class. -/
theorem Session.convert_eq
    {session : Session}
    {input : Bytes} :
    session.convert input =
      match prepareClass session.settings session.hierarchy session.settings.convention input
          session.decisions with
      | .error error decisions => (.error error, { session with decisions })
      | .ok prepared decisions =>
          match prepared.complete session.cache with
          | .error error => (.error error, { session with decisions })
          | .ok converted =>
              let (kept, cache) := session.cache.insertAll converted.closures
              (.ok { converted with closures := kept }, { session with decisions, cache }) := by
  unfold Session.convert
  dsimp only
  rw [convertClass_eq, run_bind]
  cases prepareClass session.settings session.hierarchy session.settings.convention input
      session.decisions with
  | error failure decisions => rfl
  | ok prepared decisions =>
      dsimp only
      cases prepared.complete session.cache <;> rfl

end ClosureConversion
