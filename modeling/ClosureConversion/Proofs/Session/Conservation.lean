import ClosureConversion.Proofs.ClassFile.Sizes
import ClosureConversion.Proofs.Session.SelfConsistency
import ClosureConversion.Proofs.Session.Writing

/-!
Contract: what the conversion of a class file leaves as it is.

Owns: class files that keep all that another one has, and that converting a class keeps it, in what
is written and, as far as its sizes fit, in what is read back.

Does not own: what is written in the place of code that makes closures.
-/

namespace ClosureConversion

/-! ## Class files -/

/-- The method is a bridge of a class file with such a pool: a static method with a name of its
own kind and nothing but code. -/
structure Member.IsBridge (pool : ConstantPool) (method : Member .method) : Prop where
  flags : method.flags = BridgeTable.flags
  named : ∃ number, pool.text method.name = .ok (bridgeName number).text
  attributes : ∃ code : Attribute, method.attributes = [code] ∧ code.holds pool CodeAttribute

namespace ClassFile

/-- Every attribute of the class has a name at a position of the pool. -/
def NamesAttributes (file : ClassFile) : Prop :=
  ∀ entry ∈ file.attributes, entry.name.toNat < file.pool.constants.endOffset

/-- A class file keeps all that another one has: its constants come first, its methods too, and of
the attributes of the class only the table of bootstrap methods changes, just when there are
more of them. What follows the methods are bridges. -/
structure KeepsAll {Memory : Type} (settings : Settings) (hierarchy : Hierarchy)
    (convention : Convention Memory) (memory : Memory) (before after : ClassFile) : Prop where
  version : after.version = settings.versionFor before.version
  constants : before.pool.constants.toList <+: after.pool.constants.toList
  denotes : ∀ index constant, before.pool.get index = .ok constant →
    after.pool.get index = .ok constant
  flags : after.flags = before.flags
  this : after.this = before.this
  super : after.super = before.super
  interfaces : after.interfaces = before.interfaces
  fields : after.fields = before.fields
  methods : ∃ kept bridges later, after.methods = kept ++ bridges ∧
    KeepsMethods settings hierarchy convention before after.pool memory before.methods kept later ∧
    ∀ bridge ∈ bridges, bridge.IsBridge after.pool
  bootstraps : before.pool.bootstraps <+: after.pool.bootstraps
  sameAttributes : after.pool.bootstraps = before.pool.bootstraps →
    after.attributes = before.attributes
  otherAttributes : after.pool.bootstraps ≠ before.pool.bootstraps →
    Attribute.AreReplaced before.pool after.pool BootstrapTable before.attributes after.attributes

end ClassFile

/-! ## What is written and what is read back -/

namespace ClassFile

variable {Memory : Type} {settings : Settings} {hierarchy : Hierarchy}
  {convention : Convention Memory} {memory : Memory}

/-- What a class file keeps is kept with any other pool of the same constants and the same
bootstrap methods. -/
theorem KeepsAll.withPool
    {before after : ClassFile}
    (keeps : KeepsAll settings hierarchy convention memory before after)
    {pool : ConstantPool}
    (sameConstants : after.pool.constants = pool.constants)
    (sameBootstraps : after.pool.bootstraps = pool.bootstraps) :
    KeepsAll settings hierarchy convention memory before { after with pool } where
  version := keeps.version
  constants := sameConstants ▸ keeps.constants
  denotes index constant stands := by
    have later := keeps.denotes index constant stands
    unfold ConstantPool.get at later ⊢
    rw [← sameConstants]
    exact later
  flags := keeps.flags
  this := keeps.this
  super := keeps.super
  interfaces := keeps.interfaces
  fields := keeps.fields
  methods := by
    obtain ⟨kept, bridges, later, split, areKept, areBridges⟩ := keeps.methods
    refine ⟨kept, bridges, later, split, areKept.congr sameConstants, fun bridge member => ?_⟩
    obtain ⟨flags, ⟨number, named⟩, code, isCode, holds⟩ := areBridges bridge member
    refine ⟨flags, ⟨number, ?_⟩, code, isCode, ?_⟩
    · exact (ConstantPool.text_congr sameConstants _).symm.trans named
    · exact (Attribute.holds_congr sameConstants code).symm.trans holds
  bootstraps := sameBootstraps ▸ keeps.bootstraps
  sameAttributes same := keeps.sameAttributes (sameBootstraps.trans same)
  otherAttributes different :=
    (keeps.otherAttributes fun same => different (sameBootstraps.symm.trans same)).congr
      sameConstants

/-- What is written for a class file keeps all that it had, if the bridges have names of their
kind. -/
theorem IsWrittenAs.keepsAll
    {file written : ClassFile}
    {planned : List PlannedMethod}
    {made : Hierarchy}
    {table : BridgeTable}
    {after : Memory}
    (isWritten : file.IsWrittenAs settings hierarchy convention planned made table memory after
      written)
    (consistent : file.pool.IsConsistent)
    (named : file.NamesAttributes)
    (bridgesNamed : ∀ bridge ∈ table.bridges, ∃ number, bridge.name = bridgeName number) :
    KeepsAll settings hierarchy convention memory file written where
  version := isWritten.version
  constants := by
    obtain ⟨placed, isLater, _⟩ := isWritten.grown.toList_eq
    exact ⟨placed, isLater.symm⟩
  denotes index constant stands :=
    isWritten.grown.get_eq_ok consistent isWritten.consistent stands
  flags := isWritten.flags
  this := isWritten.this
  super := isWritten.super
  interfaces := isWritten.interfaces
  fields := isWritten.fields
  methods := by
    obtain ⟨kept, bridges, methods, keeps, _, areBridges⟩ := isWritten.methods
    refine ⟨kept, bridges, after, methods, keeps, fun member isMember => ?_⟩
    obtain ⟨bridge, isBridge, isOf⟩ := exists_mem_of_forall₂ areBridges isMember
    obtain ⟨number, isName⟩ := bridgesNamed bridge isBridge
    obtain ⟨code, isSole, contents, _, carries⟩ := isOf.attributes
    refine ⟨isOf.declares.flags, ⟨number, ?_⟩, code, isSole, Attribute.holds_iff.mpr carries.named⟩
    rw [isOf.declares.name, ← isName]
    rfl
  bootstraps := isWritten.grown.bootstraps
  sameAttributes same := by
    rcases isWritten.attributes with ⟨_, isSame⟩ | ⟨isNew, _⟩
    · exact isSame
    · exact absurd same isNew
  otherAttributes different := by
    have sameNames : ∀ entry ∈ file.attributes,
        entry.holds written.pool BootstrapTable = entry.holds file.pool BootstrapTable :=
      fun entry member => Attribute.holds_of_grownFrom isWritten.grown consistent
        isWritten.consistent (.inl (named entry member))
    rcases isWritten.attributes with ⟨isOld, _⟩ | ⟨_, entry, carries, isReplaced⟩
    · exact absurd isOld different
    · rw [isReplaced, Attribute.replace_congr sameNames]
      exact Attribute.areReplaced_replace (Attribute.holds_iff.mpr carries.named)

/-- What is written for a class file that was read has its constants one after another. -/
theorem IsWrittenAs.isContiguous
    {input : Bytes}
    {file written : ClassFile}
    {planned : List PlannedMethod}
    {made : Hierarchy}
    {table : BridgeTable}
    {after : Memory}
    (isWritten : file.IsWrittenAs settings hierarchy convention planned made table memory after
      written)
    (isRead : ofBytes input = .ok file) :
    written.pool.constants.IsContiguous := by
  obtain ⟨contiguous, _⟩ := pool_of_ofBytes_eq_ok isRead
  obtain ⟨added, isAdded, _⟩ := isWritten.grown.appended
  rw [isAdded]
  exact ConstantTable.isContiguous_pushAll contiguous added

/-- What is written for a class file that was read, and fits, has the bootstrap methods that its
attributes hold, if the attributes that were read have names. -/
theorem IsWrittenAs.hasOwnBootstraps
    {input : Bytes}
    {file written : ClassFile}
    {planned : List PlannedMethod}
    {made : Hierarchy}
    {table : BridgeTable}
    {after : Memory}
    (isWritten : file.IsWrittenAs settings hierarchy convention planned made table memory after
      written)
    (isRead : ofBytes input = .ok file)
    (named : file.NamesAttributes)
    (fits : written.Fits) :
    written.HasOwnBootstraps := by
  obtain ⟨_, consistent, table?, isTable, isPool⟩ := pool_of_ofBytes_eq_ok isRead
  rcases isWritten.attributes with ⟨same, sameAttributes⟩ | ⟨_, entry, carries, isReplaced⟩
  · refine ⟨table?, ?_, ?_⟩
    · rw [← isTable, sameAttributes]
      refine Attribute.find?_congr fun entry member => ?_
      calc entry.holds (ConstantPool.ofTable written.pool.constants []) BootstrapTable
          = entry.holds written.pool BootstrapTable := Attribute.holds_congr rfl entry
        _ = entry.holds file.pool BootstrapTable :=
            Attribute.holds_of_grownFrom isWritten.grown consistent isWritten.consistent
              (.inl (named entry member))
        _ = entry.holds (ConstantPool.ofTable file.pool.constants []) BootstrapTable :=
            Attribute.holds_congr (by rw [isPool]; rfl) entry
    · rw [same, isPool]
      rfl
  · exact hasOwnBootstraps_of_replace carries isReplaced fits

/-- What is written for a class file that was read is read back if its sizes fit. -/
theorem IsWrittenAs.ofBytes_toBytes
    {input : Bytes}
    {file written : ClassFile}
    {planned : List PlannedMethod}
    {made : Hierarchy}
    {table : BridgeTable}
    {after : Memory}
    (isWritten : file.IsWrittenAs settings hierarchy convention planned made table memory after
      written)
    (isRead : ofBytes input = .ok file)
    (named : file.NamesAttributes)
    (fits : written.Fits) :
    ofBytes written.toBytes = .ok { written with
      pool := .ofTable written.pool.constants written.pool.bootstraps } := by
  obtain ⟨found?, isFound, areBootstraps⟩ := isWritten.hasOwnBootstraps isRead named fits
  have result := ClassFile.ofBytes_toBytes (isWritten.isContiguous isRead) fits isFound
  rw [areBootstraps] at result
  exact result

end ClassFile

/-! ## Conservation -/

/-- The class file that a planned class is converted to. -/
theorem exists_written_of_convertPlanned_eq_ok
    {settings : Settings}
    {hierarchy : Hierarchy}
    {cache : ClosureCache}
    {file : ClassFile}
    {name : BinaryName}
    {owner : ClassDeclaration}
    {planned : List PlannedMethod}
    {converted : ConvertedClass}
    (isConverted : convertPlanned settings hierarchy cache file name owner planned =
      .ok converted) :
    ∃ made rewritten installed written,
      ClosureClasses.ofPlans hierarchy owner (settings.versionFor file.version) planned =
        .ok made ∧
      planned.foldlM (rewriteMember made.hierarchy)
        { file with version := settings.versionFor file.version } = .ok rewritten ∧
      made.bridges.install made.hierarchy rewritten = .ok installed ∧
      installed.syncBootstraps = .ok written ∧ converted.bytes = written.toBytes := by
  unfold convertPlanned at isConverted
  obtain ⟨made, isMade, isConverted⟩ := bind_eq_ok.mp isConverted
  obtain ⟨rewritten, areRewritten, isConverted⟩ := bind_eq_ok.mp isConverted
  obtain ⟨installed, isInstalled, isConverted⟩ := bind_eq_ok.mp isConverted
  obtain ⟨bytes, areBytes, isConverted⟩ := bind_eq_ok.mp isConverted
  obtain ⟨closures, _, equal⟩ := bind_eq_ok.mp isConverted
  cases equal
  obtain ⟨written, isSynced, rfl⟩ := map_eq_ok.mp (mapError_eq_ok.mp areBytes)
  exact ⟨made, rewritten, installed, written, isMade, areRewritten, mapError_eq_ok.mp isInstalled,
    isSynced, rfl⟩

/-- **Conservation**: a class stays as it is, or what is written for it keeps all that its class
file has: the constants, the class itself, its fields, the methods that call no factory, the
others up to their code, and the attributes of the class up to the bootstrap methods, which
change just when there are more of them. As far as the sizes in what is written fit, this is
what is read back. -/
theorem keepsAll_of_convertClass_eq_ok
    {Memory : Type}
    {settings : Settings}
    {hierarchy : Hierarchy}
    {convention : Convention Memory}
    {cache : ClosureCache}
    {input : Bytes}
    {file : ClassFile}
    (isRead : ClassFile.ofBytes input = .ok file)
    (named : file.NamesAttributes)
    {before after : Memory}
    {converted : ConvertedClass}
    (isConverted : convertClass settings hierarchy convention cache input before =
      .ok converted after) :
    (converted.bytes = input ∧ converted.closures = []) ∨
      ∃ owner written, ClassDeclaration.ofClassFile file = .ok owner ∧
        converted.bytes = written.toBytes ∧
        file.KeepsAll settings (hierarchy.declare owner) convention before written ∧
        (written.Fits → ∃ output, ClassFile.ofBytes converted.bytes = .ok output ∧
          file.KeepsAll settings (hierarchy.declare owner) convention before output) := by
  unfold convertClass at isConverted
  obtain ⟨other, _, read, isConverted⟩ := run_bind_eq_ok.mp isConverted
  obtain ⟨isOther, rfl⟩ := run_ofExcept_eq_ok.mp read
  cases (mapError_eq_ok.mp isOther).symm.trans isRead
  obtain ⟨name, _, found, isConverted⟩ := run_bind_eq_ok.mp isConverted
  obtain ⟨_, rfl⟩ := run_ofExcept_eq_ok.mp found
  split at isConverted
  · unfold convertFile at isConverted
    obtain ⟨owner, _, found, isConverted⟩ := run_bind_eq_ok.mp (withinPlace_eq_ok.mp isConverted)
    obtain ⟨isOwner, rfl⟩ := run_ofExcept_eq_ok.mp found
    obtain ⟨planned, between, arePlanned, isConverted⟩ := run_bind_eq_ok.mp isConverted
    split at isConverted
    · obtain ⟨rfl, _⟩ := run_pure_eq_ok.mp isConverted
      exact .inl ⟨rfl, rfl⟩
    · obtain ⟨isConverted, _⟩ := run_ofExcept_eq_ok.mp isConverted
      obtain ⟨made, rewritten, installed, written, isMade, areRewritten, isInstalled, isSynced,
        areBytes⟩ := exists_written_of_convertPlanned_eq_ok isConverted
      have isWritten := ClassFile.isWrittenAs_of_convert isRead arePlanned areRewritten isInstalled
        isSynced
      obtain ⟨_, consistent, _⟩ := ClassFile.pool_of_ofBytes_eq_ok isRead
      have keeps := isWritten.keepsAll consistent named (isBuiltAs_of_ofPlans_eq_ok isMade).1.named
      refine .inr ⟨owner, written, mapError_eq_ok.mp isOwner, areBytes, keeps, fun fits => ?_⟩
      rw [areBytes]
      exact ⟨_, isWritten.ofBytes_toBytes isRead named fits, keeps.withPool rfl rfl⟩
  · obtain ⟨rfl, _⟩ := run_pure_eq_ok.mp isConverted
    exact .inl ⟨rfl, rfl⟩

open RebuiltFactory OwnFactory in
/-- The class that declares a factory and calls it keeps all that it has. -/
theorem ownFactory_isConserved :
    ClassFile.ofBytes makerFile.toBytes = .ok makerFile ∧ makerFile.NamesAttributes ∧
      ∃ converted written, convertClass .standard .core (.logging (script true)) .empty
          makerFile.toBytes [] = .ok converted [(question, .ok true)] ∧
        converted.bytes = written.toBytes ∧
        makerFile.KeepsAll .standard (Hierarchy.core.declare makerClass) (.logging (script true)) []
          written := by
  have named : makerFile.NamesAttributes := fun entry member => nomatch member
  obtain ⟨bytes, prepares⟩ := exists_prepareClass_makerFile
  obtain ⟨converted, isConverted, hasClosures⟩ :=
    exists_convertClass_of_prepares prepares rfl exists_toBytes_firstClosure
  refine ⟨ofBytes_makerFile, named, converted, ?_⟩
  rcases keepsAll_of_convertClass_eq_ok ofBytes_makerFile named isConverted with
    ⟨_, noClosures⟩ | ⟨owner, written, isOwner, areBytes, keeps, _⟩
  · exact absurd noClosures hasClosures
  · cases isOwner.symm.trans ofClassFile_makerFile
    exact ⟨written, isConverted, areBytes, keeps⟩

end ClosureConversion
