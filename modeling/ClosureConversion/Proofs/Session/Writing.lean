import ClosureConversion.Closure.Session
import ClosureConversion.Proofs.ClassFile.Declaring
import ClosureConversion.Proofs.Closure.Privacy

/-!
Contract: the class file that is written for a class whose methods are planned.

Owns:
- methods that differ in their code;
- the methods of a converted class file: those that call no factory stay, others have the code of
  their rewritten methods, and bridges follow;
- nothing else changes but the pool, which grows, and the attribute with the bootstrap methods.

Does not own: what is read back.
-/

namespace ClosureConversion

/-! ## Methods -/

namespace Member

/-- The method is another one in whose place it stands, up to its code. -/
structure DiffersInCode (pool later : ConstantPool) (before after : Member .method) : Prop where
  flags : after.flags = before.flags
  name : after.name = before.name
  descriptor : after.descriptor = before.descriptor
  attributes : Attribute.AreReplaced pool later CodeAttribute before.attributes after.attributes

end Member

/-- The methods of a class file before and after its conversion, with what the convention
remembers. Methods without code and methods that call no factory stay as they are, any other
method differs in its code; the pool is the one after the conversion. -/
inductive KeepsMethods {Memory : Type} (settings : Settings) (hierarchy : Hierarchy)
    (convention : Convention Memory) (file : ClassFile) (later : ConstantPool) :
    Memory → List (Member .method) → List (Member .method) → Memory → Prop
  | nil (memory : Memory) :
      KeepsMethods settings hierarchy convention file later memory [] [] memory
  | withoutCode {memory after : Memory} {member : Member .method}
      {members kept : List (Member .method)}
      (noCode : Method.ofMember? file member = .ok none)
      (keeps : KeepsMethods settings hierarchy convention file later memory members kept after) :
      KeepsMethods settings hierarchy convention file later memory (member :: members)
        (member :: kept) after
  | withoutCalls {memory between after : Memory} {member : Member .method} {method : Method}
      {members kept : List (Member .method)}
      (isRead : Method.ofMember? file member = .ok (some method))
      (noCalls : factoryCalls method hierarchy convention memory = .ok [] between)
      (keeps : KeepsMethods settings hierarchy convention file later between members kept after) :
      KeepsMethods settings hierarchy convention file later memory (member :: members)
        (member :: kept) after
  | withCalls {memory between planned after : Memory} {member other : Member .method}
      {method : Method} {members kept : List (Member .method)} {calls : List Nat}
      {firstId : Nat} {plan : MethodPlan}
      (isRead : Method.ofMember? file member = .ok (some method))
      (areCalls : factoryCalls method hierarchy convention memory = .ok calls between)
      (notEmpty : calls ≠ [])
      (isPlan : planMethod method calls firstId settings hierarchy convention
        (Place.ofMethod method) between = .ok plan planned)
      (differs : member.DiffersInCode file.pool later other)
      (keeps : KeepsMethods settings hierarchy convention file later planned members kept after) :
      KeepsMethods settings hierarchy convention file later memory (member :: members)
        (other :: kept) after

theorem KeepsMethods.congr
    {Memory : Type}
    {settings : Settings}
    {hierarchy : Hierarchy}
    {convention : Convention Memory}
    {file : ClassFile}
    {pool other : ConstantPool}
    (same : pool.constants = other.constants)
    {before after : Memory}
    {members kept : List (Member .method)}
    (keeps : KeepsMethods settings hierarchy convention file pool before members kept after) :
    KeepsMethods settings hierarchy convention file other before members kept after := by
  induction keeps with
  | nil memory => exact .nil memory
  | withoutCode noCode _ inductionHypothesis => exact .withoutCode noCode inductionHypothesis
  | withoutCalls isRead noCalls _ inductionHypothesis =>
      exact .withoutCalls isRead noCalls inductionHypothesis
  | withCalls isRead areCalls notEmpty isPlan differs _ inductionHypothesis =>
      exact .withCalls isRead areCalls notEmpty isPlan
        ⟨differs.flags, differs.name, differs.descriptor, differs.attributes.congr same⟩
        inductionHypothesis

/-! ## Rewriting -/

section Rewriting

variable {Memory : Type} {settings : Settings} {hierarchy : Hierarchy}
  {convention : Convention Memory} {file : ClassFile} {before after : Memory}

/-- A method with code has an attribute that holds it. -/
theorem exists_holds_of_ofMember?_eq_ok
    {member : Member .method}
    {method : Method}
    (isRead : Method.ofMember? file member = .ok (some method)) :
    ∃ entry ∈ member.attributes, entry.holds file.pool CodeAttribute = true := by
  unfold Method.ofMember? Member.code? Attribute.find? at isRead
  obtain ⟨code?, found, isMethod⟩ := bind_eq_ok.mp isRead
  split at found
  · rename_i entry isEntry
    have isKind := List.find?_some isEntry
    exact ⟨entry, List.mem_of_find?_eq_some isEntry, isKind⟩
  · cases found
    cases isMethod

/-- A member that is not planned has no code, or calls no factory. -/
theorem planMember_eq_ok_none
    {index firstId : Nat}
    {member : Member .method}
    (notPlanned : planMember settings hierarchy convention file index firstId member before =
      .ok none after) :
    Method.ofMember? file member = .ok none ∧ before = after ∨
      ∃ method, Method.ofMember? file member = .ok (some method) ∧
        factoryCalls method hierarchy convention before = .ok [] after := by
  unfold planMember Place.locateBytecode at notPlanned
  obtain ⟨method?, _, read, isResult⟩ := run_bind_eq_ok.mp notPlanned
  obtain ⟨isRead, rfl⟩ := run_ofExcept_eq_ok.mp read
  cases method? with
  | none =>
      obtain ⟨_, rfl⟩ := run_pure_eq_ok.mp isResult
      exact .inl ⟨mapError_eq_ok.mp isRead, rfl⟩
  | some method =>
      obtain ⟨calls, between, areCalls, isResult⟩ :=
        run_bind_eq_ok.mp (withinPlace_eq_ok.mp isResult)
      split at isResult
      · rename_i isEmpty
        obtain ⟨_, rfl⟩ := run_pure_eq_ok.mp isResult
        rw [List.isEmpty_iff.mp isEmpty] at areCalls
        exact .inr ⟨method, mapError_eq_ok.mp isRead, areCalls⟩
      · obtain ⟨plan, _, _, equal⟩ := run_bind_eq_ok.mp isResult
        obtain ⟨equal, _⟩ := run_pure_eq_ok.mp equal
        cases equal

/-- Rewriting a method puts a new code attribute in its place. -/
theorem rewriteMember_eq_ok
    {planned : PlannedMethod}
    {result : ClassFile}
    (isRewritten : rewriteMember hierarchy file planned = .ok result) :
    ∃ rewritten code pool, planned.method.rewrite planned.plan planned.place = .ok rewritten ∧
      (rewritten.assemble hierarchy file.version >>= Attribute.ofContents) file.pool =
        .ok code pool ∧
      result = { file with
        pool
        methods := file.methods.modify planned.index (·.replaceCode pool code) } := by
  unfold rewriteMember at isRewritten
  obtain ⟨rewritten, isNew, isRewritten⟩ := bind_eq_ok.mp isRewritten
  dsimp only at isRewritten
  split at isRewritten
  · cases isRewritten
  · rename_i code pool assembled
    cases isRewritten
    exact ⟨rewritten, code, pool, isNew, assembled, rfl⟩

/-- The old code is found by its name in every later pool. -/
theorem replaceCode_eq
    (consistent : file.pool.IsConsistent)
    (recorded : ∀ entry ∈ file.pool.constants.toList, file.pool.firstPositions[entry.2]? ≠ none)
    {member : Member .method}
    {method : Method}
    (isRead : Method.ofMember? file member = .ok (some method))
    {pool : ConstantPool}
    (poolConsistent : pool.IsConsistent)
    (grown : pool.GrownFrom file.pool)
    (code : Attribute) :
    member.replaceCode pool code = member.replaceCode file.pool code := by
  obtain ⟨entry, _, isNamed⟩ := exists_holds_of_ofMember?_eq_ok isRead
  have knowsCode : file.pool.firstPositions[Constant.utf8 (attributeName CodeAttribute)]? ≠ none := by
    have stands := ConstantPool.get_of_text_eq_ok (Attribute.holds_iff.mp isNamed)
    exact recorded _ (consistent.get_eq_ok_iff.mp stands)
  unfold Member.replaceCode
  rw [Attribute.replace_congr fun other _ =>
    Attribute.holds_of_grownFrom grown consistent poolConsistent (.inr knowsCode)]

theorem modify_length_append
    {α : Type}
    (front : List α)
    (value : α)
    (back : List α)
    (f : α → α) :
    (front ++ value :: back).modify front.length f = front ++ f value :: back := by
  induction front with
  | nil => rfl
  | cons first front inductionHypothesis => exact congrArg (first :: ·) inductionHypothesis

/-- The members that are planned have positions from the first one on. -/
theorem le_index_of_planMembers_eq_ok
    {members : List (Member .method)}
    {index firstId : Nat}
    {planned : List PlannedMethod}
    (arePlanned : planMembers settings hierarchy convention file index firstId members before =
      .ok planned after) :
    ∀ entry ∈ planned, index ≤ entry.index := by
  induction members generalizing index firstId planned before with
  | nil =>
      obtain ⟨rfl, _⟩ := run_pure_eq_ok.mp arePlanned
      exact fun _ member => absurd member List.not_mem_nil
  | cons member members inductionHypothesis =>
      unfold planMembers at arePlanned
      obtain ⟨planned?, between, isPlanned, arePlanned⟩ := run_bind_eq_ok.mp arePlanned
      cases planned? with
      | none =>
          exact fun entry isEntry =>
            Nat.le_of_succ_le (inductionHypothesis arePlanned entry isEntry)
      | some first =>
          obtain ⟨rest, _, areRest, equal⟩ := run_bind_eq_ok.mp arePlanned
          obtain ⟨rfl, rfl⟩ := run_pure_eq_ok.mp equal
          intro entry isEntry
          rcases List.mem_cons.mp isEntry with rfl | isLater
          · exact Nat.le_of_eq (planMember_eq_ok.mp isPlanned).1.symm
          · exact Nat.le_of_succ_le (inductionHypothesis areRest entry isLater)

/-- What stands in the place of a member of a class file once the planned methods of the class are
rewritten: the member itself, or it with the new code of its method. -/
inductive Member.Becomes (made : Hierarchy) (version : Version) (file : ClassFile)
    (final : ConstantPool) (planned : List PlannedMethod) (index : Nat)
    (member : Member .method) : Member .method → Prop where
  | same (notPlanned : index ∉ planned.map PlannedMethod.index) :
      member.Becomes made version file final planned index member
  | rewritten {entry : PlannedMethod} {rewritten : Method} {code : Attribute}
      (isPlanned : entry ∈ planned) (isIndex : entry.index = index)
      (isRead : Method.ofMember? file member = .ok (some entry.method))
      (isRewritten : entry.method.rewrite entry.plan entry.place = .ok rewritten)
      (isCode : rewritten.IsWrittenAs made version final code) :
      member.Becomes made version file final planned index (member.replaceCode file.pool code)

/-- **Run lemma**: rewriting the planned methods of a class file one after another replaces their
code and leaves the others; the pool only grows, and nothing else changes. -/
theorem exists_kept_of_foldlM_rewriteMember
    {made : Hierarchy}
    (consistent : file.pool.IsConsistent)
    (recorded : ∀ entry ∈ file.pool.constants.toList, file.pool.firstPositions[entry.2]? ≠ none)
    {members done : List (Member .method)}
    {firstId : Nat}
    {planned all : List PlannedMethod}
    (arePlanned : planMembers settings hierarchy convention file done.length firstId members before =
      .ok planned after)
    (areAll : ∀ entry ∈ all, entry ∈ planned ∨ entry.index < done.length)
    (subset : planned ⊆ all)
    {reached result : ClassFile}
    (methods : reached.methods = done ++ members)
    (reachedConsistent : reached.pool.IsConsistent)
    (grown : reached.pool.GrownFrom file.pool)
    (areRewritten : planned.foldlM (rewriteMember made) reached = .ok result) :
    ∃ pool kept, result = { reached with pool, methods := done ++ kept } ∧
      pool.IsConsistent ∧ pool.GrownFrom reached.pool ∧
      ∀ final : ConstantPool, final.IsConsistent → final.Extends pool →
        KeepsMethods settings hierarchy convention file final before members kept after ∧
        List.Forall₂ (fun entry other =>
            entry.1.Becomes made reached.version file final all entry.2 other)
          (members.zipIdx done.length) kept := by
  induction members generalizing done firstId planned before reached with
  | nil =>
      obtain ⟨rfl, rfl⟩ := run_pure_eq_ok.mp arePlanned
      cases areRewritten
      refine ⟨_, [], ?_, reachedConsistent, .refl _, fun final _ _ => ⟨.nil _, .nil⟩⟩
      rw [← methods]
  | cons member members inductionHypothesis =>
      unfold planMembers at arePlanned
      obtain ⟨planned?, between, isPlanned, arePlanned⟩ := run_bind_eq_ok.mp arePlanned
      have further (other : Member .method) : (done ++ [other]).length = done.length + 1 := by simp
      rw [List.zipIdx_cons]
      cases planned? with
      | none =>
          have notPlanned : done.length ∉ all.map PlannedMethod.index := by
            intro isPlannedIndex
            obtain ⟨entry, isEntry, isIndex⟩ := List.mem_map.mp isPlannedIndex
            rcases areAll entry isEntry with isLater | isEarlier
            · have after := le_index_of_planMembers_eq_ok arePlanned entry isLater
              omega
            · omega
          dsimp only at arePlanned
          rw [← further member] at arePlanned
          rw [List.append_cons] at methods
          obtain ⟨pool, kept, isResult, resultConsistent, resultGrown, keeps⟩ :=
            inductionHypothesis arePlanned (fun entry isEntry => (areAll entry isEntry).imp_right
              fun isEarlier => by rw [further]; omega) subset methods reachedConsistent grown
              areRewritten
          refine ⟨pool, member :: kept, ?_, resultConsistent, resultGrown, ?_⟩
          · rw [List.append_cons]
            exact isResult
          · intro final finalConsistent finalExtends
            obtain ⟨later, become⟩ := keeps final finalConsistent finalExtends
            rw [further member] at become
            refine ⟨?_, .cons (.same notPlanned) become⟩
            rcases planMember_eq_ok_none isPlanned with ⟨noCode, rfl⟩ | ⟨method, isRead, noCalls⟩
            · exact .withoutCode noCode later
            · exact .withoutCalls isRead noCalls later
      | some first =>
          obtain ⟨rest, _, areRest, equal⟩ := run_bind_eq_ok.mp arePlanned
          obtain ⟨rfl, rfl⟩ := run_pure_eq_ok.mp equal
          obtain ⟨isIndex, isRead, calls, earlier, areCalls, notEmpty, isPlan⟩ :=
            planMember_eq_ok.mp isPlanned
          rw [List.foldlM_cons] at areRewritten
          obtain ⟨next, isNext, areRewritten⟩ := bind_eq_ok.mp areRewritten
          obtain ⟨rewritten, code, pool, isRewritten, assembled, rfl⟩ := rewriteMember_eq_ok isNext
          obtain ⟨poolConsistent, poolGrown⟩ :=
            (rewritten.onlyAdds_code made reached.version) _ _ _ reachedConsistent assembled
          obtain ⟨_, _, isCode⟩ :=
            (rewritten.yields_code made reached.version) _ _ _ reachedConsistent assembled
          have sameReplacement : member.replaceCode pool code = member.replaceCode file.pool code :=
            replaceCode_eq consistent recorded isRead poolConsistent (poolGrown.trans grown) code
          have replaced : reached.methods.modify first.index (·.replaceCode pool code) =
              (done ++ [member.replaceCode file.pool code]) ++ members := by
            rw [methods, isIndex, modify_length_append, List.append_assoc, sameReplacement]
            rfl
          rw [← further (member.replaceCode file.pool code)] at areRest
          obtain ⟨last, kept, isResult, resultConsistent, resultGrown, keeps⟩ :=
            inductionHypothesis areRest (fun entry isEntry => by
              rw [further]
              rcases areAll entry isEntry with isHere | isEarlier
              · rcases List.mem_cons.mp isHere with rfl | isLater
                · exact .inr (by omega)
                · exact .inl isLater
              · exact .inr (by omega)) (fun entry isEntry => subset (List.mem_cons_of_mem _ isEntry))
              replaced poolConsistent (poolGrown.trans grown) areRewritten
          refine ⟨last, member.replaceCode file.pool code :: kept, ?_, resultConsistent,
            resultGrown.trans poolGrown, ?_⟩
          · rw [List.append_cons]
            exact isResult
          · intro final finalConsistent finalExtends
            have isWritten := isCode final finalConsistent (finalExtends.trans resultGrown.toExtends)
            obtain ⟨later, become⟩ := keeps final finalConsistent finalExtends
            rw [further] at become
            refine ⟨.withCalls isRead areCalls ?_ isPlan ?_ later,
              .cons (.rewritten (subset List.mem_cons_self) isIndex isRead isRewritten isWritten)
                become⟩
            · intro isEmpty
              rw [isEmpty] at notEmpty
              cases notEmpty
            · obtain ⟨contents, _, carries⟩ := isWritten
              exact ⟨rfl, rfl, rfl, Attribute.areReplaced_replace
                (Attribute.holds_iff.mpr carries.named)⟩

end Rewriting

/-! ## Bridges -/

/-- Installing bridges adds them after all other methods. -/
theorem exists_bridges_of_install_eq_ok
    {table : BridgeTable}
    {hierarchy : Hierarchy}
    {file result : ClassFile}
    (consistent : file.pool.IsConsistent)
    (isInstalled : table.install hierarchy file = .ok result) :
    ∃ pool bridges, result = { file with pool, methods := file.methods ++ bridges } ∧
      pool.IsConsistent ∧ pool.GrownFrom file.pool ∧
      ∀ final : ConstantPool, final.IsConsistent → final.Extends pool →
        List.Forall₂ (fun bridge member =>
            member.IsOfBridge hierarchy file.version final table.owner bridge)
          table.bridges bridges := by
  unfold BridgeTable.install at isInstalled
  split at isInstalled
  · rename_i members pool done
    cases isInstalled
    obtain ⟨poolConsistent, grown⟩ :=
      onlyAdds_mapM (table.onlyAdds_member hierarchy file.version) table.bridges _ _ _ consistent done
    obtain ⟨_, _, means⟩ :=
      yields_mapM table.bridges (fun bridge _ => table.yields_member hierarchy file.version bridge)
        _ _ _ consistent done
    exact ⟨pool, members, rfl, poolConsistent, grown, means⟩
  · cases isInstalled

/-! ## Class files -/

/-- What is written for a class file, with what the convention remembers before and after: its
methods, rewritten as planned, are followed by bridges, its pool grew, and of its attributes the
table of bootstrap methods changes, just when there are more of them. -/
structure ClassFile.IsWrittenAs {Memory : Type} (settings : Settings) (hierarchy : Hierarchy)
    (convention : Convention Memory) (planned : List PlannedMethod) (made : Hierarchy)
    (table : BridgeTable) (before after : Memory) (file written : ClassFile) : Prop where
  version : written.version = settings.versionFor file.version
  flags : written.flags = file.flags
  this : written.this = file.this
  super : written.super = file.super
  interfaces : written.interfaces = file.interfaces
  fields : written.fields = file.fields
  consistent : written.pool.IsConsistent
  grown : written.pool.GrownFrom file.pool
  methods : ∃ kept bridges, written.methods = kept ++ bridges ∧
    KeepsMethods settings hierarchy convention file written.pool before file.methods kept after ∧
    List.Forall₂ (fun entry other =>
      entry.1.Becomes made written.version file written.pool planned entry.2 other)
      file.methods.zipIdx kept ∧
    List.Forall₂ (fun bridge member =>
        member.IsOfBridge made written.version written.pool table.owner bridge)
      table.bridges bridges
  attributes : (written.pool.bootstraps = file.pool.bootstraps ∧
      written.attributes = file.attributes) ∨
    written.pool.bootstraps ≠ file.pool.bootstraps ∧
      ∃ entry : Attribute, entry.Carries written.pool (BootstrapTable.mk written.pool.bootstraps) ∧
        written.attributes = Attribute.replace file.attributes written.pool BootstrapTable entry

/-- What is written for a class file that was read, rewritten method by method and given its
bridges. -/
theorem ClassFile.isWrittenAs_of_convert
    {Memory : Type}
    {settings : Settings}
    {hierarchy : Hierarchy}
    {convention : Convention Memory}
    {input : Bytes}
    {file : ClassFile}
    (isRead : ofBytes input = .ok file)
    {planned : List PlannedMethod}
    {before after : Memory}
    (arePlanned : planMembers settings hierarchy convention file 0 0 file.methods before =
      .ok planned after)
    {made : Hierarchy}
    {rewritten installed written : ClassFile}
    (areRewritten : planned.foldlM (rewriteMember made)
      { file with version := settings.versionFor file.version } = .ok rewritten)
    {table : BridgeTable}
    (isInstalled : table.install made rewritten = .ok installed)
    (isSynced : installed.syncBootstraps = .ok written) :
    file.IsWrittenAs settings hierarchy convention planned made table before after written := by
  obtain ⟨_, consistent, table?, _, isPool⟩ := pool_of_ofBytes_eq_ok isRead
  have recorded : ∀ entry ∈ file.pool.constants.toList,
      file.pool.firstPositions[entry.2]? ≠ none := by
    rw [isPool]
    exact fun entry member => ConstantPool.recorded_of_mem_toList member
  have noneDone : ({ file with version := settings.versionFor file.version } : ClassFile).methods =
      [] ++ file.methods := rfl
  obtain ⟨first, kept, rfl, firstConsistent, firstGrown, keeps⟩ :=
    exists_kept_of_foldlM_rewriteMember consistent recorded arePlanned
      (fun entry isEntry => .inl isEntry) (List.Subset.refl _) noneDone consistent
      (.refl file.pool) areRewritten
  obtain ⟨second, bridges, rfl, secondConsistent, secondGrown, areBridges⟩ :=
    exists_bridges_of_install_eq_ok firstConsistent isInstalled
  obtain ⟨pool, attributes, rfl, poolConsistent, poolGrown, sameBootstraps, synced⟩ :=
    exists_attributes_of_syncBootstraps_eq_ok secondConsistent isSynced
  replace firstGrown : first.GrownFrom file.pool := firstGrown
  replace secondGrown : second.GrownFrom first := secondGrown
  replace poolGrown : pool.GrownFrom second := poolGrown
  replace sameBootstraps : pool.bootstraps = second.bootstraps := sameBootstraps
  have grown : pool.GrownFrom file.pool := poolGrown.trans (secondGrown.trans firstGrown)
  have hasNew : second.hasNewBootstraps = true ↔ pool.bootstraps ≠ file.pool.bootstraps := by
    have seeded : second.seededBootstraps = file.pool.bootstraps.length := by
      rw [(secondGrown.trans firstGrown).seeded, isPool]
      rfl
    unfold ConstantPool.hasNewBootstraps
    rw [seeded, ← sameBootstraps, decide_eq_true_iff]
    exact not_congr ⟨fun same => (grown.bootstraps.eq_of_length same.symm).symm,
      fun same => congrArg List.length same⟩
  obtain ⟨keepsMethods, become⟩ :=
    keeps pool poolConsistent (poolGrown.trans secondGrown).toExtends
  exact {
    version := rfl
    flags := rfl
    this := rfl
    super := rfl
    interfaces := rfl
    fields := rfl
    consistent := poolConsistent
    grown := grown
    methods := ⟨kept, bridges, rfl, keepsMethods, become,
      areBridges pool poolConsistent poolGrown.toExtends⟩
    attributes := by
      rcases synced with ⟨isOld, isSame⟩ | ⟨isNew, entry, isKind, isInfo, isReplaced⟩
      · refine .inl ⟨?_, isSame⟩
        by_contra different
        exact absurd (hasNew.mpr different) (ne_true_of_eq_false isOld)
      · refine .inr ⟨hasNew.mp isNew, entry, ⟨?_, Attribute.holds_iff.mp isKind⟩, isReplaced⟩
        rw [sameBootstraps]
        exact isInfo }

end ClosureConversion
