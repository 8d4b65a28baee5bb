import ClosureConversion.Closure.Bridge
import ClosureConversion.Proofs.ClassFile.Reading
import ClosureConversion.Proofs.Interns

/-!
Contract: work on a constant pool only adds to it.

Owns:
- pools that grew out of another one: constants that were recorded nowhere follow all others, as
  long as there are positions for them, and bootstrap methods follow those that were there;
- what a grown pool leaves alone: the constants, the texts that were there, and the names of
  attributes;
- that interning, encoding, the tables of a method and bridges only add.

Does not own: what the constants that are added mean.
-/

namespace ClosureConversion

namespace ConstantPool

/-- A pool grew out of another one: it extends that one, and what it holds beyond that was
recorded nowhere and follows everything else. -/
structure GrownFrom (later earlier : ConstantPool) : Prop extends later.Extends earlier where
  appended : ∃ added : List Constant, later.constants = earlier.constants.pushAll added ∧
    ∀ constant ∈ added, earlier.firstPositions[constant]? = none
  limited : later.constants = earlier.constants ∨ later.constants.endOffset ≤ positionLimit
  seeded : later.seededBootstraps = earlier.seededBootstraps

theorem GrownFrom.refl
    (pool : ConstantPool) :
    pool.GrownFrom pool where
  toExtends := .refl pool
  appended := ⟨[], rfl, fun _ member => nomatch member⟩
  limited := .inl rfl
  seeded := rfl

theorem GrownFrom.trans
    {last later earlier : ConstantPool}
    (grown : last.GrownFrom later)
    (laterGrown : later.GrownFrom earlier) :
    last.GrownFrom earlier where
  toExtends := grown.toExtends.trans laterGrown.toExtends
  appended := by
    obtain ⟨first, isFirst, firstNew⟩ := laterGrown.appended
    obtain ⟨second, isSecond, secondNew⟩ := grown.appended
    refine ⟨first ++ second, ?_, fun constant member => ?_⟩
    · rw [isSecond, isFirst, OffsetSeq.pushAll_append]
    · rcases List.mem_append.mp member with isEarlier | isLater
      · exact firstNew constant isEarlier
      · cases recorded : earlier.firstPositions[constant]? with
        | none => rfl
        | some index =>
            have stays := laterGrown.positions constant index recorded
            rw [secondNew constant isLater] at stays
            cases stays
  limited := by
    rcases grown.limited with same | small
    · rw [same]
      exact laterGrown.limited
    · exact .inr small
  seeded := grown.seeded.trans laterGrown.seeded

/-- A pool whose positions are not run over does not grow over them. -/
theorem GrownFrom.endOffset_le
    {later earlier : ConstantPool}
    (grown : later.GrownFrom earlier)
    (within : earlier.constants.endOffset ≤ positionLimit) :
    later.constants.endOffset ≤ positionLimit := by
  rcases grown.limited with same | isLimited
  · rwa [same]
  · exact isLimited

theorem toList_pushAll
    (table : ConstantTable)
    (constants : List Constant) :
    ∃ placed : List (Nat × Constant), (table.pushAll constants).toList = table.toList ++ placed ∧
      ∀ entry ∈ placed, table.endOffset ≤ entry.1 ∧ entry.2 ∈ constants := by
  induction constants generalizing table with
  | nil => exact ⟨[], (List.append_nil _).symm, fun _ member => nomatch member⟩
  | cons constant constants inductionHypothesis =>
      obtain ⟨placed, arePlaced, later⟩ := inductionHypothesis (table.push constant)
      refine ⟨(table.endOffset, constant) :: placed, ?_, fun entry member => ?_⟩
      · change ((table.push constant).pushAll constants).toList = _
        rw [arePlaced, OffsetSeq.toList_push, List.append_assoc]
        rfl
      · rcases List.mem_cons.mp member with rfl | isLater
        · exact ⟨Nat.le_refl _, List.mem_cons_self⟩
        · obtain ⟨after, isConstant⟩ := later entry isLater
          exact ⟨Nat.le_trans (Nat.le_add_right _ _) after, List.mem_cons_of_mem _ isConstant⟩

/-- The constants of the earlier pool come first, and nothing else stands at their positions. -/
theorem GrownFrom.toList_eq
    {later earlier : ConstantPool}
    (grown : later.GrownFrom earlier) :
    ∃ placed : List (Nat × Constant),
      later.constants.toList = earlier.constants.toList ++ placed ∧
        ∀ entry ∈ placed, earlier.constants.endOffset ≤ entry.1 ∧
          earlier.firstPositions[entry.2]? = none := by
  obtain ⟨added, isAdded, areNew⟩ := grown.appended
  obtain ⟨placed, arePlaced, after⟩ := toList_pushAll earlier.constants added
  refine ⟨placed, isAdded ▸ arePlaced, fun entry member => ?_⟩
  obtain ⟨isAfter, isConstant⟩ := after entry member
  exact ⟨isAfter, areNew entry.2 isConstant⟩

/-- A text that is found at a position stands there. -/
theorem get_of_text_eq_ok
    {pool : ConstantPool}
    {index : PoolIndex}
    {text : String}
    (found : pool.text index = .ok text) :
    pool.get index = .ok (.utf8 text) := by
  rw [ConstantPool.text] at found
  split at found
  · rename_i isFound
    cases found
    exact isFound
  · cases found

/-- Where a text stands that the earlier pool records, or that has a position of the earlier
pool, it stood in the earlier pool. -/
theorem GrownFrom.text_eq_ok_iff
    {later earlier : ConstantPool}
    (grown : later.GrownFrom earlier)
    (consistent : earlier.IsConsistent)
    (laterConsistent : later.IsConsistent)
    {index : PoolIndex}
    {text : String}
    (known : index.toNat < earlier.constants.endOffset ∨
      earlier.firstPositions[Constant.utf8 text]? ≠ none) :
    later.text index = .ok text ↔ earlier.text index = .ok text := by
  have stands : ∀ pool : ConstantPool,
      pool.text index = .ok text ↔ pool.get index = .ok (.utf8 text) :=
    fun pool => ⟨get_of_text_eq_ok, text_eq_ok⟩
  rw [stands, stands, laterConsistent.get_eq_ok_iff, consistent.get_eq_ok_iff]
  refine ⟨fun member => ?_, fun member => grown.constants _ member⟩
  obtain ⟨placed, isLater, after⟩ := grown.toList_eq
  rw [isLater] at member
  rcases List.mem_append.mp member with isEarlier | isNew
  · exact isEarlier
  · obtain ⟨isAfter, unrecorded⟩ := after _ isNew
    rcases known with below | recorded
    · exact absurd below (Nat.not_lt.mpr isAfter)
    · exact absurd unrecorded recorded

/-- Every constant of the table of a class file is recorded. -/
theorem recorded_of_mem_toList
    {table : ConstantTable}
    {bootstraps : List BootstrapMethod}
    {entry : Nat × Constant}
    (member : entry ∈ table.toList) :
    (ofTable table bootstraps).firstPositions[entry.2]? ≠ none := by
  change (positionsOf table)[entry.2]? ≠ none
  suffices general : ∀ (entries : List (Nat × Constant)) (positions : Std.HashMap Constant PoolIndex),
      entry ∈ entries ∨ positions[entry.2]? ≠ none →
      (entries.foldl (fun positions entry =>
        positions.insertIfNew entry.2 entry.1.toUInt16) positions)[entry.2]? ≠ none by
    unfold positionsOf
    rw [← Array.foldl_toList]
    exact general table.toList ∅ (.inl member)
  intro entries
  induction entries with
  | nil =>
      intro positions known
      exact known.resolve_left List.not_mem_nil
  | cons first entries inductionHypothesis =>
      intro positions known
      rw [List.foldl_cons]
      apply inductionHypothesis
      rw [Std.HashMap.getElem?_insertIfNew]
      rcases known with isListed | recorded
      · rcases List.mem_cons.mp isListed with rfl | isLater
        · right
          split
          · exact Option.some_ne_none _
          · rename_i isOld
            have isMember : entry.2 ∈ positions := by
              by_contra isNew
              exact isOld ⟨beq_self_eq_true _, isNew⟩
            rw [Std.HashMap.getElem?_eq_some_getElem isMember]
            exact Option.some_ne_none _
        · exact .inl isLater
      · right
        split
        · exact Option.some_ne_none _
        · exact recorded

end ConstantPool

/-! ## Work that only adds -/

/-- Whatever the work yields, the pool after it grew out of the one before it. -/
def OnlyAdds {α : Type} (work : PoolM α) : Prop :=
  ∀ (before : ConstantPool) (value : α) (after : ConstantPool), before.IsConsistent →
    work before = .ok value after → after.IsConsistent ∧ after.GrownFrom before

section OnlyAdds

variable {α β : Type}

theorem onlyAdds_pure
    (value : α) :
    OnlyAdds (pure value) := by
  intro before result after consistent done
  obtain ⟨_, rfl⟩ := run_pure_eq_ok.mp done
  exact ⟨consistent, .refl before⟩

theorem onlyAdds_throw
    (failure : BytecodeError) :
    OnlyAdds (throw failure : PoolM α) := by
  intro before value after _ done
  cases done

theorem onlyAdds_ofExcept
    (computation : Except BytecodeError α) :
    OnlyAdds (MonadExcept.ofExcept computation) := by
  intro before value after consistent done
  obtain ⟨_, rfl⟩ := run_ofExcept_eq_ok.mp done
  exact ⟨consistent, .refl before⟩

theorem OnlyAdds.bind
    {first : PoolM α}
    {next : α → PoolM β}
    (adds : OnlyAdds first)
    (addsNext : ∀ value, OnlyAdds (next value)) :
    OnlyAdds (first >>= next) := by
  intro before result after consistent done
  obtain ⟨value, between, firstDone, nextDone⟩ := run_bind_eq_ok.mp done
  obtain ⟨betweenConsistent, betweenGrown⟩ := adds before value between consistent firstDone
  obtain ⟨afterConsistent, afterGrown⟩ :=
    addsNext value between result after betweenConsistent nextDone
  exact ⟨afterConsistent, afterGrown.trans betweenGrown⟩

theorem OnlyAdds.map
    {work : PoolM α}
    (adds : OnlyAdds work)
    (f : α → β) :
    OnlyAdds (f <$> work) := by
  rw [map_eq_pure_bind]
  exact adds.bind fun value => onlyAdds_pure (f value)

theorem onlyAdds_mapM
    {work : α → PoolM β}
    (adds : ∀ value, OnlyAdds (work value))
    (values : List α) :
    OnlyAdds (values.mapM work) := by
  induction values with
  | nil =>
      rw [List.mapM_nil]
      exact onlyAdds_pure []
  | cons value values inductionHypothesis =>
      rw [List.mapM_cons]
      exact (adds value).bind fun result =>
        inductionHypothesis.bind fun results => onlyAdds_pure (result :: results)

theorem OnlyAdds.yields
    {work : PoolM α}
    (adds : OnlyAdds work) :
    Yields work fun _ _ => True := by
  intro before value after consistent done
  obtain ⟨afterConsistent, grown⟩ := adds before value after consistent done
  exact ⟨afterConsistent, grown.toExtends, fun _ _ _ => trivial⟩

/-- The value is what the work yielded on some pool, of which nothing was lost since. -/
def Yielded (work : PoolM α) (final : ConstantPool) (value : α) : Prop :=
  ∃ before after : ConstantPool, before.IsConsistent ∧ work before = .ok value after ∧
    final.Extends after

theorem OnlyAdds.yields_yielded
    {work : PoolM α}
    (adds : OnlyAdds work) :
    Yields work (Yielded work) := by
  intro before value after consistent done
  obtain ⟨afterConsistent, grown⟩ := adds before value after consistent done
  exact ⟨afterConsistent, grown.toExtends, fun final _ finalExtends =>
    ⟨before, after, consistent, done, finalExtends⟩⟩

end OnlyAdds

namespace ConstantPool

/-! ## Interning -/

theorem onlyAdds_intern
    (constant : Constant) :
    OnlyAdds (intern constant) := by
  intro before index after consistent done
  unfold intern at done
  split at done
  · cases done
    exact ⟨consistent, .refl before⟩
  · rename_i isNew
    dsimp only at done
    split at done
    · rename_i room
      cases done
      refine ⟨isConsistent_append consistent room, extends_append isNew, ⟨[constant], rfl, ?_⟩,
        .inr room, rfl⟩
      intro other member
      rw [List.mem_singleton.mp member]
      exact isNew
    · cases done

theorem bootstraps_of_intern_eq_ok
    {constant : Constant}
    {before after : ConstantPool}
    {index : PoolIndex}
    (done : intern constant before = .ok index after) :
    after.bootstraps = before.bootstraps := by
  unfold intern at done
  split at done
  · cases done
    rfl
  · dsimp only at done
    split at done
    · cases done
      rfl
    · cases done

theorem onlyAdds_internText
    (text : String) :
    OnlyAdds (internText text) :=
  onlyAdds_intern (.utf8 text)

theorem onlyAdds_internNameAndType
    (name descriptor : String) :
    OnlyAdds (internNameAndType name descriptor) :=
  (onlyAdds_internText name).bind fun _ =>
    (onlyAdds_internText descriptor).bind fun _ => onlyAdds_intern _

theorem onlyAdds_internBootstrap
    (bootstrap : BootstrapMethod) :
    OnlyAdds (internBootstrap bootstrap) := by
  intro before index after consistent done
  unfold internBootstrap at done
  split at done
  · cases done
    exact ⟨consistent, .refl before⟩
  · cases done
    exact ⟨⟨consistent.ordered, consistent.small, consistent.recorded⟩,
      ⟨fun _ member => member, fun _ _ recorded => recorded, List.prefix_append _ _⟩,
      ⟨[], rfl, fun _ member => nomatch member⟩, .inl rfl, rfl⟩

end ConstantPool

open ConstantPool (onlyAdds_intern onlyAdds_internText onlyAdds_internNameAndType
  onlyAdds_internBootstrap)

/-! ## References and instructions -/

/-- Interning only adds, whatever is interned. -/
theorem Interns.onlyAdds
    {α : Type}
    {work : PoolM α}
    (interns : Interns work) :
    OnlyAdds work := by
  induction interns with
  | pure value => exact onlyAdds_pure value
  | bind _ _ firstHypothesis nextHypothesis => exact firstHypothesis.bind nextHypothesis
  | constant constant => exact ConstantPool.onlyAdds_intern constant
  | bootstrap entry => exact onlyAdds_internBootstrap entry

theorem RefType.onlyAdds_intern
    (type : RefType) :
    OnlyAdds type.intern :=
  type.interns_intern.onlyAdds

theorem BinaryName.onlyAdds_intern
    (name : BinaryName) :
    OnlyAdds name.intern :=
  (RefType.object name).onlyAdds_intern

theorem Instruction.onlyAdds_internConstant
    {Label : Type}
    (instruction : Instruction Label) :
    OnlyAdds instruction.internConstant := by
  have unlessShort : ∀ (short : Bool) (literal : Literal),
      OnlyAdds (if short then pure none else some <$> literal.intern) := by
    intro short literal
    split
    · exact onlyAdds_pure none
    · exact literal.interns_intern.onlyAdds.map some
  cases instruction with
  | pushInt value => exact unlessShort _ (.integer value)
  | pushLong value => exact unlessShort _ (.long value)
  | pushFloat bits => exact unlessShort _ (.float bits)
  | pushDouble bits => exact unlessShort _ (.double bits)
  | pushLiteral literal => exact literal.interns_intern.onlyAdds.map some
  | field access member => exact member.interns_intern.onlyAdds.map some
  | invoke kind method => exact method.interns_intern.onlyAdds.map some
  | invokeDynamic call => exact call.interns_intern.onlyAdds.map some
  | new name => exact name.onlyAdds_intern.map some
  | newRefArray element => exact element.onlyAdds_intern.map some
  | checkCast type => exact type.onlyAdds_intern.map some
  | instanceOf type => exact type.onlyAdds_intern.map some
  | newMultiArray type dimensions => exact type.onlyAdds_intern.map some
  | _ => exact onlyAdds_pure none

theorem onlyAdds_encode
    (instructions : Array (Instruction Nat)) :
    OnlyAdds (encode instructions) := by
  unfold encode encodeWithin
  rw [Array.mapM_eq_mapM_toList]
  refine OnlyAdds.bind (OnlyAdds.map (onlyAdds_mapM (fun instruction => ?_) _) _)
    fun items => onlyAdds_ofExcept _
  exact instruction.onlyAdds_internConstant.bind fun _ => onlyAdds_pure _

/-! ## The tables of a method -/

theorem Attribute.onlyAdds_ofContents
    {α : Type}
    [AttributeContents α]
    (contents : α) :
    OnlyAdds (Attribute.ofContents contents) :=
  (onlyAdds_internText _).bind fun _ => onlyAdds_pure _

theorem VerificationType.onlyAdds_toStackMap
    (type : VType)
    (offsets : Array Nat) :
    OnlyAdds (type.toStackMap offsets) := by
  cases type with
  | object type => exact type.onlyAdds_intern.map _
  | uninitialized site =>
      unfold toStackMap
      dsimp only
      split
      · exact onlyAdds_pure _
      · exact onlyAdds_throw _
  | _ => exact onlyAdds_pure _

theorem Frame.onlyAdds_toMapFrame
    (frame : Frame)
    (offsets : Array Nat) :
    OnlyAdds (frame.toMapFrame offsets) :=
  (onlyAdds_mapM (fun type => VerificationType.onlyAdds_toStackMap type offsets) _).bind fun _ =>
    (onlyAdds_mapM (fun type => VerificationType.onlyAdds_toStackMap type offsets) _).bind fun _ =>
      onlyAdds_pure _

theorem onlyAdds_stackMapFrom
    (offsets : Array Nat)
    (points : List (Nat × Frame))
    (previous : MapFrame)
    (offset? : Option Nat) :
    OnlyAdds (stackMapFrom offsets previous offset? points) := by
  induction points generalizing previous offset? with
  | nil => exact onlyAdds_pure []
  | cons point points inductionHypothesis =>
      exact (point.2.onlyAdds_toMapFrame offsets).bind fun frame =>
        (inductionHypothesis frame _).bind fun others => onlyAdds_pure _

theorem onlyAdds_variableEntry
    (offsets : Array Nat)
    (entry : LocalVariable Nat) :
    OnlyAdds (variableEntry offsets entry) :=
  (onlyAdds_internText _).bind fun _ => (onlyAdds_internText _).bind fun _ => onlyAdds_pure _

theorem onlyAdds_exceptionEntry
    (offsets : Array Nat)
    (range : ExceptionRange Nat) :
    OnlyAdds (exceptionEntry offsets range) := by
  unfold exceptionEntry
  dsimp only
  split
  · exact (onlyAdds_pure 0).bind fun _ => onlyAdds_pure _
  · exact (BinaryName.onlyAdds_intern _).bind fun _ => onlyAdds_pure _

namespace Method

variable (method : Method) (offsets : Array Nat)

theorem onlyAdds_stackMapAttribute
    (points : List (Nat × Frame)) :
    OnlyAdds (method.stackMapAttribute offsets points) := by
  refine (method.entryFrame.onlyAdds_toMapFrame offsets).bind fun entry => ?_
  refine (onlyAdds_stackMapFrom offsets points entry none).bind fun frames => ?_
  split
  · exact onlyAdds_pure []
  · exact (Attribute.onlyAdds_ofContents _).bind fun entry => onlyAdds_pure [entry]

theorem onlyAdds_lineAttribute :
    OnlyAdds (method.lineAttribute offsets) := by
  unfold lineAttribute
  dsimp only
  split
  · exact onlyAdds_pure []
  · exact (Attribute.onlyAdds_ofContents _).bind fun entry => onlyAdds_pure [entry]

theorem onlyAdds_variableAttribute :
    OnlyAdds (method.variableAttribute offsets) := by
  unfold variableAttribute
  split
  · exact (onlyAdds_mapM (onlyAdds_variableEntry offsets) _).bind fun localVariables =>
      (Attribute.onlyAdds_ofContents _).bind fun entry => onlyAdds_pure [entry]
  · exact onlyAdds_pure []

/-- Assembling a method only adds to the pool. -/
theorem onlyAdds_assemble
    (hierarchy : Hierarchy)
    (version : Version) :
    OnlyAdds (method.assemble hierarchy version) := by
  unfold assemble
  refine (onlyAdds_ofExcept _).bind fun analysis => ?_
  refine (onlyAdds_encode _).bind fun encoded => ?_
  dsimp only
  split
  · exact onlyAdds_throw _
  · split
    · exact onlyAdds_throw _
    · rw [← run_ite_bind]
      refine OnlyAdds.bind ?_ fun stackMap => ?_
      · split
        · exact method.onlyAdds_stackMapAttribute _ _
        · exact onlyAdds_pure []
      · exact (method.onlyAdds_lineAttribute _).bind fun lines =>
          (method.onlyAdds_variableAttribute _).bind fun localVariables =>
            (onlyAdds_mapM (onlyAdds_exceptionEntry _) _).bind fun exceptions => onlyAdds_pure _

end Method

/-! ## Bridges -/

theorem BridgeTable.onlyAdds_member
    (table : BridgeTable)
    (hierarchy : Hierarchy)
    (version : Version)
    (bridge : Bridge) :
    OnlyAdds (table.member hierarchy version bridge) :=
  (Method.onlyAdds_assemble _ hierarchy version).bind fun _ =>
    (Attribute.onlyAdds_ofContents _).bind fun _ =>
      (onlyAdds_internText _).bind fun _ => (onlyAdds_internText _).bind fun _ => onlyAdds_pure _

end ClosureConversion
