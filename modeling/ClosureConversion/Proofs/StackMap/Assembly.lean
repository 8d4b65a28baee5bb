import ClosureConversion.Proofs.Code.RoundTrip
import ClosureConversion.Proofs.StackMap.Points
import ClosureConversion.Proofs.StackMap.Serialization

/-!
Contract: the stack map of an assembled method.

Owns:
- what a stack map has to say about code;
- that the frames at the points of a method can be written;
- that the stack map in the code attribute of a method expands to the frames of the
  analysis at every instruction that needs one.

Does not own: how frames are compressed, or which instructions are points.
-/

namespace ClosureConversion

/-- Frames with their offsets say what the verifier has to know of code: they stand at
instructions in their order, for each of which they give the frame of the analysis, or that of
unreachable code; and every instruction has one that control enters in another way than from
the instruction before it. -/
structure FlowAnalysis.IsMappedTo (analysis : FlowAnalysis) (offsets : Array Nat)
    (emitted : List (Nat × Instruction Nat)) (exceptions : List ExceptionEntry)
    (pool : ConstantPool) (frames : List (Nat × MapFrame)) : Prop where
  increasing : frames.Pairwise (·.1 < ·.1)
  starts : ∀ told ∈ frames, told.1 ∈ emitted.map Prod.fst
  tells : ∀ told ∈ frames, ∃ index, offsets[index]? = some told.1 ∧
    ((∃ frame, analysis.frame? index = some frame ∧
        frame.toMapFrame offsets pool = .ok told.2 pool) ∨
      ((∃ run ∈ analysis.deadRuns, run.start = index) ∧
        ∃ throwable, RefType.resolve pool throwable = .ok (.object .throwable) ∧
          told.2 = ⟨[], [.object throwable]⟩))
  targets : ∀ entry ∈ emitted, ∀ target ∈ entry.2.targets, target ∈ frames.map Prod.fst
  handlers : ∀ entry ∈ exceptions, entry.handler.toNat ∈ frames.map Prod.fst
  follows : ∀ (position : Nat) (stop next : Nat × Instruction Nat),
    emitted[position]? = some stop → stop.2.fallsThrough = false →
      emitted[position + 1]? = some next → next.1 ∈ frames.map Prod.fst
  runs : ∀ run ∈ analysis.deadRuns, ∃ offset ∈ frames.map Prod.fst,
    offsets[run.start]? = some offset

/-! ## Sizes -/

theorem length_le_totalWidth
    (stack : OperandStack) :
    stack.length ≤ totalWidth stack := by
  induction stack with
  | nil => exact Nat.le_refl _
  | cons type rest inductionHypothesis =>
      have positive : 0 < width type := by
        change 0 < (if type.isWide then 2 else 1)
        split <;> decide
      change rest.length + 1 ≤ width type + totalWidth rest
      omega

/-- The frames of an analysis have room for their values. -/
theorem Method.frame_le_of_analyze_eq_ok
    {method : Method}
    {hierarchy : Hierarchy}
    {analysis : FlowAnalysis}
    (accepted : method.analyze hierarchy = .ok analysis)
    {index : Nat}
    {frame : Frame}
    (isFrame : analysis.frame? index = some frame) :
    frame.locals.length ≤ analysis.maxLocals ∧ frame.stack.length ≤ analysis.maxStack := by
  obtain ⟨state, consistent, _, rfl⟩ :=
    isConsistent_of_analyze_eq_ok Frame.mergeOrder_trivial accepted
  exact ⟨consistent.sound.localSlots isFrame,
    Nat.le_trans (length_le_totalWidth frame.stack) (consistent.sound.stackSlots isFrame)⟩

/-- Increasing numbers from a range are no more than the range has. -/
theorem length_le_of_pairwise_lt
    {numbers : List Nat}
    {low high : Nat}
    (ordered : low ≤ high)
    (increasing : numbers.Pairwise (· < ·))
    (within : ∀ number ∈ numbers, low ≤ number ∧ number < high) :
    low + numbers.length ≤ high := by
  induction numbers generalizing low with
  | nil => exact ordered
  | cons number rest inductionHypothesis =>
      obtain ⟨beforeRest, restIncreasing⟩ := List.pairwise_cons.mp increasing
      obtain ⟨notBelow, below⟩ := within number List.mem_cons_self
      have restFits := @inductionHypothesis (number + 1) below restIncreasing
        (fun other member => ⟨beforeRest other member,
          (within other (List.mem_cons_of_mem _ member)).2⟩)
      rw [List.length_cons]
      omega

theorem EncodedCode.IsMadeOf.length_lt
    {code : EncodedCode}
    {range : JumpRange}
    {placed : List (Linked × Bool)}
    (madeOf : code.IsMadeOf range placed) :
    placed.length < 2 ^ 16 := by
  have fits := length_le_of_pairwise_lt (Nat.zero_le (2 ^ 16)) madeOf.increasing
    (fun offset member => ⟨Nat.zero_le _, Nat.lt_succ_of_le (madeOf.notLong offset member)⟩)
  rw [Array.length_toList, madeOf.offsetCount] at fits
  omega

/-- Every item has an offset that sixteen bits hold. -/
theorem EncodedCode.IsMadeOf.exists_offset
    {code : EncodedCode}
    {range : JumpRange}
    {placed : List (Linked × Bool)}
    (madeOf : code.IsMadeOf range placed)
    {index : Nat}
    (inside : index < placed.length) :
    ∃ offset, code.offsets[index]? = some offset ∧ offset < 2 ^ 16 := by
  have insideOffsets : index < code.offsets.size := by
    rw [madeOf.offsetCount]
    omega
  refine ⟨_, Array.getElem?_eq_getElem insideOffsets, ?_⟩
  apply Nat.lt_succ_of_le
  apply madeOf.notLong
  exact Array.mem_toList_iff.mpr (Array.getElem_mem insideOffsets)

/-! ## Tables -/

namespace Attribute

theorem holds_of_text
    {entry : Attribute}
    {pool : ConstantPool}
    {name : String}
    (named : pool.text entry.name = .ok name)
    (α : Type)
    [AttributeContents α] :
    entry.holds pool α = decide (name = attributeName α) := by
  rw [holds, isNamed, named]

/-- Attributes of other kinds come after the stack map. -/
theorem find?_stackMap_append
    {pool : ConstantPool}
    {entry : Attribute}
    {map : StackMap}
    (named : pool.text entry.name = .ok "StackMapTable")
    (contains : entry.contents StackMap = .ok map)
    (others : List Attribute) :
    find? (entry :: others) pool StackMap = .ok (some map) := by
  have isHeld : entry.holds pool StackMap = true := holds_of_text named StackMap
  simp only [find?, List.find?_cons, isHeld, contains]
  rfl

theorem find?_stackMap_eq_none
    {pool : ConstantPool}
    {others : List Attribute}
    (notHeld : ∀ other ∈ others, other.holds pool StackMap = false) :
    find? others pool StackMap = .ok none := by
  have none : others.find? (fun other => other.holds pool StackMap) = none := by
    rw [List.find?_eq_none]
    intro other member
    rw [notHeld other member]
    exact Bool.false_ne_true
  rw [find?, none]
  rfl

end Attribute

namespace Method

variable {method : Method} {offsets : Array Nat}

theorem yields_lineAttribute :
    Yields (method.lineAttribute offsets) fun final attributes =>
      ∀ entry ∈ attributes, entry.holds final StackMap = false := by
  unfold lineAttribute
  dsimp only
  split
  · refine yields_pure fun _ _ entry member => ?_
    cases member
  · apply (Attribute.yields_ofContents (LineTable.mk _)).bind
    intro entry
    refine yields_pure fun final _ ⟨_, named⟩ other member => ?_
    rw [List.mem_singleton.mp member]
    exact Attribute.holds_of_text named StackMap

theorem yields_variableEntry
    (entry : LocalVariable Nat) :
    Yields (variableEntry offsets entry) fun _ _ => True := by
  apply (ConstantPool.yields_internText _).bind
  intro name
  apply (ConstantPool.yields_internText _).bind
  intro descriptor
  exact yields_pure fun _ _ _ _ => trivial

theorem yields_variableAttribute :
    Yields (method.variableAttribute offsets) fun final attributes =>
      ∀ entry ∈ attributes, entry.holds final StackMap = false := by
  unfold variableAttribute
  split
  · apply (yields_mapM _ fun entry _ => yields_variableEntry entry).bind
    intro localVariables
    apply (Attribute.yields_ofContents (VariableTable.mk localVariables)).bind
    intro entry
    refine yields_pure fun final _ ⟨_, named⟩ _ other member => ?_
    rw [List.mem_singleton.mp member]
    exact Attribute.holds_of_text named StackMap
  · refine yields_pure fun _ _ entry member => ?_
    cases member

theorem yields_exceptionEntry
    (range : ExceptionRange Nat) :
    Yields (exceptionEntry offsets range) fun _ entry =>
      entry.handler = offsetAt offsets range.handler := by
  unfold exceptionEntry
  have yieldsRest : ∀ catchType : PoolIndex, Yields (pure ({
      start := offsetAt offsets range.start
      stop := offsetAt offsets range.stop
      handler := offsetAt offsets range.handler
      catchType } : ExceptionEntry) : PoolM ExceptionEntry) fun _ entry =>
        entry.handler = offsetAt offsets range.handler :=
    fun _ => yields_pure fun _ _ => rfl
  split
  · have yieldsNone : Yields (pure 0 : PoolM PoolIndex) fun _ _ => True :=
      yields_pure fun _ _ => trivial
    exact yieldsNone.bind fun catchType => (yieldsRest catchType).imp fun _ _ same _ => same
  · rename_i name _
    exact name.yields_intern.bind fun catchType =>
      (yieldsRest catchType).imp fun _ _ same _ => same

/-- The attribute that is written for frames at increasing offsets is found, wherever other
attributes follow, and expands to the frames. Without frames there is no attribute. -/
theorem yields_stackMapAttribute
    {points : List (Nat × Frame)}
    (stands : ∀ point ∈ points, ∃ offset, offsets[point.1]? = some offset ∧ offset < 2 ^ 16)
    (increasing : points.Pairwise fun first second =>
      offsets.getD first.1 0 < offsets.getD second.1 0)
    (small : ∀ point ∈ points, point.2.locals.length < 2 ^ 16 ∧ point.2.stack.length < 2 ^ 16)
    (few : points.length < 2 ^ 16) :
    Yields (method.stackMapAttribute offsets points) fun final attributes =>
      ∃ entry expanded, method.entryFrame.toMapFrame offsets final = .ok entry final ∧
        List.Forall₂ (IsTold offsets final) points expanded ∧
        ∀ others : List Attribute, (∀ other ∈ others, other.holds final StackMap = false) →
          ∃ map?, Attribute.find? (attributes ++ others) final StackMap = .ok map? ∧
            (map?.getD ⟨[]⟩).expand? entry = some expanded := by
  unfold stackMapAttribute
  apply Yields.bind (method.entryFrame.repeats_toMapFrame offsets)
  intro entry
  have noneBefore : ∀ before : Nat, none = some before → ∀ point ∈ points,
      before < offsets.getD point.1 0 := by
    intro before isBefore
    cases isBefore
  apply (yields_stackMapFrom stands increasing small entry none noneBefore).bind
  intro frames
  split
  · rename_i isEmpty
    rw [List.isEmpty_iff] at isEmpty
    subst isEmpty
    refine yields_pure fun final _ ⟨_, expanded, expands, told⟩ entryTold => ?_
    refine ⟨entry, expanded, entryTold, told, fun others notHeld => ?_⟩
    exact ⟨none, Attribute.find?_stackMap_eq_none notHeld, expands⟩
  · apply (Attribute.yields_ofContents (StackMap.mk frames)).bind
    intro written
    refine yields_pure fun final _ ⟨isInfo, named⟩ ⟨writable, expanded, expands, told⟩ entryTold => ?_
    have framesFew : frames.length < 2 ^ 16 := by
      rw [← StackMap.length_of_expandFrom?_eq_some expands, ← told.length_eq]
      exact few
    refine ⟨entry, expanded, entryTold, told, fun others _ => ⟨some ⟨frames⟩, ?_, expands⟩⟩
    apply Attribute.find?_stackMap_append named
    have contains := StackMap.contents_write writable framesFew written.name
    rw [← isInfo] at contains
    exact contains

end Method

/-! ## Assembled methods -/

/-- Every point has a frame at the offset of its instruction. -/
theorem mem_offsets_of_isTold
    {offsets : Array Nat}
    {pool : ConstantPool}
    {points : List (Nat × Frame)}
    {frames : List (Nat × MapFrame)}
    (told : List.Forall₂ (IsTold offsets pool) points frames)
    {index offset : Nat}
    (isPoint : ∃ frame, (index, frame) ∈ points)
    (stands : offsets[index]? = some offset) :
    offset ∈ frames.map Prod.fst := by
  obtain ⟨frame, member⟩ := isPoint
  obtain ⟨entry, isEntry, isTold⟩ := exists_mem_of_forall₂ told.flip member
  have same := isTold.offset
  rw [stands, Option.some.injEq] at same
  rw [same]
  exact List.mem_map_of_mem isEntry

/-- Frames that are told for points at increasing offsets stand in the order of these. -/
theorem pairwise_of_isTold
    {offsets : Array Nat}
    {pool : ConstantPool}
    {points : List (Nat × Frame)}
    {frames : List (Nat × MapFrame)}
    (told : List.Forall₂ (IsTold offsets pool) points frames)
    (increasing : points.Pairwise fun first second =>
      offsets.getD first.1 0 < offsets.getD second.1 0) :
    frames.Pairwise (·.1 < ·.1) := by
  have offsetOf : ∀ {point : Nat × Frame} {entry : Nat × MapFrame},
      IsTold offsets pool point entry → offsets.getD point.1 0 = entry.1 := by
    intro point entry isTold
    rw [Array.getD_eq_getD_getElem?, isTold.offset, Option.getD_some]
  induction told with
  | nil => exact List.Pairwise.nil
  | @cons point entry points frames isTold othersTold inductionHypothesis =>
      obtain ⟨beforeOthers, othersIncreasing⟩ := List.pairwise_cons.mp increasing
      refine List.pairwise_cons.mpr ⟨?_, inductionHypothesis othersIncreasing⟩
      intro other member
      obtain ⟨otherPoint, isPoint, otherTold⟩ := exists_mem_of_forall₂ othersTold member
      rw [← offsetOf isTold, ← offsetOf otherTold]
      exact beforeOthers otherPoint isPoint

/-- The steps in which the code of a method is assembled, with the pool after each of them. -/
structure Method.Steps (method : Method) (hierarchy : Hierarchy) (version : Version)
    (before after : ConstantPool) (code : CodeAttribute) where
  analysis : FlowAnalysis
  encoded : EncodedCode
  maps : List Attribute
  lines : List Attribute
  locals : List Attribute
  exceptions : List ExceptionEntry
  withCode : ConstantPool
  withMaps : ConstantPool
  withLines : ConstantPool
  withLocals : ConstantPool
  accepted : method.analyze hierarchy = .ok analysis
  codeDone : encode (analysis.overwriteDead method.instructions) before = .ok encoded withCode
  isShallow : analysis.maxStack ≤ 65535
  fewLocals : method.localsNeeded analysis ≤ 65535
  mapsDone : (if version.usesStackMaps then
      method.stackMapAttribute encoded.offsets (method.mapPoints analysis encoded.widened)
    else pure []) withCode = .ok maps withMaps
  linesDone : method.lineAttribute encoded.offsets withMaps = .ok lines withLines
  localsDone : method.variableAttribute encoded.offsets withLines = .ok locals withLocals
  exceptionsDone : (splitRanges method.handlers.toList analysis).mapM
    (exceptionEntry encoded.offsets) withLocals = .ok exceptions after
  isCode : code = {
    maxStack := analysis.maxStack.toUInt16
    maxLocals := (method.localsNeeded analysis).toUInt16
    bytes := encoded.bytes
    exceptions
    attributes := maps ++ lines ++ locals }

/-- A method is assembled step by step. -/
theorem Method.exists_steps_of_assemble_eq_ok
    {method : Method}
    {hierarchy : Hierarchy}
    {version : Version}
    {before after : ConstantPool}
    {code : CodeAttribute}
    (assembled : method.assemble hierarchy version before = .ok code after) :
    Nonempty (method.Steps hierarchy version before after code) := by
  unfold assemble at assembled
  obtain ⟨analysis, _, analyzed, assembled⟩ := run_bind_eq_ok.mp assembled
  obtain ⟨accepted, rfl⟩ := run_ofExcept_eq_ok.mp analyzed
  obtain ⟨encoded, withCode, codeDone, assembled⟩ := run_bind_eq_ok.mp assembled
  dsimp only at assembled
  split at assembled
  · cases assembled
  rename_i isShallow
  split at assembled
  · cases assembled
  rename_i fewLocals
  rw [← run_ite_bind] at assembled
  obtain ⟨maps, withMaps, mapsDone, assembled⟩ := run_bind_eq_ok.mp assembled
  obtain ⟨lines, withLines, linesDone, assembled⟩ := run_bind_eq_ok.mp assembled
  obtain ⟨locals, withLocals, localsDone, assembled⟩ := run_bind_eq_ok.mp assembled
  obtain ⟨exceptions, withExceptions, exceptionsDone, assembled⟩ := run_bind_eq_ok.mp assembled
  obtain ⟨rfl, rfl⟩ := run_pure_eq_ok.mp assembled
  exact ⟨⟨analysis, encoded, maps, lines, locals, exceptions, withCode, withMaps, withLines,
    withLocals, accepted, codeDone, Nat.le_of_not_lt isShallow, Nat.le_of_not_lt fewLocals,
    mapsDone, linesDone, localsDone, exceptionsDone, rfl⟩⟩

section Assembled

variable {method : Method} {analysis : FlowAnalysis} {encoded : EncodedCode}
  {placed : List (Linked × Bool)}

theorem getElem?_of_instructions
    {instructions : Array (Instruction Nat)}
    (instructionsOf : placed.map (fun item => item.1.instruction) = instructions.toList)
    {index : Nat}
    {item : Linked × Bool}
    (stands : placed[index]? = some item) :
    instructions[index]? = some item.1.instruction := by
  rw [← Array.getElem?_toList, ← instructionsOf, List.getElem?_map, stands]
  rfl

theorem length_of_instructions
    {instructions : Array (Instruction Nat)}
    (instructionsOf : placed.map (fun item => item.1.instruction) = instructions.toList) :
    placed.length = instructions.size := by
  have lengths := congrArg List.length instructionsOf
  simpa using lengths

/-- No jump on a condition stands at the end of the code. -/
theorem lt_length_of_widened
    (follows : analysis.FollowsControl method)
    (madeOf : encoded.IsMadeOf JumpRange.short placed)
    (instructionsOf : placed.map (fun item => item.1.instruction) =
      (analysis.overwriteDead method.instructions).toList)
    {index : Nat}
    (member : index ∈ encoded.widened) :
    index + 1 < placed.length ∧
      ∃ frame, (index + 1, frame) ∈ method.mapPoints analysis encoded.widened := by
  obtain ⟨item, stands, isBranch⟩ := (madeOf.mem_widened index).mp member
  have isInstruction := getElem?_of_instructions instructionsOf stands
  obtain ⟨inside, isPoint⟩ := follows.exists_point_of_widened isInstruction isBranch member
  have count := length_of_instructions instructionsOf
  rw [FlowAnalysis.FollowsControl.size_overwriteDead] at count
  exact ⟨by omega, isPoint⟩

/-- The points of a method stand at increasing offsets. -/
theorem pairwise_offsets_mapPoints
    (madeOf : encoded.IsMadeOf JumpRange.short placed)
    (instructionsOf : placed.map (fun item => item.1.instruction) =
      (analysis.overwriteDead method.instructions).toList) :
    (method.mapPoints analysis encoded.widened).Pairwise fun first second =>
      encoded.offsets.getD first.1 0 < encoded.offsets.getD second.1 0 := by
  apply pairwise_framePoints.imp_of_mem
  intro first second _ isSecond before
  have inside := (mem_framePoints_iff.mp isSecond).1
  rw [← length_of_instructions instructionsOf] at inside
  obtain ⟨offset, stands, _⟩ := madeOf.exists_offset (Nat.lt_trans before inside)
  obtain ⟨later, laterStands, _⟩ := madeOf.exists_offset inside
  rw [Array.getD_eq_getD_getElem?, Array.getD_eq_getD_getElem?, stands, laterStands]
  exact madeOf.offset_lt stands laterStands before

/-- Frames that are told for the points of a method say what the verifier has to know of its
code. -/
theorem isMappedTo_of_isTold
    (follows : analysis.FollowsControl method)
    (madeOf : encoded.IsMadeOf JumpRange.short placed)
    (instructionsOf : placed.map (fun item => item.1.instruction) =
      (analysis.overwriteDead method.instructions).toList)
    {pool : ConstantPool}
    (consistent : pool.IsConsistent)
    {exceptions : List ExceptionEntry}
    (handlersOf : List.Forall₂ (fun range entry =>
      entry.handler = offsetAt encoded.offsets range.handler)
      (splitRanges method.handlers.toList analysis) exceptions)
    {frames : List (Nat × MapFrame)}
    (told : List.Forall₂ (IsTold encoded.offsets pool)
      (method.mapPoints analysis encoded.widened) frames) :
    analysis.IsMappedTo encoded.offsets (emissionFrom (placeIn encoded.offsets) 0 placed)
      exceptions pool frames := by
  have count := length_of_instructions instructionsOf
  rw [FlowAnalysis.FollowsControl.size_overwriteDead] at count
  have insideOf : ∀ {index : Nat} {frame : Frame},
      (index, frame) ∈ method.mapPoints analysis encoded.widened → index < placed.length := by
    intro index frame member
    have inside := (mem_framePoints_iff.mp member).1
    rw [FlowAnalysis.FollowsControl.size_overwriteDead] at inside
    omega
  constructor
  · exact pairwise_of_isTold told (pairwise_offsets_mapPoints madeOf instructionsOf)
  · intro entry member
    obtain ⟨⟨index, frame⟩, isPoint, isTold⟩ := exists_mem_of_forall₂ told member
    have starts := madeOf.getElem?_shift (placeIn encoded.offsets) (insideOf isPoint) isTold.offset
    exact List.mem_of_getElem? starts
  · intro entry member
    obtain ⟨⟨index, frame⟩, isPoint, isTold⟩ := exists_mem_of_forall₂ told member
    refine ⟨index, isTold.offset, ?_⟩
    rcases (mem_framePoints_iff.mp isPoint).2 with ⟨begins, isDead⟩ | ⟨_, isFrame⟩
    · have serialized := isTold.frame
      rw [isDead] at serialized
      exact .inr ⟨begins, Frame.eq_of_toMapFrame_deadCode consistent serialized⟩
    · exact .inl ⟨frame, isFrame, isTold.frame⟩
  · intro entry member target isTarget
    rcases mem_targets_emissionFrom member isTarget with
      ⟨item, itemMember, label, isLabel, rfl⟩ | ⟨position, item, stands, widened, starts⟩
    · obtain ⟨index, inside, isItem⟩ := List.getElem_of_mem itemMember
      have stands : placed[index]? = some item := List.getElem?_eq_some_iff.mpr ⟨inside, isItem⟩
      exact mem_offsets_of_isTold told
        (follows.exists_point_of_target (getElem?_of_instructions instructionsOf stands) isLabel)
        (madeOf.getElem?_of_mem_targets itemMember isLabel).2
    · obtain ⟨isLong, isBranch⟩ := Bool.and_eq_true_iff.mp widened
      have listed : position ∈ encoded.widened :=
        (madeOf.mem_widened position).mpr ⟨item.1, by rw [stands, ← isLong], isBranch⟩
      rw [← madeOf.offsets, Array.getElem?_toList] at starts
      exact mem_offsets_of_isTold told
        (lt_length_of_widened follows madeOf instructionsOf listed).2 starts
  · intro entry member
    obtain ⟨range, isRange, isHandler⟩ := exists_mem_of_forall₂ handlersOf member
    obtain ⟨frame, isPoint⟩ := follows.exists_point_of_handler isRange
    obtain ⟨offset, stands, small⟩ := madeOf.exists_offset (insideOf isPoint)
    rw [isHandler, offsetAt, Array.getD_eq_getD_getElem?, stands, Option.getD_some,
      UInt16.toNat_ofNat_of_lt' small]
    exact mem_offsets_of_isTold told ⟨frame, isPoint⟩ stands
  · intro position stop next stands stops nextStands
    obtain ⟨index, item, isItem, inside, ends, starts⟩ :=
      exists_item_of_stop stands stops nextStands
    rw [← madeOf.offsets, Array.getElem?_toList] at starts
    have isInstruction := getElem?_of_instructions instructionsOf isItem
    apply mem_offsets_of_isTold told _ starts
    rcases ends with widened | itemStops
    · obtain ⟨isLong, isBranch⟩ := Bool.and_eq_true_iff.mp widened
      have listed : index ∈ encoded.widened :=
        (madeOf.mem_widened index).mpr ⟨item.1, by rw [isItem, ← isLong], isBranch⟩
      exact (lt_length_of_widened follows madeOf instructionsOf listed).2
    · exact follows.exists_point_of_stop isInstruction itemStops (by omega)
  · intro run isRun
    obtain ⟨notEmpty, ends, _⟩ := FlowAnalysis.isDead_of_mem_deadRuns isRun
    have isPoint : (run.start, Frame.deadCode) ∈ method.mapPoints analysis encoded.widened := by
      apply mem_framePoints_iff.mpr
      rw [FlowAnalysis.FollowsControl.size_overwriteDead, ← follows.size]
      exact ⟨by omega, .inl ⟨⟨run, isRun, rfl⟩, rfl⟩⟩
    obtain ⟨offset, stands, _⟩ := madeOf.exists_offset (insideOf isPoint)
    exact ⟨offset, mem_offsets_of_isTold told ⟨_, isPoint⟩ stands, stands⟩

/-- Every point of a method has an offset, and its frame can be counted. -/
theorem Method.countable_of_mapPoints
    {hierarchy : Hierarchy}
    (accepted : method.analyze hierarchy = .ok analysis)
    (stackFits : analysis.maxStack ≤ 65535)
    (localsFit : analysis.maxLocals ≤ 65535)
    {point : Nat × Frame}
    (member : point ∈ method.mapPoints analysis encoded.widened) :
    point.2.locals.length < 2 ^ 16 ∧ point.2.stack.length < 2 ^ 16 := by
  obtain ⟨index, frame⟩ := point
  rcases (mem_framePoints_iff.mp member).2 with ⟨_, rfl⟩ | ⟨_, isFrame⟩
  · exact ⟨Nat.two_pow_pos 16, Nat.one_lt_two_pow (by decide)⟩
  · obtain ⟨localsLess, stackLess⟩ := frame_le_of_analyze_eq_ok accepted isFrame
    dsimp only
    omega

/-- The stack map of an assembled method expands to the frames of the analysis, and has one for
every instruction that needs one. The code is that of the method, overwritten where it is never
reached, and decoding finds the instructions in it that the stack map is about. -/
theorem Method.isMappedTo_of_assemble_eq_ok
    {method : Method}
    {hierarchy : Hierarchy}
    {version : Version}
    (mapped : version.isAtLeast Version.java6 = true)
    {before after : ConstantPool}
    (consistent : before.IsConsistent)
    {code : CodeAttribute}
    (assembled : method.assemble hierarchy version before = .ok code after) :
    ∃ analysis encoded between placed entry map? frames,
      method.analyze hierarchy = .ok analysis ∧
      encode (analysis.overwriteDead method.instructions) before = .ok encoded between ∧
      code.bytes = encoded.bytes ∧
      encoded.IsMadeOf JumpRange.short placed ∧
      placed.map (fun item => item.1.instruction) =
        (analysis.overwriteDead method.instructions).toList ∧
      ((∀ instruction ∈ analysis.overwriteDead method.instructions,
        instruction.SwitchFits ∧ instruction.CallFits after) →
          Decodes after code.bytes.length 0 code.bytes
            (emissionFrom (placeIn encoded.offsets) 0 placed)) ∧
      method.entryFrame.toMapFrame encoded.offsets after = .ok entry after ∧
      Attribute.find? code.attributes after StackMap = .ok map? ∧
      (map?.getD ⟨[]⟩).expand? entry = some frames ∧
      analysis.IsMappedTo encoded.offsets (emissionFrom (placeIn encoded.offsets) 0 placed)
        code.exceptions after frames := by
  unfold assemble at assembled
  obtain ⟨analysis, _, analyzed, assembled⟩ := run_bind_eq_ok.mp assembled
  obtain ⟨accepted, rfl⟩ := run_ofExcept_eq_ok.mp analyzed
  obtain ⟨encoded, between, isEncoded, assembled⟩ := run_bind_eq_ok.mp assembled
  dsimp only at assembled
  split at assembled
  · cases assembled
  rename_i stackFits
  split at assembled
  · cases assembled
  rename_i localsFit
  have usesStackMaps : version.usesStackMaps = true := mapped
  rw [usesStackMaps, if_pos rfl] at assembled
  obtain ⟨maps, withMap, mapDone, assembled⟩ := run_bind_eq_ok.mp assembled
  obtain ⟨lines, withLines, linesDone, assembled⟩ := run_bind_eq_ok.mp assembled
  obtain ⟨locals, withVariables, variablesDone, assembled⟩ := run_bind_eq_ok.mp assembled
  obtain ⟨exceptions, withExceptions, exceptionsDone, assembled⟩ := run_bind_eq_ok.mp assembled
  obtain ⟨rfl, rfl⟩ := run_pure_eq_ok.mp assembled
  have follows := FlowAnalysis.followsControl_of_analyze_eq_ok accepted
  obtain ⟨betweenConsistent, betweenExtends, placed, madeOf, instructionsOf, linked⟩ :=
    isMadeOf_of_encodeWithin_eq_ok consistent isEncoded
  have count := length_of_instructions instructionsOf
  -- The points of the method can be written.
  have stands : ∀ point ∈ method.mapPoints analysis encoded.widened,
      ∃ offset, encoded.offsets[point.1]? = some offset ∧ offset < 2 ^ 16 := by
    intro point member
    apply madeOf.exists_offset
    rw [count]
    exact (mem_framePoints_iff.mp member).1
  have small : ∀ point ∈ method.mapPoints analysis encoded.widened,
      point.2.locals.length < 2 ^ 16 ∧ point.2.stack.length < 2 ^ 16 := by
    intro point member
    apply countable_of_mapPoints accepted (by omega) _ member
    unfold localsNeeded at localsFit
    omega
  have few : (method.mapPoints analysis encoded.widened).length < 2 ^ 16 := by
    apply Nat.lt_of_le_of_lt length_framePoints_le
    rw [← count]
    exact madeOf.length_lt
  -- Everything that was written means the same in the last pool.
  obtain ⟨withMapConsistent, withMapExtends, mapMeans⟩ :=
    yields_stackMapAttribute stands (pairwise_offsets_mapPoints madeOf instructionsOf) small few
      _ _ _ betweenConsistent mapDone
  obtain ⟨withLinesConsistent, withLinesExtends, linesMean⟩ :=
    yields_lineAttribute _ _ _ withMapConsistent linesDone
  obtain ⟨withVariablesConsistent, withVariablesExtends, variablesMean⟩ :=
    yields_variableAttribute _ _ _ withLinesConsistent variablesDone
  obtain ⟨afterConsistent, afterExtends, handlersOf⟩ :=
    yields_mapM _ (fun range _ => yields_exceptionEntry range) _ _ _ withVariablesConsistent
      exceptionsDone
  have extendsLines := afterExtends.trans withVariablesExtends
  have extendsMap := extendsLines.trans withLinesExtends
  obtain ⟨entry, frames, entryTold, told, isFound⟩ := mapMeans _ afterConsistent extendsMap
  obtain ⟨map?, isMap, expands⟩ := isFound (lines ++ locals) (by
    intro other member
    rcases List.mem_append.mp member with isLine | isVariable
    · exact linesMean _ afterConsistent extendsLines other isLine
    · exact variablesMean _ afterConsistent afterExtends other isVariable)
  refine ⟨analysis, encoded, between, placed, entry, map?, frames, accepted, isEncoded, rfl,
    madeOf, instructionsOf, ?_, entryTold, ?_, expands, ?_⟩
  · intro fits
    have listed : ∀ item ∈ placed,
        item.1.instruction ∈ analysis.overwriteDead method.instructions := by
      intro item member
      rw [← Array.mem_toList_iff, ← instructionsOf]
      exact List.mem_map_of_mem member
    apply madeOf.decodes (by decide)
    · intro item member
      exact linked _ afterConsistent (extendsMap.trans withMapExtends) item member
        (fits _ (listed item member)).2
    · exact fun item member => (fits _ (listed item member)).1
    · exact fun index member => (lt_length_of_widened follows madeOf instructionsOf member).1
  · dsimp only
    rw [List.append_assoc]
    exact isMap
  · exact isMappedTo_of_isTold follows madeOf instructionsOf afterConsistent
      (handlersOf _ afterConsistent (.refl _)) told

end Assembled

/-! ## Code that is skipped -/

namespace SkippedCode

/-- A jump over an instruction that is never reached. -/
def method : Method where
  instructions := #[.goto 2, .op .pushNull, .op (.leave none)]
  owner := .object
  flags := MethodFlags.accStatic
  name := ⟨"skip", by decide⟩
  type := ⟨[], none⟩
  hasVariableTable := false
  maxLocals := 1

/-- The frames of the method. -/
def frames : FlowAnalysis where
  frames := #[some ⟨[], []⟩, none, some ⟨[], []⟩]
  maxStack := 0
  maxLocals := 0

/-- Instead of what is never reached, nothing is thrown. -/
def encoded : EncodedCode where
  bytes := [0xa7, 0, 4, 0xbf, 0xb1]
  offsets := #[0, 3, 4, 5]
  widened := []

theorem analyze_eq_ok :
    method.analyze .core = .ok frames := by
  decide +kernel

theorem encode_eq_ok :
    encode (frames.overwriteDead method.instructions) ConstantPool.empty =
      .ok encoded ConstantPool.empty := by
  with_unfolding_all rfl

theorem mapPoints_eq :
    method.mapPoints frames [] = [(1, Frame.deadCode), (2, ⟨[], []⟩)] := by
  rw [Method.mapPoints, framePoints_eq]
  with_unfolding_all rfl

theorem stackMapAttribute_eq_ok :
    ∃ attributes after, method.stackMapAttribute encoded.offsets (method.mapPoints frames [])
      ConstantPool.empty = .ok attributes after := by
  have emptyEnd : ConstantPool.empty.constants.endOffset = 1 := rfl
  have limit : ConstantPool.positionLimit = 65535 := rfl
  obtain ⟨throwable, withClass, interned, classEnd, _⟩ :=
    (RefType.object .throwable).fitsIn_intern ConstantPool.empty (by omega)
  obtain ⟨name, after, named, _, _⟩ :=
    ConstantPool.fitsIn_intern (.utf8 "StackMapTable") withClass
      (show withClass.constants.endOffset + 1 ≤ _ by omega)
  have serialized : Frame.deadCode.toMapFrame encoded.offsets ConstantPool.empty =
      .ok ⟨[], [.object throwable]⟩ withClass := by
    have stackTold : ([.object (.object .throwable)] : List VType).mapM
        (fun type => type.toStackMap encoded.offsets) ConstantPool.empty =
          .ok [.object throwable] withClass := by
      rw [List.mapM_cons]
      refine run_bind_eq_ok.mpr ⟨.object throwable, withClass, ?_, rfl⟩
      change (VerificationType.object <$> (RefType.object .throwable).intern) _ = _
      rw [map_eq_pure_bind]
      exact run_bind_eq_ok.mpr ⟨throwable, withClass, interned, rfl⟩
    refine run_bind_eq_ok.mpr ⟨[], ConstantPool.empty, rfl, ?_⟩
    exact run_bind_eq_ok.mpr ⟨[.object throwable], withClass, stackTold, rfl⟩
  have written : stackMapFrom encoded.offsets ⟨[], []⟩ none [(1, .deadCode), (2, ⟨[], []⟩)]
      ConstantPool.empty = .ok [.sameWithOne 3 (.object throwable), .same 0] withClass := by
    exact run_bind_eq_ok.mpr ⟨_, withClass, serialized, rfl⟩
  rw [mapPoints_eq]
  refine ⟨[⟨name, write (StackMap.mk [.sameWithOne 3 (.object throwable), .same 0])⟩], after, ?_⟩
  refine run_bind_eq_ok.mpr ⟨⟨[], []⟩, ConstantPool.empty, rfl, ?_⟩
  refine run_bind_eq_ok.mpr ⟨_, withClass, written, ?_⟩
  exact run_bind_eq_ok.mpr ⟨_, after, run_bind_eq_ok.mpr ⟨name, after, named, rfl⟩, rfl⟩

theorem assemble_eq_ok :
    ∃ code after, method.assemble .core .java8 ConstantPool.empty = .ok code after ∧
      code.bytes = encoded.bytes := by
  obtain ⟨attributes, after, written⟩ := stackMapAttribute_eq_ok
  refine ⟨⟨0, 1, encoded.bytes, [], attributes ++ [] ++ []⟩, after, ?_, rfl⟩
  refine run_bind_eq_ok.mpr ⟨frames, ConstantPool.empty,
    run_ofExcept_eq_ok.mpr ⟨analyze_eq_ok, rfl⟩, ?_⟩
  refine run_bind_eq_ok.mpr ⟨encoded, ConstantPool.empty, encode_eq_ok, ?_⟩
  exact run_bind_eq_ok.mpr ⟨attributes, after, written, rfl⟩

end SkippedCode

open SkippedCode in
/-- The instruction that is never reached becomes one that throws, in the frame of such code. -/
theorem skippedCode_isMapped :
    Version.java8.isAtLeast Version.java6 = true ∧ ConstantPool.empty.IsConsistent ∧
      ∃ code after, method.assemble .core .java8 ConstantPool.empty = .ok code after ∧
        code.bytes = [0xa7, 0, 4, 0xbf, 0xb1] ∧
        ∃ entry map? told throwable, Attribute.find? code.attributes after StackMap = .ok map? ∧
          (map?.getD ⟨[]⟩).expand? entry = some told ∧
          RefType.resolve after throwable = .ok (.object .throwable) ∧
          (3, ⟨[], [.object throwable]⟩) ∈ told := by
  obtain ⟨code, after, assembled, bytes⟩ := assemble_eq_ok
  refine ⟨rfl, ConstantPool.isConsistent_empty, code, after, assembled, bytes, ?_⟩
  obtain ⟨analysis, written, between, placed, entry, map?, told, accepted, isWritten, _, _, _, _, _,
    isMap, expands, isMapped⟩ :=
    Method.isMappedTo_of_assemble_eq_ok rfl ConstantPool.isConsistent_empty assembled
  rw [analyze_eq_ok, Except.ok.injEq] at accepted
  subst accepted
  rw [encode_eq_ok, EStateM.Result.ok.injEq] at isWritten
  obtain ⟨rfl, rfl⟩ := isWritten
  obtain ⟨offset, member, stands⟩ := isMapped.runs ⟨1, 2⟩ (by decide)
  obtain ⟨⟨position, frame⟩, isTold, rfl⟩ := List.mem_map.mp member
  cases stands
  obtain ⟨index, isOffset, ⟨live, isLive, _⟩ | ⟨_, throwable, resolved, isDead⟩⟩ :=
    isMapped.tells _ isTold
  · match index with
    | 0 => cases isOffset
    | 1 => cases isLive
    | 2 => cases isOffset
    | 3 => cases isOffset
    | _ + 4 => cases isOffset
  · dsimp only at isDead
    rw [isDead] at isTold
    exact ⟨entry, map?, told, throwable, isMap, expands, resolved, isTold⟩

end ClosureConversion
