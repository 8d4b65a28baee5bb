import ClosureConversion.Proofs.Flow.Worklist
import ClosureConversion.Proofs.StackMap.DeadRuns

/-!
Contract: the instructions that have a frame in the stack map.

Owns:
- that control goes from instructions that are reached to instructions that are reached,
  and comes from such instructions;
- which frame an instruction has in the stack map;
- that there is one for every target of a jump, for every handler, and for what follows
  an instruction after which control does not go on, or a jump that was written as two.

Does not own: how the frames are written.
-/

namespace ClosureConversion

variable {method : Method} {hierarchy : Hierarchy} {analysis : FlowAnalysis}

/-! ## Reachable instructions -/

namespace FlowAnalysis

/-- An instruction has a frame exactly if control can reach it. -/
structure FollowsControl (analysis : FlowAnalysis) (method : Method) : Prop where
  size : analysis.frames.size = method.instructions.size
  leaves : ∀ {index target}, analysis.isReachable index = true → method.GoesTo index target →
    analysis.isReachable target = true
  inside : ∀ {index instruction}, analysis.isReachable index = true →
    method.instructions[index]? = some instruction → instruction.fallsThrough = true →
      index + 1 < method.instructions.size
  enters : ∀ {index}, analysis.isReachable index = true →
    index = 0 ∨ ∃ source, analysis.isReachable source = true ∧ method.GoesTo source index

theorem isReachable_iff
    {index : Nat} :
    analysis.isReachable index = true ↔ ∃ frame, analysis.frame? index = some frame :=
  Option.isSome_iff_exists

theorem isReachable_of_covers
    {Below : Frame → Frame → Prop}
    {index : Nat}
    {frame : Frame}
    (covers : analysis.Covers Below index frame) :
    analysis.isReachable index = true := by
  obtain ⟨recorded, isRecorded, _⟩ := covers
  exact isReachable_iff.mpr ⟨recorded, isRecorded⟩

/-- Only instructions of the method are reached. -/
theorem lt_size_of_isReachable
    {index : Nat}
    (reachable : analysis.isReachable index = true) :
    index < analysis.frames.size := by
  obtain ⟨frame, isFrame⟩ := isReachable_iff.mp reachable
  apply Nat.lt_of_not_le
  intro beyond
  rw [frame?, Array.getD_eq_getD_getElem?, Array.getElem?_eq_none beyond] at isFrame
  cases isFrame

/-- The analysis of a method gives frames to what control can reach. -/
theorem followsControl_of_analyze_eq_ok
    (accepted : method.analyze hierarchy = .ok analysis) :
    analysis.FollowsControl method := by
  obtain ⟨state, consistent, isDone, rfl⟩ :=
    Method.isConsistent_of_analyze_eq_ok Frame.mergeOrder_trivial accepted
  have settled : ∀ {index : Nat}, state.found.isReachable index = true →
      ∃ instruction before after, state.found.IsSettledAt (fun _ _ => True) method index
        instruction before after := by
    intro index reachable
    obtain ⟨frame, isFrame⟩ := isReachable_iff.mp reachable
    rcases consistent.settled isFrame with isWaiting | settled
    · rw [isDone] at isWaiting
      cases isWaiting
    · obtain ⟨instruction, before, after, _, settledAt⟩ := settled frame isFrame
      exact ⟨instruction, before, after, settledAt⟩
  refine ⟨consistent.size, ?_, ?_, ?_⟩
  · intro index target reachable goesTo
    obtain ⟨instruction, isInstruction, ways⟩ := goesTo
    obtain ⟨settledInstruction, before, after, settledAt⟩ := settled reachable
    have same := settledAt.isInstruction
    rw [isInstruction, Option.some.injEq] at same
    subst same
    rcases ways with isTarget | ⟨fallsThrough, rfl⟩ | ⟨range, isRange, covers, rfl⟩
    · exact isReachable_of_covers (settledAt.targets target isTarget)
    · exact isReachable_of_covers (settledAt.next fallsThrough).2
    · exact isReachable_of_covers
        (settledAt.handlers range isRange covers _ List.mem_cons_self)
  · intro index instruction reachable isInstruction fallsThrough
    obtain ⟨settledInstruction, before, after, settledAt⟩ := settled reachable
    have same := settledAt.isInstruction
    rw [isInstruction, Option.some.injEq] at same
    subst same
    exact (settledAt.next fallsThrough).1
  · intro index reachable
    obtain ⟨frame, isFrame⟩ := isReachable_iff.mp reachable
    rcases consistent.entered isFrame with isFirst | ⟨source, hasFrame, goesTo⟩
    · exact .inl isFirst
    · exact .inr ⟨source, Option.isSome_iff_ne_none.mpr hasFrame, goesTo⟩

/-! ## Overwritten code -/

theorem getElem?_overwriteDead
    {instructions : Array (Instruction Nat)}
    {index : Nat}
    {instruction : Instruction Nat}
    (stands : (analysis.overwriteDead instructions)[index]? = some instruction) :
    (analysis.isReachable index = true ∧ instructions[index]? = some instruction) ∨
      (analysis.isReachable index = false ∧ instruction.targets = [] ∧
        (instruction.fallsThrough = false → index + 1 < instructions.size →
          analysis.isReachable (index + 1) = true)) := by
  rw [overwriteDead, Array.getElem?_mapIdx, Option.map_eq_some_iff] at stands
  obtain ⟨original, isOriginal, isInstruction⟩ := stands
  split at isInstruction
  · rename_i reachable
    rw [isInstruction] at isOriginal
    exact .inl ⟨reachable, isOriginal⟩
  · rename_i unreachable
    refine .inr ⟨Bool.eq_false_iff.mpr unreachable, ?_⟩
    split at isInstruction
    · rw [← isInstruction]
      exact ⟨rfl, fun fallsThrough => by cases fallsThrough⟩
    · rename_i goesOn
      rw [← isInstruction]
      refine ⟨rfl, fun _ inside => ?_⟩
      simpa [inside] using goesOn

end FlowAnalysis

/-! ## Points -/

section Points

variable {instructions : Array (Instruction Nat)} {ranges : List (ExceptionRange Nat)}
  {widened : List Nat} {index : Nat}

/-- The points without the sets in which they are looked up. -/
theorem framePoints_eq :
    framePoints instructions analysis ranges widened =
      (List.range instructions.size).filterMap fun index =>
        (if (analysis.deadRuns.map DeadRun.start).contains index then some Frame.deadCode
          else if (frameTargets instructions analysis ranges widened).contains index then
            analysis.frame? index
          else none).map (index, ·) := by
  simp only [framePoints, mapFrameAt?, Std.HashSet.contains_ofList]

/-- The frames of the stack map are those of the instructions that begin dead runs, and those
of the instructions for which live code needs one. -/
theorem mem_framePoints_iff
    {frame : Frame} :
    (index, frame) ∈ framePoints instructions analysis ranges widened ↔
      index < instructions.size ∧
        (((∃ run ∈ analysis.deadRuns, run.start = index) ∧ frame = Frame.deadCode) ∨
          (index ∈ frameTargets instructions analysis ranges widened ∧
            analysis.frame? index = some frame)) := by
  rw [framePoints_eq, List.mem_filterMap]
  constructor
  · rintro ⟨position, inside, isPoint⟩
    rw [List.mem_range] at inside
    obtain ⟨found, isFound, isPair⟩ := Option.map_eq_some_iff.mp isPoint
    cases isPair
    refine ⟨inside, ?_⟩
    split at isFound
    · rename_i isStart
      cases isFound
      exact .inl ⟨List.mem_map.mp (List.contains_iff_mem.mp isStart), rfl⟩
    · split at isFound
      · rename_i isTarget
        exact .inr ⟨List.contains_iff_mem.mp isTarget, isFound⟩
      · cases isFound
  · rintro ⟨inside, isPoint⟩
    refine ⟨index, List.mem_range.mpr inside, ?_⟩
    rw [Option.map_eq_some_iff]
    refine ⟨frame, ?_, rfl⟩
    rcases isPoint with ⟨isStart, rfl⟩ | ⟨isTarget, isFrame⟩
    · rw [if_pos (List.contains_iff_mem.mpr (List.mem_map.mpr isStart))]
    · rw [if_neg, if_pos (List.contains_iff_mem.mpr isTarget), isFrame]
      intro isStart
      obtain ⟨run, isRun, rfl⟩ := List.mem_map.mp (List.contains_iff_mem.mp isStart)
      rw [FlowAnalysis.frame?_start_of_mem_deadRuns isRun] at isFrame
      cases isFrame

/-- The frames stand in the order of their instructions. -/
theorem pairwise_framePoints :
    (framePoints instructions analysis ranges widened).Pairwise (·.1 < ·.1) := by
  unfold framePoints
  rw [List.pairwise_filterMap]
  apply List.pairwise_lt_range.imp
  intro first second before point isPoint other isOther
  obtain ⟨_, _, rfl⟩ := Option.map_eq_some_iff.mp isPoint
  obtain ⟨_, _, rfl⟩ := Option.map_eq_some_iff.mp isOther
  exact before

theorem length_framePoints_le :
    (framePoints instructions analysis ranges widened).length ≤ instructions.size := by
  unfold framePoints
  apply Nat.le_trans (List.length_filterMap_le _ _)
  exact Nat.le_of_eq List.length_range

/-- A target that is reached has a frame in the stack map. -/
theorem exists_point_of_mem_frameTargets
    (inside : index < instructions.size)
    (isTarget : index ∈ frameTargets instructions analysis ranges widened)
    (reachable : analysis.isReachable index = true) :
    ∃ frame, (index, frame) ∈ framePoints instructions analysis ranges widened := by
  obtain ⟨frame, isFrame⟩ := FlowAnalysis.isReachable_iff.mp reachable
  exact ⟨frame, mem_framePoints_iff.mpr ⟨inside, .inr ⟨isTarget, isFrame⟩⟩⟩

/-- What comes after a reachable instruction has a frame if it is a target, even if it is not
reached. -/
theorem exists_point_after
    (size : analysis.frames.size = instructions.size)
    (inside : index + 1 < instructions.size)
    (reachable : analysis.isReachable index = true)
    (isTarget : index + 1 ∈ frameTargets instructions analysis ranges widened) :
    ∃ frame, (index + 1, frame) ∈ framePoints instructions analysis ranges widened := by
  cases next : analysis.isReachable (index + 1) with
  | true => exact exists_point_of_mem_frameTargets inside isTarget next
  | false =>
      have begins := FlowAnalysis.exists_run_after (by omega) reachable next
      exact ⟨.deadCode, mem_framePoints_iff.mpr ⟨inside, .inl ⟨begins, rfl⟩⟩⟩

theorem mem_frameTargets_of_instruction
    {instruction : Instruction Nat}
    {target : Nat}
    (reachable : analysis.isReachable index = true)
    (stands : instructions[index]? = some instruction)
    (isTarget : target ∈ instruction.targets ∨
      (instruction.fallsThrough = false ∧ target = index + 1)) :
    target ∈ frameTargets instructions analysis ranges widened := by
  unfold frameTargets
  dsimp only
  rw [List.mem_append, List.mem_append]
  refine .inl (.inl (List.mem_flatMap.mpr ⟨(instruction, index), ?_, ?_⟩))
  · rw [List.mem_zipIdx_iff_getElem?, Array.getElem?_toList]
    exact stands
  · dsimp only
    rw [if_pos reachable, List.mem_append]
    rcases isTarget with inTargets | ⟨stops, rfl⟩
    · exact .inl inTargets
    · rw [stops]
      exact .inr (List.mem_singleton.mpr rfl)

theorem mem_frameTargets_of_handler
    {range : ExceptionRange Nat}
    (member : range ∈ ranges) :
    range.handler ∈ frameTargets instructions analysis ranges widened := by
  unfold frameTargets
  dsimp only
  rw [List.mem_append, List.mem_append]
  exact .inl (.inr (List.mem_map_of_mem member))

theorem mem_frameTargets_of_widened
    (member : index ∈ widened) :
    index + 1 ∈ frameTargets instructions analysis ranges widened := by
  unfold frameTargets
  dsimp only
  rw [List.mem_append]
  exact .inr (List.mem_map_of_mem member)

end Points

/-! ## The points of a method -/

/-- The frames of the stack map of a method whose code is overwritten where it is never
reached. -/
def Method.mapPoints (method : Method) (analysis : FlowAnalysis) (widened : List Nat) :
    List (Nat × Frame) :=
  framePoints (analysis.overwriteDead method.instructions) analysis
    (splitRanges method.handlers.toList analysis) widened

namespace FlowAnalysis.FollowsControl

variable {widened : List Nat} {index : Nat}

theorem size_overwriteDead
    (instructions : Array (Instruction Nat)) :
    (analysis.overwriteDead instructions).size = instructions.size :=
  Array.size_mapIdx

/-- Every target of a jump has a frame. -/
theorem exists_point_of_target
    (follows : analysis.FollowsControl method)
    {instruction : Instruction Nat}
    {target : Nat}
    (stands : (analysis.overwriteDead method.instructions)[index]? = some instruction)
    (isTarget : target ∈ instruction.targets) :
    ∃ frame, (target, frame) ∈ method.mapPoints analysis widened := by
  rcases getElem?_overwriteDead stands with ⟨reachable, isOriginal⟩ | ⟨_, noTargets, _⟩
  · have targetReachable := follows.leaves reachable ⟨instruction, isOriginal, .inl isTarget⟩
    have inside := lt_size_of_isReachable targetReachable
    apply exists_point_of_mem_frameTargets _
      (mem_frameTargets_of_instruction reachable stands (.inl isTarget)) targetReachable
    rw [size_overwriteDead, ← follows.size]
    exact inside
  · rw [noTargets] at isTarget
    cases isTarget

/-- Every handler of a part of an exception range has a frame. -/
theorem exists_point_of_handler
    (follows : analysis.FollowsControl method)
    {part : ExceptionRange Nat}
    (member : part ∈ splitRanges method.handlers.toList analysis) :
    ∃ frame, (part.handler, frame) ∈ method.mapPoints analysis widened := by
  have reachable := isReachable_of_mem_splitRanges member
  apply exists_point_of_mem_frameTargets _ (mem_frameTargets_of_handler member) reachable
  rw [size_overwriteDead, ← follows.size]
  exact lt_size_of_isReachable reachable

/-- A jump on a condition goes on to an instruction, which has a frame if the jump is written
as two. -/
theorem exists_point_of_widened
    (follows : analysis.FollowsControl method)
    {instruction : Instruction Nat}
    (stands : (analysis.overwriteDead method.instructions)[index]? = some instruction)
    (isBranch : instruction.isBranch = true)
    (member : index ∈ widened) :
    index + 1 < method.instructions.size ∧
      ∃ frame, (index + 1, frame) ∈ method.mapPoints analysis widened := by
  have hasTarget : instruction.targets ≠ [] ∧ instruction.fallsThrough = true := by
    cases instruction with
    | branch condition target => exact ⟨List.cons_ne_nil _ _, rfl⟩
    | _ => cases isBranch
  rcases getElem?_overwriteDead stands with ⟨reachable, isOriginal⟩ | ⟨_, noTargets, _⟩
  · have inside := follows.inside reachable isOriginal hasTarget.2
    have next := follows.leaves reachable
      ⟨instruction, isOriginal, .inr (.inl ⟨hasTarget.2, rfl⟩)⟩
    refine ⟨inside, exists_point_of_mem_frameTargets ?_ (mem_frameTargets_of_widened member) next⟩
    rw [size_overwriteDead]
    exact inside
  · exact absurd noTargets hasTarget.1

/-- A reachable instruction that none comes before is entered by a jump or an exception. -/
theorem mem_frameTargets_of_unreachable_before
    (follows : analysis.FollowsControl method)
    (unreachable : analysis.isReachable index = false)
    (reachable : analysis.isReachable (index + 1) = true) :
    index + 1 ∈ frameTargets (analysis.overwriteDead method.instructions) analysis
      (splitRanges method.handlers.toList analysis) widened := by
  rcases follows.enters reachable with isFirst | ⟨source, sourceReachable, goesTo⟩
  · cases isFirst
  · obtain ⟨instruction, isInstruction, ways⟩ := goesTo
    rcases ways with isTarget | ⟨_, isNext⟩ | ⟨range, isRange, covers, isHandler⟩
    · apply mem_frameTargets_of_instruction sourceReachable _ (.inl isTarget)
      rw [overwriteDead, Array.getElem?_mapIdx, isInstruction, Option.map_some,
        if_pos sourceReachable]
    · rw [← Nat.succ.inj isNext, unreachable] at sourceReachable
      cases sourceReachable
    · rw [isHandler] at reachable ⊢
      obtain ⟨part, isPart, samePart⟩ :=
        exists_mem_splitRanges isRange reachable sourceReachable covers
      rw [← samePart]
      exact mem_frameTargets_of_handler isPart

/-- What follows an instruction after which control does not go on has a frame. -/
theorem exists_point_of_stop
    (follows : analysis.FollowsControl method)
    {instruction : Instruction Nat}
    (stands : (analysis.overwriteDead method.instructions)[index]? = some instruction)
    (stops : instruction.fallsThrough = false)
    (inside : index + 1 < method.instructions.size) :
    ∃ frame, (index + 1, frame) ∈ method.mapPoints analysis widened := by
  have insideOverwritten : index + 1 < (analysis.overwriteDead method.instructions).size := by
    rw [size_overwriteDead]
    exact inside
  rcases getElem?_overwriteDead stands with ⟨reachable, _⟩ | ⟨unreachable, _, goesOn⟩
  · apply exists_point_after _ insideOverwritten reachable
    · exact mem_frameTargets_of_instruction reachable stands (.inr ⟨stops, rfl⟩)
    · rw [size_overwriteDead, follows.size]
  · have next := goesOn stops inside
    exact exists_point_of_mem_frameTargets insideOverwritten
      (follows.mem_frameTargets_of_unreachable_before unreachable next) next

end FlowAnalysis.FollowsControl

end ClosureConversion
