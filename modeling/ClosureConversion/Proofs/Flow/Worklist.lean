import ClosureConversion.Flow.Analysis
import ClosureConversion.Proofs.Flow.Execution

/-!
Contract: the frames that the analysis of a method ends with stand for everything that
control brings to an instruction.

Owns:
- what it means that the frame of an instruction is settled;
- the growth of the frames from one state of the analysis to a later one;
- every instruction with a frame is settled or waits to be visited, in every state that
  the analysis goes through;
- every instruction with a frame, but for the first one, comes after another one with a
  frame.

Does not own: that the analysis ends.
-/

namespace ClosureConversion

variable {hierarchy : Hierarchy} {Below : Frame → Frame → Prop} {method : Method}

namespace Method

/-- Control may go from an instruction to another one. -/
def GoesTo (method : Method) (index target : Nat) : Prop :=
  ∃ instruction, method.instructions[index]? = some instruction ∧
    (target ∈ instruction.targets ∨ (instruction.fallsThrough = true ∧ target = index + 1) ∨
      ∃ range ∈ method.handlers.toList, range.covers index = true ∧ target = range.handler)

/-- Every jump and every handler leads to an instruction. -/
structure TargetsInside (method : Method) : Prop where
  instructions : ∀ {index : Nat} {instruction : Instruction Nat},
    method.instructions[index]? = some instruction → ∀ target ∈ instruction.targets, target < method.instructions.size
  handlers : ∀ range ∈ method.handlers.toList, range.start ≤ range.stop ∧
    range.stop ≤ method.instructions.size ∧ range.handler < method.instructions.size

theorem targetsInside_of_badTarget?_eq_none
    (noBadTarget : method.badTarget? = none) :
    method.TargetsInside := by
  unfold badTarget? at noBadTarget
  dsimp only at noBadTarget
  split at noBadTarget
  · cases noBadTarget
  · rename_i noBadJump
    rw [List.find?_eq_none] at noBadJump
    rw [List.findSome?_eq_none_iff] at noBadTarget
    constructor
    · intro index instruction isInstruction target isTarget
      have member : instruction ∈ method.instructions.toList :=
        Array.mem_toList_iff.mpr (Array.mem_of_getElem? isInstruction)
      have inside := noBadJump target (List.mem_flatMap.mpr ⟨instruction, member, isTarget⟩)
      simpa using inside
    · intro range member
      have placed := noBadTarget range member
      unfold misplaced? at placed
      split at placed
      · cases placed
      · rename_i ordered
        split at placed
        · cases placed
        · rename_i inside
          simp only [Bool.or_eq_true, decide_eq_true_eq, not_or, Nat.not_lt] at ordered
          exact ⟨ordered.1, ordered.2, Nat.lt_of_not_le inside⟩

/-- The analysis of a method runs until no frame changes, from a first instruction on, and all
jumps and handlers of the method are in place. -/
theorem exists_run_of_analyze_eq_ok
    {analysis : FlowAnalysis}
    (accepted : method.analyze hierarchy = .ok analysis) :
    0 < method.instructions.size ∧ method.TargetsInside ∧
      ∃ state, FlowState.run method hierarchy (FlowState.visitBound method hierarchy)
          (FlowState.start method) = .ok state ∧
        analysis = ⟨state.frames, state.maxStack, state.maxLocals⟩ := by
  unfold analyze at accepted
  dsimp only at accepted
  split at accepted
  · cases accepted
  · rename_i notEmpty
    rw [Array.isEmpty_iff_size_eq_zero] at notEmpty
    split at accepted
    · cases accepted
    · rename_i noBadTarget
      obtain ⟨state, ran, isFound⟩ := bind_eq_ok.mp accepted
      cases isFound
      exact ⟨Nat.pos_of_ne_zero notEmpty, targetsInside_of_badTarget?_eq_none noBadTarget, state,
        ran, rfl⟩

end Method

namespace FlowAnalysis

/-- The frame of an instruction stands for another frame. -/
def Covers (analysis : FlowAnalysis) (Below : Frame → Frame → Prop) (index : Nat)
    (frame : Frame) : Prop :=
  ∃ recorded, analysis.frame? index = some recorded ∧ Below frame recorded

/-- The instruction of an index can be executed in a frame, and the frames of everything
that control goes to stand for what it brings there. -/
structure IsSettledAt (analysis : FlowAnalysis) (Below : Frame → Frame → Prop)
    (method : Method) (index : Nat) (instruction : Instruction Nat) (before after : Frame) : Prop where
  isInstruction : method.instructions[index]? = some instruction
  executes : before.execute method.owner method.instructions index instruction = .ok after
  localSlots : after.localSlots ≤ analysis.maxLocals
  targets : ∀ target ∈ instruction.targets, analysis.Covers Below target after
  next : instruction.fallsThrough = true → index + 1 < method.instructions.size ∧
    analysis.Covers Below (index + 1) after
  handlers : ∀ range ∈ method.handlers.toList, range.covers index = true →
    ∀ entry ∈ FlowState.handlerEntries range before after,
      analysis.Covers Below range.handler entry

/-- The frame of an instruction is settled if control brings nothing new to any other
instruction from it. -/
def IsSettled (analysis : FlowAnalysis) (Below : Frame → Frame → Prop) (method : Method)
    (index : Nat) : Prop :=
  ∀ recorded, analysis.frame? index = some recorded →
    ∃ instruction before after, Below recorded before ∧
      analysis.IsSettledAt Below method index instruction before after

/-- Every frame keeps wide values whole, and there is room for it. -/
structure IsSound (analysis : FlowAnalysis) : Prop where
  whole : ∀ {index frame}, analysis.frame? index = some frame → Locals.IsWhole frame.locals
  stackSlots : ∀ {index frame}, analysis.frame? index = some frame →
    frame.stackSlots ≤ analysis.maxStack
  localSlots : ∀ {index frame}, analysis.frame? index = some frame →
    frame.localSlots ≤ analysis.maxLocals

end FlowAnalysis

namespace FlowState

/-- What was found so far. -/
def found (state : FlowState) : FlowAnalysis :=
  ⟨state.frames, state.maxStack, state.maxLocals⟩

/-- A later state of the analysis: frames only become more general, those that do, and new
ones, are to be visited, and the new ones are those of certain targets. -/
structure Grows (Below : Frame → Frame → Prop) (Target : Nat → Prop)
    (earlier later : FlowState) : Prop where
  size : later.frames.size = earlier.frames.size
  worklist : ∀ index ∈ earlier.worklist, index ∈ later.worklist
  maxStack : earlier.maxStack ≤ later.maxStack
  maxLocals : earlier.maxLocals ≤ later.maxLocals
  kept : ∀ {index frame}, earlier.frame? index = some frame →
    ∃ general, later.frame? index = some general ∧ Below frame general ∧
      (index ∈ later.worklist ∨ Below general frame)
  new : ∀ {index frame}, earlier.frame? index = none → later.frame? index = some frame →
    index ∈ later.worklist ∧ Target index

namespace Grows

variable {Target : Nat → Prop}

theorem refl
    (order : Frame.MergeOrder hierarchy Below)
    (state : FlowState) :
    Grows Below Target state state where
  size := rfl
  worklist := fun _ member => member
  maxStack := Nat.le_refl _
  maxLocals := Nat.le_refl _
  kept := fun found => ⟨_, found, order.refl _, .inr (order.refl _)⟩
  new := fun missing found => by
    rw [missing] at found
    cases found

theorem trans
    (order : Frame.MergeOrder hierarchy Below)
    {first second third : FlowState}
    (grows : Grows Below Target first second)
    (growsOn : Grows Below Target second third) :
    Grows Below Target first third where
  size := growsOn.size.trans grows.size
  worklist := fun index member => growsOn.worklist index (grows.worklist index member)
  maxStack := Nat.le_trans grows.maxStack growsOn.maxStack
  maxLocals := Nat.le_trans grows.maxLocals growsOn.maxLocals
  kept := by
    intro index frame isFirst
    obtain ⟨middle, isSecond, below, waits⟩ := grows.kept isFirst
    obtain ⟨general, isThird, belowGeneral, waitsOn⟩ := growsOn.kept isSecond
    refine ⟨general, isThird, order.trans below belowGeneral, ?_⟩
    rcases waitsOn with isWaiting | generalBelow
    · exact .inl isWaiting
    · rcases waits with isWaiting | middleBelow
      · exact .inl (growsOn.worklist index isWaiting)
      · exact .inr (order.trans generalBelow middleBelow)
  new := by
    intro index frame missing isThird
    cases isSecond : second.frame? index with
    | none => exact growsOn.new isSecond isThird
    | some middle =>
        obtain ⟨isWaiting, isTarget⟩ := grows.new missing isSecond
        exact ⟨growsOn.worklist index isWaiting, isTarget⟩

/-- What a frame stands for, it stands for later. -/
theorem covers
    (order : Frame.MergeOrder hierarchy Below)
    {earlier later : FlowState}
    (grows : Grows Below Target earlier later)
    {index : Nat}
    {frame : Frame}
    (covered : earlier.found.Covers Below index frame) :
    later.found.Covers Below index frame := by
  obtain ⟨recorded, isRecorded, below⟩ := covered
  obtain ⟨general, isGeneral, recordedBelow, _⟩ := grows.kept isRecorded
  exact ⟨general, isGeneral, order.trans below recordedBelow⟩

theorem isSettledAt
    (order : Frame.MergeOrder hierarchy Below)
    {earlier later : FlowState}
    (grows : Grows Below Target earlier later)
    {index : Nat}
    {instruction : Instruction Nat}
    {before after : Frame}
    (settled : earlier.found.IsSettledAt Below method index instruction before after) :
    later.found.IsSettledAt Below method index instruction before after where
  isInstruction := settled.isInstruction
  executes := settled.executes
  localSlots := Nat.le_trans settled.localSlots grows.maxLocals
  targets := fun target member => grows.covers order (settled.targets target member)
  next := fun fallsThrough =>
    ⟨(settled.next fallsThrough).1, grows.covers order (settled.next fallsThrough).2⟩
  handlers := fun range member isCovered entry isEntry =>
    grows.covers order (settled.handlers range member isCovered entry isEntry)

/-- A settled frame stays so until the instruction is to be visited again. -/
theorem isSettled
    (order : Frame.MergeOrder hierarchy Below)
    {earlier later : FlowState}
    (grows : Grows Below Target earlier later)
    {index : Nat}
    (settled : earlier.found.IsSettled Below method index)
    {frame : Frame}
    (isEarlier : earlier.frame? index = some frame)
    (notWaiting : index ∉ later.worklist) :
    later.found.IsSettled Below method index := by
  intro recorded isRecorded
  obtain ⟨general, isGeneral, _, isWaiting | below⟩ := grows.kept isEarlier
  · exact absurd isWaiting notWaiting
  · obtain rfl : general = recorded := Option.some.inj (isGeneral.symm.trans isRecorded)
    obtain ⟨instruction, before, after, frameBelow, settledAt⟩ := settled frame isEarlier
    exact ⟨instruction, before, after, order.trans below frameBelow,
      grows.isSettledAt order settledAt⟩

end Grows

/-! ## Steps -/

theorem mem_worklist_record
    {state : FlowState}
    {target : Nat}
    {frame : Frame}
    {index : Nat} :
    index ∈ (state.record target frame).worklist ↔ index = target ∨ index ∈ state.worklist := by
  unfold record
  dsimp only
  split
  · rename_i isWaiting
    have isWaiting : target ∈ state.worklist := by simpa using isWaiting
    constructor
    · exact .inr
    · rintro (rfl | member)
      · exact isWaiting
      · exact member
  · exact List.mem_cons

variable {Target : Nat → Prop} {state next : FlowState} {target : Nat} {incoming : Frame}

/-- The outcomes of control going on to an instruction. -/
theorem flowInto_cases
    (computed : state.flowInto method hierarchy target incoming = .ok next) :
    (state.frame? target = none ∧ next = state.record target incoming) ∨
      ∃ existing merged changed, state.frame? target = some existing ∧
        existing.merge hierarchy incoming = .ok (merged, changed) ∧
        next = if changed then state.record target merged
          else { state with frames := state.frames.setIfInBounds target (some merged) } := by
  unfold flowInto at computed
  split at computed
  · rename_i missing
    cases computed
    exact .inl ⟨missing, rfl⟩
  · rename_i existing found
    split at computed
    · cases computed
    · cases computed
    · rename_i merged changed isMerged
      refine .inr ⟨existing, merged, changed, found, isMerged, ?_⟩
      cases changed <;> cases computed <;> rfl

/-- A later state that differs from a state in the frame of one instruction, and perhaps
in that it is to be visited. -/
structure SetsFrame (state : FlowState) (target : Nat) (frame : Frame) (next : FlowState) :
    Prop where
  frames : next.frames = state.frames.setIfInBounds target (some frame)
  worklist : ∀ index ∈ state.worklist, index ∈ next.worklist
  maxStack : next.maxStack = state.maxStack
  maxLocals : next.maxLocals = state.maxLocals

theorem setsFrame_record
    (frame : Frame) :
    state.SetsFrame target frame (state.record target frame) :=
  ⟨rfl, fun _ member => mem_worklist_record.mpr (.inr member), rfl, rfl⟩

namespace SetsFrame

variable {frame : Frame}

theorem frame?_eq
    (sets : state.SetsFrame target frame next)
    (inside : target < state.frames.size)
    (index : Nat) :
    next.frame? index = if index = target then some frame else state.frame? index := by
  unfold frame?
  rw [sets.frames, Array.getD_eq_getD_getElem?, Array.getD_eq_getD_getElem?,
    Array.getElem?_setIfInBounds]
  by_cases isTarget : index = target
  · subst isTarget
    simp [inside]
  · rw [if_neg (Ne.symm isTarget), if_neg isTarget]

theorem grows
    (order : Frame.MergeOrder hierarchy Below)
    (sets : state.SetsFrame target frame next)
    (inside : target < state.frames.size)
    (isTarget : Target target)
    (waits : state.frame? target = none → target ∈ next.worklist)
    (rises : ∀ existing, state.frame? target = some existing →
      Below existing frame ∧ (target ∈ next.worklist ∨ Below frame existing)) :
    Grows Below Target state next where
  size := by rw [sets.frames, Array.size_setIfInBounds]
  worklist := sets.worklist
  maxStack := Nat.le_of_eq sets.maxStack.symm
  maxLocals := Nat.le_of_eq sets.maxLocals.symm
  kept := by
    intro index earlier isEarlier
    rw [sets.frame?_eq inside]
    by_cases isIndex : index = target
    · subst isIndex
      exact ⟨frame, if_pos rfl, rises earlier isEarlier⟩
    · exact ⟨earlier, (if_neg isIndex).trans isEarlier, order.refl _, .inr (order.refl _)⟩
  new := by
    intro index later missing isLater
    rw [sets.frame?_eq inside] at isLater
    by_cases isIndex : index = target
    · subst isIndex
      exact ⟨waits missing, isTarget⟩
    · rw [if_neg isIndex, missing] at isLater
      cases isLater

theorem isSound
    (sets : state.SetsFrame target frame next)
    (inside : target < state.frames.size)
    (sound : state.found.IsSound)
    (whole : Locals.IsWhole frame.locals)
    (stackSlots : frame.stackSlots ≤ state.maxStack)
    (localSlots : frame.localSlots ≤ state.maxLocals) :
    next.found.IsSound := by
  have frames : ∀ {index other}, next.found.frame? index = some other →
      other = frame ∨ state.found.frame? index = some other := by
    intro index other isOther
    have found := (sets.frame?_eq inside index).symm.trans isOther
    split at found
    · exact .inl (Option.some.inj found).symm
    · exact .inr found
  constructor
  · intro index other isOther
    rcases frames isOther with rfl | isEarlier
    · exact whole
    · exact sound.whole isEarlier
  · intro index other isOther
    change other.stackSlots ≤ next.maxStack
    rw [sets.maxStack]
    rcases frames isOther with rfl | isEarlier
    · exact stackSlots
    · exact sound.stackSlots isEarlier
  · intro index other isOther
    change other.localSlots ≤ next.maxLocals
    rw [sets.maxLocals]
    rcases frames isOther with rfl | isEarlier
    · exact localSlots
    · exact sound.localSlots isEarlier

end SetsFrame

/-- Control going on to an instruction makes its frame stand for what it brings. -/
theorem grows_flowInto
    (order : Frame.MergeOrder hierarchy Below)
    (inside : target < state.frames.size)
    (isTarget : Target target)
    (computed : state.flowInto method hierarchy target incoming = .ok next) :
    Grows Below Target state next ∧ next.found.Covers Below target incoming := by
  rcases flowInto_cases computed with
    ⟨missing, rfl⟩ | ⟨existing, merged, changed, found, isMerged, rfl⟩
  · have sets : state.SetsFrame target incoming (state.record target incoming) :=
      setsFrame_record incoming
    refine ⟨sets.grows order inside isTarget (fun _ => mem_worklist_record.mpr (.inl rfl)) ?_,
      incoming, (sets.frame?_eq inside target).trans (if_pos rfl), order.refl incoming⟩
    intro existing found
    rw [missing] at found
    cases found
  · obtain ⟨existingBelow, incomingBelow, unchanged⟩ := order.merge isMerged
    have noNew : state.frame? target ≠ none := by
      rw [found]
      exact nofun
    cases changed with
    | true =>
        have sets : state.SetsFrame target merged (state.record target merged) :=
          setsFrame_record merged
        have isWaiting : target ∈ (state.record target merged).worklist :=
          mem_worklist_record.mpr (.inl rfl)
        refine ⟨sets.grows order inside isTarget (fun _ => isWaiting) ?_,
          merged, (sets.frame?_eq inside target).trans (if_pos rfl), incomingBelow⟩
        intro other isOther
        obtain rfl := Option.some.inj (found.symm.trans isOther)
        exact ⟨existingBelow, .inl isWaiting⟩
    | false =>
        have sets : state.SetsFrame target merged
            { state with frames := state.frames.setIfInBounds target (some merged) } :=
          ⟨rfl, fun _ member => member, rfl, rfl⟩
        refine ⟨sets.grows order inside isTarget (fun missing => absurd missing noNew) ?_,
          merged, (sets.frame?_eq inside target).trans (if_pos rfl), incomingBelow⟩
        intro other isOther
        obtain rfl := Option.some.inj (found.symm.trans isOther)
        exact ⟨existingBelow, .inr (unchanged rfl)⟩

theorem isSound_flowInto
    (inside : target < state.frames.size)
    (sound : state.found.IsSound)
    (whole : Locals.IsWhole incoming.locals)
    (stackSlots : incoming.stackSlots ≤ state.maxStack)
    (localSlots : incoming.localSlots ≤ state.maxLocals)
    (computed : state.flowInto method hierarchy target incoming = .ok next) :
    next.found.IsSound := by
  rcases flowInto_cases computed with
    ⟨missing, rfl⟩ | ⟨existing, merged, changed, found, isMerged, rfl⟩
  · exact (setsFrame_record incoming).isSound inside sound whole stackSlots localSlots
  · obtain ⟨slots, isMerge, _⟩ := Frame.isMerge_of_merge_eq_ok isMerged
    have mergedStack : merged.stackSlots ≤ state.maxStack := by
      rw [isMerge.stackSlots_eq]
      exact sound.stackSlots found
    have mergedLocals : merged.localSlots ≤ state.maxLocals := by
      rw [isMerge.localSlots_eq]
      exact Nat.max_le.mpr ⟨sound.localSlots found, localSlots⟩
    cases changed with
    | true =>
        exact (setsFrame_record merged).isSound inside sound isMerge.isWhole mergedStack
          mergedLocals
    | false =>
        have sets : state.SetsFrame target merged
            { state with frames := state.frames.setIfInBounds target (some merged) } :=
          ⟨rfl, fun _ member => member, rfl, rfl⟩
        exact sets.isSound inside sound isMerge.isWhole mergedStack mergedLocals

theorem grows_measure
    (order : Frame.MergeOrder hierarchy Below)
    (state : FlowState)
    (frame : Frame) :
    Grows Below Target state (state.measure frame) where
  size := rfl
  worklist := fun _ member => member
  maxStack := Nat.le_max_left _ _
  maxLocals := Nat.le_max_left _ _
  kept := fun found => ⟨_, found, order.refl _, .inr (order.refl _)⟩
  new := (Grows.refl order state).new

theorem isSound_measure
    (sound : state.found.IsSound)
    (frame : Frame) :
    (state.measure frame).found.IsSound where
  whole := fun found => sound.whole found
  stackSlots := fun found => Nat.le_trans (sound.stackSlots found) (Nat.le_max_left _ _)
  localSlots := fun found => Nat.le_trans (sound.localSlots found) (Nat.le_max_left _ _)

/-- A later state that is sound, as far as the analysis of one instruction went. -/
structure Advances (Below : Frame → Frame → Prop) (Target : Nat → Prop)
    (earlier later : FlowState) : Prop where
  grows : Grows Below Target earlier later
  sound : later.found.IsSound

/-- The frames with which an exception may reach a handler bring nothing to it that its
frame does not stand for afterwards. -/
theorem advances_flowIntoHandler
    {range : ExceptionRange Nat}
    {before after : Frame}
    (order : Frame.MergeOrder hierarchy Below)
    (inside : range.handler < method.instructions.size)
    (isTarget : Target range.handler)
    (size : state.frames.size = method.instructions.size)
    (sound : state.found.IsSound)
    (beforeWhole : Locals.IsWhole before.locals)
    (afterWhole : Locals.IsWhole after.locals)
    (computed : (handlerEntries range before after).foldlM
      (fun state entry => (state.measure entry).flowInto method hierarchy range.handler entry)
      state = .ok next) :
    Advances Below Target state next ∧ ∀ entry ∈ handlerEntries range before after,
      next.found.Covers Below range.handler entry := by
  refine foldlM_preserves
    (fun done reached => Advances Below Target state reached ∧
      ∀ entry ∈ done, reached.found.Covers Below range.handler entry)
    ?_ ⟨⟨.refl order state, sound⟩, nofun⟩ computed
  intro done entry reached nextReached member ⟨advances, covered⟩ stepped
  have entryWhole : Locals.IsWhole entry.locals := by
    rcases List.mem_cons.mp member with rfl | isAfter
    · exact beforeWhole
    · rw [List.mem_singleton.mp isAfter]
      exact afterWhole
  have handlerInside : range.handler < (reached.measure entry).frames.size :=
    lt_of_lt_of_eq inside (advances.grows.size.trans size).symm
  obtain ⟨grows, entryCovered⟩ := grows_flowInto order handlerInside isTarget stepped
  have grows := (grows_measure order reached entry).trans order grows
  have nextSound := isSound_flowInto handlerInside (isSound_measure advances.sound entry)
    entryWhole (Nat.le_max_right _ _) (Nat.le_max_right _ _) stepped
  refine ⟨⟨advances.grows.trans order grows, nextSound⟩, ?_⟩
  intro other isOther
  rcases List.mem_append.mp isOther with isDone | isLast
  · exact grows.covers order (covered other isDone)
  · rw [List.mem_singleton.mp isLast]
    exact entryCovered

section Successors

variable {index : Nat} {instruction : Instruction Nat} {before after : Frame}
variable (order : Frame.MergeOrder hierarchy Below)
variable (inside : method.TargetsInside)

include order inside

/-- Exceptions bring nothing to the handlers of an instruction that the frames of those do
not stand for afterwards. -/
theorem advances_flowIntoHandlers
    (isInstruction : method.instructions[index]? = some instruction)
    (size : state.frames.size = method.instructions.size)
    (sound : state.found.IsSound)
    (beforeWhole : Locals.IsWhole before.locals)
    (afterWhole : Locals.IsWhole after.locals)
    (computed : flowIntoHandlers method hierarchy state index before after = .ok next) :
    Advances Below (method.GoesTo index) state next ∧
      ∀ range ∈ method.handlers.toList, range.covers index = true →
        ∀ entry ∈ handlerEntries range before after,
          next.found.Covers Below range.handler entry := by
  unfold flowIntoHandlers at computed
  let Holds (done : List (ExceptionRange Nat)) (reached : FlowState) : Prop :=
    Advances Below (method.GoesTo index) state reached ∧
      ∀ range ∈ done, ∀ entry ∈ handlerEntries range before after,
        reached.found.Covers Below range.handler entry
  suffices holds : Holds (method.handlers.toList.filter (·.covers index)) next by
    refine ⟨holds.1, fun range member isCovered entry isEntry => ?_⟩
    exact holds.2 range (List.mem_filter.mpr ⟨member, isCovered⟩) entry isEntry
  refine foldlM_preserves Holds ?_ ⟨⟨.refl order state, sound⟩, nofun⟩ computed
  intro done range reached nextReached member ⟨advances, covered⟩ stepped
  obtain ⟨isHandler, isCovered⟩ := List.mem_filter.mp member
  have isTarget : method.GoesTo index range.handler :=
    ⟨instruction, isInstruction, .inr (.inr ⟨range, isHandler, isCovered, rfl⟩)⟩
  have entered := advances_flowIntoHandler order (inside.handlers range isHandler).2.2 isTarget
    (advances.grows.size.trans size) advances.sound beforeWhole afterWhole stepped
  refine ⟨⟨advances.grows.trans order entered.1.grows, entered.1.sound⟩, ?_⟩
  intro other isOther entry isEntry
  rcases List.mem_append.mp isOther with isDone | isLast
  · exact entered.1.grows.covers order (covered other isDone entry isEntry)
  · rw [List.mem_singleton.mp isLast] at isEntry ⊢
    exact entered.2 entry isEntry

/-- Control brings nothing to the instructions after one that the frames of those do not
stand for afterwards. -/
theorem advances_flowOn
    (isInstruction : method.instructions[index]? = some instruction)
    (size : state.frames.size = method.instructions.size)
    (sound : state.found.IsSound)
    (afterWhole : Locals.IsWhole after.locals)
    (stackSlots : after.stackSlots ≤ state.maxStack)
    (localSlots : after.localSlots ≤ state.maxLocals)
    (computed : flowOn method hierarchy state index instruction after = .ok next) :
    Advances Below (method.GoesTo index) state next ∧
      (∀ target ∈ instruction.targets, next.found.Covers Below target after) ∧
      (instruction.fallsThrough = true → index + 1 < method.instructions.size ∧
        next.found.Covers Below (index + 1) after) := by
  unfold flowOn at computed
  obtain ⟨middle, jumped, computed⟩ := bind_eq_ok.mp computed
  have jumps : Advances Below (method.GoesTo index) state middle ∧
      ∀ target ∈ instruction.targets, middle.found.Covers Below target after := by
    refine foldlM_preserves
      (fun done reached => Advances Below (method.GoesTo index) state reached ∧
        ∀ target ∈ done, reached.found.Covers Below target after)
      ?_ ⟨⟨.refl order state, sound⟩, nofun⟩ jumped
    intro done target reached nextReached member ⟨advances, covered⟩ stepped
    have targetInside : target < reached.frames.size := by
      rw [advances.grows.size, size]
      exact inside.instructions isInstruction target member
    have isTarget : method.GoesTo index target := ⟨instruction, isInstruction, .inl member⟩
    obtain ⟨grows, targetCovered⟩ := grows_flowInto order targetInside isTarget stepped
    have nextSound := isSound_flowInto targetInside advances.sound afterWhole
      (Nat.le_trans stackSlots advances.grows.maxStack)
      (Nat.le_trans localSlots advances.grows.maxLocals) stepped
    refine ⟨⟨advances.grows.trans order grows, nextSound⟩, ?_⟩
    intro other isOther
    rcases List.mem_append.mp isOther with isDone | isLast
    · exact grows.covers order (covered other isDone)
    · rw [List.mem_singleton.mp isLast]
      exact targetCovered
  obtain ⟨⟨grows, middleSound⟩, covered⟩ := jumps
  split at computed
  · rename_i fallsThrough
    split at computed
    · rename_i nextInside
      have isTarget : method.GoesTo index (index + 1) :=
        ⟨instruction, isInstruction, .inr (.inl ⟨fallsThrough, rfl⟩)⟩
      have middleInside : index + 1 < middle.frames.size := by
        rw [grows.size, size]
        exact nextInside
      obtain ⟨growsOn, nextCovered⟩ := grows_flowInto order middleInside isTarget computed
      have nextSound := isSound_flowInto middleInside middleSound afterWhole
        (Nat.le_trans stackSlots grows.maxStack) (Nat.le_trans localSlots grows.maxLocals) computed
      exact ⟨⟨grows.trans order growsOn, nextSound⟩,
        fun target member => growsOn.covers order (covered target member),
        fun _ => ⟨nextInside, nextCovered⟩⟩
    · cases computed
  · rename_i leaves
    cases computed
    exact ⟨⟨grows, middleSound⟩, covered, fun fallsThrough => absurd fallsThrough leaves⟩

/-- After a visit, what the instruction brings to others is settled for the frame that it
was visited with. -/
theorem advances_visit
    (size : state.frames.size = method.instructions.size)
    (sound : state.found.IsSound)
    (isBefore : state.frame? index = some before)
    (computed : visit method hierarchy state index = .ok next) :
    ∃ instruction after, Advances Below (method.GoesTo index) state next ∧
      next.found.IsSettledAt Below method index instruction before after := by
  have isInside : index < method.instructions.size := by
    by_contra outside
    unfold frame? at isBefore
    rw [Array.getD_eq_getD_getElem?, Array.getElem?_eq_none (by omega)] at isBefore
    cases isBefore
  have isInstruction := Array.getElem?_eq_getElem isInside
  generalize method.instructions[index] = instruction at isInstruction
  unfold visit at computed
  rw [isBefore, isInstruction] at computed
  dsimp only at computed
  split at computed
  · cases computed
  · rename_i after executed
    have beforeWhole := sound.whole isBefore
    have afterWhole := Frame.isWhole_of_execute_eq_ok beforeWhole executed
    obtain ⟨middle, handled, computed⟩ := bind_eq_ok.mp computed
    obtain ⟨⟨grows, middleSound⟩, handlersCovered⟩ := advances_flowIntoHandlers order inside
      isInstruction (show (state.measure after).frames.size = method.instructions.size from size)
      (isSound_measure sound after) beforeWhole afterWhole handled
    obtain ⟨⟨growsOn, nextSound⟩, targetsCovered, nextCovered⟩ := advances_flowOn order inside
      isInstruction (grows.size.trans size) middleSound afterWhole
      (Nat.le_trans (Nat.le_max_right _ _) grows.maxStack)
      (Nat.le_trans (Nat.le_max_right _ _) grows.maxLocals) computed
    have measured : Grows Below (method.GoesTo index) state (state.measure after) :=
      grows_measure order state after
    refine ⟨instruction, after,
      ⟨(measured.trans order grows).trans order growsOn, nextSound⟩, ?_⟩
    exact {
      isInstruction := isInstruction
      executes := executed
      localSlots := Nat.le_trans (Nat.le_trans (Nat.le_max_right _ _) grows.maxLocals)
        growsOn.maxLocals
      targets := targetsCovered
      next := nextCovered
      handlers := fun range member isCovered entry isEntry =>
        growsOn.covers order (handlersCovered range member isCovered entry isEntry) }

end Successors

/-! ## Runs -/

/-- What holds of every state of the analysis: every frame is settled or its instruction
waits to be visited, and every frame came to be by control going there. -/
structure IsConsistent (Below : Frame → Frame → Prop) (method : Method) (state : FlowState) :
    Prop where
  size : state.frames.size = method.instructions.size
  sound : state.found.IsSound
  entry : state.found.Covers Below 0 method.entryFrame
  entrySlots : method.entryFrame.localSlots ≤ state.maxLocals
  settled : ∀ {index frame}, state.frame? index = some frame →
    index ∈ state.worklist ∨ state.found.IsSettled Below method index
  entered : ∀ {index frame}, state.frame? index = some frame →
    index = 0 ∨ ∃ source, state.frame? source ≠ none ∧ method.GoesTo source index

theorem isWhole_append
    {first second : List VType}
    (firstWhole : Locals.IsWhole first)
    (secondWhole : Locals.IsWhole second) :
    Locals.IsWhole (first ++ second) := by
  intro index isWide
  by_cases inFirst : index < first.length
  · have found : Locals.valueAt (first ++ second) index = Locals.valueAt first index := by
      apply Locals.valueAt_of_getElem?
      rw [List.getElem?_append_left inFirst, Locals.getElem?_of_lt_length inFirst]
    have next := firstWhole index (found ▸ isWide)
    rw [List.getElem?_append_left (List.getElem?_eq_some_iff.mp next).1]
    exact next
  · have found : Locals.valueAt (first ++ second) index =
        Locals.valueAt second (index - first.length) := by
      unfold Locals.valueAt
      rw [List.getD_eq_getElem?_getD, List.getD_eq_getElem?_getD,
        List.getElem?_append_right (by omega)]
    have next := secondWhole (index - first.length) (found ▸ isWide)
    rw [List.getElem?_append_right (by omega),
      show index + 1 - first.length = index - first.length + 1 by omega]
    exact next

theorem isWhole_singleton
    {type : VType}
    (notWide : type.isWide = false) :
    Locals.IsWhole [type] := by
  intro index isWide
  cases index with
  | zero =>
      rw [Locals.valueAt_of_getElem? rfl, notWide] at isWide
      cases isWide
  | succ index =>
      rw [Locals.valueAt_of_length_le (by simp)] at isWide
      cases isWide

theorem isWide_ofField
    (type : FieldType) :
    (VerificationType.ofField type : VType).isWide = type.isWide := by
  cases type with
  | base base => cases base <;> rfl
  | ref type => rfl

theorem isWhole_pair
    (type : VType) :
    Locals.IsWhole [type, .top] := by
  intro index isWide
  match index with
  | 0 => rfl
  | 1 => cases isWide
  | index + 2 =>
      rw [Locals.valueAt_of_length_le (by simp)] at isWide
      cases isWide

theorem isWhole_parameterLocals
    (parameters : List FieldType) :
    Locals.IsWhole (Frame.parameterLocals parameters) := by
  induction parameters with
  | nil =>
      intro index isWide
      cases isWide
  | cons type others inductionHypothesis =>
      refine isWhole_append ?_ inductionHypothesis
      dsimp only
      split
      · exact isWhole_pair _
      · rename_i notWide
        apply isWhole_singleton
        rw [isWide_ofField]
        exact Bool.eq_false_iff.mpr notWide

theorem isWhole_methodEntry
    (owner : BinaryName)
    (isStatic isConstructor : Bool)
    (parameters : List FieldType) :
    Locals.IsWhole (Frame.methodEntry owner isStatic isConstructor parameters).locals := by
  refine isWhole_append ?_ (isWhole_parameterLocals parameters)
  split
  · exact isWhole_parameterLocals []
  · split
    · exact isWhole_singleton rfl
    · exact isWhole_singleton rfl

theorem isWhole_entryFrame
    (method : Method) :
    Locals.IsWhole method.entryFrame.locals :=
  isWhole_methodEntry method.owner method.isStatic method.isConstructor method.type.parameters

/-- In the beginning only the first instruction has a frame. -/
theorem frame?_start
    (notEmpty : 0 < method.instructions.size)
    (index : Nat) :
    (start method).frame? index = if index = 0 then some method.entryFrame else none := by
  unfold frame? start
  rw [Array.getD_eq_getD_getElem?, Array.getElem?_setIfInBounds]
  by_cases isFirst : index = 0
  · subst isFirst
    simp [notEmpty]
  · rw [if_neg (Ne.symm isFirst), if_neg isFirst, Array.getElem?_replicate]
    split <;> rfl

theorem isConsistent_start
    (order : Frame.MergeOrder hierarchy Below)
    (notEmpty : 0 < method.instructions.size) :
    (start method).IsConsistent Below method := by
  have sizeOfStart : (start method).frames.size = method.instructions.size := by
    simp [start]
  have frames := frame?_start notEmpty
  have isEntry : ∀ {index frame}, (start method).found.frame? index = some frame →
      index = 0 ∧ frame = method.entryFrame := by
    intro index frame isFrame
    have found := (frames index).symm.trans isFrame
    split at found
    · rename_i isFirst
      exact ⟨isFirst, (Option.some.inj found).symm⟩
    · cases found
  refine ⟨sizeOfStart, ⟨?_, ?_, ?_⟩, ?_, Nat.le_refl _, ?_, ?_⟩
  · intro index frame isFrame
    rw [(isEntry isFrame).2]
    exact isWhole_entryFrame method
  · intro index frame isFrame
    rw [(isEntry isFrame).2]
    exact Nat.zero_le _
  · intro index frame isFrame
    rw [(isEntry isFrame).2]
    exact Nat.le_refl _
  · exact ⟨method.entryFrame, (frames 0).trans (if_pos rfl), order.refl _⟩
  · intro index frame isFrame
    rw [(isEntry isFrame).1]
    exact .inl List.mem_cons_self
  · intro index frame isFrame
    exact .inl (isEntry isFrame).1

/-- A visit of the instruction that waits first keeps the state consistent. -/
theorem isConsistent_visit
    (order : Frame.MergeOrder hierarchy Below)
    (inside : method.TargetsInside)
    (consistent : state.IsConsistent Below method)
    {index : Nat}
    {rest : List Nat}
    (isWaiting : state.worklist = index :: rest)
    (computed : visit method hierarchy { state with worklist := rest } index = .ok next) :
    next.IsConsistent Below method := by
  cases isBefore : state.frame? index with
  | none =>
      -- There is nothing to visit, so that the instruction need not wait.
      have isSame : next = { state with worklist := rest } := by
        unfold visit at computed
        rw [show FlowState.frame? { state with worklist := rest } index = none from isBefore]
          at computed
        cases computed
        rfl
      subst isSame
      refine ⟨consistent.size, consistent.sound, consistent.entry, consistent.entrySlots, ?_,
        consistent.entered⟩
      intro other frame isFrame
      rcases consistent.settled isFrame with waits | settled
      · rw [isWaiting] at waits
        rcases List.mem_cons.mp waits with rfl | waits
        · exact absurd (isBefore.symm.trans isFrame) nofun
        · exact .inl waits
      · exact .inr settled
  | some before =>
      have size : (FlowState.frames { state with worklist := rest }).size =
          method.instructions.size := consistent.size
      obtain ⟨instruction, after, ⟨grows, nextSound⟩, settledAt⟩ :=
        advances_visit order inside size consistent.sound isBefore computed
      refine ⟨grows.size.trans consistent.size, nextSound, grows.covers order consistent.entry,
        Nat.le_trans consistent.entrySlots grows.maxLocals, ?_, ?_⟩
      · intro other frame isFrame
        by_cases waitsLater : other ∈ next.worklist
        · exact .inl waitsLater
        · right
          cases isEarlier : state.frame? other with
          | none => exact absurd (grows.new isEarlier isFrame).1 waitsLater
          | some earlier =>
              rcases consistent.settled isEarlier with waits | settled
              · rw [isWaiting] at waits
                rcases List.mem_cons.mp waits with rfl | waits
                · intro recorded isRecorded
                  obtain ⟨general, isGeneral, _, isLater | below⟩ := grows.kept isBefore
                  · exact absurd isLater waitsLater
                  · obtain rfl := Option.some.inj (isGeneral.symm.trans isRecorded)
                    exact ⟨instruction, before, after, below, settledAt⟩
                · exact absurd (grows.worklist other waits) waitsLater
              · exact grows.isSettled order settled isEarlier waitsLater
      · intro other frame isFrame
        have keepsFrame : ∀ {source}, state.frame? source ≠ none → next.frame? source ≠ none := by
          intro source hasFrame
          obtain ⟨sourceFrame, isSource⟩ := Option.ne_none_iff_exists'.mp hasFrame
          obtain ⟨general, isGeneral, _⟩ := grows.kept isSource
          rw [isGeneral]
          exact nofun
        cases isEarlier : state.frame? other with
        | none =>
            refine .inr ⟨index, keepsFrame ?_, (grows.new isEarlier isFrame).2⟩
            rw [isBefore]
            exact nofun
        | some earlier =>
            rcases consistent.entered isEarlier with isFirst | ⟨source, hasFrame, goesTo⟩
            · exact .inl isFirst
            · exact .inr ⟨source, keepsFrame hasFrame, goesTo⟩

theorem isConsistent_run
    (order : Frame.MergeOrder hierarchy Below)
    (inside : method.TargetsInside)
    {fuel : Nat}
    (consistent : state.IsConsistent Below method)
    (computed : run method hierarchy fuel state = .ok next) :
    next.IsConsistent Below method ∧ next.worklist = [] := by
  induction fuel generalizing state with
  | zero => cases computed
  | succ fuel inductionHypothesis =>
      unfold run at computed
      split at computed
      · rename_i isDone
        cases computed
        exact ⟨consistent, isDone⟩
      · rename_i index rest isWaiting
        split at computed
        · rename_i visited isVisited
          exact inductionHypothesis
            (isConsistent_visit order inside consistent isWaiting isVisited) computed
        · cases computed

end FlowState

/-- The analysis ends with frames that are consistent and all settled. -/
theorem Method.isConsistent_of_analyze_eq_ok
    (order : Frame.MergeOrder hierarchy Below)
    {analysis : FlowAnalysis}
    (accepted : method.analyze hierarchy = .ok analysis) :
    ∃ state : FlowState, state.IsConsistent Below method ∧ state.worklist = [] ∧
      state.found = analysis := by
  obtain ⟨notEmpty, inside, state, ran, rfl⟩ := exists_run_of_analyze_eq_ok accepted
  obtain ⟨consistent, isDone⟩ := FlowState.isConsistent_run order inside
    (FlowState.isConsistent_start order notEmpty) ran
  exact ⟨state, consistent, isDone, rfl⟩

/-- All frames with which the analysis ends are settled. -/
theorem Method.isSettled_of_analyze_eq_ok
    (order : Frame.MergeOrder hierarchy Below)
    {analysis : FlowAnalysis}
    (accepted : method.analyze hierarchy = .ok analysis)
    (index : Nat) :
    analysis.IsSettled Below method index := by
  obtain ⟨state, consistent, isDone, rfl⟩ := isConsistent_of_analyze_eq_ok order accepted
  intro recorded isRecorded
  rcases consistent.settled isRecorded with waits | settled
  · rw [isDone] at waits
    cases waits
  · exact settled recorded isRecorded

end ClosureConversion
