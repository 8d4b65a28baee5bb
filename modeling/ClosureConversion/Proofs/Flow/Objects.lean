import ClosureConversion.Proofs.Flow.Paths
import ClosureConversion.Proofs.Flow.Renaming
import ClosureConversion.Proofs.Flow.Runs

/-!
Contract: an object whose constructor has not run is told from every other one.

Owns:
- the sites in the frames that an analysis passes are instructions that make objects, and no
  instruction finds an object of its own;
- courses of execution, in which every object has a name of its own, and those that an analysis
  brings to an instruction;
- all copies in a frame of what an instruction made are one object in every course that comes to
  the frame: the one that the instruction made last.

Does not own: objects whose constructors have run.
-/

namespace ClosureConversion

variable {hierarchy : Hierarchy} {method : Method}

/-! ## Sites -/

namespace Frame

variable {special general : Frame} {site : Nat}

theorem ServesAs.stack_eq_uninitialized
    (serves : special.ServesAs general)
    {position : Nat}
    (found : general.stack[position]? = some (.uninitialized site)) :
    special.stack[position]? = some (.uninitialized site) := by
  obtain ⟨value, isValue, valueServes⟩ := exists_related_of_getElem? serves.stack found
  rw [isValue, valueServes.eq_of_not_initialized rfl]

theorem ServesAs.locals_eq_uninitialized
    (serves : special.ServesAs general)
    {slot : Nat}
    (found : general.locals[slot]? = some (.uninitialized site)) :
    special.locals[slot]? = some (.uninitialized site) := by
  have slotServes := serves.locals slot
  rw [Locals.valueAt_of_getElem? found] at slotServes
  have isSite : Locals.valueAt special.locals slot = .uninitialized site := by
    rcases slotServes with isTop | valueServes
    · cases isTop
    · exact valueServes.eq_of_not_initialized rfl
  by_cases inside : slot < special.locals.length
  · rw [Locals.getElem?_of_lt_length inside, isSite]
  · rw [Locals.valueAt_of_length_le (Nat.not_lt.mp inside)] at isSite
    cases isSite

/-- A frame holds what every frame holds that it serves as. -/
theorem ServesAs.holds
    (serves : special.ServesAs general)
    (held : general.Holds site) :
    special.Holds site := by
  rcases held with onStack | inSlot
  · obtain ⟨position, found⟩ := List.getElem?_of_mem onStack
    exact .inl (List.mem_of_getElem? (serves.stack_eq_uninitialized found))
  · obtain ⟨slot, found⟩ := List.getElem?_of_mem inSlot
    exact .inr (List.mem_of_getElem? (serves.locals_eq_uninitialized found))

theorem not_holds_entryFrame
    (method : Method)
    (site : Nat) :
    ¬method.entryFrame.Holds site := by
  rintro (onStack | inSlot)
  · cases onStack
  · rcases List.mem_append.mp inSlot with isReceiver | isParameter
    · split at isReceiver
      · cases isReceiver
      · split at isReceiver
        · cases List.mem_singleton.mp isReceiver
        · cases List.mem_singleton.mp isReceiver
    · obtain ⟨type, _, isSlot⟩ := List.mem_flatMap.mp isParameter
      have notParameter : (VerificationType.uninitialized site : VType) ≠ .ofField type := by
        intro isField
        have noSite := VerificationType.site?_ofField type
        rw [← isField] at noSite
        cases noSite
      split at isSlot
      · rcases List.mem_cons.mp isSlot with isField | isTop
        · exact notParameter isField
        · cases List.mem_singleton.mp isTop
      · exact notParameter (List.mem_singleton.mp isSlot)

theorem holds_of_mem_handlerEntries
    {range : ExceptionRange Nat}
    {before after entry : Frame}
    (isEntry : entry ∈ FlowState.handlerEntries range before after)
    (held : entry.Holds site) :
    before.Holds site ∨ after.Holds site := by
  rcases List.mem_cons.mp isEntry with rfl | isAfter
  · rcases held with onStack | inSlot
    · cases List.mem_singleton.mp onStack
    · exact .inl (.inr inSlot)
  · rw [List.mem_singleton.mp isAfter] at held
    rcases held with onStack | inSlot
    · cases List.mem_singleton.mp onStack
    · exact .inr (.inr inSlot)

end Frame

/-- Wherever control goes, it brings nothing that was not there before or after the instruction. -/
theorem Method.holds_of_mem_flows
    {index site : Nat}
    {instruction : Instruction Nat}
    {before after : Frame}
    {flow : Flow}
    (member : flow ∈ method.flows index instruction before after)
    (held : flow.frame.Holds site) :
    before.Holds site ∨ after.Holds site := by
  rcases List.mem_append.mp member with member | isNext
  · rcases List.mem_append.mp member with isException | isJump
    · obtain ⟨range, _, entered⟩ := List.mem_flatMap.mp isException
      obtain ⟨entry, isEntry, rfl⟩ := List.mem_map.mp entered
      exact Frame.holds_of_mem_handlerEntries isEntry held
    · obtain ⟨target, _, rfl⟩ := List.mem_map.mp isJump
      exact .inr held
  · split at isNext
    · rw [List.mem_singleton.mp isNext] at held
      exact .inr held
    · cases isNext

namespace FlowState

variable {state next : FlowState}

/-- The site is an instruction that makes an object, and control reached it. -/
def IsAllocated (method : Method) (state : FlowState) (site : Nat) : Prop :=
  (∃ name, method.instructions[site]? = some (.new name)) ∧ state.frame? site ≠ none

/-- The frames hold objects of reached instructions, but none of the instruction that they are
found before. -/
def KeepsSites (method : Method) (state : FlowState) : Prop :=
  ∀ index frame site, state.frame? index = some frame → frame.Holds site →
    state.IsAllocated method site ∧ site ≠ index

theorem SetsFrame.frame?_cases
    {target index : Nat}
    {frame found : Frame}
    (sets : state.SetsFrame target frame next)
    (isFound : next.frame? index = some found) :
    index = target ∧ found = frame ∨ state.frame? index = some found := by
  unfold frame? at isFound ⊢
  rw [sets.frames, Array.getD_eq_getD_getElem?, Array.getElem?_setIfInBounds] at isFound
  rw [Array.getD_eq_getD_getElem?]
  by_cases isTarget : target = index
  · rw [if_pos isTarget] at isFound
    split at isFound
    · exact .inl ⟨isTarget.symm, (Option.some.inj isFound).symm⟩
    · cases isFound
  · rw [if_neg isTarget] at isFound
    exact .inr isFound

theorem SetsFrame.frame?_ne_none
    {target index : Nat}
    {frame : Frame}
    (sets : state.SetsFrame target frame next)
    (reached : state.frame? index ≠ none) :
    next.frame? index ≠ none := by
  by_cases inside : target < state.frames.size
  · rw [sets.frame?_eq inside]
    split
    · exact nofun
    · exact reached
  · have same : next.frames = state.frames := by
      rw [sets.frames, Array.setIfInBounds_eq_of_size_le (Nat.not_lt.mp inside)]
    unfold frame? at reached ⊢
    rw [same]
    exact reached

/-- Where control goes on with objects of reached instructions, that stays so: an instruction that
makes an object was reached before the object is, so that its frame is merged with one that does
not hold it. -/
theorem keepsSites_flowInto
    {target : Nat}
    {incoming : Frame}
    (keeps : state.KeepsSites method)
    (allocated : ∀ site, incoming.Holds site → state.IsAllocated method site)
    (computed : state.flowInto method hierarchy target incoming = .ok next) :
    next.KeepsSites method ∧
      ∀ site, state.IsAllocated method site → next.IsAllocated method site := by
  have kept : ∀ {frame : Frame}, state.SetsFrame target frame next →
      (∀ site, frame.Holds site → state.IsAllocated method site ∧ site ≠ target) →
      next.KeepsSites method ∧
        ∀ site, state.IsAllocated method site → next.IsAllocated method site := by
    intro frame sets keepsFrame
    have stays : ∀ site, state.IsAllocated method site → next.IsAllocated method site :=
      fun site allocated => ⟨allocated.1, sets.frame?_ne_none allocated.2⟩
    refine ⟨fun index found site isFound held => ?_, stays⟩
    rcases sets.frame?_cases isFound with ⟨rfl, rfl⟩ | isEarlier
    · exact ⟨stays site (keepsFrame site held).1, (keepsFrame site held).2⟩
    · exact (keeps index found site isEarlier held).imp_left (stays site)
  rcases flowInto_cases computed with
    ⟨missing, rfl⟩ | ⟨existing, merged, changed, isExisting, isMerged, rfl⟩
  · refine kept (setsFrame_record incoming) fun site held => ⟨allocated site held, ?_⟩
    rintro rfl
    exact (allocated site held).2 missing
  · have merges := (Frame.mergeOrder_servesAs.merge isMerged).1
    have keepsMerged : ∀ site, merged.Holds site → state.IsAllocated method site ∧ site ≠ target :=
      fun site held => keeps target existing site isExisting (merges.holds held)
    cases changed with
    | true => exact kept (setsFrame_record merged) keepsMerged
    | false => exact kept ⟨rfl, fun _ member => member, rfl, rfl⟩ keepsMerged

theorem keepsSites_followFlow
    {flow : Flow}
    (keeps : state.KeepsSites method)
    (allocated : ∀ site, flow.frame.Holds site → state.IsAllocated method site)
    (computed : state.followFlow method hierarchy flow = .ok next) :
    next.KeepsSites method ∧
      ∀ site, state.IsAllocated method site → next.IsAllocated method site := by
  unfold followFlow at computed
  split at computed
  · have measuredKeeps : (state.measure flow.frame).KeepsSites method := keeps
    have kept := keepsSites_flowInto measuredKeeps allocated computed
    exact kept
  · exact keepsSites_flowInto keeps allocated computed

theorem keepsSites_foldlM_followFlow
    {flows : List Flow}
    (keeps : state.KeepsSites method)
    (allocated : ∀ flow ∈ flows, ∀ site, flow.frame.Holds site → state.IsAllocated method site)
    (computed : flows.foldlM (followFlow method hierarchy) state = .ok next) :
    next.KeepsSites method := by
  refine (foldlM_preserves (fun _ reached => reached.KeepsSites method ∧
    ∀ site, state.IsAllocated method site → reached.IsAllocated method site) ?_
    ⟨keeps, fun _ isAllocated => isAllocated⟩ computed).1
  intro _ flow reached nextReached member ⟨reachedKeeps, stays⟩ followed
  obtain ⟨nextKeeps, nextStays⟩ := keepsSites_followFlow reachedKeeps
    (fun site held => stays site (allocated flow member site held)) followed
  exact ⟨nextKeeps, fun site isAllocated => nextStays site (stays site isAllocated)⟩

/-- An instruction brings into the frame after it at most what it makes itself. -/
theorem KeepsSites.isAllocated_after
    (keeps : state.KeepsSites method)
    {index : Nat}
    {instruction : Instruction Nat}
    {before after : Frame}
    (isBefore : state.frame? index = some before)
    (isInstruction : method.instructions[index]? = some instruction)
    (executed : before.execute method.owner method.instructions index instruction = .ok after)
    {site : Nat}
    (held : after.Holds site) :
    state.IsAllocated method site := by
  rcases Frame.holds_of_execute_eq_ok executed held with heldBefore | ⟨rfl, name, rfl⟩
  · exact (keeps index before site isBefore heldBefore).1
  · exact ⟨⟨name, isInstruction⟩, by rw [isBefore]; exact nofun⟩

/-- While control is followed from an instruction, sites are kept. -/
theorem KeepsSites.foldlM_followFlow
    (keeps : state.KeepsSites method)
    {index : Nat}
    {instruction : Instruction Nat}
    {before after : Frame}
    (isBefore : state.frame? index = some before)
    (isInstruction : method.instructions[index]? = some instruction)
    (executed : before.execute method.owner method.instructions index instruction = .ok after)
    {followed : List Flow}
    (areFlows : followed ⊆ method.flows index instruction before after)
    (computed : followed.foldlM (followFlow method hierarchy) (state.measure after) = .ok next) :
    next.KeepsSites method := by
  have measuredKeeps : (state.measure after).KeepsSites method := keeps
  refine keepsSites_foldlM_followFlow measuredKeeps ?_ computed
  intro flow member site held
  rcases Method.holds_of_mem_flows (areFlows member) held with heldBefore | heldAfter
  · exact (keeps index before site isBefore heldBefore).1
  · exact keeps.isAllocated_after isBefore isInstruction executed heldAfter

theorem Rests.keepsSites
    (rests : Rests method hierarchy state) :
    state.KeepsSites method := by
  induction rests with
  | start notEmpty _ =>
      intro index frame site isFound held
      rw [frame?_start notEmpty] at isFound
      split at isFound
      · cases isFound
        exact absurd held (Frame.not_holds_entryFrame method site)
      · cases isFound
  | @visit state next index rests visits inductionHypothesis =>
      obtain ⟨rest, _, computed⟩ := visits
      rcases visit_eq_ok_cases computed with
        rfl | ⟨before, instruction, after, isBefore, isInstruction, executed, followed⟩
      · exact inductionHypothesis
      · have keeps : KeepsSites method { state with worklist := rest } := inductionHypothesis
        exact keeps.foldlM_followFlow isBefore isInstruction executed (List.Subset.refl _) followed

theorem Passes.keepsSites
    (passes : Passes method hierarchy state) :
    state.KeepsSites method := by
  cases passes with
  | rests rests => exact rests.keepsSites
  | @flows state reached index instruction before after followed others executes executed
      areFlows computed =>
      have keeps : KeepsSites method { state with worklist := state.worklist.tail } :=
        executes.rests.keepsSites
      refine keeps.foldlM_followFlow executes.isBefore executes.isInstruction executed ?_ computed
      rw [areFlows]
      exact List.subset_append_left _ _

end FlowState

/-! ## Courses of execution -/

/-- An execution of a method, before an instruction. What was executed so far comes last first. An
object whose constructor has not run is named by how many instructions were executed before the
one that made it. -/
structure Course where
  past : List Nat
  index : Nat
  frame : Frame
deriving DecidableEq, Repr

/-- The instructions that were executed, one after another. Here no instruction is executed twice,
so that each makes one object at most. -/
def Method.unrolled (method : Method) (past : List Nat) : Array (Instruction Nat) :=
  (past.reverse.map fun index => method.instructions.getD index (.op .nop)).toArray

namespace Course

/-- The course that begins with a method. -/
def entry (method : Method) : Course :=
  ⟨[], 0, method.entryFrame⟩

/-- The course after its instruction is executed and left. -/
def leave (method : Method) (course : Course) (departure : Departure) : Except FlowError Course :=
  match method.instructions[course.index]? with
  | none => .error .fallsOffEnd
  | some instruction => do
      let past := course.index :: course.past
      let after ← course.frame.execute method.owner (method.unrolled past) course.past.length
        instruction
      return ⟨past, departure.target course.index, departure.enter course.frame after⟩

/-- The course along ways of control from the entry of a method. -/
def along (method : Method) (departures : List Departure) : Except FlowError Course :=
  departures.foldlM (leave method) (entry method)

/-- How many instructions were executed before the one of an index was for the last time. -/
def lastStep : List Nat → Nat → Nat
  | [], _ => 0
  | last :: earlier, index => if last = index then earlier.length else lastStep earlier index

/-- The instruction of an index was executed at a step, and not again. -/
structure IsLastStep (past : List Nat) (index step : Nat) : Prop where
  executed : past.reverse[step]? = some index
  notAgain : ∀ later, step < later → past.reverse[later]? ≠ some index

theorem isLastStep_lastStep
    {past : List Nat}
    {index : Nat}
    (member : index ∈ past) :
    IsLastStep past index (lastStep past index) := by
  induction past with
  | nil => cases member
  | cons last earlier inductionHypothesis =>
      unfold lastStep
      by_cases isLast : last = index
      · rw [if_pos isLast]
        constructor
        · rw [List.reverse_cons, List.getElem?_append_right (by simp)]
          simp [isLast]
        · intro later isLater
          rw [List.getElem?_eq_none (by simp; omega)]
          exact (Option.some_ne_none index).symm
      · rw [if_neg isLast]
        have isEarlierLast :=
          inductionHypothesis ((List.mem_cons.mp member).resolve_left (Ne.symm isLast))
        have inside := (List.getElem?_eq_some_iff.mp isEarlierLast.executed).1
        constructor
        · rw [List.reverse_cons, List.getElem?_append_left inside]
          exact isEarlierLast.executed
        · intro later isLater
          rw [List.reverse_cons]
          by_cases isEarlier : later < earlier.reverse.length
          · rw [List.getElem?_append_left isEarlier]
            exact isEarlierLast.notAgain later isLater
          · rw [List.getElem?_append_right (by omega)]
            intro isIndex
            exact isLast (List.mem_singleton.mp (List.mem_of_getElem? isIndex)).symm

theorem lastStep_cons_self
    (past : List Nat)
    (index : Nat) :
    lastStep (index :: past) index = past.length :=
  if_pos rfl

theorem lastStep_cons_of_ne
    {index other : Nat}
    (different : other ≠ index)
    (past : List Nat) :
    lastStep (index :: past) other = lastStep past other :=
  if_neg (Ne.symm different)

/-- At one step one instruction is executed. -/
theorem eq_of_lastStep_eq
    {past : List Nat}
    {index other : Nat}
    (member : index ∈ past)
    (otherMember : other ∈ past)
    (same : lastStep past index = lastStep past other) :
    index = other := by
  have executed := (isLastStep_lastStep member).executed
  rw [same] at executed
  exact Option.some.inj (executed.symm.trans (isLastStep_lastStep otherMember).executed)

theorem unrolled_getElem?
    {past : List Nat}
    {index step : Nat}
    {instruction : Instruction Nat}
    (executed : past.reverse[step]? = some index)
    (isInstruction : method.instructions[index]? = some instruction) :
    (method.unrolled past)[step]? = some instruction := by
  rw [Method.unrolled, List.getElem?_toArray, List.getElem?_map, executed, Option.map_some,
    Array.getD_eq_getD_getElem?, isInstruction, Option.getD_some]

end Course

/-! ## Objects of a course -/

theorem VerificationType.ServesAs.rename
    {special general : VType}
    (serves : special.ServesAs general)
    (name : Nat → Nat) :
    (special.rename name).ServesAs (general.rename name) := by
  cases serves with
  | refl => exact .refl _
  | null type => exact .null type
  | object serves => exact .object serves

namespace Frame

theorem valueAt_rename
    (locals : List VType)
    (name : Nat → Nat)
    (index : Nat) :
    Locals.valueAt (Locals.rename name locals) index =
      (Locals.valueAt locals index).rename name := by
  unfold Locals.valueAt Locals.rename
  rw [List.getD_eq_getElem?_getD, List.getD_eq_getElem?_getD, List.getElem?_map]
  cases locals[index]? <;> rfl

theorem ServesAs.rename
    {special general : Frame}
    (serves : special.ServesAs general)
    (name : Nat → Nat) :
    (special.rename name).ServesAs (general.rename name) where
  stack := List.forall₂_map_left_iff.mpr (List.forall₂_map_right_iff.mpr
    (serves.stack.imp fun _ _ valueServes => valueServes.rename name))
  locals := by
    intro index
    simp only [Frame.rename, valueAt_rename]
    rcases serves.locals index with isTop | valueServes
    · exact .inl (by rw [isTop]; rfl)
    · exact .inr (valueServes.rename name)

/-- All copies of an object in a frame are copies of one object in another frame. -/
structure SharesObject (recorded concrete : Frame) (site object : Nat) : Prop where
  stack : ∀ {position : Nat}, recorded.stack[position]? = some (.uninitialized site) →
    concrete.stack[position]? = some (.uninitialized object)
  locals : ∀ {slot : Nat}, recorded.locals[slot]? = some (.uninitialized site) →
    concrete.locals[slot]? = some (.uninitialized object)

end Frame

namespace Departure

variable {before after : Frame}

theorem enter_mem_handlerEntries
    (range : ExceptionRange Nat)
    (completed : Bool) :
    (exception range completed).enter before after ∈
      FlowState.handlerEntries range before after := by
  cases completed with
  | false => exact List.mem_cons_self
  | true => exact List.mem_cons_of_mem _ List.mem_cons_self

/-- Control goes on with nothing that was not there before or after the instruction. -/
theorem holds_of_holds_enter
    (departure : Departure)
    {site : Nat}
    (held : (departure.enter before after).Holds site) :
    before.Holds site ∨ after.Holds site := by
  cases departure with
  | jump target => exact .inr held
  | next => exact .inr held
  | exception range completed =>
      exact Frame.holds_of_mem_handlerEntries (enter_mem_handlerEntries range completed) held

theorem enter_rename
    (departure : Departure)
    (name : Nat → Nat) :
    (departure.enter before after).rename name =
      departure.enter (before.rename name) (after.rename name) := by
  cases departure with
  | jump target => rfl
  | next => rfl
  | exception range completed => cases completed <;> rfl

theorem servesAs_enter
    (departure : Departure)
    {general generalAfter : Frame}
    (serves : before.ServesAs general)
    (afterServes : after.ServesAs generalAfter) :
    (departure.enter before after).ServesAs (departure.enter general generalAfter) := by
  cases departure with
  | jump target => exact afterServes
  | next => exact afterServes
  | exception range completed =>
      have caught : List.Forall₂ VerificationType.ServesAs
          [.object (.object (range.catchType.getD .throwable))]
          [.object (.object (range.catchType.getD .throwable))] :=
        .cons (.refl _) .nil
      cases completed with
      | false => exact ⟨caught, serves.locals⟩
      | true => exact ⟨caught, afterServes.locals⟩

end Departure

namespace Course

/-- All copies of what an instruction made, in a frame, are one object of a course: the one that it
made last. -/
def KnowsObjects (course : Course) (recorded : Frame) : Prop :=
  ∀ site, recorded.Holds site → ∃ step, IsLastStep course.past site step ∧
    recorded.SharesObject course.frame site step

/-- The frame of a course serves as another one whose sites stand for the objects that they made
last. -/
structure IsTrackedBy (course : Course) (recorded : Frame) : Prop where
  serves : course.frame.ServesAs (recorded.rename (lastStep course.past))
  visited : ∀ site, recorded.Holds site → site ∈ course.past

variable {course : Course}

namespace IsTrackedBy

theorem trans
    {recorded general : Frame}
    (tracked : course.IsTrackedBy recorded)
    (serves : recorded.ServesAs general) :
    course.IsTrackedBy general where
  serves := tracked.serves.trans (serves.rename _)
  visited := fun site held => tracked.visited site (serves.holds held)

theorem knowsObjects
    {recorded : Frame}
    (tracked : course.IsTrackedBy recorded) :
    course.KnowsObjects recorded := by
  intro site held
  refine ⟨lastStep course.past site, isLastStep_lastStep (tracked.visited site held), ?_, ?_⟩
  · intro position found
    apply tracked.serves.stack_eq_uninitialized
    change (recorded.stack.map _)[position]? = _
    rw [List.getElem?_map, found]
    rfl
  · intro slot found
    apply tracked.serves.locals_eq_uninitialized
    change (recorded.locals.map _)[slot]? = _
    rw [List.getElem?_map, found]
    rfl

/-- Where the frame does not hold what its own instruction made before, the last object of every
site stays the same. -/
theorem serves_next
    {before : Frame}
    (tracked : course.IsTrackedBy before)
    (noneOwn : ∀ site, before.Holds site → site ≠ course.index) :
    course.frame.ServesAs (before.rename (lastStep (course.index :: course.past))) := by
  have sameNames : before.rename (lastStep course.past) =
      before.rename (lastStep (course.index :: course.past)) :=
    Frame.rename_congr fun site held => (lastStep_cons_of_ne (noneOwn site held) course.past).symm
  rw [← sameNames]
  exact tracked.serves

/-- The course can execute the instruction that the frame can, with the objects made last. -/
theorem exists_execute
    {before after : Frame}
    (tracked : course.IsTrackedBy before)
    {instruction : Instruction Nat}
    (isInstruction : method.instructions[course.index]? = some instruction)
    (executed : before.execute method.owner method.instructions course.index instruction =
      .ok after)
    (made : ∀ site, before.Holds site →
      (∃ name, method.instructions[site]? = some (.new name)) ∧ site ≠ course.index) :
    ∃ courseAfter, course.frame.execute method.owner
        (method.unrolled (course.index :: course.past)) course.past.length instruction =
          .ok courseAfter ∧
      courseAfter.ServesAs (after.rename (lastStep (course.index :: course.past))) := by
  let past := course.index :: course.past
  have inPast : ∀ site, before.Holds site → site ∈ past :=
    fun site held => List.mem_cons_of_mem _ (tracked.visited site held)
  have sameCode : ∀ site, before.Holds site →
      (method.unrolled past)[lastStep past site]? = method.instructions[site]? := by
    intro site held
    obtain ⟨⟨name, isNew⟩, _⟩ := made site held
    rw [isNew]
    exact unrolled_getElem? (isLastStep_lastStep (inPast site held)).executed isNew
  have sameStep : lastStep past course.index = course.past.length :=
    lastStep_cons_self course.past course.index
  have lastExecuted : past.reverse[course.past.length]? = some course.index := by
    have member : course.index ∈ past := List.mem_cons_self
    rw [← sameStep]
    exact (isLastStep_lastStep member).executed
  have renamed : (before.rename (lastStep past)).execute method.owner (method.unrolled past)
      course.past.length instruction = .ok (after.rename (lastStep past)) := by
    have image : (before.rename (lastStep past)).execute method.owner (method.unrolled past)
        course.past.length instruction = Frame.rename (lastStep past) <$>
          before.execute method.owner method.instructions course.index instruction :=
      Frame.execute_rename
        (fun site other held otherHeld => eq_of_lastStep_eq (inPast site held)
          (inPast other otherHeld))
        sameCode fun _ _ => sameStep.symm
    rw [image, executed]
    rfl
  have serves := tracked.serves_next fun site held => (made site held).2
  have top : course.frame.IsTopOf VerificationType.ServesAs VerificationType.ServesSlot 0
      (before.rename (lastStep past)) :=
    ⟨OperandStack.isTopOf_zero_iff.mpr serves.stack, serves.locals⟩
  obtain ⟨courseAfter, courseExecuted, stays, _⟩ := ((valueOrder_servesAs.refines_execute top
    (codeIsOrdered_servesAs method.owner (method.unrolled past))
    (unrolled_getElem? lastExecuted isInstruction)).refines
    fun _ runsOut => absurd runsOut.1 (Nat.lt_irrefl 0)) _ renamed
  exact ⟨courseAfter, courseExecuted, OperandStack.isTopOf_zero_iff.mp stays.stack, stays.locals⟩

/-- The course goes on with the objects that the frame goes on with. -/
theorem leave
    {before after : Frame}
    (tracked : course.IsTrackedBy before)
    {instruction : Instruction Nat}
    (isInstruction : method.instructions[course.index]? = some instruction)
    (executed : before.execute method.owner method.instructions course.index instruction =
      .ok after)
    (made : ∀ site, before.Holds site →
      (∃ name, method.instructions[site]? = some (.new name)) ∧ site ≠ course.index)
    (departure : Departure) :
    ∃ next, course.leave method departure = .ok next ∧
      next.index = departure.target course.index ∧
      next.IsTrackedBy (departure.enter before after) := by
  obtain ⟨courseAfter, courseExecuted, afterServes⟩ :=
    tracked.exists_execute isInstruction executed made
  have serves := tracked.serves_next fun site held => (made site held).2
  refine ⟨⟨course.index :: course.past, departure.target course.index,
    departure.enter course.frame courseAfter⟩, ?_, rfl, ?_, ?_⟩
  · unfold Course.leave
    rw [isInstruction]
    exact bind_eq_ok.mpr ⟨courseAfter, courseExecuted, rfl⟩
  · rw [Departure.enter_rename]
    exact departure.servesAs_enter serves afterServes
  · intro site held
    rcases departure.holds_of_holds_enter held with heldBefore | heldAfter
    · exact List.mem_cons_of_mem _ (tracked.visited site heldBefore)
    · rcases Frame.holds_of_execute_eq_ok executed heldAfter with heldBefore | ⟨rfl, _⟩
      · exact List.mem_cons_of_mem _ (tracked.visited site heldBefore)
      · exact List.mem_cons_self

end IsTrackedBy

end Course

/-! ## Courses that an analysis follows -/

/-- Control goes from an instruction to another one in some way. -/
theorem Method.exists_allows_of_goesTo
    {index target : Nat}
    (goesTo : method.GoesTo index target) :
    ∃ departure : Departure, method.Allows index departure ∧ departure.target index = target := by
  obtain ⟨instruction, isInstruction, isJump | ⟨fallsThrough, rfl⟩ |
    ⟨range, member, isCovered, rfl⟩⟩ := goesTo
  · exact ⟨.jump target, ⟨instruction, isInstruction, isJump⟩, rfl⟩
  · exact ⟨.next, ⟨instruction, isInstruction, fallsThrough⟩, rfl⟩
  · exact ⟨.exception range true, ⟨instruction, isInstruction, member, isCovered⟩, rfl⟩

namespace FlowState

variable {state next : FlowState} {course : Course}

/-- What an analysis brings to the instructions that it found frames for. In a state it brings
everything to an instruction that it brought there before, and that it followed to there: when it
visits an instruction, and as long as the instruction need not be visited again. -/
inductive Brings (method : Method) (hierarchy : Hierarchy) : FlowState → Course → Prop where
  | entry : 0 < method.instructions.size → method.TargetsInside →
      Brings method hierarchy (.start method) (.entry method)
  | kept {state next : FlowState} {course : Course} {index : Nat} :
      Brings method hierarchy state course → state.Visits method hierarchy index next →
      Brings method hierarchy next course
  | visited {state next : FlowState} {course other : Course} {departure : Departure} :
      Brings method hierarchy state course → state.Visits method hierarchy course.index next →
      method.Allows course.index departure → course.leave method departure = .ok other →
      Brings method hierarchy next other
  | settled {state : FlowState} {course other : Course} {departure : Departure} :
      Brings method hierarchy state course → course.index ∉ state.worklist →
      method.Allows course.index departure → course.leave method departure = .ok other →
      Brings method hierarchy state other

theorem Brings.rests
    (brings : Brings method hierarchy state course) :
    Rests method hierarchy state := by
  induction brings with
  | entry notEmpty inside => exact .start notEmpty inside
  | kept _ visits inductionHypothesis => exact inductionHypothesis.visit visits
  | visited _ visits _ _ inductionHypothesis => exact inductionHypothesis.visit visits
  | settled _ _ _ _ inductionHypothesis => exact inductionHypothesis

theorem Rests.brings_entry
    (rests : Rests method hierarchy state) :
    Brings method hierarchy state (.entry method) := by
  induction rests with
  | start notEmpty inside => exact .entry notEmpty inside
  | visit _ visits inductionHypothesis => exact inductionHypothesis.kept visits

/-- The frame of the instruction that a course comes to tracks the objects of the course. -/
def Tracks (state : FlowState) (course : Course) : Prop :=
  ∃ recorded, state.frame? course.index = some recorded ∧ course.IsTrackedBy recorded

/-- Where what an instruction brings to others is settled, the courses that leave it are tracked. -/
theorem tracks_of_isSettledAt
    {instruction : Instruction Nat}
    {before after : Frame}
    (tracked : course.IsTrackedBy before)
    (settledAt : state.found.IsSettledAt Frame.ServesAs method course.index instruction before
      after)
    (made : ∀ site, before.Holds site →
      (∃ name, method.instructions[site]? = some (.new name)) ∧ site ≠ course.index)
    {departure : Departure}
    (allowed : method.Allows course.index departure) :
    ∃ other, course.leave method departure = .ok other ∧
      other.index = departure.target course.index ∧ state.Tracks other := by
  obtain ⟨other, left, isTarget, otherTracked⟩ :=
    tracked.leave settledAt.isInstruction settledAt.executes made departure
  refine ⟨other, left, isTarget, ?_⟩
  obtain ⟨found, isFound, allowed⟩ := allowed
  obtain rfl := Option.some.inj (settledAt.isInstruction.symm.trans isFound)
  have covered : state.found.Covers Frame.ServesAs other.index (departure.enter before after) := by
    rw [isTarget]
    cases departure with
    | jump target => exact settledAt.targets target allowed
    | next => exact (settledAt.next allowed).2
    | exception range completed =>
        exact settledAt.handlers range allowed.1 allowed.2 _
          (Departure.enter_mem_handlerEntries range completed)
  obtain ⟨recorded, isRecorded, serves⟩ := covered
  exact ⟨recorded, isRecorded, otherTracked.trans serves⟩

/-- Where an instruction need not be visited again, the courses that leave it are tracked. -/
theorem Rests.tracks_of_not_waiting
    (rests : Rests method hierarchy state)
    (tracks : state.Tracks course)
    (notWaiting : course.index ∉ state.worklist)
    {departure : Departure}
    (allowed : method.Allows course.index departure) :
    ∃ other, course.leave method departure = .ok other ∧
      other.index = departure.target course.index ∧ state.Tracks other := by
  obtain ⟨recorded, isRecorded, tracked⟩ := tracks
  have settled := ((rests.isConsistent Frame.mergeOrder_servesAs).settled isRecorded).resolve_left
    notWaiting
  obtain ⟨instruction, before, after, serves, settledAt⟩ := settled recorded isRecorded
  refine tracks_of_isSettledAt (tracked.trans serves) settledAt (fun site held => ?_) allowed
  exact (rests.keepsSites course.index recorded site isRecorded (serves.holds held)).imp_left
    And.left

/-- What a visit of an instruction with a frame does to the others. -/
theorem Rests.advances_of_visits
    (rests : Rests method hierarchy state)
    {index : Nat}
    (visits : state.Visits method hierarchy index next)
    {before : Frame}
    (isBefore : state.frame? index = some before) :
    ∃ rest instruction after,
      Grows Frame.ServesAs (method.GoesTo index) { state with worklist := rest } next ∧
        next.found.IsSettledAt Frame.ServesAs method index instruction before after := by
  obtain ⟨rest, _, computed⟩ := visits
  have consistent := rests.isConsistent Frame.mergeOrder_servesAs
  have size : ({ state with worklist := rest } : FlowState).frames.size =
      method.instructions.size := consistent.size
  obtain ⟨instruction, after, advances, settledAt⟩ :=
    advances_visit Frame.mergeOrder_servesAs rests.targetsInside size consistent.sound isBefore
      computed
  exact ⟨rest, instruction, after, advances.grows, settledAt⟩

/-- A visit keeps track of the courses that come to any instruction. -/
theorem Rests.tracks_of_visits
    (rests : Rests method hierarchy state)
    {index : Nat}
    (visits : state.Visits method hierarchy index next)
    (tracks : state.Tracks course) :
    next.Tracks course := by
  obtain ⟨recorded, isRecorded, tracked⟩ := tracks
  cases isBefore : state.frame? index with
  | none =>
      obtain ⟨rest, rfl⟩ := visits.eq_of_frame?_eq_none isBefore
      exact ⟨recorded, isRecorded, tracked⟩
  | some before =>
      obtain ⟨_, _, _, grows, _⟩ := rests.advances_of_visits visits isBefore
      obtain ⟨general, isGeneral, serves, _⟩ := grows.kept isRecorded
      exact ⟨general, isGeneral, tracked.trans serves⟩

/-- A visit tracks the courses that leave the instruction. -/
theorem Rests.tracks_leave_of_visits
    (rests : Rests method hierarchy state)
    (visits : state.Visits method hierarchy course.index next)
    (tracks : state.Tracks course)
    {departure : Departure}
    (allowed : method.Allows course.index departure) :
    ∃ other, course.leave method departure = .ok other ∧
      other.index = departure.target course.index ∧ next.Tracks other := by
  obtain ⟨recorded, isRecorded, tracked⟩ := tracks
  obtain ⟨_, _, _, _, settledAt⟩ := rests.advances_of_visits visits isRecorded
  exact tracks_of_isSettledAt tracked settledAt (fun site held =>
    (rests.keepsSites course.index recorded site isRecorded held).imp_left And.left) allowed

/-- All courses that an analysis brings to instructions are tracked. -/
theorem Brings.tracks
    (brings : Brings method hierarchy state course) :
    state.Tracks course := by
  induction brings with
  | entry notEmpty _ =>
      refine ⟨method.entryFrame, (frame?_start notEmpty 0).trans (if_pos rfl), ?_, fun site held =>
        absurd held (Frame.not_holds_entryFrame method site)⟩
      rw [Frame.rename_congr fun site held => absurd held (Frame.not_holds_entryFrame method site),
        Frame.rename_id]
      exact .refl _
  | kept brings visits inductionHypothesis =>
      exact brings.rests.tracks_of_visits visits inductionHypothesis
  | visited brings visits allowed left inductionHypothesis =>
      obtain ⟨other, isOther, _, tracks⟩ :=
        brings.rests.tracks_leave_of_visits visits inductionHypothesis allowed
      cases isOther.symm.trans left
      exact tracks
  | settled brings notWaiting allowed left inductionHypothesis =>
      obtain ⟨other, isOther, _, tracks⟩ :=
        brings.rests.tracks_of_not_waiting inductionHypothesis notWaiting allowed
      cases isOther.symm.trans left
      exact tracks

/-- Where no instruction need be visited again, every way of control was followed. -/
theorem Rests.exists_along
    (rests : Rests method hierarchy state)
    (isDone : state.worklist = [])
    {departures : List Departure}
    {index : Nat}
    (path : method.Path departures index) :
    ∃ course, Course.along method departures = .ok course ∧ course.index = index ∧
      Brings method hierarchy state course := by
  induction path with
  | entry => exact ⟨.entry method, rfl, rfl, rests.brings_entry⟩
  | @leave departures index departure _ allowed inductionHypothesis =>
      obtain ⟨course, isAlong, rfl, brings⟩ := inductionHypothesis
      have notWaiting : course.index ∉ state.worklist := by
        rw [isDone]
        exact List.not_mem_nil
      obtain ⟨other, left, isTarget, _⟩ :=
        rests.tracks_of_not_waiting brings.tracks notWaiting allowed
      refine ⟨other, ?_, isTarget, brings.settled notWaiting allowed left⟩
      unfold Course.along at isAlong ⊢
      rw [List.foldlM_append, isAlong]
      exact bind_eq_ok.mpr ⟨course, rfl, bind_eq_ok.mpr ⟨other, left, rfl⟩⟩

/-- No frame is found but for courses that come to it. -/
theorem Rests.exists_brings
    (rests : Rests method hierarchy state)
    {index : Nat}
    (reached : state.frame? index ≠ none) :
    ∃ course, Brings method hierarchy state course ∧ course.index = index := by
  induction rests generalizing index with
  | start notEmpty inside =>
      rw [frame?_start notEmpty] at reached
      split at reached
      · rename_i isFirst
        exact ⟨.entry method, .entry notEmpty inside, isFirst.symm⟩
      · exact absurd rfl reached
  | @visit state next source rests visits inductionHypothesis =>
      cases isEarlier : state.frame? index with
      | some earlier =>
          obtain ⟨course, brings, isIndex⟩ := inductionHypothesis (by rw [isEarlier]; exact nofun)
          exact ⟨course, brings.kept visits, isIndex⟩
      | none =>
          obtain ⟨found, isFound⟩ := Option.ne_none_iff_exists'.mp reached
          cases isBefore : state.frame? source with
          | none =>
              obtain ⟨rest, rfl⟩ := visits.eq_of_frame?_eq_none isBefore
              exact absurd isEarlier reached
          | some before =>
              obtain ⟨course, brings, rfl⟩ := inductionHypothesis (by rw [isBefore]; exact nofun)
              obtain ⟨_, _, _, grows, _⟩ := rests.advances_of_visits visits isBefore
              obtain ⟨departure, allowed, isTarget⟩ :=
                Method.exists_allows_of_goesTo (grows.new isEarlier isFound).2
              obtain ⟨other, left, isOther, _⟩ :=
                rests.tracks_leave_of_visits visits brings.tracks allowed
              exact ⟨other, brings.visited visits allowed left, isOther.trans isTarget⟩

end FlowState

/-! ## Constructors -/

/-- Objects whose constructors have not run are told apart by the instructions that made them, in
every state that the analysis of a method passes, however it ends. -/
structure Method.KeepsObjectsApart (hierarchy : Hierarchy) (method : Method) : Prop where
  /-- A frame holds objects only of instructions that make objects, and not of its own one. -/
  recorded : ∀ {state : FlowState} {index : Nat} {frame : Frame} {site : Nat},
    FlowState.Passes method hierarchy state → state.frame? index = some frame →
    frame.Holds site → (∃ name, method.instructions[site]? = some (.new name)) ∧ site ≠ index
  /-- So does the frame after an instruction that is executed. -/
  executed : ∀ {state : FlowState} {index : Nat} {instruction : Instruction Nat}
    {before after : Frame} {site : Nat},
    state.Executes method hierarchy index instruction before →
    before.execute method.owner method.instructions index instruction = .ok after →
    after.Holds site → ∃ name, method.instructions[site]? = some (.new name)
  /-- A constructor that is called on what an instruction made finds what class that is of. -/
  initialized : ∀ {state : FlowState} {index : Nat} {instruction : Instruction Nat}
    {before : Frame} {parameters : List FieldType} {stack rest : OperandStack} {site : Nat},
    state.Executes method hierarchy index instruction before →
    before.stack.popArguments parameters = .ok stack →
    stack.pop = .ok (.uninitialized site, rest) →
    ∃ name, Frame.initialized method.owner method.instructions (.uninitialized site) =
      .ok (.object (.object name))
  /-- In every course that is brought to an instruction, all copies in the frame of the instruction
  of what a site made are one object. -/
  isOne : ∀ {state : FlowState} {course : Course},
    FlowState.Brings method hierarchy state course →
    ∃ recorded, state.frame? course.index = some recorded ∧ course.KnowsObjects recorded
  /-- Every frame is one that courses are brought to. -/
  isBrought : ∀ {state : FlowState} {index : Nat},
    FlowState.Rests method hierarchy state → state.frame? index ≠ none →
    ∃ course, FlowState.Brings method hierarchy state course ∧ course.index = index
  /-- What is brought to an instruction is brought on when the instruction is visited. -/
  visited : ∀ {state next : FlowState} {course : Course} {departure : Departure},
    FlowState.Brings method hierarchy state course →
    state.Visits method hierarchy course.index next → method.Allows course.index departure →
    ∃ other, course.leave method departure = .ok other ∧
      FlowState.Brings method hierarchy next other
  /-- In the end every way of control was followed. -/
  along : ∀ {analysis : FlowAnalysis} {departures : List Departure} {index : Nat},
    method.analyze hierarchy = .ok analysis → method.Path departures index →
    ∃ course recorded, Course.along method departures = .ok course ∧ course.index = index ∧
      analysis.frame? index = some recorded ∧ course.KnowsObjects recorded
  /-- If there is no such end, the visit fails that comes next, or too many were made. -/
  rejected : ∀ {error : BytecodeError}, method.analyze hierarchy = .error error →
    method.instructions.size = 0 ∨ method.badTarget? ≠ none ∨
      ∃ state, FlowState.Rests method hierarchy state ∧ (error = .unsettledFrames ∨
        ∃ index rest, state.worklist = index :: rest ∧
          FlowState.visit method hierarchy { state with worklist := rest } index = .error error)

/-- Whatever its instructions and classes are, the analysis of a method keeps objects apart. -/
theorem Method.keepsObjectsApart
    (hierarchy : Hierarchy)
    (method : Method) :
    method.KeepsObjectsApart hierarchy where
  recorded passes isFound held := (passes.keepsSites _ _ _ isFound held).imp_left And.left
  executed executes executed held :=
    (executes.rests.keepsSites.isAllocated_after executes.isBefore executes.isInstruction executed
      held).1
  initialized := by
    intro state index instruction before parameters stack rest site executes popped isPopped
    have held : before.Holds site := by
      refine .inl ((OperandStack.suffix_of_popArguments_eq_ok popped).subset ?_)
      rw [OperandStack.eq_cons_of_pop_eq_ok isPopped]
      exact List.mem_cons_self
    obtain ⟨⟨⟨name, isNew⟩, _⟩, _⟩ :=
      executes.rests.keepsSites index before site executes.isBefore held
    exact ⟨name, by simp only [Frame.initialized, isNew]⟩
  isOne brings := by
    obtain ⟨recorded, isRecorded, tracked⟩ := brings.tracks
    exact ⟨recorded, isRecorded, tracked.knowsObjects⟩
  isBrought rests reached := rests.exists_brings reached
  visited brings visits allowed := by
    obtain ⟨other, left, _⟩ := brings.rests.tracks_leave_of_visits visits brings.tracks allowed
    exact ⟨other, left, brings.visited visits allowed left⟩
  along := by
    intro analysis departures index accepted path
    obtain ⟨state, rests, isDone, rfl⟩ := exists_rests_of_analyze_eq_ok accepted
    obtain ⟨course, isAlong, rfl, brings⟩ := rests.exists_along isDone path
    obtain ⟨recorded, isRecorded, tracked⟩ := brings.tracks
    exact ⟨course, recorded, isAlong, rfl, isRecorded, tracked.knowsObjects⟩
  rejected := exists_rests_of_analyze_eq_error

namespace Rounds

def madeClass : BinaryName := ⟨"a/Made", by decide⟩

/-- A method that makes an object in every round of a loop. The constructor is called in some
rounds; in the others the object is stored. -/
def loop : Method where
  instructions := #[
    .new madeClass,
    .op (.stack .dup),
    .load .int 0,
    .branch (.zero .equal) 7,
    .invoke .special ⟨.object madeClass, .init, ⟨[], none⟩, false⟩,
    .op (.stack .pop),
    .goto 0,
    .store .reference 1,
    .op (.stack .pop),
    .goto 0]
  handlers := #[]
  owner := .object
  flags := MethodFlags.accStatic
  name := ⟨"rounds", by decide⟩
  type := ⟨[.int], none⟩
  hasVariableTable := true
  maxLocals := 1

/-- The frame of the call of the constructor. -/
def called : Frame :=
  ⟨[.int], [.uninitialized 0, .uninitialized 0]⟩

/-- The way through a round that stores its object, to the call in the next one. -/
def secondRound : List Departure :=
  [.next, .next, .next, .jump 7, .next, .next, .jump 0, .next, .next, .next, .next]

/-- There are two objects at the call, one of each round. -/
def atCall : Course where
  past := [3, 2, 1, 0, 9, 8, 7, 3, 2, 1, 0]
  index := 4
  frame := ⟨[.int, .uninitialized 0], [.uninitialized 7, .uninitialized 7]⟩

theorem path_secondRound :
    loop.Path secondRound 4 := by
  have atStart : loop.Path [] 0 := .entry
  have atBranch := ((atStart.leave .next ⟨_, rfl, rfl⟩).leave .next ⟨_, rfl, rfl⟩).leave .next
    ⟨_, rfl, rfl⟩
  have atStore := atBranch.leave (.jump 7) ⟨_, rfl, List.mem_cons_self⟩
  have atGoto := (atStore.leave .next ⟨_, rfl, rfl⟩).leave .next ⟨_, rfl, rfl⟩
  have atSecond := atGoto.leave (.jump 0) ⟨_, rfl, List.mem_cons_self⟩
  exact (((atSecond.leave .next ⟨_, rfl, rfl⟩).leave .next ⟨_, rfl, rfl⟩).leave .next
    ⟨_, rfl, rfl⟩).leave .next ⟨_, rfl, rfl⟩

end Rounds

open Rounds in
/-- In the second round the constructor is called on the object of that round. -/
theorem rounds_keepObjectsApart :
    ∃ analysis, loop.analyze .core = .ok analysis ∧ analysis.frame? 4 = some called ∧
      loop.Path secondRound 4 ∧ Course.along loop secondRound = .ok atCall ∧
      atCall.KnowsObjects called := by
  have accepted : ∃ analysis, loop.analyze .core = .ok analysis ∧
      analysis.frame? 4 = some called := by
    refine ⟨⟨#[some ⟨[.int, .top], []⟩, some ⟨[.int], [.uninitialized 0]⟩,
      some ⟨[.int], [.uninitialized 0, .uninitialized 0]⟩,
      some ⟨[.int], [.int, .uninitialized 0, .uninitialized 0]⟩, some called,
      some ⟨[.int], [.object (.object madeClass)]⟩, some ⟨[.int], []⟩,
      some ⟨[.int], [.uninitialized 0, .uninitialized 0]⟩,
      some ⟨[.int, .uninitialized 0], [.uninitialized 0]⟩,
      some ⟨[.int, .uninitialized 0], []⟩], 3, 2⟩, ?_, ?_⟩
    · decide +kernel
    · rfl
  obtain ⟨analysis, isAnalysis, isCalled⟩ := accepted
  have isAlong : Course.along loop secondRound = .ok atCall := by decide +kernel
  obtain ⟨course, recorded, isCourse, _, isRecorded, knows⟩ :=
    (Method.keepsObjectsApart .core loop).along isAnalysis path_secondRound
  cases isCourse.symm.trans isAlong
  cases isRecorded.symm.trans isCalled
  exact ⟨analysis, isAnalysis, isCalled, path_secondRound, isAlong, knows⟩

end ClosureConversion
