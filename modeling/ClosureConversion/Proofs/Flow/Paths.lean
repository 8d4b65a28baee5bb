import ClosureConversion.Proofs.Flow.Worklist

/-!
Contract: the frames of an analysed method stand for what every path of control brings to
its instructions.

Owns:
- paths of control from the entry of a method, and executing a method along one;
- in a well-formed hierarchy that knows all types that the method names, execution along a
  path never fails, and merging its frame into the frame of the instruction changes
  nothing;
- hierarchies of other shapes in which this fails.

Does not own: which of the paths control takes.
-/

namespace ClosureConversion

/-- How control leaves an instruction: by a jump, to the next instruction, or to the handler
of an exception that is thrown before or after the instruction changed the slots. -/
inductive Departure where
  | jump (target : Nat)
  | next
  | exception (range : ExceptionRange Nat) (completed : Bool)
deriving DecidableEq, Repr

namespace Departure

/-- Where control goes from the instruction of an index. -/
def target (departure : Departure) (index : Nat) : Nat :=
  match departure with
  | .jump target => target
  | .next => index + 1
  | .exception range _ => range.handler

/-- The frame that control goes on with. -/
def enter (departure : Departure) (before after : Frame) : Frame :=
  match departure with
  | .jump _ => after
  | .next => after
  | .exception range completed =>
      Frame.handlerEntry (if completed then after.locals else before.locals) range.catchType

end Departure

namespace Method

/-- Whether control may leave the instruction of an index in a way. -/
def Allows (method : Method) (index : Nat) (departure : Departure) : Prop :=
  ∃ instruction, method.instructions[index]? = some instruction ∧
    match departure with
    | .jump target => target ∈ instruction.targets
    | .next => instruction.fallsThrough = true
    | .exception range _ => range ∈ method.handlers.toList ∧ range.covers index = true

/-- The ways in which control may go from the entry of a method to an instruction. -/
inductive Path (method : Method) : List Departure → Nat → Prop where
  | entry : Path method [] 0
  | leave {departures : List Departure} {index : Nat} (departure : Departure) :
      Path method departures index → method.Allows index departure →
      Path method (departures ++ [departure]) (departure.target index)

/-- The frame after the instruction of an index. -/
def executeAt (method : Method) (index : Nat) (frame : Frame) : Except FlowError Frame :=
  match method.instructions[index]? with
  | some instruction => frame.execute method.owner method.instructions index instruction
  | none => .error .fallsOffEnd

/-- Executes the instruction that control is at, and leaves it. -/
def followStep (method : Method) (position : Nat × Frame) (departure : Departure) :
    Except FlowError (Nat × Frame) := do
  let after ← method.executeAt position.1 position.2
  return (departure.target position.1, departure.enter position.2 after)

/-- Executes the method along a path: where control is afterwards, and with which frame. -/
def follow (method : Method) (departures : List Departure) : Except FlowError (Nat × Frame) :=
  departures.foldlM method.followStep (0, method.entryFrame)

/-- The reference types that the values of a method may have. -/
def namedTypes (method : Method) : List RefType :=
  .object method.owner ::
    (method.type.parameters.flatMap fun type => (VerificationType.ofField type).namedTypes) ++
    (method.handlers.toList.map fun range => .object (range.catchType.getD .throwable)) ++
    method.instructions.toList.flatMap Instruction.namedTypes

variable {hierarchy : Hierarchy} {method : Method}

theorem codeIsKnown_of_namedTypes
    (known : ∀ type ∈ method.namedTypes, type.IsKnown hierarchy) :
    CodeIsKnown hierarchy method.owner method.instructions where
  owner := known (.object method.owner) (by simp [namedTypes])
  instructions := by
    intro index instruction isInstruction type member
    have isMember : instruction ∈ method.instructions.toList :=
      Array.mem_toList_iff.mpr (Array.mem_of_getElem? isInstruction)
    exact known type (List.mem_append_right _ (List.mem_flatMap.mpr ⟨instruction, isMember, member⟩))

theorem isKnown_entryFrame
    (known : ∀ type ∈ method.namedTypes, type.IsKnown hierarchy) :
    ∀ type ∈ method.entryFrame.locals, type.IsKnown hierarchy := by
  have ownerKnown : RefType.IsKnown hierarchy (.object method.owner) :=
    known (.object method.owner) (by simp [namedTypes])
  intro type member
  rcases List.mem_append.mp member with isReceiver | isParameter
  · split at isReceiver
    · cases isReceiver
    · split at isReceiver
      · rw [List.mem_singleton.mp isReceiver]
        trivial
      · rw [List.mem_singleton.mp isReceiver]
        exact ownerKnown
  · obtain ⟨parameter, isParameter, isSlot⟩ := List.mem_flatMap.mp isParameter
    have parameterKnown : (VerificationType.ofField parameter : VType).IsKnown hierarchy := by
      apply VerificationType.isKnown_of_namedTypes
      intro named isNamed
      have isMember : named ∈ method.type.parameters.flatMap fun type =>
          (VerificationType.ofField type : VType).namedTypes :=
        List.mem_flatMap.mpr ⟨parameter, isParameter, isNamed⟩
      exact known named
        (List.mem_append_left _ (List.mem_append_left _ (List.mem_cons_of_mem _ isMember)))
    split at isSlot
    · rcases List.mem_cons.mp isSlot with rfl | isTop
      · exact parameterKnown
      · rw [List.mem_singleton.mp isTop]
        trivial
    · rw [List.mem_singleton.mp isSlot]
      exact parameterKnown

end Method

namespace Frame

variable {hierarchy : Hierarchy} {special general : Frame}

theorem isKnownBelow_handlerEntry
    (below : special.IsKnownBelow hierarchy general)
    {catchType : Option BinaryName}
    (known : hierarchy.Knows (catchType.getD .throwable)) :
    (handlerEntry special.locals catchType).IsKnownBelow hierarchy
      (handlerEntry general.locals catchType) where
  stack := .cons (.refl known) .nil
  locals := below.locals

end Frame

namespace FlowAnalysis

variable {hierarchy : Hierarchy} {method : Method} {analysis : FlowAnalysis}

/-- The frame of an instruction stands for a frame with which control comes there: it has as
many values on the stack, merging the other frame into it adds no more than useless slots
at the end, and there is room for the other frame. -/
structure StandsFor (analysis : FlowAnalysis) (hierarchy : Hierarchy) (index : Nat)
    (frame recorded : Frame) : Prop where
  isRecorded : analysis.frame? index = some recorded
  sameDepth : frame.stack.length = recorded.stack.length
  unchanged : recorded.merge hierarchy frame =
    .ok (⟨Locals.extend recorded.locals frame.localSlots, recorded.stack⟩, false)
  stackSlots : frame.stackSlots ≤ analysis.maxStack
  localSlots : frame.localSlots ≤ analysis.maxLocals

/-- Control comes to an instruction with a frame below the one of the instruction. -/
structure Admits (analysis : FlowAnalysis) (hierarchy : Hierarchy) (index : Nat)
    (frame : Frame) : Prop where
  covered : ∃ recorded, analysis.frame? index = some recorded ∧
    frame.IsKnownBelow hierarchy recorded
  localSlots : frame.localSlots ≤ analysis.maxLocals

theorem Admits.standsFor
    (wellFormed : hierarchy.WellFormed)
    (sound : analysis.IsSound)
    {index : Nat}
    {frame : Frame}
    (admits : analysis.Admits hierarchy index frame) :
    ∃ recorded, analysis.StandsFor hierarchy index frame recorded := by
  obtain ⟨recorded, isRecorded, below⟩ := admits.covered
  exact ⟨recorded, {
    isRecorded := isRecorded
    sameDepth := below.stack.length_eq
    unchanged := Frame.merge_eq_of_isKnownBelow wellFormed (sound.whole isRecorded) below
    stackSlots := by
      rw [below.isBelow.stackSlots_eq]
      exact sound.stackSlots isRecorded
    localSlots := admits.localSlots }⟩

theorem covers_of_isKnownBelow
    (wellFormed : hierarchy.WellFormed)
    {index : Nat}
    {frame general : Frame}
    (below : frame.IsKnownBelow hierarchy general)
    (covered : analysis.Covers (Frame.IsBelow hierarchy) index general) :
    ∃ recorded, analysis.frame? index = some recorded ∧
      frame.IsKnownBelow hierarchy recorded := by
  obtain ⟨recorded, isRecorded, generalBelow⟩ := covered
  exact ⟨recorded, isRecorded, below.trans_isBelow wellFormed generalBelow⟩

/-- The instruction that control comes to can be executed, and wherever control goes from
there, the frame that it brings is below the one there. -/
theorem Admits.step
    (wellFormed : hierarchy.WellFormed)
    (known : ∀ type ∈ method.namedTypes, type.IsKnown hierarchy)
    {index : Nat}
    (settled : analysis.IsSettled (Frame.IsBelow hierarchy) method index)
    {frame : Frame}
    (admits : analysis.Admits hierarchy index frame) :
    ∃ after, method.executeAt index frame = .ok after ∧
      ∀ departure, method.Allows index departure →
        analysis.Admits hierarchy (departure.target index) (departure.enter frame after) := by
  have codeKnown := Method.codeIsKnown_of_namedTypes known
  obtain ⟨recorded, isRecorded, below⟩ := admits.covered
  obtain ⟨instruction, before, general, recordedBelow, settledAt⟩ := settled recorded isRecorded
  have belowBefore := below.trans_isBelow wellFormed recordedBelow
  obtain ⟨after, executed, belowAfter, afterSlots⟩ :=
    Frame.refines_execute belowBefore codeKnown settledAt.isInstruction general settledAt.executes
  have afterInside : after.localSlots ≤ analysis.maxLocals :=
    Nat.le_trans afterSlots (Nat.max_le.mpr ⟨admits.localSlots, settledAt.localSlots⟩)
  refine ⟨after, ?_, ?_⟩
  · unfold Method.executeAt
    rw [settledAt.isInstruction]
    exact executed
  · rintro departure ⟨other, isOther, allowed⟩
    obtain rfl := Option.some.inj (settledAt.isInstruction.symm.trans isOther)
    cases departure with
    | jump target =>
        exact ⟨covers_of_isKnownBelow wellFormed belowAfter (settledAt.targets target allowed),
          afterInside⟩
    | next =>
        exact ⟨covers_of_isKnownBelow wellFormed belowAfter (settledAt.next allowed).2, afterInside⟩
    | exception range completed =>
        obtain ⟨isHandler, isCovered⟩ := allowed
        have catchKnown : hierarchy.Knows (range.catchType.getD .throwable) :=
          known (.object (range.catchType.getD .throwable))
            (List.mem_append_left _ (List.mem_append_right _
              (List.mem_map.mpr ⟨range, isHandler, rfl⟩)))
        have entered := settledAt.handlers range isHandler isCovered
        cases completed with
        | false =>
            exact ⟨covers_of_isKnownBelow wellFormed
              (Frame.isKnownBelow_handlerEntry belowBefore catchKnown)
              (entered _ List.mem_cons_self), admits.localSlots⟩
        | true =>
            exact ⟨covers_of_isKnownBelow wellFormed
              (Frame.isKnownBelow_handlerEntry belowAfter catchKnown)
              (entered _ (List.mem_cons_of_mem _ List.mem_cons_self)), afterInside⟩

end FlowAnalysis

namespace Method

variable {hierarchy : Hierarchy} {method : Method}

theorem admits_entryFrame
    {analysis : FlowAnalysis}
    (known : ∀ type ∈ method.namedTypes, type.IsKnown hierarchy)
    (covered : analysis.Covers (Frame.IsBelow hierarchy) 0 method.entryFrame)
    (localSlots : method.entryFrame.localSlots ≤ analysis.maxLocals) :
    analysis.Admits hierarchy 0 method.entryFrame := by
  obtain ⟨recorded, isRecorded, below⟩ := covered
  have entryKnown := isKnown_entryFrame known
  refine ⟨⟨recorded, isRecorded, ?_, fun index => ⟨?_, below.locals index⟩⟩, localSlots⟩
  · have emptyStack := below.stack
    rw [List.forall₂_nil_left_iff.mp emptyStack]
    exact .nil
  · by_cases inside : index < method.entryFrame.locals.length
    · exact entryKnown _ (List.mem_of_getElem? (Locals.getElem?_of_lt_length inside))
    · rw [Locals.valueAt_of_length_le (by omega)]
      trivial

/-- Execution along a path of control never fails, and the frames of the analysis stand for
the frames along it. -/
theorem follow_isCovered
    (wellFormed : hierarchy.WellFormed)
    (known : ∀ type ∈ method.namedTypes, type.IsKnown hierarchy)
    {analysis : FlowAnalysis}
    (accepted : method.analyze hierarchy = .ok analysis)
    {departures : List Departure}
    {index : Nat}
    (path : method.Path departures index) :
    ∃ frame recorded after, method.follow departures = .ok (index, frame) ∧
      method.executeAt index frame = .ok after ∧
      analysis.StandsFor hierarchy index frame recorded := by
  obtain ⟨state, consistent, isDone, rfl⟩ :=
    isConsistent_of_analyze_eq_ok (Frame.mergeOrder_isBelow wellFormed) accepted
  have settled : ∀ index, state.found.IsSettled (Frame.IsBelow hierarchy) method index := by
    intro index recorded isRecorded
    rcases consistent.settled isRecorded with waits | settled
    · rw [isDone] at waits
      cases waits
    · exact settled recorded isRecorded
  have admitted : ∃ frame, method.follow departures = .ok (index, frame) ∧
      state.found.Admits hierarchy index frame := by
    induction path with
    | entry =>
        exact ⟨method.entryFrame, rfl, admits_entryFrame known consistent.entry consistent.entrySlots⟩
    | @leave departures index departure _ allowed inductionHypothesis =>
        obtain ⟨frame, followed, admits⟩ := inductionHypothesis
        obtain ⟨after, executed, admitsNext⟩ := admits.step wellFormed known (settled index)
        refine ⟨departure.enter frame after, ?_, admitsNext departure allowed⟩
        unfold follow at followed ⊢
        rw [List.foldlM_append, followed]
        refine bind_eq_ok.mpr ⟨_, rfl, bind_eq_ok.mpr ⟨_, ?_, rfl⟩⟩
        exact bind_eq_ok.mpr ⟨after, executed, rfl⟩
  obtain ⟨frame, followed, admits⟩ := admitted
  obtain ⟨recorded, standsFor⟩ := admits.standsFor wellFormed consistent.sound
  obtain ⟨after, executed, _⟩ := admits.step wellFormed known (settled index)
  exact ⟨frame, recorded, after, followed, executed, standsFor⟩

end Method

/-! ## Branches that meet -/

namespace MeetingBranches

/-- Two branches make values of two classes, one of which is thrown where they meet. The
handler stores what it caught and begins again. -/
def method (first second : BinaryName) : Method where
  instructions := #[
    .load .int 0,
    .branch (.zero .equal) 5,
    .op .pushNull,
    .checkCast (.object first),
    .goto 7,
    .op .pushNull,
    .checkCast (.object second),
    .op .throw,
    .store .reference 1,
    .goto 0]
  handlers := #[⟨0, 8, 8, none⟩]
  owner := .object
  flags := MethodFlags.accStatic
  name := ⟨"meet", by decide⟩
  type := ⟨[.int], none⟩
  hasVariableTable := true
  maxLocals := 1

/-- The frames of the method, where the branches meet with a value of a third class. -/
def frames (first joined : BinaryName) : FlowAnalysis where
  frames := #[
    some ⟨[.int, .top], []⟩,
    some ⟨[.int], [.int]⟩,
    some ⟨[.int], []⟩,
    some ⟨[.int], [.null]⟩,
    some ⟨[.int], [.object (.object first)]⟩,
    some ⟨[.int], []⟩,
    some ⟨[.int], [.null]⟩,
    some ⟨[.int], [.object (.object joined)]⟩,
    some ⟨[.int], [.object (.object .throwable)]⟩,
    some ⟨[.int, .object (.object .throwable)], []⟩]
  maxStack := 1
  maxLocals := 2

/-- The way to where the branches meet that makes a value of the first class. -/
def firstBranch : List Departure := [.next, .next, .next, .next, .jump 7]

/-- The first branch, after the handler ran. -/
def secondRound : List Departure :=
  firstBranch ++ [.exception ⟨0, 8, 8, none⟩ true, .next, .jump 0] ++ firstBranch

theorem path_firstBranch
    (first second : BinaryName)
    {departures : List Departure}
    (path : (method first second).Path departures 0) :
    (method first second).Path (departures ++ firstBranch) 7 := by
  have atBranch := path.leave .next ⟨_, rfl, rfl⟩
  have atNull := atBranch.leave .next ⟨_, rfl, rfl⟩
  have atCast := atNull.leave .next ⟨_, rfl, rfl⟩
  have atJump := atCast.leave .next ⟨_, rfl, rfl⟩
  have atThrow := atJump.leave (.jump 7) ⟨_, rfl, List.mem_cons_self⟩
  simp only [List.append_assoc] at atThrow
  exact atThrow

theorem path_secondRound
    (first second : BinaryName) :
    (method first second).Path secondRound 7 := by
  have atThrow := path_firstBranch first second .entry
  have atHandler := atThrow.leave (.exception ⟨0, 8, 8, none⟩ true)
    ⟨_, rfl, List.mem_cons_self, rfl⟩
  have atGoto := atHandler.leave .next ⟨_, rfl, rfl⟩
  have atStart := atGoto.leave (.jump 0) ⟨_, rfl, List.mem_cons_self⟩
  exact path_firstBranch first second atStart

end MeetingBranches

open MeetingBranches in
/-- In the second round the frames still stand for those of the path. -/
theorem meetingBranches_isCovered :
    Hierarchy.core.WellFormed ∧
      (∀ type ∈ (method .runtimeException .error).namedTypes, type.IsKnown .core) ∧
      (method .runtimeException .error).analyze .core =
        .ok (frames .runtimeException .throwable) ∧
      (method .runtimeException .error).Path secondRound 7 ∧
      ∃ frame recorded after,
        (method .runtimeException .error).follow secondRound = .ok (7, frame) ∧
        (method .runtimeException .error).executeAt 7 frame = .ok after ∧
        (frames .runtimeException .throwable).StandsFor .core 7 frame recorded := by
  have known : ∀ type ∈ (method .runtimeException .error).namedTypes, type.IsKnown .core := by
    decide +kernel
  have accepted : (method .runtimeException .error).analyze .core =
      .ok (frames .runtimeException .throwable) := by
    decide +kernel
  have path := path_secondRound .runtimeException .error
  exact ⟨Hierarchy.core_wellFormed, known, accepted, path,
    Method.follow_isCovered Hierarchy.core_wellFormed known accepted path⟩

namespace MeetingBranches

/-- All classes are found with all their superclasses, and yet the frame where the branches
meet does not stand for the one that the first branch brings there. -/
structure IsUncovered (hierarchy : Hierarchy) (first second joined merged : BinaryName) :
    Prop where
  known : ∀ name ∈ hierarchy.names, hierarchy.Knows name
  accepted : (method first second).analyze hierarchy = .ok (frames first joined)
  path : (method first second).Path firstBranch 7
  followed : (method first second).follow firstBranch = .ok (7, ⟨[.int], [.object (.object first)]⟩)
  changed : Frame.merge hierarchy ⟨[.int], [.object (.object joined)]⟩
    ⟨[.int], [.object (.object first)]⟩ = .ok (⟨[.int], [.object (.object merged)]⟩, true)

def classA : BinaryName := ⟨"a/A", by decide⟩
def classB : BinaryName := ⟨"a/B", by decide⟩
def classC : BinaryName := ⟨"a/C", by decide⟩
def classI : BinaryName := ⟨"a/I", by decide⟩

/-- The superclass of a class is an interface. -/
def interfaceAbove : Hierarchy where
  declared := [
    CoreClass.publicClass classC [] [],
    { CoreClass.interface classI [] [] with super := some classC },
    { CoreClass.publicClass classA [] [] with super := some classI },
    { CoreClass.publicClass classB [] [] with super := some classC }]
  loaded := []

/-- The root class has a superclass. -/
def classAboveRoot : Hierarchy where
  declared := [
    { CoreClass.publicClass classA [] [] with super := none },
    CoreClass.interface classI [] [],
    { CoreClass.root with super := some classA }]
  loaded := []

/-- A class is found under another name than its own, which is that of an interface. -/
def otherName : Hierarchy where
  declared := [
    CoreClass.interface classI [] [],
    { CoreClass.publicClass classB [] [] with super := some classA }]
  loaded := [(classA, .ok (CoreClass.publicClass classI [] []))]

end MeetingBranches

open MeetingBranches in
/-- Frames need not stand for those along a path where superclasses are not as the platform
promises. -/
theorem meetingBranches_isUncovered :
    IsUncovered interfaceAbove classA classB classC .object ∧
      IsUncovered classAboveRoot classA classI .object classA ∧
      IsUncovered otherName classA classB classI .object := by
  refine ⟨⟨?_, ?_, path_firstBranch _ _ .entry, rfl, ?_⟩,
    ⟨?_, ?_, path_firstBranch _ _ .entry, rfl, ?_⟩,
    ⟨?_, ?_, path_firstBranch _ _ .entry, rfl, ?_⟩⟩ <;> decide +kernel

end ClosureConversion
