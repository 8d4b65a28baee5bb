import ClosureConversion.Code.Span
import ClosureConversion.Proofs.Flow.Operands
import ClosureConversion.Proofs.Flow.Paths

/-!
Contract: evaluating a span of an analysed method on its own, from an empty operand stack.

Owns:
- the paths by jumps and to the next instruction that stay in a span, and executing the method
  along one;
- the frames along such a path are the tops of the recorded ones, as far as all instructions
  before found their operands among the values that the span itself pushed;
- a span that no jump leaves, and over which the stack grows by one value, can be evaluated on
  its own exactly if all its instructions find their operands there.

Does not own: which spans those are.
-/

namespace ClosureConversion

/-- Control goes on without an exception. -/
def Departure.isRegular : Departure → Bool
  | .jump _ => true
  | .next => true
  | .exception _ _ => false

namespace Method

/-- The ways in which control may go from the start of a span to an instruction without an
exception, where all instructions before lie in the span. -/
inductive InnerPath (method : Method) (span : Span) : List Departure → Nat → Prop where
  | start : InnerPath method span [] span.start
  | leave {departures : List Departure} {index : Nat} (departure : Departure) :
      InnerPath method span departures index → span.contains index = true →
      departure.isRegular = true → method.Allows index departure →
      InnerPath method span (departures ++ [departure]) (departure.target index)

/-- Executes the method along a path that begins at a position. -/
def followFrom (method : Method) (position : Nat × Frame) (departures : List Departure) :
    Except FlowError (Nat × Frame) :=
  departures.foldlM method.followStep position

/-- From the start of a span on, with some local variables and an empty operand stack,
execution never fails in the span, and where control leaves the span, it goes to its end with
exactly one value. -/
structure EvaluatesAlone (method : Method) (span : Span) (locals : List VType) : Prop where
  executes : ∀ {departures index}, method.InnerPath span departures index →
    span.contains index = true →
    ∃ frame after, method.followFrom (span.start, ⟨locals, []⟩) departures = .ok (index, frame) ∧
      method.executeAt index frame = .ok after
  leaves : ∀ {departures index}, method.InnerPath span departures index →
    span.contains index = false →
    index = span.stop ∧ ∃ locals' value,
      method.followFrom (span.start, ⟨locals, []⟩) departures =
        .ok (span.stop, ⟨locals', [value]⟩)

/-- The instruction of an index finds all its operands among the values of its recorded frame
that stand above so many others. -/
def FindsOperands (method : Method) (analysis : FlowAnalysis) (depth index : Nat) : Prop :=
  ∀ instruction recorded, method.instructions[index]? = some instruction →
    analysis.frame? index = some recorded →
    instruction.operands (recorded.stack.above depth) ≤ (recorded.stack.above depth).length

/-- All instructions that control reaches in a span without an exception find their operands
among the values above so many others. -/
def SpanFindsOperands (method : Method) (analysis : FlowAnalysis) (depth : Nat)
    (span : Span) : Prop :=
  ∀ departures index, method.InnerPath span departures index → span.contains index = true →
    method.FindsOperands analysis depth index

/-- No jump in a span leads elsewhere than into the span or to its end. -/
def KeepsJumps (method : Method) (span : Span) : Prop :=
  ∀ {index target : Nat} {instruction : Instruction Nat}, span.contains index = true →
    method.instructions[index]? = some instruction → target ∈ instruction.targets →
    span.touches target = true

variable {method : Method} {span : Span}

/-- Control stays in a span that keeps its jumps, or goes to its end. -/
theorem InnerPath.touches
    (keepsJumps : method.KeepsJumps span)
    (forward : span.start ≤ span.stop)
    {departures : List Departure}
    {index : Nat}
    (path : method.InnerPath span departures index) :
    span.touches index = true := by
  cases path with
  | start => simp [Span.touches, forward]
  | @leave departures index departure _ inside regular allowed =>
      obtain ⟨instruction, isInstruction, allowed⟩ := allowed
      cases departure with
      | jump target => exact keepsJumps inside isInstruction allowed
      | next =>
          simp only [Span.contains, Bool.and_eq_true, decide_eq_true_eq] at inside
          change (decide (span.start ≤ index + 1) && decide (index + 1 ≤ span.stop)) = true
          simp only [Bool.and_eq_true, decide_eq_true_eq]
          omega
      | exception range completed => cases regular

theorem followFrom_append_singleton
    {position : Nat × Frame}
    {departures : List Departure}
    {departure : Departure}
    {index : Nat}
    {frame after : Frame}
    (followed : method.followFrom position departures = .ok (index, frame))
    (executed : method.executeAt index frame = .ok after) :
    method.followFrom position (departures ++ [departure]) =
      .ok (departure.target index, departure.enter frame after) := by
  unfold followFrom at followed ⊢
  rw [List.foldlM_append, followed]
  refine bind_eq_ok.mpr ⟨_, rfl, bind_eq_ok.mpr ⟨_, ?_, rfl⟩⟩
  exact bind_eq_ok.mpr ⟨after, executed, rfl⟩

end Method

/-! ## Tops of recorded frames -/

namespace OperandStack

theorem IsTopOf.above_eq
    {Below : VType → VType → Prop}
    {depth : Nat}
    {special general : OperandStack}
    (top : IsTopOf Below depth special general) :
    general.above depth = general.take special.length := by
  unfold above
  rw [top.length_eq, Nat.add_sub_cancel]

/-- The top of a stack has as many values as stand above the others, and they are as wide. -/
theorem IsTopOf.operands_eq
    {depth : Nat}
    {special general : OperandStack}
    (top : IsTopOf VerificationType.ServesAs depth special general)
    (instruction : Instruction Nat) :
    (general.above depth).length = special.length ∧
      instruction.operands (general.above depth) = instruction.operands special := by
  have below := top.forall₂_take
  rw [top.above_eq]
  exact ⟨below.length_eq.symm,
    (instruction.operands_eq (below.imp fun _ _ serves => serves.isWide_eq)).symm⟩

end OperandStack

/-- A frame is the top of another one, whatever the classes of its objects are. -/
abbrev Frame.ServesAsTop (depth : Nat) (special general : Frame) : Prop :=
  special.IsTopOf VerificationType.ServesAs VerificationType.ServesSlot depth general

theorem Frame.ServesAsTop.trans
    {depth : Nat}
    {first second third : Frame}
    (top : first.ServesAsTop depth second)
    (serves : second.ServesAs third) :
    first.ServesAsTop depth third where
  stack := top.stack.trans (fun _ _ _ lower upper => lower.trans upper) serves.stack
  locals := fun index => (top.locals index).trans (serves.locals index)

namespace FlowAnalysis

variable {method : Method} {analysis : FlowAnalysis} {depth : Nat}

/-- A frame is the top of the one that is recorded for an instruction. -/
def IsTopAt (analysis : FlowAnalysis) (depth index : Nat) (frame : Frame) : Prop :=
  ∃ recorded, analysis.frame? index = some recorded ∧ frame.ServesAsTop depth recorded

variable {index : Nat} {frame : Frame}

/-- At the top of the recorded frame an instruction can be executed exactly if it finds its
operands there, and wherever control goes on without an exception, it brings the top of the
recorded frame. -/
theorem IsTopAt.step
    (settled : analysis.IsSettled Frame.ServesAs method index)
    (top : analysis.IsTopAt depth index frame) :
    ((∃ after, method.executeAt index frame = .ok after) ↔
        method.FindsOperands analysis depth index) ∧
      ∀ after, method.executeAt index frame = .ok after → ∀ departure : Departure,
        departure.isRegular = true → method.Allows index departure →
        analysis.IsTopAt depth (departure.target index) (departure.enter frame after) := by
  obtain ⟨recorded, isRecorded, top⟩ := top
  obtain ⟨instruction, before, general, serves, settledAt⟩ := settled recorded isRecorded
  have executeAt_eq : method.executeAt index frame =
      frame.execute method.owner method.instructions index instruction := by
    unfold Method.executeAt
    rw [settledAt.isInstruction]
  have refined := valueOrder_servesAs.refines_execute (top.trans serves)
    (codeIsOrdered_servesAs method.owner method.instructions) settledAt.isInstruction
    general settledAt.executes
  have needs := frame.needs_execute method.owner method.instructions index instruction
  obtain ⟨sameLength, sameOperands⟩ := top.stack.operands_eq instruction
  rw [executeAt_eq]
  refine ⟨⟨?_, ?_⟩, ?_⟩
  · rintro ⟨after, executed⟩ other found isOther isFound
    obtain rfl := Option.some.inj (settledAt.isInstruction.symm.trans isOther)
    obtain rfl := Option.some.inj (isRecorded.symm.trans isFound)
    rw [sameLength, sameOperands]
    exact needs.enough after executed
  · intro finds
    have enough := finds instruction recorded settledAt.isInstruction isRecorded
    rw [sameLength, sameOperands] at enough
    rcases refined with ⟨failure, failed, _, rfl⟩ | ⟨after, executed, _⟩
    · exact absurd (needs.short failed) (Nat.not_lt.mpr enough)
    · exact ⟨after, executed⟩
  · intro after executed departure regular allowed
    obtain ⟨other, isOther, allowed⟩ := allowed
    obtain rfl := Option.some.inj (settledAt.isInstruction.symm.trans isOther)
    have afterTop : after.ServesAsTop depth general := by
      rcases refined with ⟨failure, failed, _⟩ | ⟨found, isFound, stays, _⟩
      · cases failed.symm.trans executed
      · cases isFound.symm.trans executed
        exact stays
    cases departure with
    | jump target =>
        obtain ⟨next, isNext, nextServes⟩ := settledAt.targets target allowed
        exact ⟨next, isNext, afterTop.trans nextServes⟩
    | next =>
        obtain ⟨next, isNext, nextServes⟩ := (settledAt.next allowed).2
        exact ⟨next, isNext, afterTop.trans nextServes⟩
    | exception range completed => cases regular

end FlowAnalysis

/-! ## Evaluation -/

namespace Method

variable {method : Method} {analysis : FlowAnalysis} {span : Span} {recorded : Frame}

/-- Execution along an inner path that does not fail ends where the path ends, with the top of
the frame that is recorded there. -/
theorem isTopAt_of_followFrom_eq_ok
    (settled : ∀ index, analysis.IsSettled Frame.ServesAs method index)
    (isRecorded : analysis.frame? span.start = some recorded)
    {departures : List Departure}
    {index : Nat}
    (path : method.InnerPath span departures index)
    {position : Nat}
    {frame : Frame}
    (followed : method.followFrom (span.start, ⟨recorded.locals, []⟩) departures =
      .ok (position, frame)) :
    position = index ∧ analysis.IsTopAt recorded.stack.length index frame := by
  induction path generalizing position frame with
  | start =>
      cases followed
      exact ⟨rfl, recorded, isRecorded, .base rfl, (Frame.ServesAs.refl recorded).locals⟩
  | @leave departures index departure _ _ regular allowed inductionHypothesis =>
      unfold followFrom at followed
      rw [List.foldlM_append] at followed
      obtain ⟨⟨middle, before⟩, followedBefore, stepped⟩ := bind_eq_ok.mp followed
      obtain ⟨rfl, top⟩ := inductionHypothesis followedBefore
      obtain ⟨⟨target, entered⟩, isStep, isLast⟩ := bind_eq_ok.mp stepped
      obtain ⟨after, executed, isEntered⟩ := bind_eq_ok.mp isStep
      cases isEntered
      cases isLast
      exact ⟨rfl, (top.step (settled middle)).2 after executed departure regular allowed⟩

/-- Along an inner path all of whose instructions find their operands, execution does not
fail. -/
theorem exists_followFrom_eq_ok
    (settled : ∀ index, analysis.IsSettled Frame.ServesAs method index)
    (isRecorded : analysis.frame? span.start = some recorded)
    (finds : method.SpanFindsOperands analysis recorded.stack.length span)
    {departures : List Departure}
    {index : Nat}
    (path : method.InnerPath span departures index) :
    ∃ frame, method.followFrom (span.start, ⟨recorded.locals, []⟩) departures =
      .ok (index, frame) := by
  induction path with
  | start => exact ⟨_, rfl⟩
  | @leave departures index departure path inside _ _ inductionHypothesis =>
      obtain ⟨frame, followed⟩ := inductionHypothesis
      have top := (isTopAt_of_followFrom_eq_ok settled isRecorded path followed).2
      obtain ⟨after, executed⟩ :=
        (top.step (settled index)).1.mpr (finds departures index path inside)
      exact ⟨_, followFrom_append_singleton followed executed⟩

/-- A span over which the stack grows by one value and that keeps its jumps can be evaluated on
its own if and only if all its instructions find their operands among the values that it
pushes. -/
theorem evaluatesAlone_iff
    (settled : ∀ index, analysis.IsSettled Frame.ServesAs method index)
    (keepsJumps : method.KeepsJumps span)
    (forward : span.start ≤ span.stop)
    (isRecorded : analysis.frame? span.start = some recorded)
    (grows : analysis.stackDepth? span.stop = some (recorded.stack.length + 1)) :
    method.EvaluatesAlone span recorded.locals ↔
      method.SpanFindsOperands analysis recorded.stack.length span := by
  constructor
  · intro alone departures index path inside
    obtain ⟨frame, after, followed, executed⟩ := alone.executes path inside
    have top := (isTopAt_of_followFrom_eq_ok settled isRecorded path followed).2
    exact (top.step (settled index)).1.mp ⟨after, executed⟩
  · intro finds
    constructor
    · intro departures index path inside
      obtain ⟨frame, followed⟩ := exists_followFrom_eq_ok settled isRecorded finds path
      have top := (isTopAt_of_followFrom_eq_ok settled isRecorded path followed).2
      obtain ⟨after, executed⟩ :=
        (top.step (settled index)).1.mpr (finds departures index path inside)
      exact ⟨frame, after, followed, executed⟩
    · intro departures index path outside
      have touches := path.touches keepsJumps forward
      obtain rfl : index = span.stop := by
        simp only [Span.contains, Span.touches, Bool.and_eq_true, Bool.and_eq_false_iff,
          decide_eq_true_eq, decide_eq_false_iff_not] at outside touches
        omega
      obtain ⟨frame, followed⟩ := exists_followFrom_eq_ok settled isRecorded finds path
      obtain ⟨_, atStop, isAtStop, top⟩ :=
        isTopAt_of_followFrom_eq_ok settled isRecorded path followed
      have depthAtStop : atStop.stack.length = recorded.stack.length + 1 := by
        unfold FlowAnalysis.stackDepth? at grows
        rw [isAtStop] at grows
        exact Option.some.inj grows
      have oneValue : frame.stack.length = 1 := by
        have split := top.stack.length_eq
        omega
      obtain ⟨value, isValue⟩ := List.length_eq_one_iff.mp oneValue
      refine ⟨rfl, frame.locals, value, ?_⟩
      rw [followed, ← isValue]

end Method

end ClosureConversion
