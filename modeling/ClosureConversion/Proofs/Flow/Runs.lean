import ClosureConversion.Proofs.Flow.Worklist

/-!
Contract: the states that the analysis of a method passes, whether it ends well or not.

Owns:
- the ways in which a visit follows control, one after another;
- the states between two visits, and those in the midst of one;
- the analysis ends in a state between two visits, or it fails in one: there its next visit fails.

Does not own: what the frames of these states are.
-/

namespace ClosureConversion

/-- Control goes to an instruction with a frame. Exceptions need room on the operand stack. -/
structure Flow where
  target : Nat
  frame : Frame
  isException : Bool
deriving DecidableEq, Repr

variable {hierarchy : Hierarchy} {method : Method}

section FoldlM

variable {ε α β γ : Type}

/-- A computation along lists that are made of the elements of a list. -/
theorem foldlM_flatMap
    (parts : α → List β)
    (step : γ → β → Except ε γ)
    (values : List α)
    (start : γ) :
    (values.flatMap parts).foldlM step start =
      values.foldlM (fun reached value => (parts value).foldlM step reached) start := by
  induction values generalizing start with
  | nil => rfl
  | cons value values inductionHypothesis =>
      rw [List.flatMap_cons, List.foldlM_append, List.foldlM_cons]
      exact bind_congr fun reached => inductionHypothesis reached

end FoldlM

/-- Where control goes from the instruction of an index, in the order in which this is looked at. -/
def Method.flows (method : Method) (index : Nat) (instruction : Instruction Nat)
    (before after : Frame) : List Flow :=
  ((method.handlers.toList.filter (·.covers index)).flatMap fun range =>
      (FlowState.handlerEntries range before after).map fun entry =>
        ⟨range.handler, entry, true⟩) ++
    instruction.targets.map (fun target => ⟨target, after, false⟩) ++
    if instruction.fallsThrough && index + 1 < method.instructions.size then
      [⟨index + 1, after, false⟩]
    else []

namespace FlowState

/-- Control goes on in a state. -/
def followFlow (method : Method) (hierarchy : Hierarchy) (state : FlowState) (flow : Flow) :
    Except BytecodeError FlowState :=
  (if flow.isException then state.measure flow.frame else state).flowInto method hierarchy
    flow.target flow.frame

/-- Whether control falls off the end of the code. -/
def fallsOff (method : Method) (index : Nat) (instruction : Instruction Nat) : Bool :=
  instruction.fallsThrough && method.instructions.size ≤ index + 1

variable {state next : FlowState} {index : Nat} {instruction : Instruction Nat}
variable {before after : Frame}

/-- A visit follows control wherever it goes, unless it falls off the end. -/
theorem visit_eq_foldlM
    (isBefore : state.frame? index = some before)
    (isInstruction : method.instructions[index]? = some instruction)
    (executed : before.execute method.owner method.instructions index instruction = .ok after) :
    visit method hierarchy state index = do
      let reached ← (method.flows index instruction before after).foldlM
        (followFlow method hierarchy) (state.measure after)
      if fallsOff method index instruction then throw (method.flowError index .fallsOffEnd)
      else return reached := by
  have handled : ∀ start : FlowState,
      flowIntoHandlers method hierarchy start index before after =
        ((method.handlers.toList.filter (·.covers index)).flatMap fun range =>
          (handlerEntries range before after).map fun entry =>
            Flow.mk range.handler entry true).foldlM (followFlow method hierarchy) start := by
    intro start
    rw [foldlM_flatMap]
    rfl
  have jumped : ∀ start : FlowState,
      instruction.targets.foldlM
          (fun reached target => reached.flowInto method hierarchy target after) start =
        (instruction.targets.map fun target => Flow.mk target after false).foldlM
          (followFlow method hierarchy) start := by
    intro start
    rw [List.foldlM_map]
    rfl
  unfold visit
  rw [isBefore, isInstruction]
  dsimp only
  rw [executed]
  dsimp only
  rw [Method.flows, List.foldlM_append, List.foldlM_append, handled]
  simp only [bind_assoc, flowOn, jumped]
  refine bind_congr fun reached => bind_congr fun reached => ?_
  by_cases fallsThrough : instruction.fallsThrough = true
  · by_cases inside : index + 1 < method.instructions.size
    · have stays : fallsOff method index instruction = false := by
        simp [fallsOff, fallsThrough, inside]
      simp only [fallsThrough, inside, stays, if_true, Bool.true_and, decide_true,
        Bool.false_eq_true, if_false, List.foldlM_cons, List.foldlM_nil, bind_pure]
      rfl
    · have falls : fallsOff method index instruction = true := by
        simp [fallsOff, fallsThrough, Nat.not_lt.mp inside]
      simp only [fallsThrough, inside, falls, if_true, if_false, decide_false, Bool.and_false,
        Bool.false_eq_true, List.foldlM_nil, pure_bind]
  · have stays : fallsOff method index instruction = false := by
      simp [fallsOff, fallsThrough]
    simp only [fallsThrough, stays, Bool.false_eq_true, if_false, Bool.false_and,
      List.foldlM_nil, pure_bind]

/-- A visit finds nothing to do, or it executes the instruction and follows control. -/
theorem visit_eq_ok_cases
    (computed : visit method hierarchy state index = .ok next) :
    next = state ∨ ∃ before instruction after, state.frame? index = some before ∧
      method.instructions[index]? = some instruction ∧
      before.execute method.owner method.instructions index instruction = .ok after ∧
      (method.flows index instruction before after).foldlM (followFlow method hierarchy)
        (state.measure after) = .ok next := by
  cases isBefore : state.frame? index with
  | none =>
      unfold visit at computed
      rw [isBefore] at computed
      exact .inl (Except.ok.inj computed).symm
  | some before =>
      cases isInstruction : method.instructions[index]? with
      | none =>
          unfold visit at computed
          rw [isBefore, isInstruction] at computed
          exact .inl (Except.ok.inj computed).symm
      | some instruction =>
          cases executed : before.execute method.owner method.instructions index instruction with
          | error cause =>
              unfold visit at computed
              rw [isBefore, isInstruction] at computed
              dsimp only at computed
              rw [executed] at computed
              cases computed
          | ok after =>
              rw [visit_eq_foldlM isBefore isInstruction executed] at computed
              obtain ⟨reached, followed, computed⟩ := bind_eq_ok.mp computed
              split at computed
              · cases computed
              · cases computed
                exact .inr ⟨before, instruction, after, rfl, rfl, executed, followed⟩

/-- The instruction that waits first is visited. -/
def Visits (method : Method) (hierarchy : Hierarchy) (state : FlowState) (index : Nat)
    (next : FlowState) : Prop :=
  ∃ rest, state.worklist = index :: rest ∧
    visit method hierarchy { state with worklist := rest } index = .ok next

/-- Where no frame was found, a visit finds nothing to do. -/
theorem Visits.eq_of_frame?_eq_none
    (visits : state.Visits method hierarchy index next)
    (missing : state.frame? index = none) :
    ∃ rest, next = { state with worklist := rest } := by
  obtain ⟨rest, _, computed⟩ := visits
  rcases visit_eq_ok_cases computed with isSame | ⟨before, _, _, isBefore, _⟩
  · exact ⟨rest, isSame⟩
  · exact absurd (missing.symm.trans isBefore) (Option.some_ne_none before).symm

/-- The states between two visits of the analysis of a method. -/
inductive Rests (method : Method) (hierarchy : Hierarchy) : FlowState → Prop where
  | start : 0 < method.instructions.size → method.TargetsInside →
      Rests method hierarchy (.start method)
  | visit {state next : FlowState} {index : Nat} : Rests method hierarchy state →
      state.Visits method hierarchy index next → Rests method hierarchy next

/-- In a state between two visits the instruction of an index is executed with a frame. -/
structure Executes (method : Method) (hierarchy : Hierarchy) (state : FlowState) (index : Nat)
    (instruction : Instruction Nat) (before : Frame) : Prop where
  rests : Rests method hierarchy state
  isFirst : state.worklist.head? = some index
  isBefore : state.frame? index = some before
  isInstruction : method.instructions[index]? = some instruction

/-- The states that the analysis of a method passes: those between two visits, and those after
control was followed some of the ways from an instruction. -/
inductive Passes (method : Method) (hierarchy : Hierarchy) : FlowState → Prop where
  | rests {state : FlowState} : Rests method hierarchy state → Passes method hierarchy state
  | flows {state reached : FlowState} {index : Nat} {instruction : Instruction Nat}
      {before after : Frame} {followed others : List Flow} :
      state.Executes method hierarchy index instruction before →
      before.execute method.owner method.instructions index instruction = .ok after →
      method.flows index instruction before after = followed ++ others →
      followed.foldlM (followFlow method hierarchy)
        (FlowState.measure { state with worklist := state.worklist.tail } after) = .ok reached →
      Passes method hierarchy reached

theorem Rests.notEmpty
    (rests : Rests method hierarchy state) :
    0 < method.instructions.size := by
  induction rests with
  | start notEmpty _ => exact notEmpty
  | visit _ _ inductionHypothesis => exact inductionHypothesis

theorem Rests.targetsInside
    (rests : Rests method hierarchy state) :
    method.TargetsInside := by
  induction rests with
  | start _ inside => exact inside
  | visit _ _ inductionHypothesis => exact inductionHypothesis

/-- Every frame is settled or waits to be visited. -/
theorem Rests.isConsistent
    {Below : Frame → Frame → Prop}
    (order : Frame.MergeOrder hierarchy Below)
    (rests : Rests method hierarchy state) :
    state.IsConsistent Below method := by
  induction rests with
  | start notEmpty _ => exact isConsistent_start order notEmpty
  | visit rests visits inductionHypothesis =>
      obtain ⟨rest, isWaiting, computed⟩ := visits
      exact isConsistent_visit order rests.targetsInside inductionHypothesis isWaiting computed

/-- A run that ends well ends between two visits, with no instruction to be visited. -/
theorem rests_of_run_eq_ok
    (rests : Rests method hierarchy state)
    {fuel : Nat}
    (ran : run method hierarchy fuel state = .ok next) :
    Rests method hierarchy next ∧ next.worklist = [] := by
  induction fuel generalizing state with
  | zero => cases ran
  | succ fuel inductionHypothesis =>
      unfold run at ran
      split at ran
      · rename_i isDone
        cases ran
        exact ⟨rests, isDone⟩
      · rename_i index rest isWaiting
        split at ran
        · rename_i visited isVisited
          exact inductionHypothesis (rests.visit ⟨rest, isWaiting, isVisited⟩) ran
        · cases ran

/-- A run that fails does so between two visits: the next one fails, or no more are made. -/
theorem rests_of_run_eq_error
    (rests : Rests method hierarchy state)
    {fuel : Nat}
    {error : BytecodeError}
    (ran : run method hierarchy fuel state = .error error) :
    ∃ stopped, Rests method hierarchy stopped ∧ (error = .unsettledFrames ∨
      ∃ index rest, stopped.worklist = index :: rest ∧
        visit method hierarchy { stopped with worklist := rest } index = .error error) := by
  induction fuel generalizing state with
  | zero =>
      cases ran
      exact ⟨state, rests, .inl rfl⟩
  | succ fuel inductionHypothesis =>
      unfold run at ran
      split at ran
      · cases ran
      · rename_i index rest isWaiting
        split at ran
        · rename_i visited isVisited
          exact inductionHypothesis (rests.visit ⟨rest, isWaiting, isVisited⟩) ran
        · rename_i failure failed
          cases ran
          exact ⟨state, rests, .inr ⟨index, rest, isWaiting, failed⟩⟩

end FlowState

namespace Method

/-- The frames that the analysis finds are those of a state between two visits. -/
theorem exists_rests_of_analyze_eq_ok
    {analysis : FlowAnalysis}
    (accepted : method.analyze hierarchy = .ok analysis) :
    ∃ state, FlowState.Rests method hierarchy state ∧ state.worklist = [] ∧
      state.found = analysis := by
  obtain ⟨notEmpty, inside, state, ran, rfl⟩ := exists_run_of_analyze_eq_ok accepted
  obtain ⟨rests, isDone⟩ := FlowState.rests_of_run_eq_ok (.start notEmpty inside) ran
  exact ⟨state, rests, isDone, rfl⟩

/-- An analysis that fails does so before it begins, or between two visits: the next one fails, or
no more are made. -/
theorem exists_rests_of_analyze_eq_error
    {error : BytecodeError}
    (rejected : method.analyze hierarchy = .error error) :
    method.instructions.size = 0 ∨ method.badTarget? ≠ none ∨
      ∃ state, FlowState.Rests method hierarchy state ∧ (error = .unsettledFrames ∨
        ∃ index rest, state.worklist = index :: rest ∧
          FlowState.visit method hierarchy { state with worklist := rest } index =
            .error error) := by
  unfold analyze at rejected
  dsimp only at rejected
  split at rejected
  · rename_i isEmpty
    exact .inl (Array.isEmpty_iff_size_eq_zero.mp isEmpty)
  · rename_i notEmpty
    rw [Array.isEmpty_iff_size_eq_zero] at notEmpty
    cases noBadTarget : method.badTarget? with
    | some target => exact .inr (.inl nofun)
    | none =>
        have starts : FlowState.Rests method hierarchy (.start method) :=
          .start (Nat.pos_of_ne_zero notEmpty) (targetsInside_of_badTarget?_eq_none noBadTarget)
        rw [noBadTarget] at rejected
        dsimp only at rejected
        cases ran : FlowState.run method hierarchy (FlowState.visitBound method hierarchy)
            (FlowState.start method) with
        | ok state =>
            rw [ran] at rejected
            cases rejected
        | error failure =>
            rw [ran] at rejected
            cases rejected
            exact .inr (.inr (FlowState.rests_of_run_eq_error starts ran))

end Method

end ClosureConversion
