import ClosureConversion.Proofs.Flow.Execution

/-!
Contract: how much an instruction adds to a frame.

Owns:
- no instruction leaves more than two values more on the operand stack than it found;
- no instruction makes slots beyond those that can be named.

Does not own: which values these are.
-/

namespace ClosureConversion

variable {stack : OperandStack}

/-- A computation leaves no more values on a stack than so many. -/
abbrev LeavesAtMost (depth : Nat) (computation : Except FlowError OperandStack) : Prop :=
  Ensures (fun rest : OperandStack => rest.length ≤ depth) computation

namespace OperandStack

theorem ensures_pop :
    Ensures (fun popped : VType × OperandStack => popped.2.length < stack.length)
      stack.pop := by
  cases stack with
  | nil => exact ensures_error
  | cons type rest => exact ensures_ok (Nat.lt_succ_self _)

theorem leavesAtMost_popType
    (expected : VType) :
    LeavesAtMost stack.length (stack.popType expected) := by
  refine ensures_pop.bind fun popped fewer => ?_
  dsimp only
  split
  · exact ensures_ok (Nat.le_of_lt fewer)
  · exact ensures_error

theorem leavesAtMost_popTypes
    (expected : List VType) :
    LeavesAtMost stack.length (stack.popTypes expected) := by
  induction expected generalizing stack with
  | nil => exact ensures_ok (Nat.le_refl _)
  | cons type others inductionHypothesis =>
      refine (leavesAtMost_popType type).bind fun rest fewer => ?_
      exact fun result isResult => Nat.le_trans (inductionHypothesis result isResult) fewer

theorem leavesAtMost_replaceTypes
    (consumed : List VType)
    (produced : VType) :
    LeavesAtMost (stack.length + 1) (stack.replaceTypes consumed produced) :=
  (leavesAtMost_popTypes consumed).bind fun _ fewer => ensures_ok (Nat.succ_le_succ fewer)

theorem leavesAtMost_popReference :
    LeavesAtMost stack.length stack.popReference := by
  refine ensures_pop.bind fun popped fewer => ?_
  dsimp only
  split
  · exact ensures_ok (Nat.le_of_lt fewer)
  · exact ensures_error

theorem ensures_popKind
    (kind : LocalKind) :
    Ensures (fun popped : VType × OperandStack => popped.2.length ≤ stack.length)
      (stack.popKind kind) := by
  refine ensures_pop.bind fun popped fewer => ?_
  dsimp only
  split
  · exact ensures_ok (Nat.le_of_lt fewer)
  · exact ensures_error

theorem leavesAtMost_popFitting
    (declared : FieldType) :
    LeavesAtMost stack.length (stack.popFitting declared) := by
  refine ensures_pop.bind fun popped fewer => ?_
  dsimp only
  split
  · exact ensures_ok (Nat.le_of_lt fewer)
  · exact ensures_error

theorem leavesAtMost_popArguments
    (parameters : List FieldType) :
    LeavesAtMost stack.length (stack.popArguments parameters) := by
  intro result computed
  unfold popArguments at computed
  refine foldlM_preserves (fun _ (rest : OperandStack) => rest.length ≤ stack.length) ?_
    (Nat.le_refl _) computed
  intro done declared rest next _ fewer popped
  exact Nat.le_trans (leavesAtMost_popFitting declared next popped) fewer

/-- What is taken off a stack was on it, and is not more than so many values. -/
abbrev TakesAtMost (count : Nat) (stack : OperandStack)
    (computation : Except FlowError (OperandStack × OperandStack)) : Prop :=
  Ensures (fun taken : OperandStack × OperandStack =>
    taken.1.length ≤ count ∧ taken.1.length + taken.2.length ≤ stack.length) computation

theorem takesAtMost_takeSingle :
    TakesAtMost 1 stack stack.takeSingle := by
  refine ensures_pop.bind fun popped fewer => ?_
  dsimp only
  split
  · exact ensures_error
  · exact ensures_ok ⟨Nat.le_refl _, by simp only [List.length_singleton]; omega⟩

theorem takesAtMost_takePair :
    TakesAtMost 2 stack stack.takePair := by
  refine ensures_pop.bind fun popped fewer => ?_
  dsimp only
  split
  · exact ensures_ok ⟨by simp, by simp only [List.length_singleton]; omega⟩
  · refine takesAtMost_takeSingle.bind fun taken ⟨atMost, inside⟩ => ensures_ok ⟨?_, ?_⟩
    · simpa using atMost
    · simp only [List.length_cons]
      omega

theorem leavesAtMost_loadElement
    (kind : ArrayKind) :
    LeavesAtMost stack.length (stack.loadElement kind) := by
  refine (leavesAtMost_popType .int).bind fun rest fewer => ?_
  refine ensures_pop.bind fun popped fewerStill => ?_
  exact ensures_bind fun element => ensures_ok (by simp only [List.length_cons]; omega)

theorem leavesAtMost_storeElement
    (kind : ArrayKind) :
    LeavesAtMost stack.length (stack.storeElement kind) := by
  refine ensures_pop.bind fun value fewer => ?_
  refine (leavesAtMost_popType .int).bind fun rest fewerStill => ?_
  refine ensures_pop.bind fun popped fewest => ?_
  refine ensures_bind fun element => ?_
  split
  · exact ensures_ok (by omega)
  · exact ensures_error

theorem leavesAtMost_arrayLength :
    LeavesAtMost stack.length stack.arrayLength := by
  refine ensures_pop.bind fun popped fewer => ?_
  dsimp only
  split
  · exact ensures_ok fewer
  · exact ensures_ok fewer
  · exact ensures_ok fewer
  · exact ensures_error

end OperandStack

open OperandStack

/-- What is copied is one value or two. -/
theorem StackOperation.leavesAtMost_apply
    (operation : StackOperation) :
    LeavesAtMost (stack.length + 2) (operation.apply stack) := by
  cases operation with
  | pop => exact takesAtMost_takeSingle.bind fun taken _ => ensures_ok (by omega)
  | pop2 => exact takesAtMost_takePair.bind fun taken _ => ensures_ok (by omega)
  | dup =>
      exact takesAtMost_takeSingle.bind fun taken _ =>
        ensures_ok (by simp only [List.length_append]; omega)
  | dup2 =>
      exact takesAtMost_takePair.bind fun taken _ =>
        ensures_ok (by simp only [List.length_append]; omega)
  | dupX1 =>
      exact takesAtMost_takeSingle.bind fun taken _ => takesAtMost_takeSingle.bind fun skipped _ =>
        ensures_ok (by simp only [List.length_append]; omega)
  | dupX2 =>
      exact takesAtMost_takeSingle.bind fun taken _ => takesAtMost_takePair.bind fun skipped _ =>
        ensures_ok (by simp only [List.length_append]; omega)
  | dup2X1 =>
      exact takesAtMost_takePair.bind fun taken _ => takesAtMost_takeSingle.bind fun skipped _ =>
        ensures_ok (by simp only [List.length_append]; omega)
  | dup2X2 =>
      exact takesAtMost_takePair.bind fun taken _ => takesAtMost_takePair.bind fun skipped _ =>
        ensures_ok (by simp only [List.length_append]; omega)
  | swap =>
      exact takesAtMost_takeSingle.bind fun taken _ => takesAtMost_takeSingle.bind fun skipped _ =>
        ensures_ok (by simp only [List.length_append]; omega)

/-- A computation that leaves few values leaves no more than more. -/
theorem LeavesAtMost.mono
    {computation : Except FlowError OperandStack}
    {few more : Nat}
    (leaves : LeavesAtMost few computation)
    (isMore : few ≤ more) :
    LeavesAtMost more computation :=
  fun result computed => Nat.le_trans (leaves result computed) isMore

theorem Operation.leavesAtMost_apply
    (operation : Operation) :
    LeavesAtMost (stack.length + 2) (operation.apply stack) := by
  cases operation with
  | nop => exact ensures_ok (by omega)
  | pushNull => exact ensures_ok (by simp)
  | arrayLoad kind => exact (leavesAtMost_loadElement kind).mono (by omega)
  | arrayStore kind => exact (leavesAtMost_storeElement kind).mono (by omega)
  | stack operation => exact operation.leavesAtMost_apply
  | leave kind =>
      cases kind with
      | none => exact ensures_ok (by omega)
      | some kind =>
          intro result computed
          obtain ⟨popped, isPopped, rfl⟩ := map_eq_ok.mp computed
          exact Nat.le_add_right_of_le (ensures_popKind kind popped isPopped)
  | throw | monitorEnter | monitorExit => exact leavesAtMost_popReference.mono (by omega)
  | arrayLength => exact leavesAtMost_arrayLength.mono (by omega)
  | arithmetic _ _ | negate _ | shift _ _ | bitwise _ _ | convert _ | compareLong
  | compareFloat _ | compareDouble _ =>
      exact (leavesAtMost_replaceTypes _ _).mono (by omega)

theorem Condition.leavesAtMost_apply
    (condition : Condition) :
    LeavesAtMost stack.length (condition.apply stack) := by
  cases condition with
  | zero _ => exact leavesAtMost_popType .int
  | ints _ => exact leavesAtMost_popTypes _
  | references _ =>
      exact leavesAtMost_popReference.bind fun rest fewer => leavesAtMost_popReference.mono fewer
  | null _ => exact leavesAtMost_popReference

theorem FieldAccess.leavesAtMost_apply
    (access : FieldAccess)
    (type : FieldType) :
    LeavesAtMost (stack.length + 1) (access.apply type stack) := by
  cases access with
  | getStatic => exact ensures_ok (by simp)
  | putStatic => exact (leavesAtMost_popFitting type).mono (by omega)
  | getField =>
      exact leavesAtMost_popReference.bind fun rest fewer => ensures_ok (by simpa using fewer)
  | putField =>
      exact (leavesAtMost_popFitting type).bind fun rest fewer =>
        leavesAtMost_popReference.mono (by omega)

namespace Frame

theorem leavesAtMost_call
    (hasReceiver : Bool)
    (type : MethodType) :
    LeavesAtMost (stack.length + 1) (call stack hasReceiver type) := by
  have pushed : ∀ rest : OperandStack, rest.length ≤ stack.length →
      LeavesAtMost (stack.length + 1) (.ok (rest.pushResult type.result)) := by
    intro rest fewer
    refine ensures_ok ?_
    cases type.result with
    | none => exact Nat.le_succ_of_le fewer
    | some result => exact Nat.succ_le_succ fewer
  refine (leavesAtMost_popArguments type.parameters).bind fun rest fewer => ?_
  cases hasReceiver with
  | true => exact (leavesAtMost_popReference.mono fewer).bind pushed
  | false => exact pushed rest fewer

variable {owner : BinaryName} {code : Array (Instruction Nat)} {frame after : Frame}

theorem length_le_of_withStack_eq_ok
    {computation : Except FlowError OperandStack}
    {depth : Nat}
    (computed : (match computation with
      | .ok stack => .ok ⟨frame.locals, stack⟩
      | .error failure => .error failure) = (.ok after : Except FlowError Frame))
    (leaves : LeavesAtMost depth computation) :
    after.stack.length ≤ depth := by
  cases computation with
  | error failure => cases computed
  | ok stack =>
      cases computed
      exact leaves stack rfl

/-- No instruction leaves more than two values more than it found. -/
theorem length_stack_of_execute_eq_ok
    {index : Nat}
    {instruction : Instruction Nat}
    (computed : frame.execute owner code index instruction = .ok after) :
    after.stack.length ≤ frame.stack.length + 2 := by
  cases instruction with
  | op operation => exact length_le_of_withStack_eq_ok computed operation.leavesAtMost_apply
  | load kind slot =>
      obtain ⟨type, _, computed⟩ := bind_eq_ok.mp computed
      split at computed
      · cases computed
        simp
      · cases computed
  | store kind slot =>
      obtain ⟨popped, isPopped, computed⟩ := bind_eq_ok.mp computed
      cases computed
      exact Nat.le_add_right_of_le (ensures_popKind kind popped isPopped)
  | increment slot amount =>
      obtain ⟨type, _, computed⟩ := bind_eq_ok.mp computed
      split at computed
      · cases computed
        omega
      · cases computed
  | invoke kind method =>
      unfold execute at computed
      dsimp only at computed
      split at computed
      · obtain ⟨arguments, isArguments, computed⟩ := bind_eq_ok.mp computed
        obtain ⟨popped, isPopped, computed⟩ := bind_eq_ok.mp computed
        obtain ⟨object, _, computed⟩ := bind_eq_ok.mp computed
        split at computed
        · cases computed
        · cases computed
          have fewer := leavesAtMost_popArguments method.type.parameters arguments isArguments
          have fewerStill := ensures_pop popped isPopped
          simp only [replaceAll, List.length_map]
          omega
      · exact Nat.le_succ_of_le (length_le_of_withStack_eq_ok computed (leavesAtMost_call _ _))
  | invokeDynamic dynamic =>
      exact Nat.le_succ_of_le (length_le_of_withStack_eq_ok computed (leavesAtMost_call _ _))
  | goto target =>
      cases computed
      omega
  | pushInt _ | pushLong _ | pushFloat _ | pushDouble _ | pushLiteral _ | new _ =>
      cases computed
      simp
  | branch condition _ =>
      exact Nat.le_add_right_of_le
        (length_le_of_withStack_eq_ok computed condition.leavesAtMost_apply)
  | tableSwitch _ _ _ | lookupSwitch _ _ =>
      exact Nat.le_add_right_of_le
        (length_le_of_withStack_eq_ok computed (leavesAtMost_popType .int))
  | field access member =>
      exact Nat.le_succ_of_le
        (length_le_of_withStack_eq_ok computed (access.leavesAtMost_apply member.type))
  | newArray _ | newRefArray _ | newMultiArray _ _ =>
      exact Nat.le_succ_of_le
        (length_le_of_withStack_eq_ok computed (leavesAtMost_replaceTypes _ _))
  | checkCast _ | instanceOf _ =>
      refine Nat.le_succ_of_le (length_le_of_withStack_eq_ok computed ?_)
      exact leavesAtMost_popReference.bind fun rest fewer => ensures_ok (by simpa using fewer)

/-- No instruction makes slots beyond the last one that a wide value can take. -/
theorem localSlots_le_of_execute_eq_ok
    {index : Nat}
    {instruction : Instruction Nat}
    (computed : frame.execute owner code index instruction = .ok after) :
    after.localSlots ≤ max frame.localSlots 65537 := by
  have change := slotChange_of_execute_eq_ok computed
  unfold localSlots
  generalize after.locals = slots at change ⊢
  cases change with
  | unchanged => exact Nat.le_max_left _ _
  | assigned slot type =>
      have inside := slot.toNat_lt
      have narrow : width type ≤ 2 := by
        change (if type.isWide then 2 else 1) ≤ 2
        split <;> omega
      rw [Locals.length_assign]
      omega
  | initialized _ =>
      rw [List.length_map]
      exact Nat.le_max_left _ _

end Frame

end ClosureConversion
