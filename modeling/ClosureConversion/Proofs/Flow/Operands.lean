import ClosureConversion.Proofs.Flow.Execution

/-!
Contract: how many values an instruction takes off the operand stack.

Owns:
- that number, for every instruction, where the widths of the values matter for it;
- an instruction that can be executed has all its operands, and one that runs out of values
  lacks some of them.

Does not own: what the values have to be.
-/

namespace ClosureConversion

/-! ## The number of operands -/

namespace OperandStack

/-- How many values two slots at the top of a stack hold. -/
def pairCount : OperandStack → Nat
  | [] => 1
  | value :: _ => if value.isWide then 1 else 2

/-- The values of a stack above so many others. -/
def above (stack : OperandStack) (depth : Nat) : OperandStack :=
  stack.take (stack.length - depth)

end OperandStack

/-- How many values the instruction takes off a stack, those included that it puts back. -/
def StackOperation.operands (operation : StackOperation) (stack : OperandStack) : Nat :=
  match operation with
  | .pop => 1
  | .pop2 => stack.pairCount
  | .dup => 1
  | .dupX1 => 2
  | .dupX2 => 1 + OperandStack.pairCount (stack.drop 1)
  | .dup2 => stack.pairCount
  | .dup2X1 => stack.pairCount + 1
  | .dup2X2 => stack.pairCount + OperandStack.pairCount (stack.drop stack.pairCount)
  | .swap => 2

/-- How many values the instruction takes off a stack. -/
def Operation.operands (operation : Operation) (stack : OperandStack) : Nat :=
  match operation with
  | .nop => 0
  | .pushNull => 0
  | .arrayLoad _ => 2
  | .arrayStore _ => 3
  | .stack operation => operation.operands stack
  | .arithmetic _ _ => 2
  | .negate _ => 1
  | .shift _ _ => 2
  | .bitwise _ _ => 2
  | .convert _ => 1
  | .compareLong => 2
  | .compareFloat _ => 2
  | .compareDouble _ => 2
  | .leave none => 0
  | .leave (some _) => 1
  | .throw => 1
  | .arrayLength => 1
  | .monitorEnter => 1
  | .monitorExit => 1

/-- How many values the condition compares. -/
def Condition.operands : Condition → Nat
  | .zero _ => 1
  | .ints _ => 2
  | .references _ => 2
  | .null _ => 1

/-- How many values an access to a field takes off the stack. -/
def FieldAccess.operands : FieldAccess → Nat
  | .getStatic => 0
  | .putStatic => 1
  | .getField => 1
  | .putField => 2

/-- How many values a call takes off the stack. -/
def MethodType.operands (type : MethodType) (hasReceiver : Bool) : Nat :=
  type.parameters.length + if hasReceiver then 1 else 0

/-- How many values the instruction takes off a stack, those included that it puts back. -/
def Instruction.operands {Label : Type} (instruction : Instruction Label)
    (stack : OperandStack) : Nat :=
  match instruction with
  | .op operation => operation.operands stack
  | .pushInt _ => 0
  | .pushLong _ => 0
  | .pushFloat _ => 0
  | .pushDouble _ => 0
  | .pushLiteral _ => 0
  | .load _ _ => 0
  | .store _ _ => 1
  | .increment _ _ => 0
  | .branch condition _ => condition.operands
  | .goto _ => 0
  | .tableSwitch _ _ _ => 1
  | .lookupSwitch _ _ => 1
  | .field access _ => access.operands
  | .invoke kind method => method.type.operands kind.hasReceiver
  | .invokeDynamic call => call.type.operands false
  | .new _ => 0
  | .newArray _ => 1
  | .newRefArray _ => 1
  | .checkCast _ => 1
  | .instanceOf _ => 1
  | .newMultiArray _ dimensions => dimensions.toNat

/-! ## Stacks of equal widths -/

namespace OperandStack

theorem pairCount_eq
    {first second : OperandStack}
    (sameWidths : List.Forall₂ (fun value other => value.isWide = other.isWide) first second) :
    first.pairCount = second.pairCount := by
  cases sameWidths with
  | nil => rfl
  | cons sameWidth _ => exact congrArg (fun wide => if wide = true then 1 else 2) sameWidth

end OperandStack

theorem StackOperation.operands_eq
    (operation : StackOperation)
    {first second : OperandStack}
    (sameWidths : List.Forall₂ (fun value other => value.isWide = other.isWide) first second) :
    operation.operands first = operation.operands second := by
  have dropped := fun count => OperandStack.pairCount_eq (List.forall₂_drop count sameWidths)
  cases operation with
  | dupX2 => exact congrArg (1 + ·) (dropped 1)
  | dup2X2 =>
      simp only [operands]
      rw [OperandStack.pairCount_eq sameWidths, dropped]
  | pop2 | dup2 => exact OperandStack.pairCount_eq sameWidths
  | dup2X1 => exact congrArg (· + 1) (OperandStack.pairCount_eq sameWidths)
  | pop | dup | dupX1 | swap => rfl

/-- Only the widths of values matter for how many of them an instruction takes. -/
theorem Instruction.operands_eq
    {Label : Type}
    (instruction : Instruction Label)
    {first second : OperandStack}
    (sameWidths : List.Forall₂ (fun value other => value.isWide = other.isWide) first second) :
    instruction.operands first = instruction.operands second := by
  cases instruction with
  | op operation =>
      cases operation with
      | stack operation => exact operation.operands_eq sameWidths
      | leave kind => cases kind <;> rfl
      | _ => rfl
  | _ => rfl

/-- A computation does not run out of values if none of its steps does. -/
theorem bind_ne_emptyStack
    {α β : Type}
    {result : Except FlowError α}
    {continuation : α → Except FlowError β}
    (neverShort : result ≠ .error .emptyStack)
    (neverShortNext : ∀ value, continuation value ≠ .error .emptyStack) :
    (result >>= continuation) ≠ .error .emptyStack := by
  cases result with
  | error failure =>
      intro runsOut
      exact neverShort (congrArg Except.error (Except.error.inj runsOut))
  | ok value => exact neverShortNext value

/-- An array instruction does not run out of values where it looks at its array. -/
theorem ArrayKind.elementOf_ne_emptyStack
    (kind : ArrayKind)
    (array : VType) :
    kind.elementOf array ≠ .error .emptyStack := by
  unfold elementOf
  split
  · exact nofun
  · split <;> exact nofun
  · exact nofun
  · split <;> exact nofun
  · exact nofun

/-- The receiver of a constructor is looked at only after it was taken off the stack. -/
theorem Frame.initialized_ne_emptyStack
    (owner : BinaryName)
    (code : Array (Instruction Nat))
    (receiver : VType) :
    initialized owner code receiver ≠ .error .emptyStack := by
  unfold initialized
  split
  · exact nofun
  · split <;> exact nofun
  · exact nofun

theorem Locals.get_ne_emptyStack
    (locals : List VType)
    (slot : UInt16) :
    get locals slot ≠ .error .emptyStack := by
  unfold get
  split <;> exact nofun

/-! ## Taking values off -/

/-- A computation takes so many values off a stack: they are missing from the rest if it has a
result, and there are fewer if it runs out of values. -/
structure Takes {α : Type} (count : Nat) (stack : OperandStack) (rest : α → OperandStack)
    (result : Except FlowError α) : Prop where
  enough : ∀ value, result = .ok value → count ≤ stack.length ∧ rest value = stack.drop count
  short : result = .error .emptyStack → stack.length < count

/-- A computation needs so many values on a stack: they are there if it has a result, and they
are not if it runs out of values. -/
structure Needs {α : Type} (count : Nat) (stack : OperandStack)
    (result : Except FlowError α) : Prop where
  enough : ∀ value, result = .ok value → count ≤ stack.length
  short : result = .error .emptyStack → stack.length < count

section Takes

variable {α β : Type} {count : Nat} {stack : OperandStack}

theorem needs_zero
    {result : Except FlowError α}
    (neverShort : result ≠ .error .emptyStack) :
    Needs 0 stack result where
  enough := fun _ _ => Nat.zero_le _
  short := fun runsOut => absurd runsOut neverShort

theorem Takes.needs
    {rest : α → OperandStack}
    {result : Except FlowError α}
    (takes : Takes count stack rest result) :
    Needs count stack result where
  enough := fun value isValue => (takes.enough value isValue).1
  short := takes.short

theorem takes_ok
    {rest : α → OperandStack}
    {value : α}
    (isRest : rest value = stack) :
    Takes 0 stack rest (.ok value) where
  enough := by
    intro other isOther
    cases isOther
    exact ⟨Nat.zero_le _, isRest⟩
  short := nofun

/-- A test of the types of values takes nothing. -/
theorem takes_if
    {rest : α → OperandStack}
    {value : α}
    (isRest : rest value = stack)
    {passes : Prop}
    [Decidable passes] :
    Takes 0 stack rest (if passes then .ok value else throw .invalidType) := by
  split
  · exact takes_ok isRest
  · exact ⟨nofun, nofun⟩

/-- One more value is taken where one more stands on the stack. -/
theorem Takes.cons
    {rest : α → OperandStack}
    {result : Except FlowError α}
    (takes : Takes count stack rest result)
    (value : VType) :
    Takes (count + 1) (value :: stack) rest result where
  enough := by
    intro found isFound
    obtain ⟨enough, isRest⟩ := takes.enough found isFound
    exact ⟨Nat.succ_le_succ enough, isRest⟩
  short := fun runsOut => Nat.succ_lt_succ (takes.short runsOut)

theorem Takes.bind_needs
    {next : Nat}
    {rest : α → OperandStack}
    {result : Except FlowError α}
    {continuation : α → Except FlowError β}
    (takes : Takes count stack rest result)
    (needs : ∀ value, rest value = stack.drop count →
      Needs next (rest value) (continuation value)) :
    Needs (count + next) stack (result >>= continuation) where
  enough := by
    intro value computed
    obtain ⟨first, isFirst, isValue⟩ := bind_eq_ok.mp computed
    obtain ⟨firstEnough, isRest⟩ := takes.enough first isFirst
    have nextEnough := (needs first isRest).enough value isValue
    rw [isRest, List.length_drop] at nextEnough
    omega
  short := by
    intro runsOut
    cases result with
    | error failure =>
        have firstShort := takes.short (by rw [Except.error.inj runsOut])
        omega
    | ok first =>
        obtain ⟨_, isRest⟩ := takes.enough first rfl
        have nextShort := (needs first isRest).short runsOut
        rw [isRest, List.length_drop] at nextShort
        omega

theorem Takes.bind
    {next : Nat}
    {rest : α → OperandStack}
    {restNext : β → OperandStack}
    {result : Except FlowError α}
    {continuation : α → Except FlowError β}
    (takes : Takes count stack rest result)
    (takesNext : ∀ value, rest value = stack.drop count →
      Takes next (rest value) restNext (continuation value)) :
    Takes (count + next) stack restNext (result >>= continuation) where
  enough := by
    intro value computed
    have needs := takes.bind_needs fun first isRest => (takesNext first isRest).needs
    obtain ⟨first, isFirst, isValue⟩ := bind_eq_ok.mp computed
    obtain ⟨_, isRest⟩ := takes.enough first isFirst
    refine ⟨needs.enough value computed, ?_⟩
    rw [((takesNext first isRest).enough value isValue).2, isRest, List.drop_drop]
  short := (takes.bind_needs fun first isRest => (takesNext first isRest).needs).short

/-- A computation that goes on without taking anything off takes what it took before. -/
theorem Takes.keep
    {rest : α → OperandStack}
    {restNext : β → OperandStack}
    {result : Except FlowError α}
    {continuation : α → Except FlowError β}
    (takes : Takes count stack rest result)
    (takesNext : ∀ value, rest value = stack.drop count →
      Takes 0 (rest value) restNext (continuation value)) :
    Takes count stack restNext (result >>= continuation) :=
  takes.bind takesNext

/-- A computation that goes on without running out of values needs what it took before. -/
theorem Takes.needs_of_bind
    {rest : α → OperandStack}
    {result : Except FlowError α}
    {continuation : α → Except FlowError β}
    (takes : Takes count stack rest result)
    (neverShort : ∀ value, continuation value ≠ .error .emptyStack) :
    Needs count stack (result >>= continuation) :=
  takes.bind_needs fun value _ => needs_zero (neverShort value)

theorem Takes.needs_map
    {rest : α → OperandStack}
    {result : Except FlowError α}
    (takes : Takes count stack rest result)
    (f : α → β) :
    Needs count stack (f <$> result) := by
  cases result with
  | error failure => exact ⟨nofun, fun runsOut => takes.short (by rw [Except.error.inj runsOut])⟩
  | ok value => exact ⟨fun _ _ => (takes.enough value rfl).1, nofun⟩

end Takes

namespace OperandStack

variable (stack : OperandStack)

theorem takes_pop :
    Takes 1 stack Prod.snd stack.pop := by
  cases stack with
  | nil => exact ⟨nofun, fun _ => Nat.zero_lt_one⟩
  | cons value rest =>
      refine ⟨?_, nofun⟩
      intro popped isPopped
      cases isPopped
      exact ⟨Nat.succ_pos _, rfl⟩

theorem takes_popType
    (expected : VType) :
    Takes 1 stack id (stack.popType expected) := by
  refine (takes_pop stack).keep ?_
  rintro ⟨value, rest⟩ _
  dsimp only
  apply takes_if
  rfl

theorem takes_popReference :
    Takes 1 stack id stack.popReference := by
  refine (takes_pop stack).keep ?_
  rintro ⟨value, rest⟩ _
  dsimp only
  apply takes_if
  rfl

theorem takes_popKind
    (kind : LocalKind) :
    Takes 1 stack Prod.snd (stack.popKind kind) :=
  (takes_pop stack).keep fun _ _ => takes_if rfl

theorem takes_popFitting
    (declared : FieldType) :
    Takes 1 stack id (stack.popFitting declared) := by
  refine (takes_pop stack).keep ?_
  rintro ⟨value, rest⟩ _
  dsimp only
  apply takes_if
  rfl

theorem takes_popTypes
    (expected : List VType) :
    Takes expected.length stack id (stack.popTypes expected) := by
  induction expected generalizing stack with
  | nil => exact takes_ok rfl
  | cons type others inductionHypothesis =>
      rw [List.length_cons, Nat.add_comm]
      exact (takes_popType stack type).bind fun rest _ => inductionHypothesis rest

theorem takes_popArguments
    (parameters : List FieldType) :
    Takes parameters.length stack id (stack.popArguments parameters) := by
  unfold popArguments
  rw [← List.length_reverse]
  induction parameters.reverse generalizing stack with
  | nil => exact takes_ok rfl
  | cons parameter others inductionHypothesis =>
      rw [List.foldlM_cons, List.length_cons, Nat.add_comm]
      exact (takes_popFitting stack parameter).bind fun rest _ => inductionHypothesis rest

theorem takes_takeSingle :
    Takes 1 stack Prod.snd stack.takeSingle := by
  refine (takes_pop stack).keep ?_
  rintro ⟨value, rest⟩ _
  dsimp only
  split
  · exact ⟨nofun, nofun⟩
  · exact takes_ok rfl

theorem takes_takePair :
    Takes stack.pairCount stack Prod.snd stack.takePair := by
  cases stack with
  | nil => exact ⟨nofun, fun _ => Nat.zero_lt_one⟩
  | cons value rest =>
      by_cases isWide : value.isWide = true
      · have wide : takePair (value :: rest) = .ok ([value], rest) := if_pos isWide
        have takesNone : Takes 0 rest Prod.snd (.ok ([value], rest)) := takes_ok rfl
        rw [wide, pairCount, if_pos isWide]
        exact takesNone.cons value
      · have narrow : takePair (value :: rest) =
            takeSingle rest >>= fun taken => .ok (value :: taken.1, taken.2) := if_neg isWide
        have takesSecond : Takes 1 rest Prod.snd
            (takeSingle rest >>= fun taken => .ok (value :: taken.1, taken.2)) :=
          (takes_takeSingle rest).keep fun _ _ => takes_ok rfl
        rw [narrow, pairCount, if_neg isWide]
        exact takesSecond.cons value

theorem needs_replaceTypes
    (consumed : List VType)
    (produced : VType) :
    Needs consumed.length stack (stack.replaceTypes consumed produced) :=
  (takes_popTypes stack consumed).needs_of_bind fun _ => nofun

theorem needs_loadElement
    (kind : ArrayKind) :
    Needs 2 stack (stack.loadElement kind) := by
  change Needs (1 + 1) stack _
  refine (takes_popType stack .int).bind_needs fun rest _ => ?_
  refine (takes_pop rest).needs_of_bind fun popped => ?_
  exact bind_ne_emptyStack (kind.elementOf_ne_emptyStack popped.1) fun _ => nofun

theorem needs_storeElement
    (kind : ArrayKind) :
    Needs 3 stack (stack.storeElement kind) := by
  change Needs (1 + (1 + 1)) stack _
  refine (takes_pop stack).bind_needs fun popped _ => ?_
  refine (takes_popType popped.2 .int).bind_needs fun rest _ => ?_
  refine (takes_pop rest).needs_of_bind fun array => ?_
  refine bind_ne_emptyStack (kind.elementOf_ne_emptyStack array.1) fun _ => ?_
  split
  · exact nofun
  · exact nofun

theorem needs_arrayLength :
    Needs 1 stack stack.arrayLength := by
  refine (takes_pop stack).needs_of_bind ?_
  rintro ⟨array, rest⟩
  dsimp only
  split <;> nofun

end OperandStack

/-! ## Instructions -/

open OperandStack

/-- An instruction that only changes the stack needs what the change of the stack needs. -/
theorem Frame.needs_withStack
    {count : Nat}
    {stack : OperandStack}
    {locals : List VType}
    {result : Except FlowError OperandStack} :
    Needs count stack result →
      Needs count stack (match result with
        | .ok stack => .ok ⟨locals, stack⟩
        | .error failure => .error failure : Except FlowError Frame) := by
  intro needs
  cases result with
  | error failure => exact ⟨nofun, fun runsOut => needs.short (by rw [Except.error.inj runsOut])⟩
  | ok rest => exact ⟨fun _ _ => needs.enough rest rfl, nofun⟩

section Instructions

variable (stack : OperandStack)

theorem StackOperation.needs_apply
    (operation : StackOperation) :
    Needs (operation.operands stack) stack (operation.apply stack) := by
  cases operation with
  | pop => exact (takes_takeSingle stack).needs_of_bind fun _ => nofun
  | pop2 => exact (takes_takePair stack).needs_of_bind fun _ => nofun
  | dup => exact (takes_takeSingle stack).needs_of_bind fun _ => nofun
  | dup2 => exact (takes_takePair stack).needs_of_bind fun _ => nofun
  | dupX1 =>
      change Needs (1 + 1) stack _
      refine (takes_takeSingle stack).bind_needs fun copied _ => ?_
      exact (takes_takeSingle copied.2).needs_of_bind fun _ => nofun
  | swap =>
      change Needs (1 + 1) stack _
      refine (takes_takeSingle stack).bind_needs fun first _ => ?_
      exact (takes_takeSingle first.2).needs_of_bind fun _ => nofun
  | dupX2 =>
      refine (takes_takeSingle stack).bind_needs fun copied isRest => ?_
      rw [← isRest]
      exact (takes_takePair copied.2).needs_of_bind fun _ => nofun
  | dup2X1 =>
      refine (takes_takePair stack).bind_needs fun copied _ => ?_
      exact (takes_takeSingle copied.2).needs_of_bind fun _ => nofun
  | dup2X2 =>
      refine (takes_takePair stack).bind_needs fun copied isRest => ?_
      rw [← isRest]
      exact (takes_takePair copied.2).needs_of_bind fun _ => nofun

theorem Operation.needs_apply
    (operation : Operation) :
    Needs (operation.operands stack) stack (operation.apply stack) := by
  cases operation with
  | nop => exact needs_zero nofun
  | pushNull => exact needs_zero nofun
  | arrayLoad kind => exact needs_loadElement stack kind
  | arrayStore kind => exact needs_storeElement stack kind
  | stack operation => exact operation.needs_apply stack
  | arithmetic _ kind => exact needs_replaceTypes stack [kind.type, kind.type] kind.type
  | negate kind => exact needs_replaceTypes stack [kind.type] kind.type
  | shift _ kind => exact needs_replaceTypes stack [.int, kind.type] kind.type
  | bitwise _ kind => exact needs_replaceTypes stack [kind.type, kind.type] kind.type
  | convert conversion =>
      exact needs_replaceTypes stack [conversion.source.type] conversion.target.type
  | compareLong => exact needs_replaceTypes stack [.long, .long] .int
  | compareFloat _ => exact needs_replaceTypes stack [.float, .float] .int
  | compareDouble _ => exact needs_replaceTypes stack [.double, .double] .int
  | leave kind =>
      cases kind with
      | none => exact needs_zero nofun
      | some kind => exact (takes_popKind stack kind).needs_map Prod.snd
  | throw => exact (takes_popReference stack).needs
  | arrayLength => exact needs_arrayLength stack
  | monitorEnter => exact (takes_popReference stack).needs
  | monitorExit => exact (takes_popReference stack).needs

theorem Condition.needs_apply
    (condition : Condition) :
    Needs condition.operands stack (condition.apply stack) := by
  cases condition with
  | zero _ => exact (takes_popType stack .int).needs
  | ints _ => exact (takes_popTypes stack [.int, .int]).needs
  | references _ =>
      change Needs (1 + 1) stack _
      exact (takes_popReference stack).bind_needs fun rest _ => (takes_popReference rest).needs
  | null _ => exact (takes_popReference stack).needs

theorem FieldAccess.needs_apply
    (access : FieldAccess)
    (type : FieldType) :
    Needs access.operands stack (access.apply type stack) := by
  cases access with
  | getStatic => exact needs_zero nofun
  | putStatic => exact (takes_popFitting stack type).needs
  | getField => exact (takes_popReference stack).needs_of_bind fun _ => nofun
  | putField =>
      change Needs (1 + 1) stack _
      exact (takes_popFitting stack type).bind_needs fun rest _ => (takes_popReference rest).needs

namespace Frame

theorem needs_call
    (hasReceiver : Bool)
    (type : MethodType) :
    Needs (type.operands hasReceiver) stack (call stack hasReceiver type) := by
  refine (takes_popArguments stack type.parameters).bind_needs fun rest _ => ?_
  cases hasReceiver with
  | false => exact needs_zero nofun
  | true => exact (takes_popReference rest).needs_of_bind fun _ => nofun

variable (frame : Frame) (owner : BinaryName) (code : Array (Instruction Nat))

theorem needs_construct
    (type : MethodType) :
    Needs (type.operands true) frame.stack (frame.construct owner code type) := by
  refine (takes_popArguments frame.stack type.parameters).bind_needs fun rest _ => ?_
  refine (takes_pop rest).needs_of_bind fun popped => ?_
  refine bind_ne_emptyStack (initialized_ne_emptyStack owner code popped.1) fun object => ?_
  split
  · exact nofun
  · exact nofun

/-- An instruction that can be executed has all its operands, and one that runs out of values
lacks some of them. -/
theorem needs_execute
    (index : Nat)
    (instruction : Instruction Nat) :
    Needs (instruction.operands frame.stack) frame.stack
      (frame.execute owner code index instruction) := by
  cases instruction with
  | op operation => exact needs_withStack (operation.needs_apply frame.stack)
  | load kind slot =>
      refine needs_zero (bind_ne_emptyStack (Locals.get_ne_emptyStack _ slot) fun type => ?_)
      split
      · exact nofun
      · exact nofun
  | store kind slot => exact (takes_popKind frame.stack kind).needs_of_bind fun _ => nofun
  | increment slot amount =>
      refine needs_zero (bind_ne_emptyStack (Locals.get_ne_emptyStack _ slot) fun type => ?_)
      split
      · exact nofun
      · exact nofun
  | branch condition target => exact needs_withStack (condition.needs_apply frame.stack)
  | field access member =>
      exact needs_withStack (access.needs_apply frame.stack member.type)
  | invoke kind method =>
      unfold execute
      dsimp only
      split
      · rename_i isConstructor
        have isSpecial : kind = .special := by
          simp only [Bool.and_eq_true, decide_eq_true_eq] at isConstructor
          exact isConstructor.1
        rw [isSpecial]
        exact needs_construct frame owner code method.type
      · exact needs_withStack (needs_call frame.stack kind.hasReceiver method.type)
  | invokeDynamic call => exact needs_withStack (needs_call frame.stack false call.type)
  | tableSwitch _ _ _ | lookupSwitch _ _ =>
      exact needs_withStack (takes_popType frame.stack .int).needs
  | newArray _ | newRefArray _ =>
      exact needs_withStack (needs_replaceTypes frame.stack [.int] _)
  | checkCast _ | instanceOf _ =>
      exact needs_withStack ((takes_popReference frame.stack).needs_of_bind fun _ => nofun)
  | newMultiArray type dimensions =>
      have needs := needs_replaceTypes frame.stack (List.replicate dimensions.toNat .int)
        (.object type)
      rw [List.length_replicate] at needs
      exact needs_withStack needs
  | pushInt _ | pushLong _ | pushFloat _ | pushDouble _ | pushLiteral _ | goto _ | new _ =>
      exact needs_zero nofun

end Frame

end Instructions

end ClosureConversion
