import ClosureConversion.Flow.Execution
import ClosureConversion.Proofs.Computation

/-!
Contract: instructions that rearrange the operand stack, as what they do to single slots.

Owns:
- the slots of an operand stack, two of them for a wide value;
- one rule for what such an instruction does to slots, whatever they hold, and where it would take
  a pair of them apart;
- the instruction can be executed exactly if there are enough slots and no pair is taken apart, and
  does to the values what the rule does to their slots.

Does not own: the instructions that look at the types of values.
-/

namespace ClosureConversion

/-! ## Slots -/

/-- What a slot of the operand stack holds: a narrow value, or the upper or lower one of the two
halves of a wide value. -/
inductive StackSlot where
  | whole (type : VType)
  | upper (type : VType)
  | lower (type : VType)
deriving DecidableEq, Repr

/-- Whether a cut below so many slots goes through a wide value: its lower half would be the first
one that stays. -/
def StackSlot.Separates (slots : List StackSlot) (count : Nat) : Prop :=
  ∃ type, slots[count]? = some (.lower type)

/-- The slots of a value, the upper one first. -/
def VerificationType.slotsOnStack (type : VType) : List StackSlot :=
  if type.isWide then [.upper type, .lower type] else [.whole type]

namespace OperandStack

/-- The slots of a stack, the top one first. -/
def slots (stack : OperandStack) : List StackSlot :=
  stack.flatMap VerificationType.slotsOnStack

theorem slots_cons
    (type : VType)
    (rest : OperandStack) :
    slots (type :: rest) = type.slotsOnStack ++ slots rest :=
  List.flatMap_cons

@[simp]
theorem slots_append
    (first second : OperandStack) :
    slots (first ++ second) = slots first ++ slots second :=
  List.flatMap_append

theorem length_slots_cons
    (type : VType)
    (rest : OperandStack) :
    (slots (type :: rest)).length = width type + rest.slots.length := by
  rw [slots_cons, List.length_append]
  change type.slotsOnStack.length + _ = (if type.isWide then 2 else 1) + _
  unfold VerificationType.slotsOnStack
  split <;> rfl

theorem length_slots
    (stack : OperandStack) :
    stack.slots.length = totalWidth stack := by
  induction stack with
  | nil => rfl
  | cons type rest inductionHypothesis =>
      rw [length_slots_cons, inductionHypothesis]
      rfl

theorem eq_nil_of_length_slots
    {stack : OperandStack}
    (isEmpty : stack.slots.length = 0) :
    stack = [] := by
  cases stack with
  | nil => rfl
  | cons type rest =>
      rw [length_slots_cons] at isEmpty
      have positive : 0 < width type := by
        change 0 < if type.isWide then 2 else 1
        split <;> decide
      omega

/-- Slots tell the values that take them. -/
theorem slots_injective :
    Function.Injective slots := by
  intro first second same
  induction first generalizing second with
  | nil =>
      cases second with
      | nil => rfl
      | cons type rest =>
          rw [slots_cons, VerificationType.slotsOnStack] at same
          split at same <;> cases same
  | cons type rest inductionHypothesis =>
      cases second with
      | nil =>
          rw [slots_cons, VerificationType.slotsOnStack] at same
          split at same <;> cases same
      | cons other others =>
          rw [slots_cons, slots_cons, VerificationType.slotsOnStack,
            VerificationType.slotsOnStack] at same
          split at same <;> split at same <;>
            simp only [List.cons_append, List.nil_append, List.cons.injEq, reduceCtorEq, false_and,
              StackSlot.upper.injEq, StackSlot.lower.injEq, StackSlot.whole.injEq] at same
          · rw [same.1, inductionHypothesis same.2.2]
          · rw [same.1, inductionHypothesis same.2]

/-- The lower half of a value is never on top. -/
theorem not_separates_zero
    (stack : OperandStack) :
    ¬ StackSlot.Separates stack.slots 0 := by
  rintro ⟨half, isLower⟩
  cases stack with
  | nil => cases isLower
  | cons type rest =>
      rw [slots_cons, VerificationType.slotsOnStack] at isLower
      split at isLower <;> cases isLower

/-- Where there are enough slots and no wide value stands in the way, a stack can be cut. -/
theorem exists_append_of_not_separates
    {stack : OperandStack}
    {count : Nat}
    (enough : count ≤ stack.slots.length)
    (apart : ¬ StackSlot.Separates stack.slots count) :
    ∃ block rest, stack = block ++ rest ∧ block.slots.length = count := by
  induction stack generalizing count with
  | nil => exact ⟨[], [], rfl, (Nat.le_zero.mp enough).symm⟩
  | cons type rest inductionHypothesis =>
      rw [slots_cons, VerificationType.slotsOnStack] at enough apart
      cases isWide : type.isWide with
      | false =>
          simp only [isWide, Bool.false_eq_true, if_false, List.singleton_append,
            List.length_cons] at enough apart
          match count with
          | 0 => exact ⟨[], type :: rest, rfl, rfl⟩
          | count + 1 =>
              obtain ⟨block, after, rfl, isCount⟩ :=
                inductionHypothesis (Nat.le_of_succ_le_succ enough) apart
              refine ⟨type :: block, after, rfl, ?_⟩
              rw [slots_cons, VerificationType.slotsOnStack, isWide, List.length_append, isCount]
              exact Nat.add_comm 1 count
      | true =>
          simp only [isWide, if_true, List.cons_append, List.nil_append,
            List.length_cons] at enough apart
          match count with
          | 0 => exact ⟨[], type :: rest, rfl, rfl⟩
          | 1 => exact absurd ⟨type, rfl⟩ apart
          | count + 2 =>
              obtain ⟨block, after, rfl, isCount⟩ := inductionHypothesis
                (Nat.le_of_succ_le_succ (Nat.le_of_succ_le_succ enough)) apart
              refine ⟨type :: block, after, rfl, ?_⟩
              rw [slots_cons, VerificationType.slotsOnStack, isWide, List.length_append, isCount]
              exact Nat.add_comm 2 count

/-- Cuts below a block are those of what is below it. -/
theorem separates_append_iff
    (block rest : OperandStack)
    (count : Nat) :
    StackSlot.Separates (slots (block ++ rest)) (block.slots.length + count) ↔
      StackSlot.Separates rest.slots count := by
  unfold StackSlot.Separates
  rw [slots_append, List.getElem?_append_right (Nat.le_add_right _ _), Nat.add_sub_cancel_left]

/-! ## Blocks -/

/-- Takes the values off that are in so many slots: none, one narrow one, or the one or two in two
slots. -/
def takeBlock (count : Nat) (stack : OperandStack) :
    Except FlowError (OperandStack × OperandStack) :=
  match count with
  | 0 => .ok ([], stack)
  | 1 => stack.takeSingle
  | _ => stack.takePair

theorem takeSingle_cons
    (type : VType)
    (rest : OperandStack) :
    takeSingle (type :: rest) =
      if type.isWide then .error (.invalidWidth (width type)) else .ok ([type], rest) :=
  rfl

theorem takePair_cons
    (type : VType)
    (rest : OperandStack) :
    takePair (type :: rest) =
      if type.isWide then .ok ([type], rest)
      else do
        let (second, rest) ← rest.takeSingle
        return (type :: second, rest) :=
  rfl

theorem takeSingle_eq_ok_iff
    {stack block rest : OperandStack} :
    stack.takeSingle = .ok (block, rest) ↔ stack = block ++ rest ∧ block.slots.length = 1 := by
  constructor
  · intro taken
    cases stack with
    | nil => cases taken
    | cons type others =>
        rw [takeSingle_cons] at taken
        split at taken
        · cases taken
        · rename_i isNarrow
          cases taken
          refine ⟨rfl, ?_⟩
          rw [slots_cons, VerificationType.slotsOnStack, if_neg isNarrow]
          rfl
  · rintro ⟨rfl, isSingle⟩
    cases block with
    | nil => cases isSingle
    | cons type others =>
        rw [length_slots_cons] at isSingle
        change (if type.isWide then 2 else 1) + _ = 1 at isSingle
        split at isSingle
        · omega
        · rename_i isNarrow
          have isEmpty : (slots others).length = 0 := by omega
          obtain rfl := eq_nil_of_length_slots isEmpty
          rw [List.cons_append, takeSingle_cons, if_neg isNarrow]
          rfl

theorem takePair_eq_ok_iff
    {stack block rest : OperandStack} :
    stack.takePair = .ok (block, rest) ↔ stack = block ++ rest ∧ block.slots.length = 2 := by
  constructor
  · intro taken
    cases stack with
    | nil => cases taken
    | cons type others =>
        rw [takePair_cons] at taken
        split at taken
        · rename_i isWide
          cases taken
          refine ⟨rfl, ?_⟩
          rw [slots_cons, VerificationType.slotsOnStack, if_pos isWide]
          rfl
        · rename_i isNarrow
          obtain ⟨⟨second, after⟩, isSecond, taken⟩ := bind_eq_ok.mp taken
          cases taken
          obtain ⟨rfl, isSingle⟩ := takeSingle_eq_ok_iff.mp isSecond
          refine ⟨rfl, ?_⟩
          rw [slots_cons, VerificationType.slotsOnStack, if_neg isNarrow, List.length_append,
            isSingle]
          rfl
  · rintro ⟨rfl, isPair⟩
    cases block with
    | nil => cases isPair
    | cons type others =>
        rw [length_slots_cons] at isPair
        change (if type.isWide then 2 else 1) + _ = 2 at isPair
        rw [List.cons_append, takePair_cons]
        split at isPair
        · rename_i isWide
          have isEmpty : (slots others).length = 0 := by omega
          obtain rfl := eq_nil_of_length_slots isEmpty
          rw [if_pos isWide]
          rfl
        · rename_i isNarrow
          have isSingle : (slots others).length = 1 := by omega
          rw [if_neg isNarrow, takeSingle_eq_ok_iff.mpr ⟨rfl, isSingle⟩]
          rfl

/-- The values of a block are those that take its slots. -/
theorem takeBlock_eq_ok_iff
    {count : Nat}
    (few : count ≤ 2)
    {stack block rest : OperandStack} :
    stack.takeBlock count = .ok (block, rest) ↔
      stack = block ++ rest ∧ block.slots.length = count := by
  match count with
  | 0 =>
      constructor
      · intro taken
        cases taken
        exact ⟨rfl, rfl⟩
      · rintro ⟨rfl, isEmpty⟩
        rw [eq_nil_of_length_slots isEmpty]
        rfl
  | 1 => exact takeSingle_eq_ok_iff
  | 2 => exact takePair_eq_ok_iff

end OperandStack

/-! ## The rule for slots -/

namespace StackOperation

/-- How many slots the instruction takes from the top. -/
def taken : StackOperation → Nat
  | .pop => 1
  | .pop2 => 2
  | .dup => 1
  | .dupX1 => 1
  | .dupX2 => 1
  | .dup2 => 2
  | .dup2X1 => 2
  | .dup2X2 => 2
  | .swap => 1

/-- How many slots below those the instruction goes past with them. -/
def passed : StackOperation → Nat
  | .pop => 0
  | .pop2 => 0
  | .dup => 0
  | .dupX1 => 1
  | .dupX2 => 2
  | .dup2 => 0
  | .dup2X1 => 1
  | .dup2X2 => 2
  | .swap => 1

/-- What the instruction leaves where it found two blocks. -/
def arrange {α : Type} (operation : StackOperation) (taken passed : List α) : List α :=
  match operation with
  | .pop => passed
  | .pop2 => passed
  | .swap => passed ++ taken
  | _ => taken ++ passed ++ taken

/-- The slots after the instruction. -/
def onSlots (operation : StackOperation) (slots : List StackSlot) : List StackSlot :=
  operation.arrange (slots.take operation.taken)
      ((slots.drop operation.taken).take operation.passed) ++
    slots.drop (operation.taken + operation.passed)

/-- How many slots more there are after the instruction. -/
def growth : StackOperation → Int
  | .pop => -1
  | .pop2 => -2
  | .dup => 1
  | .dupX1 => 1
  | .dupX2 => 1
  | .dup2 => 2
  | .dup2X1 => 2
  | .dup2X2 => 2
  | .swap => 0

/-- There are enough slots for the instruction, and no value goes over the lower end of what it
takes, nor over that of what it goes past. -/
structure Applies (operation : StackOperation) (slots : List StackSlot) : Prop where
  enough : operation.taken + operation.passed ≤ slots.length
  taken : ¬ StackSlot.Separates slots operation.taken
  passed : ¬ StackSlot.Separates slots (operation.taken + operation.passed)

theorem length_onSlots
    {operation : StackOperation}
    {slots : List StackSlot}
    (enough : operation.taken + operation.passed ≤ slots.length) :
    ((operation.onSlots slots).length : Int) = slots.length + operation.growth := by
  unfold onSlots
  cases operation <;>
    simp only [arrange, taken, passed, growth, List.length_append, List.length_take,
      List.length_drop] at enough ⊢ <;>
    omega

theorem slots_arrange
    (operation : StackOperation)
    (taken passed : OperandStack) :
    OperandStack.slots (operation.arrange taken passed) =
      operation.arrange taken.slots passed.slots := by
  cases operation <;> simp only [arrange, OperandStack.slots_append]

/-- The instruction takes two blocks off and puts back what it makes of them. -/
theorem apply_eq
    (operation : StackOperation)
    (stack : OperandStack) :
    operation.apply stack = (do
      let (taken, rest) ← stack.takeBlock operation.taken
      let (passed, rest) ← rest.takeBlock operation.passed
      return operation.arrange taken passed ++ rest) := by
  have copied : ∀ count, (do
      let (copied, rest) ← stack.takeBlock count
      return copied ++ copied ++ rest) = (do
      let (copied, rest) ← stack.takeBlock count
      return copied ++ [] ++ copied ++ rest) := by
    simp only [List.append_nil, implies_true]
  cases operation with
  | pop => rfl
  | pop2 => rfl
  | dup => exact copied 1
  | dup2 => exact copied 2
  | dupX1 => rfl
  | dupX2 => rfl
  | dup2X1 => rfl
  | dup2X2 => rfl
  | swap => rfl

theorem apply_eq_ok_iff
    {operation : StackOperation}
    {stack after : OperandStack} :
    operation.apply stack = .ok after ↔
      ∃ taken passed rest, stack = taken ++ (passed ++ rest) ∧
        taken.slots.length = operation.taken ∧ passed.slots.length = operation.passed ∧
        after = operation.arrange taken passed ++ rest := by
  have fewTaken : operation.taken ≤ 2 := by cases operation <;> decide
  have fewPassed : operation.passed ≤ 2 := by cases operation <;> decide
  rw [apply_eq]
  constructor
  · intro applied
    obtain ⟨⟨taken, others⟩, isTaken, applied⟩ := bind_eq_ok.mp applied
    obtain ⟨⟨passed, rest⟩, isPassed, applied⟩ := bind_eq_ok.mp applied
    cases applied
    obtain ⟨rfl, takenCount⟩ := (OperandStack.takeBlock_eq_ok_iff fewTaken).mp isTaken
    obtain ⟨rfl, passedCount⟩ := (OperandStack.takeBlock_eq_ok_iff fewPassed).mp isPassed
    exact ⟨taken, passed, rest, rfl, takenCount, passedCount, rfl⟩
  · rintro ⟨taken, passed, rest, rfl, takenCount, passedCount, rfl⟩
    rw [(OperandStack.takeBlock_eq_ok_iff fewTaken).mpr ⟨rfl, takenCount⟩]
    change (do
      let (passed, rest) ← OperandStack.takeBlock operation.passed (passed ++ rest)
      return operation.arrange taken passed ++ rest) = _
    rw [(OperandStack.takeBlock_eq_ok_iff fewPassed).mpr ⟨rfl, passedCount⟩]
    rfl

/-- Blocks of the right sizes are on a stack exactly if the rule applies to its slots. -/
theorem exists_blocks_iff_applies
    (operation : StackOperation)
    (stack : OperandStack) :
    (∃ taken passed rest, stack = taken ++ (passed ++ rest) ∧
        taken.slots.length = operation.taken ∧ passed.slots.length = operation.passed) ↔
      operation.Applies stack.slots := by
  constructor
  · rintro ⟨taken, passed, rest, rfl, takenCount, passedCount⟩
    refine ⟨?_, ?_, ?_⟩
    · rw [OperandStack.slots_append, OperandStack.slots_append, List.length_append,
        List.length_append, takenCount, passedCount]
      omega
    · have below := OperandStack.not_separates_zero (passed ++ rest)
      rw [← takenCount]
      exact fun separates => below ((OperandStack.separates_append_iff taken _ 0).mp separates)
    · have below := OperandStack.not_separates_zero rest
      rw [← takenCount, ← passedCount]
      intro separates
      have separatesRest := (OperandStack.separates_append_iff taken _ _).mp separates
      exact below ((OperandStack.separates_append_iff passed rest 0).mp separatesRest)
  · intro applies
    obtain ⟨taken, others, rfl, takenCount⟩ :=
      OperandStack.exists_append_of_not_separates
        (Nat.le_trans (Nat.le_add_right _ _) applies.enough) applies.taken
    have enough := applies.enough
    have apart := applies.passed
    rw [OperandStack.slots_append, List.length_append, takenCount] at enough
    rw [← takenCount, OperandStack.separates_append_iff] at apart
    obtain ⟨passed, rest, rfl, passedCount⟩ :=
      OperandStack.exists_append_of_not_separates (Nat.le_of_add_le_add_left enough) apart
    exact ⟨taken, passed, rest, rfl, takenCount, passedCount⟩

/-- The rule finds the slots of two blocks where it looks for them. -/
theorem onSlots_append
    {operation : StackOperation}
    {taken passed : OperandStack}
    (takenCount : taken.slots.length = operation.taken)
    (passedCount : passed.slots.length = operation.passed)
    (rest : OperandStack) :
    operation.onSlots (OperandStack.slots (taken ++ (passed ++ rest))) =
      OperandStack.slots (operation.arrange taken passed ++ rest) := by
  have dropped : (taken.slots ++ (passed.slots ++ rest.slots)).drop
      (operation.taken + operation.passed) = rest.slots := by
    rw [← takenCount, ← passedCount, ← List.drop_drop, List.drop_left, List.drop_left]
  rw [onSlots, OperandStack.slots_append, OperandStack.slots_append, dropped, ← takenCount,
    ← passedCount, List.take_left, List.drop_left, List.take_left, OperandStack.slots_append,
    slots_arrange]

/-- The instruction does to the values on a stack what the rule does to their slots, if the rule
applies to them. -/
theorem apply_eq_ok_iff_onSlots
    {operation : StackOperation}
    {stack after : OperandStack} :
    operation.apply stack = .ok after ↔
      operation.Applies stack.slots ∧ after.slots = operation.onSlots stack.slots := by
  rw [apply_eq_ok_iff, ← exists_blocks_iff_applies]
  constructor
  · rintro ⟨taken, passed, rest, rfl, takenCount, passedCount, rfl⟩
    exact ⟨⟨taken, passed, rest, rfl, takenCount, passedCount⟩,
      (onSlots_append takenCount passedCount rest).symm⟩
  · rintro ⟨⟨taken, passed, rest, rfl, takenCount, passedCount⟩, sameSlots⟩
    rw [onSlots_append takenCount passedCount] at sameSlots
    exact ⟨taken, passed, rest, rfl, takenCount, passedCount,
      OperandStack.slots_injective sameSlots⟩

theorem exists_apply_iff
    (operation : StackOperation)
    (stack : OperandStack) :
    (∃ after, operation.apply stack = .ok after) ↔ operation.Applies stack.slots := by
  constructor
  · rintro ⟨after, applied⟩
    exact (apply_eq_ok_iff_onSlots.mp applied).1
  · intro applies
    obtain ⟨taken, passed, rest, isStack, takenCount, passedCount⟩ :=
      (exists_blocks_iff_applies operation stack).mpr applies
    exact ⟨_, apply_eq_ok_iff.mpr
      ⟨taken, passed, rest, isStack, takenCount, passedCount, rfl⟩⟩

/-- The instruction does to the operand stack what the rule does to its slots, and nothing else to
the frame. It can be executed exactly if the rule applies. -/
structure RearrangesSlots (operation : StackOperation) (before : Frame)
    (result : Except FlowError Frame) : Prop where
  succeeds : (∃ after, result = .ok after) ↔ operation.Applies before.stack.slots
  effect : ∀ after, result = .ok after ↔ operation.Applies before.stack.slots ∧
    after.stack.slots = operation.onSlots before.stack.slots ∧ after.locals = before.locals
  depth : ∀ after, result = .ok after →
    (after.stackSlots : Int) = before.stackSlots + operation.growth

end StackOperation

section Execution

variable {frame after : Frame} {owner : BinaryName} {code : Array (Instruction Nat)} {index : Nat}
  {operation : StackOperation}

theorem Frame.execute_stack :
    frame.execute owner code index (.op (.stack operation)) =
      (fun stack => ⟨frame.locals, stack⟩) <$> operation.apply frame.stack := by
  unfold execute Operation.apply
  dsimp only
  cases operation.apply frame.stack with
  | error failure => rfl
  | ok stack => rfl

theorem Frame.execute_stack_eq_ok_iff :
    frame.execute owner code index (.op (.stack operation)) = .ok after ↔
      operation.apply frame.stack = .ok after.stack ∧ after.locals = frame.locals := by
  rw [execute_stack, map_eq_ok]
  constructor
  · rintro ⟨stack, applied, rfl⟩
    exact ⟨applied, rfl⟩
  · rintro ⟨applied, sameLocals⟩
    exact ⟨after.stack, applied, sameLocals ▸ rfl⟩

end Execution

/-- Every instruction that rearranges the operand stack follows the rule for slots. -/
theorem Frame.execute_rearrangesSlots
    (frame : Frame)
    (owner : BinaryName)
    (code : Array (Instruction Nat))
    (index : Nat)
    (operation : StackOperation) :
    operation.RearrangesSlots frame
      (frame.execute owner code index (.op (.stack operation))) where
  succeeds := by
    rw [← operation.exists_apply_iff]
    constructor
    · rintro ⟨after, executed⟩
      exact ⟨after.stack, (execute_stack_eq_ok_iff.mp executed).1⟩
    · rintro ⟨stack, applied⟩
      exact ⟨⟨frame.locals, stack⟩, execute_stack_eq_ok_iff.mpr ⟨applied, rfl⟩⟩
  effect := by
    intro after
    rw [execute_stack_eq_ok_iff, StackOperation.apply_eq_ok_iff_onSlots, and_assoc]
  depth := by
    intro after executed
    obtain ⟨applied, _⟩ := execute_stack_eq_ok_iff.mp executed
    obtain ⟨applies, sameSlots⟩ := StackOperation.apply_eq_ok_iff_onSlots.mp applied
    rw [stackSlots, stackSlots, ← OperandStack.length_slots, ← OperandStack.length_slots, sameSlots]
    exact StackOperation.length_onSlots applies.enough

/-- A long is copied below two narrow values, but cannot be skipped in half. -/
example :
    let stack : OperandStack := [.long, .int, .float, .double]
    StackOperation.dup2X2.apply stack = .ok [.long, .int, .float, .long, .double] ∧
      StackOperation.dup2X2.apply [.int, .float, .int, .double] = .error (.invalidWidth 2) ∧
      StackOperation.dup2X2.growth = 2 := by
  decide

end ClosureConversion
