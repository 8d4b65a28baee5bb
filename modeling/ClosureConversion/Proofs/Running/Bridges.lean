import ClosureConversion.Proofs.ClassFile.Declaring
import ClosureConversion.Proofs.Closure.Adapting
import ClosureConversion.Proofs.Closure.Bridges
import ClosureConversion.Proofs.Flow.Operands
import ClosureConversion.Proofs.Flow.Renaming
import ClosureConversion.Proofs.Flow.Runs
import ClosureConversion.Proofs.Running.Construction

/-!
Contract: the call of a bridge takes the place of the access that the bridge was asked for.

Owns:
- requests for bridges, one after another, and their answers;
- the frames around the call of a bridge are those around the access;
- the body of a bridge is accepted, and does with its arguments what the access does with its
  operands.

Does not own: which code asks for bridges, and bridges with more parameters than instructions can
name slots, which cannot be written.
-/

namespace ClosureConversion

/-! ## Code without jumps -/

/-- The instruction leads to the next one, and nowhere else. -/
def Instruction.GoesOn (instruction : Instruction Nat) : Prop :=
  instruction.targets = [] ∧ instruction.fallsThrough = true

/-- The instruction leads nowhere. -/
def Instruction.Ends (instruction : Instruction Nat) : Prop :=
  instruction.targets = [] ∧ instruction.fallsThrough = false

namespace FlowState

variable {method : Method} {hierarchy : Hierarchy} {state : FlowState} {index : Nat}
  {before after : Frame} {instruction : Instruction Nat}

/-- The analysis is about to visit an instruction, and it has come to none behind that. -/
structure HasReached (method : Method) (state : FlowState) (index : Nat) (frame : Frame) :
    Prop where
  worklist : state.worklist = [index]
  size : state.frames.size = method.instructions.size
  reached : state.frame? index = some frame
  notYet : ∀ later, index < later → state.frame? later = none

theorem hasReached_start
    (notEmpty : 0 < method.instructions.size) :
    HasReached method (start method) 0 method.entryFrame where
  worklist := rfl
  size := by simp [start]
  reached := (frame?_start notEmpty 0).trans (if_pos rfl)
  notYet later isLater := (frame?_start notEmpty later).trans (if_neg (Nat.ne_of_gt isLater))

/-- Without handlers, control goes from an instruction without targets to the next one only. -/
theorem HasReached.visit_eq
    (reached : HasReached method state index before)
    (noHandlers : method.handlers = #[])
    (isInstruction : method.instructions[index]? = some instruction)
    (noTargets : instruction.targets = [])
    (executed : before.execute method.owner method.instructions index instruction = .ok after)
    (hierarchy : Hierarchy) :
    visit method hierarchy { state with worklist := [] } index =
      if instruction.fallsThrough then
        if index + 1 < method.instructions.size then
          .ok ((measure { state with worklist := [] } after).record (index + 1) after)
        else .error (method.flowError index .fallsOffEnd)
      else .ok (measure { state with worklist := [] } after) := by
  have isBefore : frame? { state with worklist := [] } index = some before := reached.reached
  have isNew : (measure { state with worklist := [] } after).frame? (index + 1) = none :=
    reached.notYet (index + 1) (Nat.lt_succ_self index)
  have handled : flowIntoHandlers method hierarchy (measure { state with worklist := [] } after)
      index before after = .ok (measure { state with worklist := [] } after) := by
    rw [flowIntoHandlers, noHandlers]
    rfl
  unfold visit
  rw [isBefore, isInstruction]
  dsimp only
  rw [executed]
  dsimp only
  rw [handled]
  change flowOn method hierarchy (measure { state with worklist := [] } after) index instruction
    after = _
  unfold flowOn
  rw [noTargets, List.foldlM_nil, pure_bind, flowInto, isNew]
  rfl

theorem HasReached.next
    (reached : HasReached method state index before)
    (inside : index + 1 < method.instructions.size)
    (after : Frame) :
    HasReached method ((measure { state with worklist := [] } after).record (index + 1) after)
      (index + 1) after := by
  have sets : (measure { state with worklist := [] } after).SetsFrame (index + 1) after _ :=
    setsFrame_record after
  have frames := sets.frame?_eq (Nat.lt_of_lt_of_eq inside reached.size.symm)
  constructor
  · rfl
  · rw [sets.frames, Array.size_setIfInBounds]
    exact reached.size
  · exact (frames (index + 1)).trans (if_pos rfl)
  · intro later isLater
    rw [frames, if_neg (Nat.ne_of_gt isLater)]
    exact reached.notYet later (Nat.lt_of_succ_lt isLater)

/-- The analysis goes along code that leads from each instruction to the next one, and is done. -/
theorem HasReached.exists_run_eq_ok
    {code : List (Instruction Nat)}
    {last : Instruction Nat}
    {final : Frame}
    {fuel : Nat}
    (reached : HasReached method state index before)
    (noHandlers : method.handlers = #[])
    (isCode : method.instructions.toList.drop index = code ++ [last])
    (goesOn : ∀ other ∈ code, other.GoesOn)
    (ends : last.Ends)
    (executed : before.executeAll method.owner method.instructions index (code ++ [last]) =
      .ok final)
    (enough : code.length + 2 ≤ fuel)
    (hierarchy : Hierarchy) :
    ∃ settled, run method hierarchy fuel state = .ok settled := by
  induction code generalizing index before state fuel with
  | nil =>
      obtain ⟨fuel, rfl⟩ : ∃ less, fuel = less + 2 := Nat.exists_eq_add_of_le' enough
      obtain ⟨after, executed, _⟩ := bind_eq_ok.mp executed
      have isLast : method.instructions[index]? = some last := by
        rw [← Array.getElem?_toList, ← List.head?_drop, isCode]
        rfl
      have visited := reached.visit_eq noHandlers isLast ends.1 executed hierarchy
      rw [ends.2, if_neg Bool.false_ne_true] at visited
      refine ⟨measure { state with worklist := [] } after, ?_⟩
      rw [run, reached.worklist]
      dsimp only
      rw [visited]
      rfl
  | cons instruction code inductionHypothesis =>
      obtain ⟨fuel, rfl⟩ : ∃ less, fuel = less + 1 :=
        Nat.exists_eq_add_of_le' (Nat.le_trans (by simp) enough)
      obtain ⟨after, executedFirst, executedRest⟩ := bind_eq_ok.mp executed
      have isInstruction : method.instructions[index]? = some instruction := by
        rw [← Array.getElem?_toList, ← List.head?_drop, isCode]
        rfl
      have isRest : method.instructions.toList.drop (index + 1) = code ++ [last] := by
        rw [← List.tail_drop, isCode]
        rfl
      have inside : index + 1 < method.instructions.size := by
        have length := congrArg List.length isRest
        rw [List.length_drop, List.length_append, List.length_singleton,
          Array.length_toList] at length
        omega
      obtain ⟨noTargets, fallsThrough⟩ := goesOn instruction List.mem_cons_self
      have visited := reached.visit_eq noHandlers isInstruction noTargets executedFirst hierarchy
      rw [fallsThrough, if_pos rfl, if_pos inside] at visited
      rw [run, reached.worklist]
      dsimp only
      rw [visited]
      exact inductionHypothesis (reached.next inside after) isRest
        (fun other member => goesOn other (List.mem_cons_of_mem _ member)) executedRest
        (Nat.le_of_succ_le_succ enough)

end FlowState

/-- Code without jumps and handlers is accepted if its instructions can be executed in order. -/
theorem Method.exists_analyze_eq_ok_of_executeAll
    {method : Method}
    {code : List (Instruction Nat)}
    {last : Instruction Nat}
    {final : Frame}
    (noHandlers : method.handlers = #[])
    (isCode : method.instructions.toList = code ++ [last])
    (goesOn : ∀ instruction ∈ code, instruction.GoesOn)
    (ends : last.Ends)
    (executed : method.entryFrame.executeAll method.owner method.instructions 0 (code ++ [last]) =
      .ok final)
    (hierarchy : Hierarchy) :
    ∃ analysis, method.analyze hierarchy = .ok analysis := by
  have size : method.instructions.size = code.length + 1 := by
    rw [← Array.length_toList, isCode, List.length_append, List.length_singleton]
  have notEmpty : method.instructions.isEmpty = false := by
    rw [Array.isEmpty_eq_false_iff_exists_mem]
    exact ⟨last, Array.mem_toList_iff.mp (isCode ▸ List.mem_append_right _ List.mem_cons_self)⟩
  have noBadTarget : method.badTarget? = none := by
    have noTargets : method.instructions.toList.flatMap Instruction.targets = [] := by
      rw [isCode, List.flatMap_eq_nil_iff]
      intro instruction member
      rcases List.mem_append.mp member with isCode | isLast
      · exact (goesOn instruction isCode).1
      · exact List.mem_singleton.mp isLast ▸ ends.1
    unfold badTarget?
    rw [noTargets, noHandlers]
    rfl
  have enough : code.length + 2 ≤ FlowState.visitBound method hierarchy := by
    unfold FlowState.visitBound
    dsimp only
    rw [size, Nat.mul_add, Nat.mul_one]
    omega
  obtain ⟨state, ran⟩ := (FlowState.hasReached_start (by omega)).exists_run_eq_ok noHandlers
    isCode goesOn ends executed enough hierarchy
  refine ⟨⟨state.frames, state.maxStack, state.maxLocals⟩, ?_⟩
  unfold analyze
  rw [notEmpty, noBadTarget]
  dsimp only
  rw [ran]
  rfl

/-! ## Requests -/

namespace BridgeTable

/-- What a table answers to a request for a bridge, and the table after that. A request that fails
leaves the table as it is. -/
def answer (table : BridgeTable) (request : Instruction Nat) :
    Except SiteFault (Option MethodRef) × BridgeTable :=
  match table.redirect request with
  | .ok (reference?, after) => (.ok reference?, after)
  | .error fault => (.error fault, table)

/-- The answers to requests that are made one after another, and the table after them. -/
def answers (table : BridgeTable) :
    List (Instruction Nat) → List (Except SiteFault (Option MethodRef)) × BridgeTable
  | [] => ([], table)
  | request :: requests =>
      let (answer, between) := table.answer request
      let (answers, after) := between.answers requests
      (answer :: answers, after)

/-- A table answers a request without any change. -/
def Knows (table : BridgeTable) (request : Instruction Nat)
    (answer : Except SiteFault (Option MethodRef)) : Prop :=
  table.answer request = (answer, table)

variable {owner : ClassDeclaration} {table after : BridgeTable} {use : MemberUse}
  {request other : Instruction Nat} {reply : Except SiteFault (Option MethodRef)}

/-! ### Answers -/

theorem answer_eq
    (table : BridgeTable)
    (request : Instruction Nat) :
    table.answer request =
      match table.privateUse request with
      | .error fault => (.error fault, table)
      | .ok none => (.ok none, table)
      | .ok (some use) =>
          (.ok (some (table.reference (table.bridgeFor use).1)), (table.bridgeFor use).2) := by
  unfold answer redirect
  cases table.privateUse request with
  | error fault => rfl
  | ok use? =>
      cases use? with
      | none => rfl
      | some use =>
          have sameOwner : (table.bridgeFor use).2.owner = table.owner := by
            unfold bridgeFor
            split <;> rfl
          change (Except.ok (some ((table.bridgeFor use).2.reference _)), _) = _
          unfold reference
          rw [sameOwner]
          rfl

/-- One table comes after another one of the same class. -/
structure Follows (after before : BridgeTable) : Prop where
  privateUse : after.privateUse = before.privateUse
  reference : after.reference = before.reference
  kept : ∃ added, after.bridges = before.bridges ++ added

theorem Follows.refl
    (table : BridgeTable) :
    table.Follows table :=
  ⟨rfl, rfl, [], (List.append_nil _).symm⟩

theorem Follows.trans
    {first second third : BridgeTable}
    (later : third.Follows second)
    (earlier : second.Follows first) :
    third.Follows first := by
  obtain ⟨addedFirst, isSecond⟩ := earlier.kept
  obtain ⟨addedThen, isThird⟩ := later.kept
  exact ⟨later.privateUse.trans earlier.privateUse, later.reference.trans earlier.reference,
    addedFirst ++ addedThen, by rw [isThird, isSecond, List.append_assoc]⟩

theorem IsOf.answer
    (isOf : table.IsOf owner)
    (request : Instruction Nat) :
    (table.answer request).2.IsOf owner := by
  rw [answer_eq]
  split
  · exact isOf
  · exact isOf
  · exact ((grows_bridgeFor owner table _).1 isOf).1

theorem IsOf.answers
    (isOf : table.IsOf owner)
    (requests : List (Instruction Nat)) :
    (table.answers requests).2.IsOf owner := by
  induction requests generalizing table with
  | nil => exact isOf
  | cons request requests inductionHypothesis => exact inductionHypothesis (isOf.answer request)

end BridgeTable

/-! ## Frames -/

theorem VerificationType.isOfKind_ofField
    (type : FieldType) :
    isOfKind (.ofField type) (.ofType type) = true := by
  cases type with
  | base base => cases base <;> rfl
  | ref type => rfl

theorem VerificationType.fits_ofField
    (type : FieldType) :
    fits (.ofField type) type = true := by
  cases type with
  | base base => exact decide_eq_true rfl
  | ref type => rfl

/-- What a method returns is there when it is left. -/
theorem Operation.apply_leave
    (result : Option FieldType) :
    (leave (result.map LocalKind.ofType)).apply (OperandStack.pushResult [] result) = .ok [] := by
  cases result with
  | none => rfl
  | some type =>
      have taken : OperandStack.popKind [.ofField type] (.ofType type) =
          .ok (.ofField type, []) := if_pos (VerificationType.isOfKind_ofField type)
      exact congrArg (Prod.snd <$> ·) taken

namespace OperandStack

/-- The first argument is taken off last. -/
theorem popArguments_cons
    (stack : OperandStack)
    (parameter : FieldType)
    (parameters : List FieldType) :
    stack.popArguments (parameter :: parameters) =
      stack.popArguments parameters >>= fun rest => rest.popFitting parameter := by
  unfold popArguments
  rw [List.reverse_cons, List.foldlM_append]
  refine bind_congr fun rest => ?_
  rw [List.foldlM_cons]
  exact bind_pure _

theorem popArguments_singleton
    (stack : OperandStack)
    (parameter : FieldType) :
    stack.popArguments [parameter] = stack.popFitting parameter := by
  rw [popArguments_cons]
  rfl

/-- Arguments of the types of the parameters are taken off. -/
theorem popArguments_arguments
    (parameters : List FieldType)
    (rest : OperandStack) :
    popArguments ((parameters.map VerificationType.ofField).reverse ++ rest) parameters =
      .ok rest := by
  induction parameters generalizing rest with
  | nil => rfl
  | cons parameter parameters inductionHypothesis =>
      rw [List.map_cons, List.reverse_cons, List.append_assoc, List.singleton_append,
        popArguments_cons, inductionHypothesis]
      exact if_pos (VerificationType.fits_ofField parameter)

/-- A reference that may be taken off may be passed, if it is initialised. -/
theorem popFitting_of_popReference_eq_ok
    {stack rest : OperandStack}
    (popped : stack.popReference = .ok rest)
    (isInitialized : ∀ value, stack.head? = some value → value.isReference = true →
      value.isInitializedReference = true)
    (type : RefType) :
    stack.popFitting (.ref type) = .ok rest := by
  obtain ⟨⟨value, underneath⟩, isPopped, taken⟩ := bind_eq_ok.mp popped
  obtain rfl := eq_cons_of_pop_eq_ok isPopped
  dsimp only at taken
  split at taken
  · rename_i isReference
    cases taken
    exact if_pos (isInitialized value rfl isReference)
  · cases taken

end OperandStack

/-- The values that an instruction takes for the parameters of a method have been initialised, as
far as they are references. -/
def Frame.IsInitialized (frame : Frame) (parameters : List FieldType) : Prop :=
  ∀ value ∈ frame.stack.take parameters.length,
    value.isReference = true → value.isInitializedReference = true

/-- The use of a member is no call of a constructor. -/
def MemberUse.IsPlain (use : MemberUse) : Prop :=
  ∀ method, use = .method .special method → method.isInit = false

namespace MemberUse

variable {owner : BinaryName} {use : MemberUse} {frame after : Frame}

/-- What a use of a member does to the operand stack. -/
def apply (use : MemberUse) (stack : OperandStack) : Except FlowError OperandStack :=
  match use with
  | .field access member => access.apply member.type stack
  | .method kind member => Frame.call stack kind.hasReceiver member.type

theorem execute_eq
    (isPlain : use.IsPlain)
    (caller : BinaryName)
    (code : Array (Instruction Nat))
    (index : Nat) :
    frame.execute caller code index use.instruction =
      (use.apply frame.stack).map fun stack => ⟨frame.locals, stack⟩ := by
  unfold Frame.execute
  cases use with
  | field access member =>
      dsimp only [instruction, apply]
      cases access.apply member.type frame.stack <;> rfl
  | method kind member =>
      have noConstructor : (kind = .special && member.isInit) = false := by
        rw [Bool.and_eq_false_iff]
        by_cases isSpecial : kind = .special
        · exact .inr (isPlain member (isSpecial ▸ rfl))
        · exact .inl (decide_eq_false isSpecial)
      dsimp only [instruction, apply]
      rw [noConstructor, if_neg Bool.false_ne_true]
      cases Frame.call frame.stack kind.hasReceiver member.type <;> rfl

/-- Wherever a member can be used and the operands are initialised, they may be passed to a static
method of the type of the use, and its result takes their place. -/
theorem call_of_apply_eq_ok
    {stack rest : OperandStack}
    (applied : use.apply stack = .ok rest)
    (initialized : Frame.IsInitialized ⟨[], stack⟩ (use.type owner).parameters) :
    Frame.call stack false (use.type owner) = .ok rest := by
  -- The receiver is the only operand that a use takes off in another way than a call does.
  have receives : ∀ {parameters : List FieldType} {underneath : OperandStack},
      Frame.IsInitialized ⟨[], stack⟩ (.object owner :: parameters) →
      stack.popArguments parameters >>= OperandStack.popReference = .ok underneath →
        stack.popArguments (.object owner :: parameters) = .ok underneath := by
    intro parameters underneath initialized popped
    obtain ⟨middle, isMiddle, popped⟩ := bind_eq_ok.mp popped
    rw [OperandStack.popArguments_cons, isMiddle]
    refine OperandStack.popFitting_of_popReference_eq_ok popped (fun value isFirst => ?_) _
    obtain ⟨_, isDropped⟩ := (OperandStack.takes_popArguments stack parameters).enough _ isMiddle
    refine initialized value ?_
    rw [show middle = stack.drop parameters.length from isDropped, List.head?_drop] at isFirst
    obtain ⟨inside, rfl⟩ := List.getElem?_eq_some_iff.mp isFirst
    exact List.mem_take_iff_getElem.mpr ⟨parameters.length, by simp [inside], rfl⟩
  cases use with
  | field access member =>
      cases access with
      | getStatic => exact applied
      | putStatic =>
          change stack.popArguments [member.type] >>= _ = _
          rw [OperandStack.popArguments_singleton, show stack.popFitting member.type = .ok rest
            from applied]
          rfl
      | getField =>
          obtain ⟨underneath, popped, pushed⟩ := bind_eq_ok.mp applied
          change stack.popArguments [.object owner] >>= _ = _
          rw [receives initialized popped]
          exact pushed
      | putField =>
          change stack.popArguments [.object owner, member.type] >>= _ = _
          rw [receives initialized (by rw [OperandStack.popArguments_singleton]; exact applied)]
          rfl
  | method kind member =>
      cases kind with
      | static => exact applied
      | virtual | special | interface =>
          obtain ⟨middle, isMiddle, pushed⟩ := bind_eq_ok.mp applied
          obtain ⟨underneath, popped, pushed⟩ := bind_eq_ok.mp pushed
          change stack.popArguments (.object owner :: member.type.parameters) >>= _ = _
          rw [receives initialized (bind_eq_ok.mpr ⟨middle, isMiddle, popped⟩)]
          exact pushed

/-- Arguments are passed to a use of a member, and its result is left. -/
theorem apply_arguments
    (use : MemberUse)
    (owner : BinaryName) :
    use.apply ((use.type owner).parameters.map VerificationType.ofField).reverse =
      .ok (OperandStack.pushResult [] (use.type owner).result) := by
  have popped := OperandStack.popArguments_arguments
  cases use with
  | field access member =>
      cases access with
      | getStatic => rfl
      | putStatic =>
          exact (OperandStack.popArguments_singleton ..).symm.trans (popped [member.type] [])
      | getField => rfl
      | putField =>
          have isFitting := popped [member.type] [.object (.object owner)]
          rw [OperandStack.popArguments_singleton] at isFitting
          exact bind_eq_ok.mpr ⟨_, isFitting, rfl⟩
  | method kind member =>
      cases kind with
      | static =>
          have taken := popped member.type.parameters []
          rw [List.append_nil] at taken
          exact bind_eq_ok.mpr ⟨_, taken, rfl⟩
      | virtual | special | interface =>
          have taken := popped member.type.parameters [.object (.object owner)]
          rw [← List.reverse_singleton, ← List.reverse_append] at taken
          exact bind_eq_ok.mpr ⟨_, taken, rfl⟩

end MemberUse

/-! ## The body -/

theorem Instruction.goesOn_of_mem_loadParameters
    {types : List FieldType}
    {slot : UInt16}
    {instruction : Instruction Nat}
    (member : instruction ∈ loadParameters slot types) :
    instruction.GoesOn := by
  induction types generalizing slot with
  | nil => cases member
  | cons type types inductionHypothesis =>
      rcases List.mem_cons.mp member with rfl | isLater
      · exact ⟨rfl, rfl⟩
      · exact inductionHypothesis isLater

/-- Parameters that are in slots are pushed, the last one on top. -/
theorem Frame.executeAll_loadParameters
    {types : List FieldType}
    {locals : List VType}
    {slot : UInt16}
    (before : List VType)
    (isSlots : locals = before ++ parameterLocals types)
    (isFirst : slot.toNat = before.length)
    (room : slot.toNat + totalWidth types < 65536)
    (owner : BinaryName)
    (method : Array (Instruction Nat))
    (index : Nat)
    (stack : OperandStack) :
    executeAll ⟨locals, stack⟩ owner method index (loadParameters slot types) =
      .ok ⟨locals, (types.map VerificationType.ofField).reverse ++ stack⟩ := by
  induction types generalizing before slot index stack with
  | nil => rfl
  | cons type types inductionHypothesis =>
      have widths : totalWidth (type :: types) = width type + totalWidth types := rfl
      have isLocal : Locals.get locals slot = .ok (.ofField type) := by
        have here : locals[slot.toNat]? = some (.ofField type) := by
          rw [isSlots, isFirst, List.getElem?_append_right (Nat.le_refl _), Nat.sub_self,
            parameterLocals, List.flatMap_cons]
          split <;> rfl
        rw [Locals.get, here]
      have executed : execute ⟨locals, stack⟩ owner method index (.load (.ofType type) slot) =
          .ok ⟨locals, .ofField type :: stack⟩ := by
        change (Locals.get locals slot >>= _) = _
        rw [isLocal]
        exact if_pos (VerificationType.isOfKind_ofField type)
      have isNext : (slot + (width type).toUInt16).toNat = slot.toNat + width type :=
        toNat_nextSlot (by omega)
      rw [loadParameters, executeAll, executed]
      refine (inductionHypothesis
        (before ++ if type.isWide then [.ofField type, .top] else [.ofField type])
        ?_ ?_ ?_ _ _).trans ?_
      · rw [isSlots, List.append_assoc]
        rfl
      · rw [isNext, isFirst, List.length_append]
        change _ + (if type.isWide then 2 else 1) = _
        split <;> rfl
      · rw [isNext]
        omega
      · rw [List.map_cons, List.reverse_cons, List.append_assoc, List.singleton_append]

namespace Bridge

variable {owner : BinaryName} {bridge : Bridge}

/-- Instructions can name the slots of all parameters of the bridge. -/
def HasRoom (owner : BinaryName) (bridge : Bridge) : Prop :=
  totalWidth (bridge.use.type owner).parameters < 65536

theorem entryFrame_whole
    (owner : BinaryName)
    (bridge : Bridge) :
    (bridge.whole owner).entryFrame =
      ⟨Frame.parameterLocals (bridge.use.type owner).parameters, []⟩ := by
  have isStatic : (bridge.whole owner).isStatic = true := by
    change BridgeTable.flags.contains MethodFlags.accStatic = true
    decide
  rw [Method.entryFrame, Frame.methodEntry, isStatic]
  rfl

theorem toList_instructions_whole
    (owner : BinaryName)
    (bridge : Bridge) :
    (bridge.whole owner).instructions.toList =
      loadParameters 0 (bridge.use.type owner).parameters ++ [bridge.use.instruction] ++
        [.op (.leave ((bridge.use.type owner).result.map LocalKind.ofType))] := by
  rw [List.append_assoc]
  rfl

/-- Only the last instruction of a bridge leaves it. -/
theorem goesOn_of_mem_code
    {types : List FieldType}
    {slot : UInt16}
    {use : MemberUse}
    {instruction : Instruction Nat}
    (member : instruction ∈ loadParameters slot types ++ [use.instruction]) :
    instruction.GoesOn := by
  rcases List.mem_append.mp member with isLoad | isUse
  · exact Instruction.goesOn_of_mem_loadParameters isLoad
  · rw [List.mem_singleton.mp isUse]
    cases use <;> exact ⟨rfl, rfl⟩

/-- Only bridges whose parameters have slots can be written. -/
theorem hasRoom_of_assemble_eq_ok
    {hierarchy : Hierarchy}
    {version : Version}
    {before after : ConstantPool}
    {code : CodeAttribute}
    (assembled : (bridge.whole owner).assemble hierarchy version before = .ok code after) :
    bridge.HasRoom owner := by
  have few := Method.localSlots_entryFrame_lt assembled
  rw [entryFrame_whole, Frame.localSlots, Frame.length_parameterLocals] at few
  exact few

/-- The body of a bridge is accepted, whatever classes there are. -/
theorem exists_analyze_whole_eq_ok
    (isPlain : bridge.use.IsPlain)
    (hasRoom : bridge.HasRoom owner)
    (hierarchy : Hierarchy) :
    ∃ analysis, (bridge.whole owner).analyze hierarchy = .ok analysis := by
  let type := bridge.use.type owner
  let locals := Frame.parameterLocals type.parameters
  let code : List (Instruction Nat) := loadParameters 0 type.parameters ++ [bridge.use.instruction]
  let last : Instruction Nat := .op (.leave (type.result.map LocalKind.ofType))
  let method := (bridge.whole owner).instructions
  have loaded : Frame.executeAll ⟨locals, []⟩ owner method 0 (loadParameters 0 type.parameters) =
      .ok ⟨locals, (type.parameters.map VerificationType.ofField).reverse⟩ := by
    have room : UInt16.toNat 0 + totalWidth type.parameters < 65536 :=
      (Nat.zero_add _).trans_lt hasRoom
    have executed := Frame.executeAll_loadParameters [] (List.nil_append locals).symm rfl room
      owner method 0 []
    rwa [List.append_nil] at executed
  have used : ∀ index,
      Frame.execute ⟨locals, (type.parameters.map VerificationType.ofField).reverse⟩ owner method
        index bridge.use.instruction = .ok ⟨locals, OperandStack.pushResult [] type.result⟩ := by
    intro index
    rw [MemberUse.execute_eq isPlain]
    dsimp only
    rw [bridge.use.apply_arguments owner]
    rfl
  have left : ∀ index, Frame.execute ⟨locals, OperandStack.pushResult [] type.result⟩ owner method
      index last = .ok ⟨locals, []⟩ := by
    intro index
    simp only [last, Frame.execute, Operation.apply_leave]
  have executed : Frame.executeAll ⟨locals, []⟩ owner method 0 (code ++ [last]) =
      .ok ⟨locals, []⟩ := by
    rw [List.append_assoc, Frame.executeAll_append loaded]
    exact bind_eq_ok.mpr ⟨_, used _, bind_eq_ok.mpr ⟨_, left _, rfl⟩⟩
  refine Method.exists_analyze_eq_ok_of_executeAll rfl (toList_instructions_whole owner bridge) ?_
    ⟨rfl, rfl⟩ (entryFrame_whole owner bridge ▸ executed) hierarchy
  exact fun _ => goesOn_of_mem_code

end Bridge

/-! ## What a bridge does -/

namespace Activation

variable {runtime : Runtime} {slots : Nat → Option Value} {heap : Heap} {arguments : List Value}
  {kind : CallKind} {method : MethodRef}

/-- A call with its arguments on top of the stack, in order. -/
theorem step_invoke_eq
    (count : arguments.length =
      method.type.parameters.length + if kind.hasReceiver then 1 else 0)
    (rest : List Value)
    (runtime : Runtime)
    (slots : Nat → Option Value)
    (heap : Heap) :
    step runtime ⟨arguments.reverse ++ rest, slots, heap⟩ (.invoke kind method) =
      (if kind.hasReceiver → arguments.head? ≠ some .null then
        runtime.call kind method arguments heap else none).map
          fun done => ⟨done.2.toList ++ rest, slots, done.1⟩ := by
  have length : arguments.reverse.length = arguments.length := List.length_reverse
  unfold step invoke
  dsimp only
  rw [← count, ← length, List.take_left, List.drop_left, List.reverse_reverse, List.length_append]
  by_cases notNull : kind.hasReceiver = true → arguments.head? ≠ some .null
  · simp only [guard, Nat.le_add_right, if_true, if_pos notNull, pure_bind]
    cases runtime.call kind method arguments heap <;> rfl
  · simp only [guard, Nat.le_add_right, if_true, if_neg notNull, pure_bind]
    rfl

/-- Arguments that are in slots are pushed, the last one on top. -/
theorem run_loadParameters
    {types : List FieldType}
    {slot : UInt16}
    (kinds : List.Forall₂ (fun value type => Value.kind value = .ofType type) arguments types)
    (inSlots : ∀ position,
      slots (slot.toNat + position) = (Value.slotsOf arguments)[position]?.join)
    (room : slot.toNat + totalWidth types < 65536)
    (runtime : Runtime)
    (heap : Heap)
    (stack : List Value) :
    run runtime ⟨stack, slots, heap⟩ (loadParameters slot types) =
      some ⟨arguments.reverse ++ stack, slots, heap⟩ := by
  induction kinds generalizing slot stack with
  | nil => rfl
  | @cons value type arguments types isKind _ inductionHypothesis =>
      have widths : totalWidth (type :: types) = width type + totalWidth types := rfl
      have inSlot : slots slot.toNat = some value := by
        have first := inSlots 0
        rw [Value.slotsOf_cons isKind] at first
        exact first
      have loaded : step runtime ⟨stack, slots, heap⟩ (.load (.ofType type) slot) =
          some ⟨value :: stack, slots, heap⟩ := step_load inSlot isKind
      have isNext : (slot + (width type).toUInt16).toNat = slot.toNat + width type :=
        toNat_nextSlot (by omega)
      rw [loadParameters, run_cons, loaded, Option.bind_some, inductionHypothesis,
        List.reverse_cons, List.append_assoc, List.singleton_append]
      · intro position
        rw [isNext, Nat.add_assoc, inSlots, Value.getElem?_slotsOf_cons isKind]
      · omega

end Activation

namespace MemberUse

/-- What a use of a member does with arguments: what is in the heap after it, and its result. -/
def perform (use : MemberUse) (runtime : Runtime) (arguments : List Value) (heap : Heap) :
    Option (Heap × Option Value) :=
  (Activation.step runtime ⟨arguments.reverse, fun _ => none, heap⟩ use.instruction).map
    fun done => (done.heap, done.stack.head?)

variable {use : MemberUse} {owner : BinaryName} {arguments : List Value}

/-- A use takes its arguments off the stack, puts its result there, and changes nothing else. -/
theorem step_instruction
    (sameLength : arguments.length = (use.type owner).parameters.length)
    (runtime : Runtime)
    (rest : List Value)
    (slots : Nat → Option Value)
    (heap : Heap) :
    Activation.step runtime ⟨arguments.reverse ++ rest, slots, heap⟩ use.instruction =
      (use.perform runtime arguments heap).map
        fun done => ⟨done.2.toList ++ rest, slots, done.1⟩ := by
  unfold perform
  cases use with
  | field access member =>
      cases access with
      | getStatic =>
          obtain rfl := List.eq_nil_of_length_eq_zero sameLength
          rfl
      | putStatic =>
          obtain ⟨value, rfl⟩ := List.length_eq_one_iff.mp sameLength
          by_cases isKind : value.kind = .ofType member.type <;>
            simp [instruction, Activation.step, Activation.accessField, isKind]
      | getField =>
          obtain ⟨receiver, rfl⟩ := List.length_eq_one_iff.mp sameLength
          cases receiver with
          | object number =>
              cases isObject : heap.objects[number]? <;>
                simp [instruction, Activation.step, Activation.accessField, isObject]
          | _ => rfl
      | putField =>
          obtain ⟨receiver, value, rfl⟩ := List.length_eq_two.mp sameLength
          cases receiver with
          | object number =>
              cases isObject : heap.objects[number]? <;>
                by_cases isKind : value.kind = .ofType member.type <;>
                  simp [instruction, Activation.step, Activation.accessField, isObject, isKind]
          | _ => rfl
  | method kind member =>
      have count : arguments.length =
          member.type.parameters.length + if kind.hasReceiver then 1 else 0 := by
        cases kind <;> exact sameLength
      have alone := Activation.step_invoke_eq count [] runtime (fun _ => none) heap
      rw [List.append_nil] at alone
      dsimp only [instruction]
      rw [Activation.step_invoke_eq count rest runtime slots heap, alone, Option.map_map,
        Option.map_map]
      congr 1
      funext done
      rw [Function.comp_apply, Function.comp_apply, List.append_nil, Option.head?_toList]

/-- The result of a use is of the kind that its type says, if it has one. -/
def Returns (use : MemberUse) (owner : BinaryName) (runtime : Runtime) (arguments : List Value)
    (heap : Heap) : Prop :=
  ∀ later result, use.perform runtime arguments heap = some (later, result) →
    result.map Value.kind = (use.type owner).result.map LocalKind.ofType

end MemberUse

namespace Bridge

variable {owner : BinaryName} {bridge : Bridge} {runtime : Runtime} {arguments : List Value}
  {heap : Heap}

/-- The body of a bridge uses its member once, with the arguments of the bridge in order, and
returns what this gives. -/
theorem runBody_whole
    (hasRoom : bridge.HasRoom owner)
    (kinds : List.Forall₂ (fun value type => Value.kind value = .ofType type) arguments
      (bridge.use.type owner).parameters)
    (returns : bridge.use.Returns owner runtime arguments heap) :
    (Activation.entering arguments heap).runBody runtime (bridge.whole owner).instructions.toList =
      bridge.use.perform runtime arguments heap := by
  let slots := (Activation.entering arguments heap).slots
  have loaded : Activation.run runtime ⟨[], slots, heap⟩
      (loadParameters 0 (bridge.use.type owner).parameters) =
        some ⟨arguments.reverse, slots, heap⟩ := by
    have inSlots : ∀ position,
        slots (UInt16.toNat 0 + position) = (Value.slotsOf arguments)[position]?.join := by
      intro position
      rw [UInt16.toNat_zero, Nat.zero_add]
      rfl
    have ran := Activation.run_loadParameters kinds inSlots
      ((Nat.zero_add _).trans_lt hasRoom) runtime heap []
    rwa [List.append_nil] at ran
  have used : Activation.run runtime ⟨arguments.reverse, slots, heap⟩ [bridge.use.instruction] =
      (bridge.use.perform runtime arguments heap).map
        fun done => ⟨done.2.toList, slots, done.1⟩ := by
    have stepped := MemberUse.step_instruction kinds.length_eq runtime [] slots heap
    simp only [List.append_nil] at stepped
    rw [Activation.run_cons, stepped]
    cases bridge.use.perform runtime arguments heap <;> rfl
  rw [toList_instructions_whole, Activation.runBody_append, Activation.run_append]
  · change ((Activation.run runtime ⟨[], slots, heap⟩ _).bind _).bind _ = _
    rw [loaded, Option.bind_some, used]
    cases performed : bridge.use.perform runtime arguments heap with
    | none => rfl
    | some done =>
        obtain ⟨later, result⟩ := done
        have isKind := returns later result performed
        rw [← isKind]
        cases result with
        | none => rfl
        | some value => exact if_pos rfl
  · rintro instruction member kind rfl
    exact Bool.noConfusion (goesOn_of_mem_code member).2

/-- Where a call of a bridge runs its body, it does what the use of the member does. -/
theorem step_call
    (hasRoom : bridge.HasRoom owner)
    (runs : ∀ arguments heap,
      runtime.call .static ⟨.object owner, bridge.name, bridge.use.type owner, false⟩
          arguments heap =
        (Activation.entering arguments heap).runBody runtime
          (bridge.whole owner).instructions.toList)
    (kinds : List.Forall₂ (fun value type => Value.kind value = .ofType type) arguments
      (bridge.use.type owner).parameters)
    (returns : bridge.use.Returns owner runtime arguments heap)
    (rest : List Value)
    (slots : Nat → Option Value) :
    Activation.step runtime ⟨arguments.reverse ++ rest, slots, heap⟩ (bridge.call owner) =
      Activation.step runtime ⟨arguments.reverse ++ rest, slots, heap⟩ bridge.use.instruction := by
  rw [MemberUse.step_instruction kinds.length_eq, call, Activation.step_invoke_eq kinds.length_eq,
    if_pos nofun, runs, runBody_whole hasRoom kinds returns]

end Bridge

/-! ## The bridges of a class -/

/-- The call of a bridge of a class takes the place of an instruction. -/
structure Bridge.StandsFor (owner : BinaryName) (bridge : Bridge) (request : Instruction Nat) :
    Prop where
  isUse : bridge.use.instruction = request
  /-- The call leads to the same frames as the instruction, from initialised operands. -/
  verifies : ∀ (frame after : Frame) caller code index,
    frame.IsInitialized (bridge.use.type owner).parameters →
    frame.execute caller code index request = .ok after →
      frame.execute caller code index (bridge.call owner) = .ok after
  /-- There is room for the parameters of every bridge that can be written. -/
  hasRoom : ∀ hierarchy version before code after,
    (bridge.whole owner).assemble hierarchy version before = .ok code after →
      bridge.HasRoom owner
  /-- The body of the bridge is accepted. -/
  bodyVerifies : bridge.HasRoom owner → ∀ hierarchy,
    ∃ analysis, (bridge.whole owner).analyze hierarchy = .ok analysis
  /-- The body makes the access with its arguments in order, and nothing else. -/
  bodyPerforms : bridge.HasRoom owner → ∀ runtime arguments heap,
    List.Forall₂ (fun value type => Value.kind value = .ofType type) arguments
      (bridge.use.type owner).parameters →
    bridge.use.Returns owner runtime arguments heap →
      (Activation.entering arguments heap).runBody runtime
          (bridge.whole owner).instructions.toList =
        (Activation.step runtime ⟨arguments.reverse, fun _ => none, heap⟩ request).map
          fun done => (done.heap, done.stack.head?)
  /-- Where the call runs the body, it does what the instruction does. -/
  callPerforms : bridge.HasRoom owner → ∀ runtime : Runtime,
    (∀ arguments heap,
      runtime.call .static ⟨.object owner, bridge.name, bridge.use.type owner, false⟩
          arguments heap =
        (Activation.entering arguments heap).runBody runtime
          (bridge.whole owner).instructions.toList) →
    ∀ arguments heap, List.Forall₂ (fun value type => Value.kind value = .ofType type) arguments
      (bridge.use.type owner).parameters →
    bridge.use.Returns owner runtime arguments heap → ∀ rest slots,
      Activation.step runtime ⟨arguments.reverse ++ rest, slots, heap⟩ (bridge.call owner) =
        Activation.step runtime ⟨arguments.reverse ++ rest, slots, heap⟩ request

theorem Bridge.standsFor
    {bridge : Bridge}
    (isPlain : bridge.use.IsPlain)
    (owner : BinaryName) :
    bridge.StandsFor owner bridge.use.instruction where
  isUse := rfl
  verifies frame after caller code index isInitialized executed := by
    rw [MemberUse.execute_eq isPlain] at executed
    cases applied : bridge.use.apply frame.stack with
    | error cause =>
        rw [applied] at executed
        cases executed
    | ok rest =>
        have called := MemberUse.call_of_apply_eq_ok applied isInitialized
        rw [applied] at executed
        simp only [Frame.execute, Bridge.call, CallKind.hasReceiver, called]
        exact executed
  hasRoom _ _ _ _ _ := hasRoom_of_assemble_eq_ok
  bodyVerifies := exists_analyze_whole_eq_ok isPlain
  bodyPerforms hasRoom _ _ _ := runBody_whole hasRoom
  callPerforms hasRoom _ runs _ _ := step_call hasRoom runs

namespace Meter

/-- The name of the class. -/
def className : BinaryName := ⟨"Meter", by decide⟩

/-- A private field that takes two slots. -/
def total : FieldRef := ⟨className, ⟨"recorded", by decide⟩, .base .long⟩

/-- A private method whose first parameter takes two slots. -/
def record : MethodRef :=
  ⟨.object className, ⟨"record", by decide⟩, ⟨[.base .long, .base .int], none⟩, false⟩

/-- The class, which has a method of the name of the first bridge. -/
def declaration : ClassDeclaration where
  name := className
  super := some .object
  interfaces := []
  flags := .ofBits 0
  fields := [⟨total.name, total.type, FieldFlags.accPrivate, []⟩]
  methods := [⟨record.name, record.type, MethodFlags.accPrivate, []⟩,
    ⟨bridgeName 0, record.type, MethodFlags.accStatic, []⟩]
  annotations := []

/-- The field is assigned, the method is called, and the field is assigned once more. -/
def requests : List (Instruction Nat) :=
  [.field .putField total, .invoke .virtual record, .field .putField total]

end Meter

end ClosureConversion
