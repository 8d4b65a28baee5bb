import ClosureConversion.Closure.Box
import ClosureConversion.Proofs.Running.Activation

/-!
Contract: boxes do what variables do.

Owns:
- what loading, storing and incrementing do to the element of an array, and making one;
- a variable that some code uses, told apart from where it is kept;
- the code does the same to it in a box as in a slot, as long as the variable keeps to its type.

Does not own: which variables are kept in boxes, and how code gets at a box.
-/

namespace ClosureConversion

/-- A value is one of a type, and arrays with such elements take it. -/
structure Heap.Suits (heap : Heap) (hierarchy : Hierarchy) (type : FieldType) (value : Value) :
    Prop where
  fits : value.Fits type
  accepted : heap.accepts hierarchy value type = true

/-- The values on an operand stack, and the value of a variable. -/
structure VariableState where
  stack : List Value
  content : Value

/-- The activation with other values on the operand stack, and one in a box. -/
def Activation.withBox (base : Activation) (number : Nat) (type : FieldType)
    (state : VariableState) : Activation :=
  { base with stack := state.stack, heap := base.heap.setArray number type [state.content] }

/-- The activation with other values on the operand stack, and one in a slot. -/
def Activation.withVariable (base : Activation) (slot : UInt16) (state : VariableState) :
    Activation :=
  { base with stack := state.stack }.assign slot.toNat state.content

/-- The code pushes an array with one element of a type, and does nothing else, whatever is on the
operand stack and in the array. -/
structure PushesBox (runtime : Runtime) (base : Activation) (push : List (Instruction Nat))
    (type : FieldType) (number : Nat) : Prop where
  isBox : ∃ content, base.heap.arrays[number]? = some (type, [content])
  pushes : ∀ stack content, content.Fits type →
    (base.withBox number type ⟨stack, content⟩).run runtime push =
      some (base.withBox number type ⟨.box number :: stack, content⟩)

namespace Heap

variable {heap : Heap} {hierarchy : Hierarchy} {number : Nat} {type elementType : FieldType}
  {elements others : List Value}

theorem setArray_getElem?
    (isArray : heap.arrays[number]? = some (type, others)) :
    (heap.setArray number type elements).arrays[number]? = some (type, elements) := by
  have below : number < heap.arrays.length := (List.getElem?_eq_some_iff.mp isArray).1
  exact List.getElem?_set_self below

@[simp] theorem setArray_setArray :
    (heap.setArray number type elements).setArray number type others =
      heap.setArray number type others := by
  unfold setArray
  simp only [List.set_set]

/-- The types of arrays are not changed by what they hold. -/
theorem typeOf?_setArray
    (isArray : heap.arrays[number]? = some (type, others))
    (value : Value) :
    (heap.setArray number type elements).typeOf? value = heap.typeOf? value := by
  cases value with
  | box other =>
      by_cases same : number = other
      · subst same
        simp only [typeOf?, setArray_getElem? isArray, isArray, Option.map_some]
      · simp only [typeOf?, setArray, List.getElem?_set_ne same]
  | _ => rfl

theorem accepts_setArray
    (isArray : heap.arrays[number]? = some (type, others))
    (value : Value) :
    (heap.setArray number type elements).accepts hierarchy value elementType =
      heap.accepts hierarchy value elementType := by
  cases elementType with
  | base type => rfl
  | ref type => simp only [accepts, isOfType, typeOf?_setArray isArray]

/-- What is of a type stays so when an array is added. -/
theorem accepts_addArray
    {value : Value}
    (accepted : heap.accepts hierarchy value elementType = true)
    (type : FieldType)
    (length : Nat) :
    (heap.addArray type length).accepts hierarchy value elementType = true := by
  cases elementType with
  | base type => exact accepted
  | ref target =>
      cases value with
      | box other =>
          cases isArray : heap.arrays[other]? with
          | none =>
              simp [accepts, isOfType, typeOf?, isArray] at accepted
          | some array =>
              have below := (List.getElem?_eq_some_iff.mp isArray).1
              simpa only [accepts, isOfType, typeOf?, addArray,
                List.getElem?_append_left below] using accepted
      | _ => exact accepted

end Heap

theorem Heap.Suits.isWide_eq
    {heap : Heap}
    {hierarchy : Hierarchy}
    {type : FieldType}
    {value : Value}
    (suits : heap.Suits hierarchy type value) :
    value.isWide = type.isWide :=
  Machine.isWide_eq_of_kind suits.fits.kind

/-! ## Arrays of one element -/

namespace Activation

section Elements

variable {runtime : Runtime} {slots : Nat → Option Value} {heap : Heap} {rest : List Value}
  {number : Nat} {type : FieldType} {content value : Value} {push : List (Instruction Nat)}

/-- The index of the element goes under the value to store. -/
theorem run_insertIndex
    (sameWidth : value.isWide = type.isWide) :
    run runtime ⟨.box number :: value :: rest, slots, heap⟩ (insertIndex type) =
      some ⟨value :: .int 0 :: .box number :: rest, slots, heap⟩ := by
  unfold insertIndex
  cases isWide : type.isWide with
  | true =>
      rw [isWide] at sameWidth
      simp [step, operate, Activation.push, Value.rearrange_dupX2 Value.isWide_box sameWidth,
        Value.rearrange_dupX2 Value.isWide_int sameWidth, Value.rearrange_pop Value.isWide_box,
        Value.rearrange_pop Value.isWide_int]
  | false =>
      rw [isWide] at sameWidth
      simp [step, operate, Activation.push, Value.rearrange_swap Value.isWide_box sameWidth,
        Value.rearrange_swap Value.isWide_int sameWidth]

/-- There is no value to store. -/
theorem run_insertIndex_nil :
    run runtime ⟨[.box number], slots, heap⟩ (insertIndex type) = none := by
  unfold insertIndex
  cases type.isWide <;> rfl

theorem step_arrayLoad
    (isBox : heap.arrays[number]? = some (type, [content])) :
    step runtime ⟨.int 0 :: .box number :: rest, slots, heap⟩
        (.op (.arrayLoad (.ofElement type))) =
      some ⟨content :: rest, slots, heap⟩ := by
  simp [step, operate, loadElement, isBox, Value.elementAt?]

theorem step_arrayStore
    (isBox : heap.arrays[number]? = some (type, [content]))
    (suits : heap.Suits runtime.hierarchy type value) :
    step runtime ⟨value :: .int 0 :: .box number :: rest, slots, heap⟩
        (.op (.arrayStore (.ofElement type))) =
      some ⟨rest, slots, heap.setArray number type [value]⟩ := by
  simp [step, operate, storeElement, isBox, suits.accepted, suits.fits.narrow, Value.setElement?]

/-- The element is pushed. -/
theorem run_load
    (pushed : run runtime ⟨rest, slots, heap⟩ push = some ⟨.box number :: rest, slots, heap⟩)
    (isBox : heap.arrays[number]? = some (type, [content])) :
    run runtime ⟨rest, slots, heap⟩ (BoxOperation.load.code push type) =
      some ⟨content :: rest, slots, heap⟩ := by
  rw [BoxOperation.code, BoxOperation.body, run_append, pushed, Option.bind_some, run_cons]
  exact congrArg (Option.bind · _) (step_arrayLoad isBox)

/-- The value on top of the operand stack becomes the element. -/
theorem run_store
    (pushed : run runtime ⟨value :: rest, slots, heap⟩ push =
      some ⟨.box number :: value :: rest, slots, heap⟩)
    (isBox : heap.arrays[number]? = some (type, [content]))
    (suits : heap.Suits runtime.hierarchy type value) :
    run runtime ⟨value :: rest, slots, heap⟩ (BoxOperation.store.code push type) =
      some ⟨rest, slots, heap.setArray number type [value]⟩ := by
  rw [BoxOperation.code, BoxOperation.body, run_append, pushed, Option.bind_some, run_append,
    run_insertIndex suits.isWide_eq, Option.bind_some, run_cons, step_arrayStore isBox suits]
  rfl

/-- The element is on the operand stack before it is increased. -/
theorem run_increment_eq
    {amount : Int16}
    (pushed : run runtime ⟨rest, slots, heap⟩ push = some ⟨.box number :: rest, slots, heap⟩)
    (isBox : heap.arrays[number]? = some (type, [content])) :
    run runtime ⟨rest, slots, heap⟩ ((BoxOperation.increment amount).code push type) =
      run runtime ⟨content :: .int 0 :: .box number :: rest, slots, heap⟩
        [.pushInt amount.toInt32, .op (.arithmetic .add .int),
          .op (.arrayStore (.ofElement type))] := by
  have copied : run runtime ⟨.box number :: rest, slots, heap⟩ [.pushInt 0, .op (.stack .dup2)] =
      some ⟨.int 0 :: .box number :: .int 0 :: .box number :: rest, slots, heap⟩ := rfl
  have isBody : ((BoxOperation.increment amount).body type : List (Instruction Nat)) =
      [.pushInt 0, .op (.stack .dup2)] ++ .op (.arrayLoad (.ofElement type)) ::
        [.pushInt amount.toInt32, .op (.arithmetic .add .int),
          .op (.arrayStore (.ofElement type))] := rfl
  rw [BoxOperation.code, isBody, run_append, pushed, Option.bind_some, run_append, copied,
    Option.bind_some, run_cons, step_arrayLoad isBox, Option.bind_some]

/-- The element is increased. -/
theorem run_increment
    {before : Int32}
    {amount : Int16}
    (pushed : run runtime ⟨rest, slots, heap⟩ push = some ⟨.box number :: rest, slots, heap⟩)
    (isBox : heap.arrays[number]? = some (type, [.int before]))
    (suits : heap.Suits runtime.hierarchy type (.int (before + amount.toInt32))) :
    run runtime ⟨rest, slots, heap⟩ ((BoxOperation.increment amount).code push type) =
      some ⟨rest, slots, heap.setArray number type [.int (before + amount.toInt32)]⟩ := by
  rw [run_increment_eq pushed isBox]
  exact congrArg (Option.bind · _) (step_arrayStore isBox suits)

theorem run_allocate :
    run runtime ⟨rest, slots, heap⟩
        [.pushInt 1, newArrayOf type, .op (.stack .dup), .pushInt 0] =
      some ⟨.int 0 :: .box heap.arrays.length :: .box heap.arrays.length :: rest, slots,
        heap.addArray type 1⟩ := by
  cases type <;> rfl

/-- An array is made that holds a value from the start. -/
theorem run_newBox
    {code : List (Instruction Nat)}
    (pushed : run runtime
        ⟨.int 0 :: .box heap.arrays.length :: .box heap.arrays.length :: rest, slots,
          heap.addArray type 1⟩ code =
      some ⟨value :: .int 0 :: .box heap.arrays.length :: .box heap.arrays.length :: rest, slots,
        heap.addArray type 1⟩)
    (suits : heap.Suits runtime.hierarchy type value) :
    run runtime ⟨rest, slots, heap⟩ (newBox type code) =
      some ⟨.box heap.arrays.length :: rest, slots,
        { heap with arrays := heap.arrays ++ [(type, [value])] }⟩ := by
  have isNew : (heap.addArray type 1).arrays[heap.arrays.length]? =
      some (type, [.first type]) := List.getElem?_concat_length ..
  have suitsNow : (heap.addArray type 1).Suits runtime.hierarchy type value :=
    ⟨suits.fits, Heap.accepts_addArray suits.accepted type 1⟩
  have filled : (heap.addArray type 1).setArray heap.arrays.length type [value] =
      { heap with arrays := heap.arrays ++ [(type, [value])] } := by
    simp [Heap.setArray, Heap.addArray]
  rw [newBox, run_append, run_append, run_allocate, Option.bind_some, pushed, Option.bind_some,
    run_cons, step_arrayStore isNew suitsNow, filled]
  rfl

end Elements

end Activation

/-! ## Variables, wherever they are kept -/

/-- Whether all that an instruction uses is on the operand stack. -/
def Instruction.usesOnlyStack : Instruction Nat → Bool
  | .op .nop => true
  | .op .pushNull => true
  | .op (.stack _) => true
  | .op (.arithmetic _ _) => true
  | .op (.convert _) => true
  | .pushInt _ => true
  | .pushLong _ => true
  | .pushFloat _ => true
  | .pushDouble _ => true
  | _ => false

/-- One thing that some code does: it uses one variable, or only the operand stack. -/
inductive VariableStep where
  | access (operation : BoxOperation)
  | other (instruction : Instruction Nat) (usesOnlyStack : instruction.usesOnlyStack = true)

namespace VariableStep

/-- What is done to the operand stack and the variable. -/
def apply (runtime : Runtime) (step : VariableStep) (state : VariableState) :
    Option VariableState :=
  match step, state with
  | .access .load, ⟨stack, content⟩ => some ⟨content :: stack, content⟩
  | .access .store, ⟨value :: rest, _⟩ => some ⟨rest, value⟩
  | .access (.increment amount), ⟨stack, .int before⟩ =>
      some ⟨stack, .int (before + amount.toInt32)⟩
  | .other instruction _, ⟨stack, content⟩ =>
      (Activation.step runtime ⟨stack, fun _ => none, .empty⟩ instruction).map fun next =>
        ⟨next.stack, content⟩
  | _, _ => none

/-- What a sequence of steps does. -/
def applyAll (runtime : Runtime) (steps : List VariableStep) (state : VariableState) :
    Option VariableState :=
  steps.foldlM (fun state step => step.apply runtime state) state

/-- The code of the step for a variable in a box. -/
def inBox (push : List (Instruction Nat)) (type : FieldType) :
    VariableStep → List (Instruction Nat)
  | .access operation => operation.code push type
  | .other instruction _ => [instruction]

/-- The code of the step for a variable in a slot. -/
def inSlot (slot : UInt16) (type : FieldType) : VariableStep → List (Instruction Nat)
  | .access .load => [.load (.ofType type) slot]
  | .access .store => [.store (.ofType type) slot]
  | .access (.increment amount) => [.increment slot amount]
  | .other instruction _ => [instruction]

/-- Every value that the variable gets on the way is one of its type. -/
def KeepsTo (Suits : Value → Prop) (runtime : Runtime) : List VariableStep → VariableState → Prop
  | [], _ => True
  | step :: rest, state => ∀ next, step.apply runtime state = some next →
      Suits next.content ∧ KeepsTo Suits runtime rest next

end VariableStep

namespace Activation

theorem step_of_usesOnlyStack
    {instruction : Instruction Nat}
    (usesOnlyStack : instruction.usesOnlyStack = true)
    (runtime : Runtime)
    (stack : List Value)
    (slots : Nat → Option Value)
    (heap : Heap) :
    step runtime ⟨stack, slots, heap⟩ instruction =
      (step runtime ⟨stack, fun _ => none, .empty⟩ instruction).map fun next =>
        ⟨next.stack, slots, heap⟩ := by
  cases instruction with
  | pushInt _ | pushLong _ | pushFloat _ | pushDouble _ => rfl
  | op operation =>
      cases operation with
      | nop | pushNull => rfl
      | stack operation =>
          change Option.map _ (Value.rearrange operation stack) =
            Option.map _ (Option.map _ (Value.rearrange operation stack))
          rw [Option.map_map]
          rfl
      | arithmetic operation kind =>
          change Option.map _ (Value.operate operation kind stack) =
            Option.map _ (Option.map _ (Value.operate operation kind stack))
          rw [Option.map_map]
          rfl
      | convert conversion =>
          cases stack with
          | nil => rfl
          | cons value rest =>
              change Option.map _ (value.convert? conversion) =
                Option.map _ (Option.map _ (value.convert? conversion))
              rw [Option.map_map]
              rfl
      | _ => cases usesOnlyStack
  | _ => cases usesOnlyStack

section Slots

variable {runtime : Runtime} {base : Activation} {slot : UInt16} {type : FieldType}
  {stack : List Value} {content value : Value}

theorem step_withVariable_load
    (isKind : content.kind = .ofType type) :
    (base.withVariable slot ⟨stack, content⟩).step runtime (.load (.ofType type) slot) =
      some (base.withVariable slot ⟨content :: stack, content⟩) :=
  step_load (assign_self _ _) isKind

theorem step_withVariable_store
    (isKind : value.kind = .ofType type)
    (sameKind : content.kind = .ofType type) :
    (base.withVariable slot ⟨value :: stack, content⟩).step runtime (.store (.ofType type) slot) =
      some (base.withVariable slot ⟨stack, value⟩) := by
  have sameWidth : content.isWide = value.isWide := by
    rw [Machine.isWide_eq_of_kind isKind, Machine.isWide_eq_of_kind sameKind]
  have stored : (base.withVariable slot ⟨value :: stack, content⟩).step runtime
      (.store (.ofType type) slot) = _ := step_store rfl isKind
  rw [stored]
  exact congrArg some (assign_assign { base with stack } slot.toNat sameWidth)

theorem step_withVariable_increment
    {before : Int32}
    {amount : Int16} :
    (base.withVariable slot ⟨stack, .int before⟩).step runtime (.increment slot amount) =
      some (base.withVariable slot ⟨stack, .int (before + amount.toInt32)⟩) := by
  have increased : (base.withVariable slot ⟨stack, .int before⟩).step runtime
      (.increment slot amount) = _ := step_increment (assign_self _ _)
  rw [increased]
  exact congrArg some (assign_assign { base with stack } slot.toNat rfl)

/-- A step does to a variable in a slot what it does to the variable. -/
theorem run_inSlot
    (step : VariableStep)
    (state : VariableState)
    (isKind : state.content.kind = .ofType type)
    (staysKind : ∀ next, step.apply runtime state = some next →
      next.content.kind = .ofType type) :
    (base.withVariable slot state).run runtime (step.inSlot slot type) =
      (step.apply runtime state).map (base.withVariable slot) := by
  obtain ⟨stack, content⟩ := state
  cases step with
  | access operation =>
      cases operation with
      | load =>
          rw [VariableStep.inSlot, run_cons, step_withVariable_load isKind]
          rfl
      | store =>
          cases stack with
          | nil => rfl
          | cons value rest =>
              rw [VariableStep.inSlot, run_cons,
                step_withVariable_store (staysKind ⟨rest, value⟩ rfl) isKind]
              rfl
      | increment amount =>
          cases content with
          | int before =>
              rw [VariableStep.inSlot, run_cons, step_withVariable_increment]
              rfl
          | _ =>
              simp [VariableStep.inSlot, VariableStep.apply, step, withVariable]
  | other instruction usesOnlyStack =>
      have stepped := step_of_usesOnlyStack usesOnlyStack runtime stack
        (base.assign slot.toNat content).slots base.heap
      change (Activation.step runtime ⟨stack, (base.assign slot.toNat content).slots, base.heap⟩
        instruction).bind _ = _
      rw [stepped, VariableStep.apply]
      cases Activation.step runtime ⟨stack, fun _ => none, .empty⟩ instruction <;> rfl

end Slots

section InBox

variable {runtime : Runtime} {base : Activation} {push : List (Instruction Nat)}
  {number : Nat} {type : FieldType}

/-- A step does to a variable in a box what it does to the variable. -/
theorem run_inBox
    (pushesBox : PushesBox runtime base push type number)
    (step : VariableStep)
    (state : VariableState)
    (suits : base.heap.Suits runtime.hierarchy type state.content)
    (staysSuited : ∀ next, step.apply runtime state = some next →
      base.heap.Suits runtime.hierarchy type next.content) :
    (base.withBox number type state).run runtime (step.inBox push type) =
      (step.apply runtime state).map (base.withBox number type) := by
  obtain ⟨stack, content⟩ := state
  obtain ⟨first, isArray⟩ := pushesBox.isBox
  have pushed := pushesBox.pushes stack content suits.fits
  have isBox : (base.heap.setArray number type [content]).arrays[number]? =
      some (type, [content]) := Heap.setArray_getElem? isArray
  have replaced : ∀ value,
      base.heap.Suits runtime.hierarchy type value →
      (base.heap.setArray number type [content]).Suits runtime.hierarchy type value :=
    fun value suits => ⟨suits.fits, by rw [Heap.accepts_setArray isArray, suits.accepted]⟩
  cases step with
  | access operation =>
      cases operation with
      | load => exact run_load pushed isBox
      | store =>
          cases stack with
          | nil =>
              rw [VariableStep.inBox, BoxOperation.code, BoxOperation.body, run_append, pushed,
                Option.bind_some, run_append]
              exact congrArg (Option.bind · _) run_insertIndex_nil
          | cons value rest =>
              refine (run_store pushed isBox (replaced value
                (staysSuited ⟨rest, value⟩ rfl))).trans ?_
              rw [Heap.setArray_setArray]
              rfl
      | increment amount =>
          cases content with
          | int before =>
              refine (run_increment pushed isBox (replaced _ (staysSuited _ rfl))).trans ?_
              rw [Heap.setArray_setArray]
              rfl
          | _ => exact run_increment_eq pushed isBox
  | other instruction usesOnlyStack =>
      have stepped := step_of_usesOnlyStack usesOnlyStack runtime stack base.slots
        (base.heap.setArray number type [content])
      change (Activation.step runtime ⟨stack, base.slots,
        base.heap.setArray number type [content]⟩ instruction).bind _ = _
      rw [stepped, VariableStep.apply]
      cases Activation.step runtime ⟨stack, fun _ => none, .empty⟩ instruction <;> rfl

end InBox

section Sequences

variable {runtime : Runtime} {place : VariableState → Activation}
  {code : VariableStep → List (Instruction Nat)} {Suits : Value → Prop}

/-- If each step does to a variable at its place what it does to the variable, then so do all
together. -/
theorem run_flatMap
    (stepRuns : ∀ step state, Suits state.content →
      (∀ next, VariableStep.apply runtime step state = some next → Suits next.content) →
      (place state).run runtime (code step) = (step.apply runtime state).map place)
    (steps : List VariableStep)
    (state : VariableState)
    (suits : Suits state.content)
    (keeps : VariableStep.KeepsTo Suits runtime steps state) :
    (place state).run runtime (steps.flatMap code) =
      (VariableStep.applyAll runtime steps state).map place := by
  induction steps generalizing state with
  | nil => rfl
  | cons step steps inductionHypothesis =>
      have stepped := stepRuns step state suits fun next isNext => (keeps next isNext).1
      rw [List.flatMap_cons, run_append, stepped]
      change _ = Option.map place ((step.apply runtime state).bind _)
      cases isNext : step.apply runtime state with
      | none => rfl
      | some next =>
          obtain ⟨suitsNext, keepsNext⟩ := keeps next isNext
          exact inductionHypothesis next suitsNext keepsNext

end Sequences

end Activation

/-- Code that uses an array of one element does to the element what code for a slot does to a
variable in it, and changes nothing else. -/
structure ActsAsVariable (runtime : Runtime) (base : Activation) (push : List (Instruction Nat))
    (type : FieldType) (number : Nat) : Prop where
  load : ∀ stack content, base.heap.Suits runtime.hierarchy type content →
    (base.withBox number type ⟨stack, content⟩).run runtime (BoxOperation.load.code push type) =
      some (base.withBox number type ⟨content :: stack, content⟩)
  store : ∀ stack content value, base.heap.Suits runtime.hierarchy type content →
    base.heap.Suits runtime.hierarchy type value →
    (base.withBox number type ⟨value :: stack, content⟩).run runtime
        (BoxOperation.store.code push type) =
      some (base.withBox number type ⟨stack, value⟩)
  increment : type = .int → ∀ stack before amount,
    (base.withBox number type ⟨stack, .int before⟩).run runtime
        ((BoxOperation.increment amount).code push type) =
      some (base.withBox number type ⟨stack, .int (before + amount.toInt32)⟩)
  make : ∀ stack value code, base.heap.Suits runtime.hierarchy type value →
    let made := base.heap.arrays.length
    let empty : Activation :=
      ⟨.int 0 :: .box made :: .box made :: stack, base.slots, base.heap.addArray type 1⟩
    empty.run runtime code = some (empty.push value) →
    { base with stack }.run runtime (newBox type code) =
      some ⟨.box made :: stack, base.slots,
        { base.heap with arrays := base.heap.arrays ++ [(type, [value])] }⟩
  sequence : ∀ slot steps state, base.heap.Suits runtime.hierarchy type state.content →
    VariableStep.KeepsTo (base.heap.Suits runtime.hierarchy type) runtime steps state →
    ∃ last : Option VariableState,
      (base.withBox number type state).run runtime (steps.flatMap (·.inBox push type)) =
          last.map (base.withBox number type) ∧
        (base.withVariable slot state).run runtime (steps.flatMap (·.inSlot slot type)) =
          last.map (base.withVariable slot)

theorem actsAsVariable_of_pushesBox
    {runtime : Runtime}
    {base : Activation}
    {push : List (Instruction Nat)}
    {type : FieldType}
    {number : Nat}
    (pushesBox : PushesBox runtime base push type number) :
    ActsAsVariable runtime base push type number := by
  have suitsInt : ∀ value : Int32, type = .int →
      base.heap.Suits runtime.hierarchy type (.int value) := by
    rintro value rfl
    exact ⟨⟨rfl, rfl⟩, rfl⟩
  have runs : ∀ operation state next, base.heap.Suits runtime.hierarchy type state.content →
      VariableStep.apply runtime (.access operation) state = some next →
      base.heap.Suits runtime.hierarchy type next.content →
      (base.withBox number type state).run runtime (operation.code push type) =
        some (base.withBox number type next) := by
    intro operation state next suits isNext suitsNext
    have ran := Activation.run_inBox pushesBox (.access operation) state suits (by
      intro other isOther
      cases isNext.symm.trans isOther
      exact suitsNext)
    rwa [isNext] at ran
  exact {
    load := fun stack content suits => runs .load _ _ suits rfl suits
    store := fun stack content value suits suitsValue => runs .store _ _ suits rfl suitsValue
    increment := fun isInt stack before amount =>
      runs (.increment amount) _ _ (suitsInt _ isInt) rfl (suitsInt _ isInt)
    make := fun stack value code suits pushed => Activation.run_newBox pushed suits
    sequence := fun slot steps state suits keeps => ⟨_,
      Activation.run_flatMap (fun step state => Activation.run_inBox pushesBox step state)
        steps state suits keeps,
      Activation.run_flatMap (fun step state suits staysSuited =>
        Activation.run_inSlot step state suits.fits.kind fun next isNext =>
          (staysSuited next isNext).fits.kind) steps state suits keeps⟩ }

/-! ## Where boxes are -/

section Places

variable {runtime : Runtime} {base : Activation} {type : FieldType} {number : Nat}
  {content : Value}

/-- A slot refers to the box. -/
theorem pushesBox_load
    {slot : UInt16}
    (isBox : base.heap.arrays[number]? = some (type, [content]))
    (inSlot : base.slots slot.toNat = some (.box number)) :
    PushesBox runtime base [.load .reference slot] type number where
  isBox := ⟨content, isBox⟩
  pushes := by
    intro stack content _
    have loaded : (base.withBox number type ⟨stack, content⟩).step runtime
        (.load .reference slot) = _ := Activation.step_load inSlot rfl
    rw [Activation.run_cons, loaded]
    rfl

/-- A field of the object in the first slot refers to the box. -/
theorem pushesBox_getField
    {object : Nat}
    {holder : Instance}
    {field : FieldRef}
    (isBox : base.heap.arrays[number]? = some (type, [content]))
    (isReceiver : base.slots 0 = some (.object object))
    (isObject : base.heap.objects[object]? = some holder)
    (inField : holder.fields field = .box number) :
    PushesBox runtime base [.load .reference 0, .field .getField field] type number where
  isBox := ⟨content, isBox⟩
  pushes := by
    intro stack content _
    have loaded : (base.withBox number type ⟨stack, content⟩).step runtime (.load .reference 0) =
        _ := Activation.step_load isReceiver rfl
    rw [Activation.run_cons, loaded, Option.bind_some, Activation.run_cons]
    simp [Activation.step, Activation.accessField, Activation.withBox, Activation.push,
      Heap.setArray, isObject, inField]

end Places

/-- A method that keeps a long in a box, and the box in a slot. -/
def longInBox : Activation where
  stack := []
  slots := fun slot => if slot = 3 then some (.box 0) else none
  heap := { Heap.empty with arrays := [(.long, [.long 7])] }

theorem longInBox_actsAsVariable :
    let runtime : Runtime := ⟨.core, fun _ _ _ _ => none⟩
    PushesBox runtime longInBox [.load .reference 3] .long 0 ∧
      ActsAsVariable runtime longInBox [.load .reference 3] .long 0 :=
  ⟨pushesBox_load rfl rfl, actsAsVariable_of_pushesBox (pushesBox_load rfl rfl)⟩

end ClosureConversion
