import Mathlib.Data.Option.Basic
import ClosureConversion.Hierarchy.Subtyping
import ClosureConversion.Proofs.Flow.StackSlots
import ClosureConversion.Proofs.Rewriting.Machine

/-!
Contract: what code without jumps does to values.

Owns:
- what objects, arrays and static fields hold, and what stack and slots of a running method do;
- what each instruction does to them; it does nothing if it throws, or if it finds values of other
  kinds than it needs;
- running code to its end, and running the body of a method that is called.

Does not own: jumps, numbers with a fraction, and what the methods of other classes do, which is a
parameter.

A wide value is in the first one of its two slots; the second one holds nothing. A `box` value
refers to an array, of any length, by the order in which arrays were made.
-/

namespace ClosureConversion

/-! ## The heap -/

/-- An object of a class, and what its fields hold. -/
structure Instance where
  className : BinaryName
  fields : FieldRef → Value

/-- What objects, arrays and static fields hold. -/
structure Heap where
  objects : List Instance
  /-- The type of the elements of an array, and these. -/
  arrays : List (FieldType × List Value)
  statics : FieldRef → Value

namespace Heap

/-- The heap before anything is made. -/
def empty : Heap :=
  ⟨[], [], fun field => .first field.type⟩

/-- The type of what a reference refers to. -/
def typeOf? (heap : Heap) : Value → Option RefType
  | .object number => heap.objects[number]?.map fun object => .object object.className
  | .box number => heap.arrays[number]?.map fun array => RefType.arrayOf array.1
  | _ => none

/-- Whether a reference is null, or refers to something of a type. -/
def isOfType (heap : Heap) (hierarchy : Hierarchy) (type : RefType) (value : Value) : Bool :=
  value = .null ||
    match heap.typeOf? value with
    | some actual => (hierarchy.isAssignable actual type).toOption.getD false
    | none => false

/-- Whether an array with elements of a type takes a value. -/
def accepts (heap : Heap) (hierarchy : Hierarchy) (value : Value) : FieldType → Bool
  | .base type => value.kind = .ofType (.base type)
  | .ref type => heap.isOfType hierarchy type value

/-- The heap with an object of a class whose constructor has not run yet. -/
def addObject (heap : Heap) (className : BinaryName) : Heap :=
  { heap with objects := heap.objects ++ [⟨className, fun field => .first field.type⟩] }

/-- The heap with one more array. -/
def addArray (heap : Heap) (type : FieldType) (length : Nat) : Heap :=
  { heap with arrays := heap.arrays ++ [(type, List.replicate length (.first type))] }

/-- The heap after a field of an object was assigned. -/
def setField (heap : Heap) (number : Nat) (field : FieldRef) (value : Value) : Heap :=
  { heap with
    objects := heap.objects.modify number fun object =>
      { object with fields := Function.update object.fields field (value.narrow field.type) } }

/-- The heap after the elements of an array were replaced. -/
def setArray (heap : Heap) (number : Nat) (type : FieldType) (elements : List Value) : Heap :=
  { heap with arrays := heap.arrays.set number (type, elements) }

end Heap

/-! ## Values -/

namespace Value

/-- Takes the values off that are in so many slots of the operand stack. -/
def takeSlots : Nat → List Value → Option (List Value × List Value)
  | 0, stack => some ([], stack)
  | count + 1, value :: rest =>
      if value.isWide then
        match count with
        | 0 => none
        | count + 1 => (takeSlots count rest).map fun (taken, rest) => (value :: taken, rest)
      else (takeSlots count rest).map fun (taken, rest) => (value :: taken, rest)
  | _ + 1, [] => none

/-- The values of a stack after an instruction that only rearranges them. -/
def rearrange (operation : StackOperation) (stack : List Value) : Option (List Value) := do
  let (taken, rest) ← takeSlots operation.taken stack
  let (passed, rest) ← takeSlots operation.passed rest
  return operation.arrange taken passed ++ rest

section Rearranging

variable {first second value : Value} {rest : List Value}

@[simp] theorem takeSlots_zero :
    takeSlots 0 rest = some ([], rest) := by
  cases rest <;> rfl

@[simp] theorem takeSlots_one
    (isNarrow : value.isWide = false) :
    takeSlots 1 (value :: rest) = some ([value], rest) := by
  simp [takeSlots, isNarrow]

@[simp] theorem takeSlots_two_of_isWide
    (isWide : value.isWide = true) :
    takeSlots 2 (value :: rest) = some ([value], rest) := by
  simp [takeSlots, isWide]

@[simp] theorem takeSlots_two
    (firstNarrow : first.isWide = false)
    (secondNarrow : second.isWide = false) :
    takeSlots 2 (first :: second :: rest) = some ([first, second], rest) := by
  simp [takeSlots, firstNarrow, secondNarrow]

theorem rearrange_pop
    (isNarrow : value.isWide = false) :
    rearrange .pop (value :: rest) = some rest := by
  simp [rearrange, StackOperation.taken, StackOperation.passed, StackOperation.arrange, isNarrow]

theorem rearrange_swap
    (firstNarrow : first.isWide = false)
    (secondNarrow : second.isWide = false) :
    rearrange .swap (first :: second :: rest) = some (second :: first :: rest) := by
  simp [rearrange, StackOperation.taken, StackOperation.passed, StackOperation.arrange,
    firstNarrow, secondNarrow]

theorem rearrange_dupX2
    (isNarrow : first.isWide = false)
    (isWide : second.isWide = true) :
    rearrange .dupX2 (first :: second :: rest) = some (first :: second :: first :: rest) := by
  simp [rearrange, StackOperation.taken, StackOperation.passed, StackOperation.arrange, isNarrow,
    isWide]

end Rearranging

/-- Calculates with two numbers. There is no result where the divisor is zero. -/
def calculate {α : Type} [Add α] [Sub α] [Mul α] [Div α] [Mod α] [OfNat α 0] [DecidableEq α]
    (operation : Arithmetic) (first second : α) : Option α :=
  match operation with
  | .add => some (first + second)
  | .subtract => some (first - second)
  | .multiply => some (first * second)
  | .divide => if second = 0 then none else some (first / second)
  | .remainder => if second = 0 then none else some (first % second)

/-- The values of a stack after an operation on the two numbers on top of it. -/
def operate (operation : Arithmetic) : NumericKind → List Value → Option (List Value)
  | .int, .int second :: .int first :: rest =>
      (calculate operation first second).map fun result => .int result :: rest
  | .long, .long second :: .long first :: rest =>
      (calculate operation first second).map fun result => .long result :: rest
  | _, _ => none

/-- The number that a conversion between integers makes of another one. -/
def convert? : Conversion → Value → Option Value
  | .intToLong, .int value => some (.long value.toInt64)
  | .longToInt, .long value => some (.int value.toInt32)
  | .intToByte, .int value => some ((int value).narrow .byte)
  | .intToChar, .int value => some ((int value).narrow .char)
  | .intToShort, .int value => some ((int value).narrow .short)
  | _, _ => none

/-- The slots of arguments, in order. -/
def slotsOf : List Value → List (Option Value)
  | [] => []
  | value :: rest =>
      if value.isWide then some value :: none :: slotsOf rest else some value :: slotsOf rest

/-- The element of an index. -/
def elementAt? (elements : List Value) (index : Int32) : Option Value :=
  if 0 ≤ index then elements[index.toInt.toNat]? else none

/-- The elements after one of them was assigned. -/
def setElement? (elements : List Value) (index : Int32) (value : Value) : Option (List Value) :=
  if 0 ≤ index ∧ index.toInt.toNat < elements.length then
    some (elements.set index.toInt.toNat value)
  else none

end Value

/-! ## Running methods -/

/-- What running code takes from outside: which classes there are, and what called methods do, the
receiver being their first argument. -/
structure Runtime where
  hierarchy : Hierarchy
  call : CallKind → MethodRef → List Value → Heap → Option (Heap × Option Value)

/-- A method that runs. -/
structure Activation where
  stack : List Value
  slots : Nat → Option Value
  heap : Heap

namespace Activation

/-- A method that begins to run. -/
def entering (arguments : List Value) (heap : Heap) : Activation :=
  ⟨[], fun slot => (Value.slotsOf arguments)[slot]?.join, heap⟩

/-- One more value on the stack. -/
def push (activation : Activation) (value : Value) : Activation :=
  { activation with stack := value :: activation.stack }

/-- A value in a slot. The other half of a wide value whose one half was there is gone. -/
def assign (activation : Activation) (slot : Nat) (value : Value) : Activation :=
  { activation with
    slots := fun other =>
      if other = slot then some value
      else if other = slot + 1 ∧ value.isWide then none
      else if other + 1 = slot ∧ (activation.slots other).any Value.isWide then none
      else activation.slots other }

/-- Makes an array with as many elements as the stack says. -/
def makeArray (activation : Activation) (type : FieldType) : Option Activation :=
  match activation.stack with
  | .int length :: rest =>
      if 0 ≤ length then
        some { activation with
          stack := .box activation.heap.arrays.length :: rest
          heap := activation.heap.addArray type length.toInt.toNat }
      else none
  | _ => none

/-- Pushes an element of an array. -/
def loadElement (activation : Activation) (kind : ArrayKind) : Option Activation :=
  match activation.stack with
  | .int index :: .box number :: rest => do
      let (type, elements) ← activation.heap.arrays[number]?
      guard (kind = .ofElement type)
      let value ← Value.elementAt? elements index
      return { activation with stack := value :: rest }
  | _ => none

/-- Assigns an element of an array. -/
def storeElement (activation : Activation) (hierarchy : Hierarchy) (kind : ArrayKind) :
    Option Activation :=
  match activation.stack with
  | value :: .int index :: .box number :: rest => do
      let (type, elements) ← activation.heap.arrays[number]?
      guard (kind = .ofElement type)
      guard (activation.heap.accepts hierarchy value type)
      let elements ← Value.setElement? elements index (value.narrow type)
      return { activation with
        stack := rest
        heap := activation.heap.setArray number type elements }
  | _ => none

/-- Pushes or assigns what a field holds. -/
def accessField (activation : Activation) (field : FieldRef) : FieldAccess → Option Activation
  | .getStatic => some (activation.push (activation.heap.statics field))
  | .putStatic =>
      match activation.stack with
      | value :: rest => do
          guard (value.kind = .ofType field.type)
          let statics := Function.update activation.heap.statics field (value.narrow field.type)
          return { activation with stack := rest, heap := { activation.heap with statics } }
      | [] => none
  | .getField =>
      match activation.stack with
      | .object number :: rest => do
          let object ← activation.heap.objects[number]?
          return { activation with stack := object.fields field :: rest }
      | _ => none
  | .putField =>
      match activation.stack with
      | value :: .object number :: rest => do
          let _ ← activation.heap.objects[number]?
          guard (value.kind = .ofType field.type)
          return { activation with
            stack := rest
            heap := activation.heap.setField number field value }
      | _ => none

/-- Calls a method. Its last argument is on top of the stack, its receiver below the first one. -/
def invoke (activation : Activation) (runtime : Runtime) (kind : CallKind) (method : MethodRef) :
    Option Activation := do
  let count := method.type.parameters.length + if kind.hasReceiver then 1 else 0
  guard (count ≤ activation.stack.length)
  let arguments := (activation.stack.take count).reverse
  guard (kind.hasReceiver → arguments.head? ≠ some .null)
  let (heap, result) ← runtime.call kind method arguments activation.heap
  return { activation with stack := result.toList ++ activation.stack.drop count, heap }

/-- Executes an instruction without operands. -/
def operate (activation : Activation) (runtime : Runtime) : Operation → Option Activation
  | .nop => some activation
  | .pushNull => some (activation.push .null)
  | .arrayLoad kind => activation.loadElement kind
  | .arrayStore kind => activation.storeElement runtime.hierarchy kind
  | .stack operation =>
      (Value.rearrange operation activation.stack).map fun stack => { activation with stack }
  | .arithmetic operation kind =>
      (Value.operate operation kind activation.stack).map fun stack => { activation with stack }
  | .convert conversion =>
      match activation.stack with
      | value :: rest =>
          (value.convert? conversion).map fun converted =>
            { activation with stack := converted :: rest }
      | [] => none
  | _ => none

/-- Executes an instruction. -/
def step (runtime : Runtime) (activation : Activation) : Instruction Nat → Option Activation
  | .op operation => activation.operate runtime operation
  | .pushInt value => some (activation.push (.int value))
  | .pushLong value => some (activation.push (.long value))
  | .pushFloat bits => some (activation.push (.float bits))
  | .pushDouble bits => some (activation.push (.double bits))
  | .load kind slot => do
      let value ← activation.slots slot.toNat
      guard (value.kind = kind)
      return activation.push value
  | .store kind slot =>
      match activation.stack with
      | value :: rest => do
          guard (value.kind = kind)
          return { activation with stack := rest }.assign slot.toNat value
      | [] => none
  | .increment slot amount =>
      match activation.slots slot.toNat with
      | some (.int value) =>
          some (activation.assign slot.toNat (.int (value + amount.toInt32)))
      | _ => none
  | .field access field => activation.accessField field access
  | .invoke kind method => activation.invoke runtime kind method
  | .new name =>
      some { activation with
        stack := .object activation.heap.objects.length :: activation.stack
        heap := activation.heap.addObject name }
  | .newArray type => activation.makeArray (.base type)
  | .newRefArray type => activation.makeArray (.ref type)
  | .checkCast type =>
      match activation.stack with
      | value :: _ =>
          if activation.heap.isOfType runtime.hierarchy type value then some activation else none
      | [] => none
  | _ => none

/-- Executes instructions in order. -/
def run (runtime : Runtime) (activation : Activation) (code : List (Instruction Nat)) :
    Option Activation :=
  code.foldlM (step runtime) activation

/-- Executes the body of a method up to where it leaves it. -/
def runBody (runtime : Runtime) (activation : Activation) :
    List (Instruction Nat) → Option (Heap × Option Value)
  | [] => none
  | .op (.leave none) :: _ => some (activation.heap, none)
  | .op (.leave (some kind)) :: _ =>
      match activation.stack with
      | value :: _ => if value.kind = kind then some (activation.heap, some value) else none
      | [] => none
  | instruction :: rest =>
      (activation.step runtime instruction).bind fun next => next.runBody runtime rest

section Running

variable {runtime : Runtime} {activation : Activation} {instruction : Instruction Nat}
  {code : List (Instruction Nat)}

@[simp] theorem run_nil :
    activation.run runtime [] = some activation :=
  rfl

@[simp] theorem run_cons :
    activation.run runtime (instruction :: code) =
      (activation.step runtime instruction).bind fun next => next.run runtime code :=
  rfl

theorem run_append
    {first second : List (Instruction Nat)} :
    activation.run runtime (first ++ second) =
      (activation.run runtime first).bind fun next => next.run runtime second :=
  List.foldlM_append

theorem step_convert
    {conversion : Conversion}
    {value : Value} :
    (activation.push value).step runtime (.op (.convert conversion)) =
      (value.convert? conversion).map activation.push :=
  rfl

section Variables

variable {slot : UInt16} {kind : LocalKind} {value : Value}

theorem step_load
    (isValue : activation.slots slot.toNat = some value)
    (isKind : value.kind = kind) :
    activation.step runtime (.load kind slot) = some (activation.push value) := by
  simp [step, isValue, isKind]

theorem step_store
    {rest : List Value}
    (isStacked : activation.stack = value :: rest)
    (isKind : value.kind = kind) :
    activation.step runtime (.store kind slot) =
      some ({ activation with stack := rest }.assign slot.toNat value) := by
  simp [step, isStacked, isKind]

theorem step_increment
    {before : Int32}
    {amount : Int16}
    (isValue : activation.slots slot.toNat = some (.int before)) :
    activation.step runtime (.increment slot amount) =
      some (activation.assign slot.toNat (.int (before + amount.toInt32))) := by
  simp only [step, isValue]

@[simp] theorem assign_self
    (activation : Activation)
    (position : Nat) :
    (activation.assign position value).slots position = some value :=
  if_pos rfl

/-- A slot holds what was assigned to it last, among values of one width. -/
theorem assign_assign
    {content : Value}
    (activation : Activation)
    (position : Nat)
    (sameWidth : content.isWide = value.isWide) :
    (activation.assign position content).assign position value =
      activation.assign position value := by
  unfold assign
  simp only [mk.injEq, true_and, and_true]
  funext other
  split_ifs <;> simp_all

end Variables

end Running

end Activation

end ClosureConversion
