import Mathlib.Logic.Function.Basic
import ClosureConversion.Closure.Rewriting
import ClosureConversion.Proofs.Computation

/-!
Contract: what the code of boxes does.

Owns:
- a machine for the instructions that use slots and boxes;
- the code that loads, stores or increments what a box holds does so, and nothing else;
- the code that makes a box.

Does not own: which variables are kept in boxes.

A slot of the machine holds a whole value, also a wide one. Boxes are told apart by the order
in which they were made.
-/

namespace ClosureConversion

/-- What slots, boxes and the operand stack hold. -/
inductive Value where
  | int (value : Int32)
  | long (value : Int64)
  | float (bits : UInt32)
  | double (bits : UInt64)
  | null
  | object (number : Nat)
  | box (number : Nat)
deriving DecidableEq, Repr

namespace Value

/-- The kind of the value. -/
def kind : Value → LocalKind
  | .int _ => .int
  | .long _ => .long
  | .float _ => .float
  | .double _ => .double
  | _ => .reference

/-- Whether the value takes two slots. -/
def isWide (value : Value) : Bool :=
  value.kind.slots = 2

@[simp] theorem isWide_int
    {value : Int32} :
    (int value).isWide = false :=
  rfl

@[simp] theorem isWide_box
    {number : Nat} :
    (box number).isWide = false :=
  rfl

/-- The value with a number replaced. -/
def mapInt (replace : Int32 → Int32) : Value → Value
  | .int number => .int (replace number)
  | other => other

/-- What an array with elements of a type keeps of a value. -/
def narrow (value : Value) : FieldType → Value
  | .base .boolean => value.mapInt fun number => number &&& 1
  | .base .byte => value.mapInt fun number => number.toInt8.toInt32
  | .base .char => value.mapInt fun number => number.toUInt32.toUInt16.toUInt32.toInt32
  | .base .short => value.mapInt fun number => number.toInt16.toInt32
  | _ => value

/-- The value that variables of a type have at first. -/
def first : FieldType → Value
  | .base .long => .long 0
  | .base .float => .float 0
  | .base .double => .double 0
  | .base _ => .int 0
  | .ref _ => .null

/-- The value is one of a type: an array with such elements keeps all of it. -/
structure Fits (value : Value) (type : FieldType) : Prop where
  kind : value.kind = .ofType type
  narrow : value.narrow type = value

instance (value : Value) (type : FieldType) : Decidable (value.Fits type) :=
  decidable_of_iff (value.kind = .ofType type ∧ value.narrow type = value)
    ⟨fun parts => ⟨parts.1, parts.2⟩, fun fits => ⟨fits.kind, fits.narrow⟩⟩

end Value

/-- A machine with an operand stack, slots, and the types and contents of the boxes that were
made. -/
structure Machine where
  stack : List Value
  slots : UInt16 → Value
  boxes : List (FieldType × Value)

namespace Machine

/-- The machine where a method begins. -/
def atEntry (slots : UInt16 → Value) : Machine :=
  ⟨[], slots, []⟩

/-- The machine with one more value on the stack. -/
def push (machine : Machine) (value : Value) : Machine :=
  { machine with stack := value :: machine.stack }

/-- The machine after a value was stored into a slot. -/
def setSlot (machine : Machine) (slot : UInt16) (value : Value) : Machine :=
  { machine with slots := Function.update machine.slots slot value }

/-- The machine after a value was stored into a box. -/
def setBox (machine : Machine) (number : Nat) (type : FieldType) (value : Value) : Machine :=
  { machine with boxes := machine.boxes.set number (type, value) }

/-- Makes a box, if the length on top of the stack is one. -/
def allocate (machine : Machine) (type : FieldType) : Option Machine :=
  match machine.stack with
  | .int length :: rest =>
      if length = 1 then
        some ⟨.box machine.boxes.length :: rest, machine.slots,
          machine.boxes ++ [(type, Value.first type)]⟩
      else none
  | _ => none

/-- Loads from the box that the stack refers to. -/
def loadElement (machine : Machine) (kind : ArrayKind) : Option Machine :=
  match machine.stack with
  | .int index :: .box number :: rest =>
      (machine.boxes[number]?).bind fun (type, value) =>
        if index = 0 ∧ kind = .ofElement type then some { machine with stack := value :: rest }
        else none
  | _ => none

/-- Stores into the box that the stack refers to. -/
def storeElement (machine : Machine) (kind : ArrayKind) : Option Machine :=
  match machine.stack with
  | value :: .int index :: .box number :: rest =>
      (machine.boxes[number]?).bind fun (type, _) =>
        if index = 0 ∧ kind = .ofElement type ∧ value.kind = .ofType type then
          some ({ machine with stack := rest }.setBox number type (value.narrow type))
        else none
  | _ => none

/-- Adds two numbers. -/
def addInts (machine : Machine) : Option Machine :=
  match machine.stack with
  | .int second :: .int first :: rest =>
      some { machine with stack := .int (first + second) :: rest }
  | _ => none

/-- Rearranges the stack. -/
def rearrange : StackOperation → List Value → Option (List Value)
  | .pop, value :: rest => if value.isWide then none else some rest
  | .dup, value :: rest => if value.isWide then none else some (value :: value :: rest)
  | .swap, first :: second :: rest =>
      if first.isWide || second.isWide then none else some (second :: first :: rest)
  | .dup2, first :: second :: rest =>
      if first.isWide || second.isWide then none
      else some (first :: second :: first :: second :: rest)
  | .dupX2, first :: second :: rest =>
      if !first.isWide && second.isWide then some (first :: second :: first :: rest) else none
  | _, _ => none

/-- Executes an instruction without operands. -/
def operate (machine : Machine) : Operation → Option Machine
  | .pushNull => some (machine.push .null)
  | .stack operation => (rearrange operation machine.stack).map fun stack => { machine with stack }
  | .arithmetic .add .int => machine.addInts
  | .arrayLoad kind => machine.loadElement kind
  | .arrayStore kind => machine.storeElement kind
  | _ => none

/-- Executes an instruction, if it is one that uses slots or boxes. -/
def step (machine : Machine) : Instruction Nat → Option Machine
  | .op operation => machine.operate operation
  | .pushInt value => some (machine.push (.int value))
  | .pushLong value => some (machine.push (.long value))
  | .pushFloat bits => some (machine.push (.float bits))
  | .pushDouble bits => some (machine.push (.double bits))
  | .load _ slot => some (machine.push (machine.slots slot))
  | .store _ slot =>
      match machine.stack with
      | value :: rest => some ({ machine with stack := rest }.setSlot slot value)
      | [] => none
  | .increment slot amount =>
      match machine.slots slot with
      | .int value => some (machine.setSlot slot (.int (value + amount.toInt32)))
      | _ => none
  | .newArray type => machine.allocate (.base type)
  | .newRefArray type => machine.allocate (.ref type)
  | _ => none

/-- Executes instructions in order. -/
def run (machine : Machine) (code : List (Instruction Nat)) : Option Machine :=
  code.foldlM step machine

theorem run_append
    {machine : Machine}
    {first second : List (Instruction Nat)} :
    machine.run (first ++ second) = (machine.run first).bind fun next => next.run second :=
  List.foldlM_append

@[simp] theorem run_nil
    {machine : Machine} :
    machine.run [] = some machine :=
  rfl

@[simp] theorem run_cons
    {machine : Machine}
    {instruction : Instruction Nat}
    {code : List (Instruction Nat)} :
    machine.run (instruction :: code) = (machine.step instruction).bind fun next => next.run code :=
  rfl

@[simp] theorem step_op
    {machine : Machine}
    {operation : Operation} :
    machine.step (.op operation) = machine.operate operation :=
  rfl

@[simp] theorem step_pushInt
    {machine : Machine}
    {value : Int32} :
    machine.step (.pushInt value) = some (machine.push (.int value)) :=
  rfl

@[simp] theorem step_load
    {machine : Machine}
    {kind : LocalKind}
    {slot : UInt16} :
    machine.step (.load kind slot) = some (machine.push (machine.slots slot)) :=
  rfl

@[simp] theorem step_store
    {value : Value}
    {rest : List Value}
    {slots : UInt16 → Value}
    {boxes : List (FieldType × Value)}
    {kind : LocalKind}
    {slot : UInt16} :
    step ⟨value :: rest, slots, boxes⟩ (.store kind slot) =
      some ⟨rest, Function.update slots slot value, boxes⟩ :=
  rfl

theorem setSlot_slots_self
    {machine : Machine}
    {slot : UInt16}
    {value : Value} :
    (machine.setSlot slot value).slots slot = value :=
  Function.update_self ..

theorem step_increment_eq_some
    {machine next : Machine}
    {slot : UInt16}
    {amount : Int16}
    (stepped : machine.step (.increment slot amount) = some next) :
    ∃ before, machine.slots slot = .int before ∧
      next = machine.setSlot slot (.int (before + amount.toInt32)) := by
  unfold step at stepped
  cases isValue : machine.slots slot with
  | int before =>
      simp only [isValue, Option.some.injEq] at stepped
      exact ⟨before, rfl, stepped.symm⟩
  | _ => simp [isValue] at stepped

theorem push_stack
    {machine : Machine}
    {value : Value} :
    (machine.push value).stack = value :: machine.stack :=
  rfl

/-- A slot refers to a box with a content. -/
structure Refers (machine : Machine) (slot : UInt16) (number : Nat) (type : FieldType)
    (value : Value) : Prop where
  slot : machine.slots slot = .box number
  box : machine.boxes[number]? = some (type, value)

section Boxes

variable {machine : Machine} {slot : UInt16} {number : Nat} {type : FieldType}
  {content value : Value}

/-- The content of a box is loaded. -/
theorem run_load
    (refers : machine.Refers slot number type content) :
    machine.run (BoxOperation.load.code [.load .reference slot] type) =
      some (machine.push content) := by
  simp [BoxOperation.code, BoxOperation.body, operate, loadElement, push, refers.slot,
    refers.box]

theorem isWide_eq_of_kind
    (kind : value.kind = .ofType type) :
    value.isWide = type.isWide := by
  unfold Value.isWide
  rw [kind]
  cases type with
  | base type => cases type <;> rfl
  | ref type => rfl

/-- The index of the element goes under the value to store. -/
theorem run_insertIndex
    {rest : List Value}
    (isStacked : machine.stack = .box number :: value :: rest)
    (kind : value.kind = .ofType type) :
    machine.run (insertIndex type) =
      some { machine with stack := value :: .int 0 :: .box number :: rest } := by
  have isWide := isWide_eq_of_kind kind
  unfold insertIndex
  cases wide : type.isWide with
  | true =>
      rw [wide] at isWide
      simp [operate, rearrange, push, isStacked, isWide]
  | false =>
      rw [wide] at isWide
      simp [operate, rearrange, push, isStacked, isWide]

/-- The value on the stack becomes the content of a box. -/
theorem run_store
    {rest : List Value}
    (refers : machine.Refers slot number type content)
    (isStacked : machine.stack = value :: rest)
    (fits : value.Fits type) :
    machine.run (BoxOperation.store.code [.load .reference slot] type) =
      some ({ machine with stack := rest }.setBox number type value) := by
  have loaded : machine.step (.load .reference slot) = some (machine.push (.box number)) := by
    rw [step_load, refers.slot]
  have inserted : (machine.push (.box number)).run (insertIndex type) =
      some { machine with stack := value :: .int 0 :: .box number :: rest } :=
    run_insertIndex (by rw [push_stack, isStacked]) fits.kind
  rw [BoxOperation.code, BoxOperation.body, List.singleton_append, run_cons, loaded,
    Option.bind_some, run_append, inserted, Option.bind_some]
  simp [operate, storeElement, setBox, refers.box, fits.kind, fits.narrow]

/-- The content of a box is incremented. -/
theorem run_increment
    {amount : Int16}
    {before : Int32}
    (refers : machine.Refers slot number type (.int before))
    (fits : (Value.int (before + amount.toInt32)).Fits type) :
    machine.run ((BoxOperation.increment amount).code [.load .reference slot] type) =
      some (machine.setBox number type (.int (before + amount.toInt32))) := by
  simp [BoxOperation.code, BoxOperation.body, operate, rearrange, loadElement, addInts,
    storeElement, push, setBox, refers.slot, refers.box, fits.kind,
    fits.narrow]

end Boxes

/-- What the box of a variable holds at first, if these are the slots where the method begins. -/
def initialContent (slots : UInt16 → Value) (boxed : BoxedLocal) : Value :=
  if boxed.isParameter then slots boxed.slot else .first boxed.type

theorem fits_first
    {type : FieldType} :
    (Value.first type).Fits type := by
  cases type with
  | base type => cases type <;> exact ⟨rfl, rfl⟩
  | ref type => exact ⟨rfl, rfl⟩

theorem step_firstValue
    {machine : Machine}
    {type : FieldType} :
    machine.step (firstValue type) = some (machine.push (.first type)) := by
  cases type with
  | base type => cases type <;> rfl
  | ref type => rfl

theorem step_newArrayOf
    {machine : Machine}
    {type : FieldType} :
    machine.step (newArrayOf type) = machine.allocate type := by
  cases type <;> rfl

/-- Making a box changes no other slot and no other box. -/
theorem run_makeBox
    {machine : Machine}
    {boxed : BoxedLocal}
    (fits : (initialContent machine.slots boxed).Fits boxed.type) :
    machine.run (MethodPlan.makeBox boxed) =
      some { machine with
        slots := Function.update machine.slots boxed.boxSlot (.box machine.boxes.length)
        boxes := machine.boxes ++ [(boxed.type, initialContent machine.slots boxed)] } := by
  have pushed : ∀ other : Machine, other.slots = machine.slots →
      other.step (if boxed.isParameter then .load (.ofType boxed.type) boxed.slot
        else firstValue boxed.type) = some (other.push (initialContent machine.slots boxed)) := by
    intro other sameSlots
    unfold initialContent
    split
    · rw [step_load, sameSlots]
    · exact step_firstValue
  have allocated : (machine.push (.int 1)).step (newArrayOf boxed.type) =
      some { machine with
        stack := .box machine.boxes.length :: machine.stack
        boxes := machine.boxes ++ [(boxed.type, .first boxed.type)] } := by
    rw [step_newArrayOf]
    rfl
  unfold MethodPlan.makeBox newBox
  simp only [List.cons_append, List.nil_append, run_cons, step_pushInt, Option.bind_some, allocated]
  simp [operate, rearrange, pushed, storeElement, push, setBox, fits.kind, fits.narrow]

end Machine

end ClosureConversion
