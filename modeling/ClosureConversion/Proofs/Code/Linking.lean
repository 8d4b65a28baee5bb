import Mathlib.Algebra.Group.Int.Defs
import ClosureConversion.Code.Encoding
import ClosureConversion.Proofs.Reference

/-!
Contract: what instructions need from the pool.

Owns:
- the form that decoding gives an instruction, and which instructions have such a form;
- what the constant that an instruction was linked with has to be;
- that interning the constant of an instruction links it.

Does not own: the bytes of an instruction.
-/

namespace ClosureConversion

/-! ## The decoded form -/

/-- The form in which decoding gives an instruction: numbers of the pool are pushed as
numbers, and the keys of a switch are sorted. -/
def Instruction.normalize {Label : Type} : Instruction Label → Instruction Label
  | .pushLiteral (.integer value) => .pushInt value
  | .pushLiteral (.float bits) => .pushFloat bits
  | .pushLiteral (.long value) => .pushLong value
  | .pushLiteral (.double bits) => .pushDouble bits
  | .lookupSwitch default targets =>
      .lookupSwitch default (targets.mergeSort fun left right => left.1 ≤ right.1)
  | instruction => instruction

/-- The keys of the switch are those of a range that thirty-two bits can express. -/
def Instruction.SwitchFits {Label : Type} : Instruction Label → Prop
  | .tableSwitch _ low targets => targets ≠ [] ∧ low.toInt + targets.length - 1 < 2 ^ 31
  | _ => True

/-- Sixteen bits tell the bootstrap methods apart, if the instruction needs one. -/
def Instruction.CallFits {Label : Type} (pool : ConstantPool) : Instruction Label → Prop
  | .invokeDynamic _ => pool.bootstraps.length ≤ 2 ^ 16
  | _ => True

/-! ## Linked constants -/

/-- The position of a constant that resolves to a value. -/
def Names {α : Type} (resolve : PoolIndex → Except BytecodeError α) (value : α)
    (constant : Option PoolIndex) : Prop :=
  ∃ index, constant = some index ∧ resolve index = .ok value

/-- What the instruction was linked with is what its bytes need. -/
def Instruction.IsLinked {Label : Type} (pool : ConstantPool) (constant : Option PoolIndex) :
    Instruction Label → Prop
  | .pushInt value =>
      fitsShort value.toInt = true ∨ Names (Literal.resolve pool) (.integer value) constant
  | .pushLong value =>
      (∃ opcode, shortLongOpcode? value = some opcode) ∧ constant = none ∨
        Names (Literal.resolve pool) (.long value) constant
  | .pushFloat bits =>
      (∃ opcode, shortFloatOpcode? bits = some opcode) ∧ constant = none ∨
        Names (Literal.resolve pool) (.float bits) constant
  | .pushDouble bits =>
      (∃ opcode, shortDoubleOpcode? bits = some opcode) ∧ constant = none ∨
        Names (Literal.resolve pool) (.double bits) constant
  | .pushLiteral literal => Names (Literal.resolve pool) literal constant
  | .field _ member => Names (FieldRef.resolve pool) member constant
  | .invoke _ method => Names (MethodRef.resolve pool) method constant
  | .invokeDynamic call => Names (DynamicCall.resolve pool) call constant
  | .new name => Names (BinaryName.resolve pool) name constant
  | .newRefArray element => Names (RefType.resolve pool) element constant
  | .checkCast type => Names (RefType.resolve pool) type constant
  | .instanceOf type => Names (RefType.resolve pool) type constant
  | .newMultiArray type _ => Names (RefType.resolve pool) type constant
  | _ => True

theorem yields_some
    {α : Type}
    {work : PoolM PoolIndex}
    {resolve : ConstantPool → PoolIndex → Except BytecodeError α}
    {value : α}
    (yields : Yields work fun final index => resolve final index = .ok value) :
    Yields (some <$> work) fun final constant => Names (resolve final) value constant :=
  Yields.map (yields.imp fun _ index resolved => ⟨index, rfl, resolved⟩)

/-- A number that has a short form is linked with nothing, any other one with its constant. -/
theorem yields_unless_short
    {short : Option UInt8}
    {work : PoolM PoolIndex}
    {resolve : ConstantPool → PoolIndex → Except BytecodeError Literal}
    {value : Literal}
    (yields : Yields work fun final index => resolve final index = .ok value) :
    Yields (if short.isSome = true then pure none else some <$> work) fun final constant =>
      (∃ opcode, short = some opcode) ∧ constant = none ∨ Names (resolve final) value constant := by
  split
  · rename_i isShort
    exact yields_pure fun _ _ => .inl ⟨Option.isSome_iff_exists.mp isShort, rfl⟩
  · exact (yields_some yields).imp fun _ _ names => .inr names

/-- Interning the constant of an instruction links the instruction. -/
theorem Instruction.yields_internConstant
    {Label : Type}
    (instruction : Instruction Label) :
    Yields instruction.internConstant fun final constant =>
      instruction.CallFits final → instruction.IsLinked final constant := by
  cases instruction with
  | pushInt value =>
      rw [internConstant]
      split
      · rename_i fits
        exact yields_pure fun _ _ _ => Or.inl fits
      · exact (yields_some (Literal.integer value).yields_intern).imp
          fun _ _ names _ => Or.inr names
  | pushLong value =>
      exact (yields_unless_short (Literal.long value).yields_intern).imp fun _ _ linked _ => linked
  | pushFloat bits =>
      exact (yields_unless_short (Literal.float bits).yields_intern).imp fun _ _ linked _ => linked
  | pushDouble bits =>
      exact (yields_unless_short (Literal.double bits).yields_intern).imp fun _ _ linked _ => linked
  | pushLiteral literal => exact (yields_some literal.yields_intern).imp fun _ _ names _ => names
  | field access member => exact (yields_some member.yields_intern).imp fun _ _ names _ => names
  | invoke kind method => exact (yields_some method.yields_intern).imp fun _ _ names _ => names
  | invokeDynamic call =>
      exact Yields.map (call.yields_intern.imp fun _ index resolved few =>
        ⟨index, rfl, resolved few⟩)
  | new name => exact (yields_some name.yields_intern).imp fun _ _ names _ => names
  | newRefArray element =>
      exact (yields_some element.yields_intern_resolve).imp fun _ _ names _ => names
  | checkCast type => exact (yields_some type.yields_intern_resolve).imp fun _ _ names _ => names
  | instanceOf type => exact (yields_some type.yields_intern_resolve).imp fun _ _ names _ => names
  | newMultiArray type dimensions =>
      exact (yields_some type.yields_intern_resolve).imp fun _ _ names _ => names
  | _ => exact yields_pure fun _ _ _ => trivial

end ClosureConversion
