import ClosureConversion.Closure.Settings
import ClosureConversion.Hierarchy.Basic

/-!
Contract: which calls make closures, and which fields stand for their parameters.

Owns:
- conventions, which may remember what they decided before;
- the convention that goes by annotations, and decides every question only once;
- the type of the object that a factory makes.

Does not own: where in a method the closures are.
-/

namespace ClosureConversion

/-- Deciding with something to remember. What was remembered before an error stays
remembered. -/
abbrev Deciding (Memory : Type) := EStateM ClosureError Memory

/-- How factories and the fields that stand for parameters are told apart from other
methods and fields. -/
structure Convention (Memory : Type) where
  isFactory : Hierarchy → BinaryName → UnqualifiedName → MethodType → Deciding Memory Bool
  isParameter : Hierarchy → BinaryName → UnqualifiedName → Deciding Memory Bool

/-- What was decided before about methods and fields of classes. -/
structure Decisions where
  factories : List ((BinaryName × UnqualifiedName × MethodType) × Bool) := []
  parameters : List ((BinaryName × UnqualifiedName) × Bool) := []
deriving Repr

namespace Settings

/-- Whether the method that a call refers to is static and marked as a factory. -/
def marksFactory (settings : Settings) (hierarchy : Hierarchy) (owner : BinaryName)
    (name : UnqualifiedName) (type : MethodType) : Except BytecodeError Bool := do
  match ← hierarchy.findMethod? owner name type with
  | some (_, method) =>
      return method.isStatic && method.annotations.contains settings.factoryMark
  | none => return false

/-- Whether the field that an access refers to is static and marked as a parameter. -/
def marksParameter (settings : Settings) (hierarchy : Hierarchy) (owner : BinaryName)
    (name : UnqualifiedName) : Except BytecodeError Bool := do
  match ← hierarchy.findField? owner name with
  | some (_, field) =>
      return field.flags.contains FieldFlags.accStatic &&
        field.annotations.contains settings.parameterMark
  | none => return false

/-- What cannot be looked up because a class is missing is not marked. -/
def unmarkedIfMissing (result : Except BytecodeError Bool) : Except ClosureError Bool :=
  match result with
  | .error (.missingClass _) => .ok false
  | result => Place.unknown.locateBytecode result

/-- Whether a method is a factory, as decided before or now. -/
def decideFactory (settings : Settings) (hierarchy : Hierarchy) (owner : BinaryName)
    (name : UnqualifiedName) (type : MethodType) : Deciding Decisions Bool := do
  match (← get).factories.lookup (owner, name, type) with
  | some known => return known
  | none =>
      let decided ← MonadExcept.ofExcept
        (unmarkedIfMissing (settings.marksFactory hierarchy owner name type))
      modify fun decisions =>
        { decisions with factories := ((owner, name, type), decided) :: decisions.factories }
      return decided

/-- Whether a field stands for a parameter, as decided before or now. -/
def decideParameter (settings : Settings) (hierarchy : Hierarchy) (owner : BinaryName)
    (name : UnqualifiedName) : Deciding Decisions Bool := do
  match (← get).parameters.lookup (owner, name) with
  | some known => return known
  | none =>
      let decided ← MonadExcept.ofExcept
        (unmarkedIfMissing (settings.marksParameter hierarchy owner name))
      modify fun decisions =>
        { decisions with parameters := ((owner, name), decided) :: decisions.parameters }
      return decided

/-- The convention that goes by the annotations of the settings. -/
def convention (settings : Settings) : Convention Decisions where
  isFactory := settings.decideFactory
  isParameter := settings.decideParameter

end Settings

/-- The type of the object that a factory makes, and whether it is known only from a cast
that follows the call. -/
def producedType? (factory : MethodRef) (following : Option (Instruction Nat)) :
    Option (BinaryName × Bool) :=
  match factory.type.result with
  | some (.ref (.object name)) =>
      if name ≠ .object then some (name, false)
      else
        match following with
        | some (.checkCast (.object cast)) => some (cast, true)
        | _ => none
  | _ => none

end ClosureConversion
