import ClosureConversion.Closure.Error
import ClosureConversion.Hierarchy.Subtyping

/-!
Contract: turning the value on top of the operand stack into one of another type.

Owns:
- conversions between base types, boxing and unboxing, and casts;
- dropping a value, and pushing the value that variables have at first.

Does not own: where values of other types are needed.
-/

namespace ClosureConversion

/-- The kind of numbers that the values of a base type are. -/
def BaseType.numericKind : BaseType → NumericKind
  | .long => .long
  | .float => .float
  | .double => .double
  | _ => .int

/-- The instruction that converts between kinds of numbers, if they differ. -/
def Conversion.between? : NumericKind → NumericKind → Option Conversion
  | .int, .long => some .intToLong
  | .int, .float => some .intToFloat
  | .int, .double => some .intToDouble
  | .long, .int => some .longToInt
  | .long, .float => some .longToFloat
  | .long, .double => some .longToDouble
  | .float, .int => some .floatToInt
  | .float, .long => some .floatToLong
  | .float, .double => some .floatToDouble
  | .double, .int => some .doubleToInt
  | .double, .long => some .doubleToLong
  | .double, .float => some .doubleToFloat
  | _, _ => none

/-- The instruction that narrows an `int` to the values of a base type. -/
def Conversion.narrowing? : BaseType → Option Conversion
  | .byte => some .intToByte
  | .char => some .intToChar
  | .short => some .intToShort
  | _ => none

variable {Label : Type}

/-- Converts between base types. Truth values are never narrowed. -/
def adaptBase (source target : BaseType) : List (Instruction Label) :=
  if source = target then []
  else
    let kinds := Conversion.between? source.numericKind target.numericKind
    let narrowing := if source = .boolean then none else Conversion.narrowing? target
    (kinds.toList ++ narrowing.toList).map fun conversion => .op (.convert conversion)

/-- The call that puts a value of a base type into an object. -/
def boxValue (type : BaseType) : Instruction Label :=
  .invoke .static {
    owner := .object type.boxClass
    name := .valueOf
    type := ⟨[.base type], some (.object type.boxClass)⟩
    ofInterface := false }

/-- The name of the method that takes a value of a base type out of an object. -/
def BaseType.unboxName : BaseType → UnqualifiedName
  | .byte => .byteValue
  | .char => .charValue
  | .double => .doubleValue
  | .float => .floatValue
  | .int => .intValue
  | .long => .longValue
  | .short => .shortValue
  | .boolean => .booleanValue

/-- The call that takes a value of a base type out of an object. -/
def unboxValue (type : BaseType) : Instruction Label :=
  .invoke .virtual {
    owner := .object type.boxClass
    name := type.unboxName
    type := ⟨[], some (.base type)⟩
    ofInterface := false }

/-- Drops a value. -/
def dropValue (type : FieldType) : Instruction Label :=
  .op (.stack (if type.isWide then .pop2 else .pop))

/-- Pushes the value that a variable of a type has at first. -/
def firstValue : FieldType → Instruction Label
  | .base .long => .pushLong 0
  | .base .float => .pushFloat 0
  | .base .double => .pushDouble 0
  | .base _ => .pushInt 0
  | .ref _ => .op .pushNull

/-- Puts a value of a base type into an object of a class: the box class of another base
type, or a class that the own box class inherits from. -/
def adaptToObject (hierarchy : Hierarchy) (source : BaseType) (target : BinaryName) :
    Except Fault (List (Instruction Label)) := do
  let boxed := (BaseType.ofBoxClass? target).getD source
  let assignable ←
    (hierarchy.isAssignable (.object boxed.boxClass) (.object target)).mapError Fault.ofBytecode
  if assignable then return adaptBase source boxed ++ [boxValue boxed]
  else throw (.malformedSite (.inconvertible (.base source) (.object target)))

/-- Takes a value of a base type out of an object; if its class is no box class, it has to
be an object of the box class of the base type. -/
def adaptFromObject (source : BinaryName) (target : BaseType) : List (Instruction Label) :=
  match BaseType.ofBoxClass? source with
  | some boxed => unboxValue boxed :: adaptBase boxed target
  | none => [.checkCast (.object target.boxClass), unboxValue target]

/-- Casts a reference unless that is never needed. -/
def adaptReference (hierarchy : Hierarchy) (source target : RefType) :
    Except Fault (List (Instruction Label)) := do
  if target = .object .object then return []
  let assignable ← (hierarchy.isAssignable source target).mapError Fault.ofBytecode
  return if assignable then [] else [.checkCast target]

/-- Turns a value of a type into one of another type. -/
def adaptValue (hierarchy : Hierarchy) (source target : FieldType) :
    Except Fault (List (Instruction Label)) :=
  if source = target then .ok []
  else
    match source, target with
    | .base source, .base target => .ok (adaptBase source target)
    | .base source, .ref (.object target) => adaptToObject hierarchy source target
    | .ref (.object source), .base target => .ok (adaptFromObject source target)
    | .ref source, .ref target => adaptReference hierarchy source target
    | source, target => .error (.malformedSite (.inconvertible source target))

/-- Turns what one type says is on the operand stack into what another type says; no type
means that there is no value. -/
def adapt (hierarchy : Hierarchy) (source target : Option FieldType) :
    Except Fault (List (Instruction Label)) :=
  match source, target with
  | none, none => .ok []
  | some source, none => .ok [dropValue source]
  | none, some target => .ok [firstValue target]
  | some source, some target => adaptValue hierarchy source target

end ClosureConversion
