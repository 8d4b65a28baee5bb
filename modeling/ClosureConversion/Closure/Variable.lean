import ClosureConversion.Method.Basic

/-!
Contract: which variable of the source an instruction reads or writes.

Owns:
- the accesses to local slots, and moving one to another slot;
- the variables that closures can share with the method around them, and which of them
  a slot holds at an instruction.

Does not own: which variables a closure shares.
-/

namespace ClosureConversion

/-! ## Accesses to slots -/

/-- What an instruction does to a slot. -/
inductive AccessMode where
  | load
  | store
  | increment
deriving DecidableEq, Repr

/-- An access to a slot that holds a value of a kind. -/
structure LocalAccess where
  slot : UInt16
  mode : AccessMode
  kind : LocalKind
deriving DecidableEq, Repr

namespace Instruction

variable {Label Target : Type}

/-- The slot that the instruction reads or writes, if it does. -/
def localAccess? : Instruction Label → Option LocalAccess
  | .load kind slot => some ⟨slot, .load, kind⟩
  | .store kind slot => some ⟨slot, .store, kind⟩
  | .increment slot _ => some ⟨slot, .increment, .int⟩
  | _ => none

/-- The same access to another slot. -/
def relocate? (instruction : Instruction Label) (slot : UInt16) : Option (Instruction Target) :=
  match instruction with
  | .load kind _ => some (.load kind slot)
  | .store kind _ => some (.store kind slot)
  | .increment _ amount => some (.increment slot amount)
  | _ => none

end Instruction

/-! ## Variables -/

/-- A variable that closures can share with the method around them. -/
inductive VariableKey where
  /-- The receiver of the method. -/
  | this
  /-- A variable or a parameter of the method: what a slot holds from an index on. -/
  | local (slot : UInt16) (start : Nat)
  /-- A parameter of the closure of a site, which its code reads from a field. -/
  | parameter (site : Nat) (field : FieldRef)
deriving DecidableEq, Hashable, Repr

/-- The written form of a variable. -/
def VariableKey.describe : VariableKey → String
  | .this => "this"
  | .local slot start => s!"slot {slot} from {start}"
  | .parameter site field => s!"parameter {field.describe} of site {site}"

/-- What an access to a slot means in the source. -/
inductive VariableUse where
  | this
  | declared (entry : LocalVariable Nat)
  /-- A parameter without debug information. -/
  | parameter (slot : UInt16)
  | unknown
deriving DecidableEq, Repr

/-- The variable that is used. -/
def VariableUse.key? : VariableUse → Option VariableKey
  | .this => some .this
  | .declared entry => some (.local entry.slot entry.start)
  | .parameter slot => some (.local slot 0)
  | .unknown => none

namespace Method

/-- The debug information about a slot that an instruction accesses in a mode. -/
def variableFor? (method : Method) (slot : UInt16) (index : Nat) :
    AccessMode → Option (LocalVariable Nat)
  | .store => method.variableStoredAt? slot index
  | _ => method.variableAt? slot index

/-- What an access to a slot by the instruction of an index means. -/
def variableUse (method : Method) (slot : UInt16) (index : Nat) (mode : AccessMode) :
    VariableUse :=
  if !method.isStatic && slot = 0 then .this
  else
    match method.variableFor? slot index mode with
    | some entry => .declared entry
    | none => if slot < method.parameterSlots then .parameter slot else .unknown

/-- The variable that the instruction of an index accesses, if any. -/
def variableKeyAt? (method : Method) (index : Nat) (instruction : Instruction Nat) :
    Option VariableKey :=
  instruction.localAccess?.bind fun access =>
    (method.variableUse access.slot index access.mode).key?

/-- The type of the parameter that begins in a slot, for parameters from a slot on. -/
def parameterTypeFrom (next slot : Nat) : List FieldType → Option FieldType
  | [] => none
  | type :: types =>
      if next = slot then some type else parameterTypeFrom (next + width type) slot types

/-- The type of the parameter that begins in a slot. -/
def parameterType? (method : Method) (slot : UInt16) : Option FieldType :=
  parameterTypeFrom (if method.isStatic then 0 else 1) slot.toNat method.type.parameters

/-- Whether what a slot holds from an index on is a parameter of the method. -/
def isFormalParameter (method : Method) (slot : UInt16) (start : Nat) : Bool :=
  start = 0 && slot < method.parameterSlots

/-- The variables that the instructions of the method write, one for each write. -/
def writtenVariables (method : Method) : List VariableKey :=
  method.instructions.toList.zipIdx.filterMap fun (instruction, index) =>
    match instruction.localAccess? with
    | some access =>
        if access.mode = .load then none
        else (method.variableUse access.slot index access.mode).key?
    | none => none

end Method

end ClosureConversion
