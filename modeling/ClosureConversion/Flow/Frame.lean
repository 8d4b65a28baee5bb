import ClosureConversion.Code.Instruction
import ClosureConversion.Flow.VerificationType

/-!
Contract: what the slots and the operand stack of a method hold before an instruction.

Owns:
- frames, and those with which a method and an exception handler begin;
- reading and assigning local variables;
- taking values off the operand stack, and what is wrong if they do not fit.

A long or double takes two local slots; the second one holds `top`. On the operand stack
it is one value.

Does not own: what the instructions do.
-/

namespace ClosureConversion

/-- The values on an operand stack, the top one first. -/
abbrev OperandStack := List VType

/-- What the slots and the operand stack hold. -/
structure Frame where
  locals : List VType
  stack : OperandStack
deriving DecidableEq, Repr

namespace Frame

/-- The slots of the parameters. -/
def parameterLocals (parameters : List FieldType) : List VType :=
  parameters.flatMap fun type =>
    if type.isWide then [.ofField type, .top] else [.ofField type]

/-- The frame with which a method begins. In a constructor the receiver is not
initialised yet, unless its class is the root class. -/
def methodEntry (owner : BinaryName) (isStatic isConstructor : Bool)
    (parameters : List FieldType) : Frame where
  locals :=
    (if isStatic then []
      else if isConstructor && owner ≠ .object then [.uninitializedThis]
      else [.object (.object owner)]) ++ parameterLocals parameters
  stack := []

/-- The frame with which an exception handler begins. -/
def handlerEntry (locals : List VType) (catchType : Option BinaryName) : Frame where
  locals := locals
  stack := [.object (.object (catchType.getD .throwable))]

/-- The frame of code that is never reached and does nothing but throw. -/
def deadCode : Frame :=
  handlerEntry [] none

/-- How many slots there are. -/
def localSlots (frame : Frame) : Nat :=
  frame.locals.length

/-- How many slots the values on the operand stack take. -/
def stackSlots (frame : Frame) : Nat :=
  totalWidth frame.stack

end Frame

/-! ## Kinds of values -/

/-- Whether a value may be loaded, stored or returned as one of a kind. -/
def VerificationType.isOfKind (type : VType) : LocalKind → Bool
  | .int => type = .int
  | .long => type = .long
  | .float => type = .float
  | .double => type = .double
  | .reference => type.isReference

/-- Whether a value may be passed or assigned where a field type is declared. Which class
a reference belongs to is not looked at. -/
def VerificationType.fits (type : VType) : FieldType → Bool
  | .base base => type = .ofField (.base base)
  | .ref _ => type.isInitializedReference

/-- The type of the values of a kind, as far as the kind tells. -/
def LocalKind.type : LocalKind → VType
  | .int => .int
  | .long => .long
  | .float => .float
  | .double => .double
  | .reference => .null

/-- The type of numbers of a kind. -/
def NumericKind.type (kind : NumericKind) : VType :=
  kind.toLocal.type

/-- The type of integers of a kind. -/
def IntegerKind.type (kind : IntegerKind) : VType :=
  kind.toLocal.type

/-! ## Local variables -/

namespace Locals

/-- The value in a slot. -/
def get (locals : List VType) (slot : UInt16) : Except FlowError VType :=
  match locals[slot.toNat]? with
  | some type => .ok type
  | none => .error (.invalidIndex slot)

/-- The slots with at least so many of them. -/
def extend (locals : List VType) (count : Nat) : List VType :=
  locals ++ List.replicate (count - locals.length) .top

/-- The slots without the wide value whose second half is the given slot. -/
def splitBefore (locals : List VType) (slot : Nat) : List VType :=
  match slot with
  | 0 => locals
  | before + 1 =>
      match locals[before]? with
      | some type => if type.isWide then locals.set before .top else locals
      | none => locals

/-- The slots after a value is assigned to one of them. -/
def assign (locals : List VType) (slot : UInt16) (type : VType) : List VType :=
  let slot := slot.toNat
  let locals := splitBefore (extend locals (slot + width type)) slot
  let locals := locals.set slot type
  if type.isWide then locals.set (slot + 1) .top else locals

end Locals

/-! ## The operand stack -/

namespace OperandStack

/-- Takes a value off. -/
def pop : OperandStack → Except FlowError (VType × OperandStack)
  | [] => .error .emptyStack
  | type :: rest => .ok (type, rest)

/-- Takes a value of a type off. -/
def popType (stack : OperandStack) (expected : VType) : Except FlowError OperandStack := do
  let (type, rest) ← pop stack
  if type = expected then return rest else throw .invalidType

/-- Takes values of the given types off. -/
def popTypes (stack : OperandStack) : List VType → Except FlowError OperandStack
  | [] => .ok stack
  | expected :: others => do
      let rest ← popType stack expected
      popTypes rest others

/-- Takes values of the given types off and puts another one on. -/
def replaceTypes (stack : OperandStack) (consumed : List VType) (produced : VType) :
    Except FlowError OperandStack := do
  let rest ← popTypes stack consumed
  return produced :: rest

/-- Takes a reference off. -/
def popReference (stack : OperandStack) : Except FlowError OperandStack := do
  let (type, rest) ← pop stack
  if type.isReference then return rest else throw .invalidType

/-- Takes a value of a kind off. -/
def popKind (stack : OperandStack) (kind : LocalKind) :
    Except FlowError (VType × OperandStack) := do
  let (type, rest) ← pop stack
  if type.isOfKind kind then return (type, rest) else throw .invalidType

/-- Takes off a value that fits a field type. -/
def popFitting (stack : OperandStack) (declared : FieldType) :
    Except FlowError OperandStack := do
  let (type, rest) ← pop stack
  if type.fits declared then return rest else throw .invalidType

/-- Takes arguments off, the last one first. -/
def popArguments (stack : OperandStack) (parameters : List FieldType) :
    Except FlowError OperandStack :=
  parameters.reverse.foldlM popFitting stack

/-- Puts a result on, if there is one. -/
def pushResult (stack : OperandStack) : Option FieldType → OperandStack
  | none => stack
  | some type => .ofField type :: stack

/-- Takes one narrow value off. -/
def takeSingle (stack : OperandStack) : Except FlowError (OperandStack × OperandStack) := do
  let (type, rest) ← pop stack
  if type.isWide then throw (.invalidWidth (width type)) else return ([type], rest)

/-- Takes two narrow values off, or one wide one. -/
def takePair (stack : OperandStack) : Except FlowError (OperandStack × OperandStack) := do
  let (first, rest) ← pop stack
  if first.isWide then return ([first], rest)
  else
    let (second, rest) ← takeSingle rest
    return (first :: second, rest)

end OperandStack

/-- The values of a stack after an instruction that only rearranges them. What is copied
goes below the values that are skipped. -/
def StackOperation.apply (operation : StackOperation) (stack : OperandStack) :
    Except FlowError OperandStack := do
  match operation with
  | .pop =>
      let (_, rest) ← stack.takeSingle
      return rest
  | .pop2 =>
      let (_, rest) ← stack.takePair
      return rest
  | .dup =>
      let (copied, rest) ← stack.takeSingle
      return copied ++ copied ++ rest
  | .dupX1 =>
      let (copied, rest) ← stack.takeSingle
      let (skipped, rest) ← rest.takeSingle
      return copied ++ skipped ++ copied ++ rest
  | .dupX2 =>
      let (copied, rest) ← stack.takeSingle
      let (skipped, rest) ← rest.takePair
      return copied ++ skipped ++ copied ++ rest
  | .dup2 =>
      let (copied, rest) ← stack.takePair
      return copied ++ copied ++ rest
  | .dup2X1 =>
      let (copied, rest) ← stack.takePair
      let (skipped, rest) ← rest.takeSingle
      return copied ++ skipped ++ copied ++ rest
  | .dup2X2 =>
      let (copied, rest) ← stack.takePair
      let (skipped, rest) ← rest.takePair
      return copied ++ skipped ++ copied ++ rest
  | .swap =>
      let (top, rest) ← stack.takeSingle
      let (below, rest) ← rest.takeSingle
      return below ++ top ++ rest

end ClosureConversion
