import ClosureConversion.Code.Instruction

/-!
Contract: the body of a method: its instructions with the exception handlers, the
variables and the source lines that belong to ranges of them.

Owns: bodies over any type of positions, and replacing the positions of one.

Does not own: how a body is written in a class file.
-/

namespace ClosureConversion

/-- Exceptions of a class, or of any class, thrown from `start` up to but without `stop`
go to the handler. -/
structure ExceptionRange (Label : Type) where
  start : Label
  stop : Label
  handler : Label
  catchType : Option BinaryName
deriving DecidableEq, Repr

/-- From `start` up to but without `stop` a slot holds a variable of the source. -/
structure LocalVariable (Label : Type) where
  start : Label
  stop : Label
  name : UnqualifiedName
  type : FieldType
  slot : UInt16
deriving DecidableEq, Repr

/-- From `start` on the code belongs to a line of the source. -/
structure SourceLine (Label : Type) where
  start : Label
  line : UInt16
deriving DecidableEq, Repr

/-- The body of a method. -/
structure CodeBody (Label : Type) where
  instructions : Array (Instruction Label) := #[]
  handlers : Array (ExceptionRange Label) := #[]
  localVariables : Array (LocalVariable Label) := #[]
  lines : Array (SourceLine Label) := #[]
deriving DecidableEq, Repr

variable {Label Target : Type}

/-- The range with every position replaced. -/
def ExceptionRange.map (f : Label → Target) (range : ExceptionRange Label) :
    ExceptionRange Target :=
  { range with start := f range.start, stop := f range.stop, handler := f range.handler }

/-- The positions of a range. -/
def ExceptionRange.labels (range : ExceptionRange Label) : List Label :=
  [range.start, range.stop, range.handler]

/-- Whether the instruction of an index is in the range. -/
def ExceptionRange.covers (range : ExceptionRange Nat) (index : Nat) : Bool :=
  range.start ≤ index && index < range.stop

/-- The variable with every position replaced. -/
def LocalVariable.map (f : Label → Target) (variable_ : LocalVariable Label) :
    LocalVariable Target :=
  { variable_ with start := f variable_.start, stop := f variable_.stop }

/-- The positions of a variable. -/
def LocalVariable.labels (variable_ : LocalVariable Label) : List Label :=
  [variable_.start, variable_.stop]

/-- The line with its position replaced. -/
def SourceLine.map (f : Label → Target) (line : SourceLine Label) : SourceLine Target :=
  { line with start := f line.start }

namespace CodeBody

/-- The body with every position replaced. -/
def map (f : Label → Target) (body : CodeBody Label) : CodeBody Target where
  instructions := body.instructions.map (·.map f)
  handlers := body.handlers.map (·.map f)
  localVariables := body.localVariables.map (·.map f)
  lines := body.lines.map (·.map f)

/-- Every position that the body mentions: those of the instructions come first, then
those of the handlers, the variables and the lines. -/
def labels (body : CodeBody Label) : List Label :=
  body.instructions.toList.flatMap Instruction.targets ++
    body.handlers.toList.flatMap ExceptionRange.labels ++
    body.localVariables.toList.flatMap LocalVariable.labels ++
    body.lines.toList.map SourceLine.start

end CodeBody

end ClosureConversion
