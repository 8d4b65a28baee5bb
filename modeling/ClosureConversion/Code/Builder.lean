import ClosureConversion.BytecodeError
import ClosureConversion.Code.Body

/-!
Contract: writing a body whose jumps may go to places that are not known yet.

Owns:
- labels, which are numbered in the order in which they are made and are placed at an
  index at most once;
- finishing a body, which fails if a label that it mentions has no place.

Does not own: what the instructions do.
-/

namespace ClosureConversion

/-- A place in a body under construction. -/
structure CodeLabel where
  number : Nat
deriving DecidableEq, Repr

/-- The written form of a label. -/
def CodeLabel.render (label : CodeLabel) : String :=
  s!"l{label.number}"

/-- A body under construction, with the places of the labels made so far. -/
structure CodeBuilder where
  body : CodeBody CodeLabel
  places : Array (Option Nat)
deriving Repr

namespace CodeBuilder

/-- The builder of an empty body. -/
def empty : CodeBuilder where
  body := {}
  places := #[]

/-- The index that the next instruction will have. -/
def currentIndex (builder : CodeBuilder) : Nat :=
  builder.body.instructions.size

/-- The last instruction. -/
def last? (builder : CodeBuilder) : Option (Instruction CodeLabel) :=
  builder.body.instructions.back?

/-- Makes a label that has no place yet. -/
def freshLabel (builder : CodeBuilder) : CodeLabel × CodeBuilder :=
  (⟨builder.places.size⟩, { builder with places := builder.places.push none })

/-- Places a label before the next instruction. -/
def place (builder : CodeBuilder) (label : CodeLabel) : CodeBuilder :=
  { builder with places := builder.places.setIfInBounds label.number (some builder.currentIndex) }

/-- Makes a label that is placed before the next instruction. -/
def here (builder : CodeBuilder) : CodeLabel × CodeBuilder :=
  let (label, builder) := builder.freshLabel
  (label, builder.place label)

/-- Adds an instruction. -/
def push (builder : CodeBuilder) (instruction : Instruction CodeLabel) : CodeBuilder :=
  { builder with
    body := { builder.body with instructions := builder.body.instructions.push instruction } }

/-- Adds instructions in order. -/
def pushAll (builder : CodeBuilder) (instructions : List (Instruction CodeLabel)) : CodeBuilder :=
  instructions.foldl push builder

/-- Adds an exception handler. -/
def pushHandler (builder : CodeBuilder) (range : ExceptionRange CodeLabel) : CodeBuilder :=
  { builder with body := { builder.body with handlers := builder.body.handlers.push range } }

/-- Adds a variable. -/
def pushVariable (builder : CodeBuilder) (entry : LocalVariable CodeLabel) : CodeBuilder :=
  { builder with body := { builder.body with localVariables := builder.body.localVariables.push entry } }

/-- Says that a line of the source starts before the next instruction. -/
def pushLine (builder : CodeBuilder) (line : UInt16) : CodeBuilder :=
  let (start, builder) := builder.here
  { builder with body := { builder.body with lines := builder.body.lines.push ⟨start, line⟩ } }

/-- The place of a label. -/
def place? (builder : CodeBuilder) (label : CodeLabel) : Option Nat :=
  builder.places.getD label.number none

/-- The body with every label replaced by its place. -/
def finish (builder : CodeBuilder) : Except BytecodeError (CodeBody Nat) :=
  match builder.body.labels.find? fun label => (builder.place? label).isNone with
  | some label => .error (.malformedCode label.number "jump to a label that was never placed")
  | none => .ok (builder.body.map fun label => (builder.place? label).getD 0)

end CodeBuilder

end ClosureConversion
