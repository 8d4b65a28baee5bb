import ClosureConversion.Code.Span

/-!
Contract: replacing code piece by piece.

Owns:
- where the positions of the old code are in the new code;
- the new code, its jumps included, and the lines that go with it.

Does not own: what the pieces are replaced with.
-/

namespace ClosureConversion

/-- The code that replaces the instructions of a span. Its jumps go to positions in the
old code. -/
structure Replacement where
  span : Span
  code : List (Instruction Nat)
deriving Repr

/-- Where the positions of spans that follow one another go, and the position after them,
if the replacement of the first one begins at the index `next`. The positions inside a
span go to the end of its replacement. -/
def placesFrom (next : Nat) : List Replacement → List Nat
  | [] => [next]
  | replacement :: rest =>
      let after := next + replacement.code.length
      next :: List.replicate (replacement.span.length - 1) after ++ placesFrom after rest

/-- Where the positions of old code are in the new code. -/
structure Relocation where
  start : Nat
  places : Array Nat
deriving Repr

namespace Relocation

/-- The places of the positions from a start on. -/
def ofReplacements (start next : Nat) (replacements : List Replacement) : Relocation where
  start := start
  places := (placesFrom next replacements).toArray

/-- The place of a position, if the position is in the old code or just after it. -/
def place? (relocation : Relocation) (index : Nat) : Option Nat :=
  if index < relocation.start then none else relocation.places[index - relocation.start]?

/-- The place of a position in the old code. -/
def place (relocation : Relocation) (index : Nat) : Nat :=
  (relocation.place? index).getD 0

/-- The new code. -/
def code (relocation : Relocation) (replacements : List Replacement) : List (Instruction Nat) :=
  replacements.flatMap fun replacement =>
    replacement.code.map fun instruction => instruction.map relocation.place

/-- The lines that begin with a span. Of several lines that begin at one instruction the
first one counts. -/
def lines (relocation : Relocation) (lines : Array (SourceLine Nat))
    (replacements : List Replacement) : List (SourceLine Nat) :=
  replacements.filterMap fun replacement =>
    (lines.find? fun line => line.start = replacement.span.start).map fun line =>
      ⟨relocation.place replacement.span.start, line.line⟩

/-- The exception handler at its new place, if all its positions have one. -/
def handler? (relocation : Relocation) (range : ExceptionRange Nat) :
    Option (ExceptionRange Nat) := do
  let start ← relocation.place? range.start
  let stop ← relocation.place? range.stop
  let handler ← relocation.place? range.handler
  return { range with start, stop, handler }

end Relocation

end ClosureConversion
