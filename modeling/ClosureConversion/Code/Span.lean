import ClosureConversion.Code.Body

/-!
Contract: stretches of consecutive instructions.

Owns: spans, what they contain, and their written form.

Does not own: what is special about the instructions of one.
-/

namespace ClosureConversion

/-- The indices from `start` up to but without `stop`. -/
structure Span where
  start : Nat
  stop : Nat
deriving DecidableEq, Repr

namespace Span

/-- Whether an index is in the span. -/
def contains (span : Span) (index : Nat) : Bool :=
  span.start ≤ index && index < span.stop

/-- Whether no index is in the span. -/
def isEmpty (span : Span) : Bool :=
  span.stop ≤ span.start

/-- How many indices are in the span. -/
def length (span : Span) : Nat :=
  span.stop - span.start

/-- The indices in the span, in order. -/
def indices (span : Span) : List Nat :=
  List.range' span.start span.length

/-- Whether a span lies in another one. -/
def isWithin (inner outer : Span) : Bool :=
  outer.start ≤ inner.start && inner.stop ≤ outer.stop

/-- Whether an index is in the span or just after it. -/
def touches (span : Span) (index : Nat) : Bool :=
  span.start ≤ index && index ≤ span.stop

/-- The written form of a span. -/
def render (span : Span) : String :=
  s!"{span.start}..{span.stop}"

/-- The indices in a span are those that it contains. -/
theorem mem_indices
    {span : Span}
    {index : Nat} :
    index ∈ span.indices ↔ span.contains index = true := by
  simp only [indices, length, List.mem_range'_1, contains, Bool.and_eq_true, decide_eq_true_eq]
  omega

end Span

/-- The instructions of a span. -/
def instructionsIn (code : Array (Instruction Nat)) (span : Span) : List (Instruction Nat) :=
  (code.extract span.start span.stop).toList

/-- The instructions that an exception handler covers. -/
def ExceptionRange.span (range : ExceptionRange Nat) : Span :=
  ⟨range.start, range.stop⟩

/-- Whether the handler and all that it covers lie in a span. -/
def ExceptionRange.isWithin (range : ExceptionRange Nat) (span : Span) : Bool :=
  range.span.isWithin span && span.contains range.handler

end ClosureConversion
