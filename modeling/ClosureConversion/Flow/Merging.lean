import ClosureConversion.Flow.Frame
import ClosureConversion.Hierarchy.Subtyping

/-!
Contract: the frame of an instruction that control reaches in several ways.

Owns: the most special type that stands for two types, and the merge of two frames.

Does not own: the order in which frames are merged.
-/

namespace ClosureConversion

/-- Why two frames cannot be merged. -/
inductive MergeError where
  | flow (cause : FlowError)
  | classes (cause : BytecodeError)
deriving DecidableEq, Repr

namespace VerificationType

/-- The most special type whose values include those of both types, if there is one that
may be used. -/
def merge (hierarchy : Hierarchy) (first second : VType) :
    Except BytecodeError (Option VType) :=
  if first = second then .ok (some first)
  else
    match first, second with
    | .null, .object _ => .ok (some second)
    | .object _, .null => .ok (some first)
    | .object first, .object second =>
        (fun type => some (.object type)) <$> hierarchy.commonSupertype first second
    | _, _ => .ok none

end VerificationType

namespace Frame

/-- Merges two values of a stack, which must have a type in common. -/
def mergeValue (hierarchy : Hierarchy) (first second : VType) : Except MergeError VType :=
  match VerificationType.merge hierarchy first second with
  | .ok (some merged) => .ok merged
  | .ok none => .error (.flow .incompatibleStacks)
  | .error error => .error (.classes error)

/-- Merges the values of a slot. If they have no type in common, it becomes useless. -/
def mergeSlot (hierarchy : Hierarchy) (first second : VType) : Except MergeError VType :=
  match VerificationType.merge hierarchy first second with
  | .ok merged => .ok (merged.getD .top)
  | .error error => .error (.classes error)

/-- The slots of two frames side by side; slots that one of them lacks are useless
there. -/
def pairSlots (first second : List VType) : List (VType × VType) :=
  (Locals.extend first second.length).zip (Locals.extend second first.length)

/-- The slots without those wide values that lost their second half. -/
def dropHalves (slots : List VType) : List VType :=
  List.zipWith
    (fun type next? => if type.isWide && next? ≠ some .top then .top else type)
    slots (slots.tail.map some ++ [none])

/-- The frame that stands for both frames, and whether it differs from the first one in
more than useless slots at the end. -/
def merge (hierarchy : Hierarchy) (first second : Frame) : Except MergeError (Frame × Bool) :=
  if first.stack.length ≠ second.stack.length then .error (.flow .incompatibleStacks)
  else
    match (first.stack.reverse.zip second.stack.reverse).mapM fun (first, second) =>
        mergeValue hierarchy first second with
    | .error error => .error error
    | .ok values =>
        match (pairSlots first.locals second.locals).mapM fun (first, second) =>
            mergeSlot hierarchy first second with
        | .error error => .error error
        | .ok slots =>
            let locals := dropHalves slots
            let changed := values ≠ first.stack.reverse ||
              slots ≠ Locals.extend first.locals second.locals.length || locals ≠ slots
            .ok (⟨locals, values.reverse⟩, changed)

end Frame

end ClosureConversion
