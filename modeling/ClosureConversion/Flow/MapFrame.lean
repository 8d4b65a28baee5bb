import ClosureConversion.ClassFile.StackMap
import ClosureConversion.Flow.Frame

/-!
Contract: frames as a stack map tells them.

Owns:
- a frame whose locals are one entry a value, wide or not, without useless ones at the
  end;
- making it from a frame under analysis;
- the shortest of the compressed forms relative to the frame before it.

Does not own: the binary form of stack maps.
-/

namespace ClosureConversion

/-- A frame of a stack map. The bottom of the operand stack comes first. -/
structure MapFrame where
  locals : List StackMapType
  stack : List StackMapType
deriving DecidableEq, Repr

/-- The values in the slots: a wide value takes two slots and is one value. -/
def Locals.values : List VType → List VType
  | [] => []
  | type :: rest =>
      if type.isWide then
        match rest with
        | [] => [type]
        | _ :: others => type :: Locals.values others
      else type :: Locals.values rest

/-- The list without the useless values at its end. -/
def MapFrame.trimmed (locals : List StackMapType) : List StackMapType :=
  (locals.reverse.dropWhile (· = .top)).reverse

/-- The frame of a stack map, for the offsets at which the instructions stand. -/
def Frame.toMapFrame (frame : Frame) (offsets : Array Nat) : PoolM MapFrame := do
  let locals ← (Locals.values frame.locals).mapM fun type => type.toStackMap offsets
  let stack ← frame.stack.reverse.mapM fun type => type.toStackMap offsets
  return ⟨MapFrame.trimmed locals, stack⟩

namespace MapFrame

/-- The frame relative to the one before it, at a distance from it. -/
def relativeTo (frame previous : MapFrame) (delta : UInt16) : StackMapFrame :=
  let count := frame.locals.length
  let before := previous.locals.length
  match frame.stack with
  | [] =>
      if count ≤ before && before - count < 4 && frame.locals.isPrefixOf previous.locals then
        if count = before then .same delta
        else .chop delta (before - count).toUInt8
      else if before < count && count - before < 4 && previous.locals.isPrefixOf frame.locals then
        .append delta (frame.locals.drop before)
      else .full delta frame.locals frame.stack
  | [value] =>
      if frame.locals = previous.locals then .sameWithOne delta value
      else .full delta frame.locals frame.stack
  | _ => .full delta frame.locals frame.stack

end MapFrame

end ClosureConversion
