import ClosureConversion.Flow.Analysis
import ClosureConversion.Flow.MapFrame
import ClosureConversion.Listing.Data

/-!
Contract: frames in listings. The bottom of an operand stack is listed first.

Owns: the listed form of types, frames and stack maps, and reading types and frames.
-/

namespace ClosureConversion.Listing

instance {Class Site : Type} [ToData Class] [ToData Site] :
    ToData (VerificationType Class Site) where
  toData
    | .top => toData "top"
    | .int => toData "int"
    | .float => toData "float"
    | .double => toData "double"
    | .long => toData "long"
    | .null => toData "null"
    | .uninitializedThis => toData "uninit_this"
    | .object type => toData ("object", type)
    | .uninitialized site => toData ("uninit", site)

/-- Reads a type. -/
def readType {Class Site : Type} [OfData Class] [OfData Site] (data : Data) :
    Reading (VerificationType Class Site) := do
  match data with
  | .text "top" => return .top
  | .text "int" => return .int
  | .text "float" => return .float
  | .text "double" => return .double
  | .text "long" => return .long
  | .text "null" => return .null
  | .text "uninit_this" => return .uninitializedThis
  | .list [.text "object", type] => return .object (← ofData type)
  | .list [.text "uninit", site] => return .uninitialized (← ofData site)
  | _ => throw (.malformed "type of a value")

instance {Class Site : Type} [OfData Class] [OfData Site] :
    OfData (VerificationType Class Site) := ⟨readType⟩

instance : ToData Frame :=
  ⟨fun frame => .record
    [("locals", toData frame.locals), ("stack", toData frame.stack.reverse)]⟩

instance : ToData MapFrame :=
  ⟨fun frame => .record [("locals", toData frame.locals), ("stack", toData frame.stack)]⟩

instance : OfData Frame where
  ofData data := do
    let locals ← data.read "locals"
    let stack : List VType ← data.read "stack"
    return ⟨locals, stack.reverse⟩

instance : OfData MapFrame where
  ofData data := do
    let locals ← data.read "locals"
    let stack ← data.read "stack"
    return ⟨locals, stack⟩

instance : ToData StackMapFrame where
  toData
    | .same delta => toData ("same", delta)
    | .sameWithOne delta value => toData [toData "same1", toData delta, toData value]
    | .chop delta dropped => toData [toData "chop", toData delta, toData dropped]
    | .append delta locals => toData [toData "append", toData delta, toData locals]
    | .full delta locals stack =>
        toData [toData "full", toData delta, toData locals, toData stack]

/-- A frame with the numbers of slots that it takes. -/
def frameFacts (frame : Frame) : Data :=
  .record
    [("frame", toData frame), ("stack_size", toData frame.stackSlots),
      ("locals_size", toData frame.localSlots)]

end ClosureConversion.Listing
