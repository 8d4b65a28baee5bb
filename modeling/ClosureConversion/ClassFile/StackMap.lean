import ClosureConversion.ClassFile.Attribute
import ClosureConversion.Flow.VerificationType

/-!
Contract: the stack map of a method.

Owns: the compressed forms of frames, each relative to the frame before it, and their
binary form.

Does not own: which frames a method needs.
-/

namespace ClosureConversion

/-- A frame of a stack map. `delta` is the distance from the frame before, less one
unless it is the first frame. -/
inductive StackMapFrame where
  /-- The locals of the frame before and an empty stack. -/
  | same (delta : UInt16)
  /-- The locals of the frame before and one value on the stack. -/
  | sameWithOne (delta : UInt16) (value : StackMapType)
  /-- The locals of the frame before but for the last ones, and an empty stack. -/
  | chop (delta : UInt16) (dropped : UInt8)
  /-- The locals of the frame before with some added, and an empty stack. -/
  | append (delta : UInt16) (locals : List StackMapType)
  | full (delta : UInt16) (locals stack : List StackMapType)
deriving DecidableEq, Repr

namespace StackMapFrame

/-- The distance from the frame before. -/
def delta : StackMapFrame → UInt16
  | .same delta => delta
  | .sameWithOne delta _ => delta
  | .chop delta _ => delta
  | .append delta _ => delta
  | .full delta _ _ => delta

/-- The tag of a frame and what follows it. Short distances are part of the tag. -/
def toBytes : StackMapFrame → Bytes
  | .same delta => if delta ≤ 63 then [delta.toUInt8] else 251 :: write delta
  | .sameWithOne delta value =>
      (if delta ≤ 63 then [delta.toUInt8 + 64] else 247 :: write delta) ++ write value
  | .chop delta dropped => (251 - dropped) :: write delta
  | .append delta locals =>
      (251 + locals.length.toUInt8) :: write delta ++ locals.flatMap write
  | .full delta locals stack => 255 :: write delta ++ write locals ++ write stack

/-- What follows a tag. -/
def readTagged (tag : UInt8) : Reader StackMapFrame :=
  if tag ≤ 63 then pure (.same tag.toUInt16)
  else if tag ≤ 127 then .sameWithOne (tag - 64).toUInt16 <$> read
  else if tag = 247 then do
    let delta ← read
    let value ← read
    return .sameWithOne delta value
  else if 248 ≤ tag && tag ≤ 250 then do
    let delta ← read
    return .chop delta (251 - tag)
  else if tag = 251 then .same <$> read
  else if 252 ≤ tag && tag ≤ 254 then do
    let delta ← read
    let locals ← Reader.times (tag - 251).toNat read
    return .append delta locals
  else if tag = 255 then do
    let delta ← read
    let locals ← read
    let stack ← read
    return .full delta locals stack
  else throw (.malformedCode 0 s!"reserved stack map frame tag {tag}")

instance : Binary StackMapFrame where
  write := toBytes
  read := do
    let tag : UInt8 ← read
    readTagged tag

end StackMapFrame

/-- The frames of a method in the order of their offsets. -/
structure StackMap where
  frames : List StackMapFrame
deriving DecidableEq, Repr

instance : AttributeContents StackMap where
  attributeName := "StackMapTable"
  write map := write map.frames
  read := StackMap.mk <$> read

end ClosureConversion
