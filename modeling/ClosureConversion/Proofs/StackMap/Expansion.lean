import ClosureConversion.Flow.MapFrame
import ClosureConversion.Proofs.Binary

/-!
Contract: the frames that the compressed forms of a stack map stand for.

Owns:
- the frame that a compressed one stands for after another frame, and the frames of a
  stack map with their offsets;
- that the form made from a frame relative to another one stands for that frame;
- the forms that are read back from their bytes, and that those that are made are such
  forms.

Does not own: which frames a stack map has.
-/

namespace ClosureConversion

/-! ## Compressed forms -/

namespace StackMapFrame

/-- The frame that a compressed one stands for after the frame before it. No more locals
can be dropped than there are. -/
def expand? (previous : MapFrame) : StackMapFrame → Option MapFrame
  | .same _ => some ⟨previous.locals, []⟩
  | .sameWithOne _ value => some ⟨previous.locals, [value]⟩
  | .chop _ dropped =>
      if dropped.toNat ≤ previous.locals.length then
        some ⟨previous.locals.take (previous.locals.length - dropped.toNat), []⟩
      else none
  | .append _ locals => some ⟨previous.locals ++ locals, []⟩
  | .full _ locals stack => some ⟨locals, stack⟩

/-- The tags tell how many locals are dropped or added, if these are few, and the lists of a
full frame can be counted. -/
def IsWritable : StackMapFrame → Prop
  | .chop _ dropped => 1 ≤ dropped ∧ dropped ≤ 3
  | .append _ locals => 1 ≤ locals.length ∧ locals.length ≤ 3
  | .full _ locals stack => locals.length < 2 ^ 16 ∧ stack.length < 2 ^ 16
  | _ => True

end StackMapFrame

/-- The compressed form of a frame after another one. -/
structure MapFrame.IsCompressedTo (frame previous : MapFrame) (delta : UInt16)
    (form : StackMapFrame) : Prop where
  expands : form.expand? previous = some frame
  delta : form.delta = delta
  writable : frame.locals.length < 2 ^ 16 → frame.stack.length < 2 ^ 16 → form.IsWritable

namespace MapFrame

theorem isCompressedTo_full
    (frame previous : MapFrame)
    (delta : UInt16) :
    frame.IsCompressedTo previous delta (.full delta frame.locals frame.stack) where
  expands := rfl
  delta := rfl
  writable := fun fewLocals fewValues => ⟨fewLocals, fewValues⟩

/-- A frame with an empty stack has fewer locals than the one before, as many, or a few
more. -/
theorem isCompressedTo_chop
    {locals : List StackMapType}
    {previous : MapFrame}
    (isPrefix : locals <+: previous.locals)
    (fewer : locals.length < previous.locals.length)
    (few : previous.locals.length - locals.length < 4)
    (delta : UInt16) :
    (MapFrame.mk locals []).IsCompressedTo previous delta
      (.chop delta (previous.locals.length - locals.length).toUInt8) := by
  have dropped : (previous.locals.length - locals.length).toUInt8.toNat =
      previous.locals.length - locals.length :=
    UInt8.toNat_ofNat_of_lt' (show _ < 256 by omega)
  have kept : previous.locals.length - (previous.locals.length - locals.length) =
      locals.length := by
    omega
  refine ⟨?_, rfl, ?_⟩
  · rw [StackMapFrame.expand?, dropped, if_pos (Nat.sub_le _ _), kept]
    rw [← List.prefix_iff_eq_take.mp isPrefix]
  · intro _ _
    rw [StackMapFrame.IsWritable, UInt8.le_iff_toNat_le, UInt8.le_iff_toNat_le, dropped]
    exact ⟨Nat.sub_pos_of_lt fewer, Nat.le_of_lt_succ few⟩

theorem isCompressedTo_append
    {locals : List StackMapType}
    {previous : MapFrame}
    (isPrefix : previous.locals <+: locals)
    (more : previous.locals.length < locals.length)
    (few : locals.length - previous.locals.length < 4)
    (delta : UInt16) :
    (MapFrame.mk locals []).IsCompressedTo previous delta
      (.append delta (locals.drop previous.locals.length)) := by
  refine ⟨?_, rfl, ?_⟩
  · rw [StackMapFrame.expand?, ← List.prefix_iff_eq_append.mp isPrefix]
    simp
  · intro _ _
    rw [StackMapFrame.IsWritable, List.length_drop]
    omega

/-- The form that is made from a frame stands for it. -/
theorem isCompressedTo_relativeTo
    (frame previous : MapFrame)
    (delta : UInt16) :
    frame.IsCompressedTo previous delta (frame.relativeTo previous delta) := by
  obtain ⟨locals, stack⟩ := frame
  cases stack with
  | nil =>
      unfold relativeTo
      dsimp only
      split
      · rename_i shorter
        simp only [Bool.and_eq_true, decide_eq_true_eq, List.isPrefixOf_iff_prefix] at shorter
        obtain ⟨⟨notMore, few⟩, isPrefix⟩ := shorter
        split
        · rename_i asMany
          rw [isPrefix.eq_of_length asMany]
          exact ⟨rfl, rfl, fun _ _ => trivial⟩
        · exact isCompressedTo_chop isPrefix (by omega) few delta
      · split
        · rename_i longer
          simp only [Bool.and_eq_true, decide_eq_true_eq, List.isPrefixOf_iff_prefix] at longer
          obtain ⟨⟨more, few⟩, isPrefix⟩ := longer
          exact isCompressedTo_append isPrefix more few delta
        · exact isCompressedTo_full ⟨locals, []⟩ previous delta
  | cons value others =>
      cases others with
      | nil =>
          unfold relativeTo
          dsimp only
          split
          · rename_i same
            rw [same]
            exact ⟨rfl, rfl, fun _ _ => trivial⟩
          · exact isCompressedTo_full ⟨locals, [value]⟩ previous delta
      | cons second others =>
          exact isCompressedTo_full ⟨locals, value :: second :: others⟩ previous delta

end MapFrame

/-! ## Bytes -/

namespace VerificationType

instance : LawfulBinary StackMapType where
  read_write type rest := by
    cases type with
    | object index =>
        change (do let position ← read; return .object position : Reader StackMapType)
          (write index ++ rest) = _
        rw [read_bind_of_eq_ok (read_write index rest)]
        rfl
    | uninitialized offset =>
        change (do let position ← read; return .uninitialized position : Reader StackMapType)
          (write offset ++ rest) = _
        rw [read_bind_of_eq_ok (read_write offset rest)]
        rfl
    | _ => rfl

end VerificationType

namespace StackMapFrame

/-- A short distance is part of the tag. -/
theorem toUInt16_toUInt8
    {delta : UInt16}
    (short : delta ≤ 63) :
    delta.toUInt8.toUInt16 = delta := by
  apply UInt16.toNat_inj.mp
  have := UInt16.le_iff_toNat_le.mp short
  simp at this ⊢
  omega

theorem readTagged_same
    {delta : UInt16}
    (short : delta ≤ 63) :
    readTagged delta.toUInt8 = pure (.same delta) := by
  have := UInt16.le_iff_toNat_le.mp short
  have isShort : delta.toUInt8 ≤ 63 := by
    rw [UInt8.le_iff_toNat_le]
    simp at this ⊢
    omega
  rw [readTagged, if_pos isShort, toUInt16_toUInt8 short]

theorem readTagged_sameWithOne
    {delta : UInt16}
    (short : delta ≤ 63) :
    readTagged (delta.toUInt8 + 64) = StackMapFrame.sameWithOne delta <$> read := by
  have := UInt16.le_iff_toNat_le.mp short
  have notSame : ¬ delta.toUInt8 + 64 ≤ 63 := by
    rw [UInt8.le_iff_toNat_le]
    simp at this ⊢
    omega
  have isShort : delta.toUInt8 + 64 ≤ 127 := by
    rw [UInt8.le_iff_toNat_le]
    simp at this ⊢
    omega
  rw [readTagged, if_neg notSame, if_pos isShort, UInt8.add_sub_cancel, toUInt16_toUInt8 short]

theorem read_write_of_isWritable
    {frame : StackMapFrame}
    (writable : frame.IsWritable)
    (rest : Bytes) :
    (read : Reader StackMapFrame) (write frame ++ rest) = .ok (frame, rest) := by
  cases frame with
  | same delta =>
      change (read : Reader StackMapFrame) (toBytes (.same delta) ++ rest) = _
      rw [toBytes]
      split
      · rename_i short
        change readTagged delta.toUInt8 rest = _
        rw [readTagged_same short]
        rfl
      · change (StackMapFrame.same <$> read : Reader StackMapFrame) (write delta ++ rest) = _
        rw [map_eq_pure_bind, read_bind_of_eq_ok (read_write delta rest)]
        rfl
  | sameWithOne delta value =>
      change (read : Reader StackMapFrame) (toBytes (.sameWithOne delta value) ++ rest) = _
      rw [toBytes]
      split
      · rename_i short
        change readTagged (delta.toUInt8 + 64) (write value ++ rest) = _
        rw [readTagged_sameWithOne short, map_eq_pure_bind,
          read_bind_of_eq_ok (read_write value rest)]
        rfl
      · exact read_bind_write StackMapFrame.sameWithOne delta value rest
  | chop delta dropped =>
      have dropsFew : dropped = 1 ∨ dropped = 2 ∨ dropped = 3 := by
        simp only [IsWritable, UInt8.le_iff_toNat_le] at writable
        simp only [← UInt8.toNat_inj]
        simp at writable ⊢
        omega
      rcases dropsFew with rfl | rfl | rfl <;>
        exact read_map_write (fun delta => StackMapFrame.chop delta _) delta rest
  | append delta locals =>
      have addsFew : locals.length = 1 ∨ locals.length = 2 ∨ locals.length = 3 := by
        rw [IsWritable] at writable
        omega
      change (read : Reader StackMapFrame) (toBytes (.append delta locals) ++ rest) = _
      have tagged : readTagged (251 + locals.length.toUInt8) = (do
          let delta ← read
          let locals ← Reader.times locals.length read
          return StackMapFrame.append delta locals) := by
        rcases addsFew with one | two | three
        · rw [one]
          rfl
        · rw [two]
          rfl
        · rw [three]
          rfl
      change readTagged (251 + locals.length.toUInt8)
        ((write delta ++ locals.flatMap write) ++ rest) = _
      rw [tagged, List.append_assoc, read_bind_of_eq_ok (read_write delta _),
        read_bind_of_eq_ok (Reader.times_append (fun value _ => read_write value) rest)]
      rfl
  | full delta locals stack =>
      change (do
        let delta ← read
        let locals ← read
        let stack ← read
        return StackMapFrame.full delta locals stack : Reader StackMapFrame)
          (((write delta ++ write locals) ++ write stack) ++ rest) = _
      have lawful : ∀ values : List StackMapType, ∀ value ∈ values, ∀ rest,
          (read : Reader StackMapType) (write value ++ rest) = .ok (value, rest) :=
        fun _ value _ => read_write value
      rw [List.append_assoc, List.append_assoc, read_bind_of_eq_ok (read_write delta _),
        read_bind_of_eq_ok (read_write_list (lawful locals) writable.1 _),
        read_bind_of_eq_ok (read_write_list (lawful stack) writable.2 _)]
      rfl

end StackMapFrame

/-! ## Stack maps -/

namespace StackMap

/-- The offset of a frame at a distance from the frame before it. The entry of the method
stands nowhere, and the distance from it is the offset. -/
def offsetAfter : Option Nat → UInt16 → Nat
  | none, delta => delta.toNat
  | some before, delta => before + delta.toNat + 1

/-- The frames that compressed ones stand for, with their offsets, each after the one before
it. -/
def expandFrom? (previous : MapFrame) (offset? : Option Nat) :
    List StackMapFrame → Option (List (Nat × MapFrame))
  | [] => some []
  | frame :: rest => do
      let expanded ← frame.expand? previous
      let offset := offsetAfter offset? frame.delta
      let others ← expandFrom? expanded (some offset) rest
      return (offset, expanded) :: others

/-- The frames of a stack map with their offsets, after the frame with which the method
begins. -/
def expand? (map : StackMap) (entry : MapFrame) : Option (List (Nat × MapFrame)) :=
  expandFrom? entry none map.frames

theorem expandFrom?_cons
    {frame : StackMapFrame}
    {rest : List StackMapFrame}
    {previous expanded : MapFrame}
    {offset? : Option Nat}
    {offset : Nat}
    {others : List (Nat × MapFrame)}
    (expands : frame.expand? previous = some expanded)
    (stands : offsetAfter offset? frame.delta = offset)
    (othersExpand : expandFrom? expanded (some offset) rest = some others) :
    expandFrom? previous offset? (frame :: rest) = some ((offset, expanded) :: others) := by
  rw [expandFrom?, expands]
  subst stands
  change (expandFrom? expanded _ rest >>= fun others => _) = _
  rw [othersExpand]
  rfl

/-- Every frame stands for one frame. -/
theorem length_of_expandFrom?_eq_some
    {frames : List StackMapFrame}
    {previous : MapFrame}
    {offset? : Option Nat}
    {expanded : List (Nat × MapFrame)}
    (expands : expandFrom? previous offset? frames = some expanded) :
    expanded.length = frames.length := by
  induction frames generalizing previous offset? expanded with
  | nil =>
      cases expands
      rfl
  | cons frame rest inductionHypothesis =>
      rw [expandFrom?, Option.bind_eq_bind, Option.bind_eq_some_iff] at expands
      obtain ⟨first, _, expands⟩ := expands
      rw [Option.bind_eq_bind, Option.bind_eq_some_iff] at expands
      obtain ⟨others, othersExpand, isList⟩ := expands
      cases isList
      rw [List.length_cons, List.length_cons, inductionHypothesis othersExpand]

/-- The distances between offsets, none of which is before the one before it, lead from one
offset to the next. -/
theorem offsetAfter_distance
    {offset? : Option Nat}
    {offset : Nat}
    (small : offset < 2 ^ 16)
    (after : ∀ before, offset? = some before → before < offset) :
    offsetAfter offset? (match offset? with
      | none => offset
      | some before => offset - before - 1).toUInt16 = offset := by
  cases offset? with
  | none => exact UInt16.toNat_ofNat_of_lt' small
  | some before =>
      have follows := after before rfl
      have distance : (offset - before - 1).toUInt16.toNat = offset - before - 1 :=
        UInt16.toNat_ofNat_of_lt' (show _ < 2 ^ 16 by omega)
      rw [offsetAfter, distance]
      omega

/-- A stack map is read back if its frames can be told and counted. -/
theorem contents_write
    {frames : List StackMapFrame}
    (writable : ∀ frame ∈ frames, frame.IsWritable)
    (few : frames.length < 2 ^ 16)
    (name : PoolIndex) :
    (Attribute.mk name (write (StackMap.mk frames))).contents StackMap = .ok ⟨frames⟩ := by
  have readBack := read_write_list (fun frame member rest =>
    StackMapFrame.read_write_of_isWritable (writable frame member) rest) few []
  rw [List.append_nil] at readBack
  have isRead : (read : Reader StackMap) (write frames) = .ok (⟨frames⟩, []) := by
    change (StackMap.mk <$> read : Reader StackMap) (write frames) = _
    rw [map_eq_pure_bind, read_bind_of_eq_ok readBack]
    rfl
  change ((read : Reader StackMap) (write frames)).map Prod.fst = _
  rw [isRead]
  rfl

end StackMap

end ClosureConversion
