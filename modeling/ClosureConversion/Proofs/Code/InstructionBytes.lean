import Mathlib.Data.List.Sort
import ClosureConversion.Proofs.Code.InstructionReading
import ClosureConversion.Proofs.Code.Layout

/-!
Contract: an instruction is read back from its bytes.

Owns: for every instruction, that its bytes are as many as its size says, and that they
are read back as the instruction, or as two if it is a jump that is too long.

Does not own: instructions that follow one another.
-/

namespace ClosureConversion

/-! ## Every instruction -/

/-- The distance that is written for a jump is the one to the offset of its target. -/
theorem wide_eq_ok
    {offsets : Array Nat}
    {offset target : Nat}
    {bytes : Bytes}
    (written : (do
      let distance ← (do
        let targetOffset ← offsetOf offsets target
        return (targetOffset : Int) - offset : Except BytecodeError Int)
      return write (Int32.ofInt distance)) = Except.ok bytes) :
    ∃ targetOffset, offsetOf offsets target = .ok targetOffset ∧
      bytes = write (Int32.ofInt ((targetOffset : Int) - offset)) := by
  obtain ⟨distance, isDistance, written⟩ := bind_eq_ok.mp written
  obtain ⟨targetOffset, isOffset, isDistance⟩ := bind_eq_ok.mp isDistance
  cases isDistance
  cases written
  exact ⟨targetOffset, isOffset, rfl⟩

theorem length_literalBytes
    {constant : Option PoolIndex}
    (isThere : constant.isSome = true) :
    (literalBytes constant).length = literalSize constant := by
  obtain ⟨index, rfl⟩ := Option.isSome_iff_exists.mp isThere
  unfold literalBytes literalSize
  dsimp only [Option.getD_some]
  split <;> rfl

theorem length_localAccessBytes
    (general short : UInt8)
    (kind : LocalKind)
    (slot : UInt16) :
    (localAccessBytes general short kind slot).length = localAccessSize slot := by
  unfold localAccessBytes localAccessSize
  split
  · rfl
  · split <;> rfl

theorem length_flatten_of_forall
    {width : Nat}
    {chunks : List Bytes}
    (same : ∀ chunk ∈ chunks, chunk.length = width) :
    chunks.flatten.length = width * chunks.length := by
  induction chunks with
  | nil => rfl
  | cons chunk chunks inductionHypothesis =>
      have here := same chunk List.mem_cons_self
      have there := inductionHypothesis fun other member =>
        same other (List.mem_cons_of_mem _ member)
      rw [List.flatten_cons, List.length_append, here, there, List.length_cons, Nat.mul_succ]
      omega

/-- The constant is there without which the bytes of the instruction have no size. -/
def Linked.HasConstant (item : Linked) : Prop :=
  match item.instruction with
  | .pushInt value => fitsShort value.toInt = true ∨ item.constant.isSome = true
  | .pushLiteral _ => item.constant.isSome = true
  | _ => True

theorem Names.isSome
    {α : Type}
    {resolve : PoolIndex → Except BytecodeError α}
    {value : α}
    {constant : Option PoolIndex}
    (names : Names resolve value constant) :
    constant.isSome = true := by
  obtain ⟨index, rfl, _⟩ := names
  rfl

theorem Linked.hasConstant_of_isLinked
    {pool : ConstantPool}
    {item : Linked}
    (linked : item.instruction.IsLinked pool item.constant) :
    item.HasConstant := by
  obtain ⟨instruction, constant⟩ := item
  cases instruction with
  | pushInt value => exact linked.imp_right Names.isSome
  | pushLiteral literal => exact Names.isSome linked
  | _ => trivial

/-- The bytes of an instruction are as many as its size says, if its constant is there. -/
theorem Linked.length_bytes_of_hasConstant
    {item : Linked}
    (linked : item.HasConstant)
    {offsets : Array Nat}
    {offset : Nat}
    {far : Bool}
    {bytes : Bytes}
    (written : item.bytes offsets offset far = .ok bytes) :
    bytes.length = item.size offset far := by
  obtain ⟨instruction, constant⟩ := item
  unfold Linked.HasConstant at linked
  unfold Linked.bytes at written
  unfold Linked.size
  cases instruction with
  | pushInt value =>
      dsimp only at written linked ⊢
      split at written
      · rename_i opcode short
        cases written
        rw [short]
        rfl
      · rename_i notShort
        rw [notShort]
        split at written
        · rename_i fits
          cases written
          rw [if_neg (by simp), if_pos fits]
          rfl
        · rename_i notByte
          split at written
          · rename_i fits
            cases written
            rw [if_neg (by simp), if_neg notByte, if_pos fits]
            rfl
          · rename_i notShort
            cases written
            rw [if_neg (by simp), if_neg notByte, if_neg notShort]
            exact length_literalBytes (linked.resolve_left notShort)
  | pushLong value =>
      cases constant <;> cases written <;> rfl
  | pushFloat bits =>
      cases constant with
      | none =>
          cases written
          rfl
      | some index =>
          cases written
          exact length_literalBytes rfl
  | pushDouble bits =>
      cases constant <;> cases written <;> rfl
  | pushLiteral literal =>
      dsimp only at written ⊢
      split at written
      · rename_i wide
        cases written
        rw [if_pos wide]
        rfl
      · rename_i notWide
        cases written
        rw [if_neg notWide]
        exact length_literalBytes linked
  | load kind slot =>
      cases written
      exact length_localAccessBytes _ _ _ _
  | store kind slot =>
      cases written
      exact length_localAccessBytes _ _ _ _
  | increment slot amount =>
      dsimp only at written ⊢
      split at written
      · rename_i wide
        cases written
        rw [if_pos wide]
        rfl
      · rename_i notWide
        cases written
        rw [if_neg notWide]
        rfl
  | branch condition target =>
      obtain ⟨distance, _, written⟩ := bind_eq_ok.mp written
      cases far <;> cases written <;> rfl
  | goto target =>
      obtain ⟨distance, _, written⟩ := bind_eq_ok.mp written
      cases far <;> cases written <;> rfl
  | tableSwitch default low targets =>
      obtain ⟨defaultBytes, isDefault, written⟩ := bind_eq_ok.mp written
      obtain ⟨chunks, areTargets, written⟩ := bind_eq_ok.mp written
      cases written
      obtain ⟨defaultOffset, _, rfl⟩ := wide_eq_ok isDefault
      have each := forall₂_of_mapM_eq_ok areTargets
      have widths : ∀ chunk ∈ chunks, chunk.length = 4 := by
        intro chunk member
        obtain ⟨target, _, isChunk⟩ := exists_mem_of_forall₂ each member
        obtain ⟨targetOffset, _, rfl⟩ := wide_eq_ok isChunk
        rfl
      have width := length_flatten_of_forall widths
      rw [← each.length_eq] at width
      have four : ∀ number : Int32, (write number).length = 4 := fun _ => rfl
      simp only [List.length_append, List.length_cons, paddingBytes, List.length_replicate, four,
        width]
      omega
  | lookupSwitch default targets =>
      obtain ⟨defaultBytes, isDefault, written⟩ := bind_eq_ok.mp written
      obtain ⟨chunks, areTargets, written⟩ := bind_eq_ok.mp written
      cases written
      obtain ⟨defaultOffset, _, rfl⟩ := wide_eq_ok isDefault
      have each := forall₂_of_mapM_eq_ok areTargets
      have widths : ∀ chunk ∈ chunks, chunk.length = 8 := by
        intro chunk member
        obtain ⟨pair, _, isChunk⟩ := exists_mem_of_forall₂ each member
        obtain ⟨bytes, isTarget, isChunk⟩ := bind_eq_ok.mp isChunk
        obtain ⟨targetOffset, _, rfl⟩ := wide_eq_ok isTarget
        cases isChunk
        rfl
      have width := length_flatten_of_forall widths
      rw [← each.length_eq, List.length_mergeSort] at width
      have four : ∀ number : Int32, (write number).length = 4 := fun _ => rfl
      simp only [List.length_append, List.length_cons, paddingBytes, List.length_replicate, four,
        width]
      omega
  | invoke kind method =>
      cases kind <;> cases written <;> rfl
  | _ =>
      cases written
      rfl

/-- The bytes of an instruction are as many as its size says. -/
theorem Linked.length_bytes
    {pool : ConstantPool}
    {item : Linked}
    (linked : item.instruction.IsLinked pool item.constant)
    {offsets : Array Nat}
    {offset : Nat}
    {far : Bool}
    {bytes : Bytes}
    (written : item.bytes offsets offset far = .ok bytes) :
    bytes.length = item.size offset far :=
  length_bytes_of_hasConstant (hasConstant_of_isLinked linked) written

/-- The offset that a table gives for the index of an instruction. -/
def placeIn (offsets : Array Nat) (index : Nat) : Nat :=
  offsets.getD index 0

theorem placeIn_eq
    {offsets : Array Nat}
    {index offset : Nat}
    (stands : offsets[index]? = some offset) :
    placeIn offsets index = offset := by
  rw [placeIn, Array.getD_eq_getD_getElem?, stands, Option.getD_some]

/-- Every offset that a jump may have as its target lies inside of the code. -/
def InstructionContext.HoldsTargets (context : InstructionContext) (offsets : Array Nat) : Prop :=
  ∀ target offset, offsetOf offsets target = .ok offset → offset < context.codeLength

namespace Linked

variable {context : InstructionContext} {item : Linked} {offsets : Array Nat} {bytes : Bytes}

/-- A distance of four bytes is read back as the target it was written for. -/
theorem reads_wide
    (within : context.HoldsTargets offsets)
    (starts : context.start ≤ context.codeLength)
    (notLong : context.codeLength ≤ maxCodeLength)
    {target : Nat}
    (written : (do
      let distance ← (do
        let targetOffset ← offsetOf offsets target
        return (targetOffset : Int) - context.start : Except BytecodeError Int)
      return write (Int32.ofInt distance)) = Except.ok bytes) :
    Reads context.wideTarget bytes (placeIn offsets target) := by
  obtain ⟨targetOffset, isOffset, rfl⟩ := wide_eq_ok written
  rw [placeIn_eq (offsetOf_eq_ok.mp isOffset).1]
  exact InstructionContext.reads_wideTarget (within _ _ isOffset) starts notLong

theorem reads_pushInt
    {value : Int32}
    {constant : Option PoolIndex}
    {far : Bool}
    (linked : (Instruction.pushInt value : Instruction Nat).IsLinked context.pool constant)
    (written : Linked.bytes ⟨.pushInt value, constant⟩ offsets context.start far = .ok bytes) :
    Reads context.instruction bytes (.pushInt value) := by
  unfold Linked.bytes at written
  dsimp only at written
  split at written
  · rename_i opcode short
    cases written
    exact InstructionContext.reads_of_pure (InstructionContext.afterOpcode_shortInt short)
  · split at written
    · rename_i fits
      cases written
      apply InstructionContext.reads_single (by decide)
      apply (InstructionContext.reads_signedByte value.toInt8).last
      rw [toInt32_toInt8 fits]
      exact reads_pure _
    · split at written
      · rename_i fits
        cases written
        apply InstructionContext.reads_single (by decide)
        apply (InstructionContext.reads_signedShort value.toInt16).last
        rw [toInt32_toInt16 fits]
        exact reads_pure _
      · rename_i notShort
        cases written
        have reads := InstructionContext.reads_literalBytes (linked.resolve_left notShort)
        exact reads

theorem reads_pushLong
    {value : Int64}
    {constant : Option PoolIndex}
    {far : Bool}
    (linked : (Instruction.pushLong value : Instruction Nat).IsLinked context.pool constant)
    (written : Linked.bytes ⟨.pushLong value, constant⟩ offsets context.start far = .ok bytes) :
    Reads context.instruction bytes (.pushLong value) := by
  rcases linked with ⟨⟨opcode, short⟩, rfl⟩ | ⟨index, rfl, resolved⟩
  · cases written
    exact InstructionContext.reads_of_pure (InstructionContext.afterOpcode_shortLong
      (by rw [short, Option.getD_some]))
  · cases written
    have names : Names (Literal.resolve context.pool) (.long value) (some index) :=
      ⟨index, rfl, resolved⟩
    have reads := InstructionContext.reads_wideLiteral names
    exact reads

theorem reads_pushFloat
    {bits : UInt32}
    {constant : Option PoolIndex}
    {far : Bool}
    (linked : (Instruction.pushFloat bits : Instruction Nat).IsLinked context.pool constant)
    (written : Linked.bytes ⟨.pushFloat bits, constant⟩ offsets context.start far = .ok bytes) :
    Reads context.instruction bytes (.pushFloat bits) := by
  rcases linked with ⟨⟨opcode, short⟩, rfl⟩ | ⟨index, rfl, resolved⟩
  · cases written
    exact InstructionContext.reads_of_pure (InstructionContext.afterOpcode_shortFloat
      (by rw [short, Option.getD_some]))
  · cases written
    have names : Names (Literal.resolve context.pool) (.float bits) (some index) :=
      ⟨index, rfl, resolved⟩
    have reads := InstructionContext.reads_literalBytes names
    exact reads

theorem reads_pushDouble
    {bits : UInt64}
    {constant : Option PoolIndex}
    {far : Bool}
    (linked : (Instruction.pushDouble bits : Instruction Nat).IsLinked context.pool constant)
    (written : Linked.bytes ⟨.pushDouble bits, constant⟩ offsets context.start far = .ok bytes) :
    Reads context.instruction bytes (.pushDouble bits) := by
  rcases linked with ⟨⟨opcode, short⟩, rfl⟩ | ⟨index, rfl, resolved⟩
  · cases written
    exact InstructionContext.reads_of_pure (InstructionContext.afterOpcode_shortDouble
      (by rw [short, Option.getD_some]))
  · cases written
    have names : Names (Literal.resolve context.pool) (.double bits) (some index) :=
      ⟨index, rfl, resolved⟩
    have reads := InstructionContext.reads_wideLiteral names
    exact reads

theorem reads_pushLiteral
    {literal : Literal}
    {constant : Option PoolIndex}
    {far : Bool}
    (linked : (Instruction.pushLiteral literal : Instruction Nat).IsLinked context.pool constant)
    (written : Linked.bytes ⟨.pushLiteral literal, constant⟩ offsets context.start far =
      .ok bytes) :
    Reads context.instruction bytes (Instruction.pushLiteral literal).normalize := by
  unfold Linked.bytes at written
  dsimp only at written
  split at written
  · cases written
    exact InstructionContext.reads_wideLiteral linked
  · cases written
    exact InstructionContext.reads_literalBytes linked

theorem reads_tableSwitch
    {default : Nat}
    {low : Int32}
    {targets : List Nat}
    {constant : Option PoolIndex}
    {far : Bool}
    (switchFits : (Instruction.tableSwitch default low targets).SwitchFits)
    (within : context.HoldsTargets offsets)
    (starts : context.start ≤ context.codeLength)
    (notLong : context.codeLength ≤ maxCodeLength)
    (written : Linked.bytes ⟨.tableSwitch default low targets, constant⟩ offsets context.start far =
      .ok bytes) :
    Reads context.instruction bytes
      (.tableSwitch (placeIn offsets default) low (targets.map (placeIn offsets))) := by
  obtain ⟨defaultBytes, isDefault, written⟩ := bind_eq_ok.mp written
  obtain ⟨chunks, areTargets, written⟩ := bind_eq_ok.mp written
  cases written
  have readsTargets : List.Forall₂ (Reads context.wideTarget) chunks
      (targets.map (placeIn offsets)) := by
    rw [List.forall₂_map_right_iff]
    exact ((forall₂_of_mapM_eq_ok areTargets).imp fun target chunk isChunk =>
      reads_wide within starts notLong isChunk).flip
  have sameLength : (targets.map (placeIn offsets)).length = targets.length :=
    List.length_map _
  have reads := InstructionContext.reads_tableSwitch
    (reads_wide within starts notLong isDefault) readsTargets
    (by rw [sameLength]; exact List.length_pos_iff.mpr switchFits.1)
    (by rw [sameLength]; exact switchFits.2)
  rw [sameLength] at reads
  exact reads

theorem reads_lookupSwitch
    {default : Nat}
    {targets : List (Int32 × Nat)}
    {constant : Option PoolIndex}
    {far : Bool}
    (within : context.HoldsTargets offsets)
    (starts : context.start ≤ context.codeLength)
    (notLong : context.codeLength ≤ maxCodeLength)
    (few : targets.length < 2 ^ 31)
    (written : Linked.bytes ⟨.lookupSwitch default targets, constant⟩ offsets context.start far =
      .ok bytes) :
    Reads context.instruction bytes
      ((Instruction.lookupSwitch default targets).normalize.map (placeIn offsets)) := by
  obtain ⟨defaultBytes, isDefault, written⟩ := bind_eq_ok.mp written
  obtain ⟨chunks, areTargets, written⟩ := bind_eq_ok.mp written
  cases written
  have sameLength : ((targets.mergeSort fun left right => left.1 ≤ right.1).map
      fun pair => (pair.1, placeIn offsets pair.2)).length = targets.length := by
    rw [List.length_map, List.length_mergeSort]
  have readsTargets : List.Forall₂ (fun chunk (pair : Int32 × Nat) =>
      ∃ bytes, chunk = write pair.1 ++ bytes ∧ Reads context.wideTarget bytes pair.2) chunks
      ((targets.mergeSort fun left right => left.1 ≤ right.1).map
        fun pair => (pair.1, placeIn offsets pair.2)) := by
    rw [List.forall₂_map_right_iff]
    refine ((forall₂_of_mapM_eq_ok areTargets).imp ?_).flip
    intro pair chunk isChunk
    obtain ⟨bytes, isTarget, isChunk⟩ := bind_eq_ok.mp isChunk
    cases isChunk
    exact ⟨bytes, rfl, reads_wide within starts notLong isTarget⟩
  have reads := InstructionContext.reads_lookupSwitch
    (reads_wide within starts notLong isDefault) readsTargets (by rw [sameLength]; exact few)
  rw [sameLength] at reads
  exact reads

/-- What is written as one instruction is read back as it, with jump targets as offsets. -/
theorem reads_bytes
    (linked : item.instruction.IsLinked context.pool item.constant)
    (switchFits : item.instruction.SwitchFits)
    {far : Bool}
    (within : context.HoldsTargets offsets)
    (ends : context.start + bytes.length ≤ context.codeLength)
    (notLong : context.codeLength ≤ maxCodeLength)
    (near : far = false → ∀ target targetOffset, item.instruction.jumpTarget? = some target →
      offsetOf offsets target = .ok targetOffset →
        fitsShort ((targetOffset : Int) - context.start) = true)
    (notWidened : far = true → item.instruction.isBranch = false)
    (written : item.bytes offsets context.start far = .ok bytes) :
    Reads context.instruction bytes (item.instruction.normalize.map (placeIn offsets)) := by
  have limit : maxCodeLength = 65535 := rfl
  have starts : context.start ≤ context.codeLength := by omega
  have sized := length_bytes linked written
  obtain ⟨instruction, constant⟩ := item
  cases instruction with
  | op operation =>
      cases written
      exact InstructionContext.reads_of_pure (InstructionContext.afterOpcode_operation operation)
  | pushInt value => exact reads_pushInt linked written
  | pushLong value => exact reads_pushLong linked written
  | pushFloat bits => exact reads_pushFloat linked written
  | pushDouble bits => exact reads_pushDouble linked written
  | pushLiteral literal =>
      have reads := reads_pushLiteral linked written
      cases literal <;> exact reads
  | load kind slot =>
      cases written
      exact InstructionContext.reads_load kind slot
  | store kind slot =>
      cases written
      exact InstructionContext.reads_store kind slot
  | increment slot amount =>
      unfold Linked.bytes at written
      dsimp only at written
      split at written
      · cases written
        exact InstructionContext.reads_wideIncrement slot amount
      · rename_i notWide
        cases written
        exact InstructionContext.reads_increment (Bool.eq_false_iff.mpr notWide)
  | branch condition target =>
      obtain ⟨distance, isDistance, written⟩ := bind_eq_ok.mp written
      obtain ⟨targetOffset, isOffset, isDistance⟩ := bind_eq_ok.mp isDistance
      cases isDistance
      cases far with
      | true => cases notWidened rfl
      | false =>
          cases written
          change Reads context.instruction _ (.branch condition (placeIn offsets target))
          rw [placeIn_eq (offsetOf_eq_ok.mp isOffset).1]
          apply InstructionContext.reads_branch
          exact InstructionContext.reads_shortTarget (within _ _ isOffset)
            (near rfl target targetOffset rfl isOffset)
  | goto target =>
      obtain ⟨distance, isDistance, written⟩ := bind_eq_ok.mp written
      obtain ⟨targetOffset, isOffset, isDistance⟩ := bind_eq_ok.mp isDistance
      cases isDistance
      change Reads context.instruction _ (.goto (placeIn offsets target))
      rw [placeIn_eq (offsetOf_eq_ok.mp isOffset).1]
      cases far with
      | true =>
          cases written
          apply InstructionContext.reads_wideGoto
          exact InstructionContext.reads_wideTarget (within _ _ isOffset) starts notLong
      | false =>
          cases written
          apply InstructionContext.reads_goto
          exact InstructionContext.reads_shortTarget (within _ _ isOffset)
            (near rfl target targetOffset rfl isOffset)
  | tableSwitch default low targets =>
      exact reads_tableSwitch switchFits within starts notLong written
  | lookupSwitch default targets =>
      have few : targets.length < 2 ^ 31 := by
        change bytes.length = 1 + switchPadding context.start + 8 + 8 * targets.length at sized
        omega
      exact reads_lookupSwitch within starts notLong few written
  | field access member =>
      cases written
      exact InstructionContext.reads_field linked
  | invoke kind method =>
      cases kind with
      | interface =>
          cases written
          exact InstructionContext.reads_invokeInterface _ linked
      | _ =>
          cases written
          exact InstructionContext.reads_invoke (by decide) linked
  | invokeDynamic call =>
      cases written
      exact InstructionContext.reads_invokeDynamic linked
  | new name =>
      cases written
      exact InstructionContext.reads_single (by decide)
        ((InstructionContext.reads_className linked).last (reads_pure _))
  | newArray element =>
      cases written
      cases element <;> exact InstructionContext.reads_single (by decide) fun _ _ => rfl
  | newRefArray element =>
      cases written
      exact InstructionContext.reads_single (by decide)
        ((InstructionContext.reads_refType linked).last (reads_pure _))
  | checkCast type =>
      cases written
      exact InstructionContext.reads_single (by decide)
        ((InstructionContext.reads_refType linked).last (reads_pure _))
  | instanceOf type =>
      cases written
      exact InstructionContext.reads_single (by decide)
        ((InstructionContext.reads_refType linked).last (reads_pure _))
  | newMultiArray type dimensions =>
      cases written
      exact InstructionContext.reads_single (by decide)
        ((InstructionContext.reads_refType linked).bind
          ((InstructionContext.reads_byte dimensions).last (reads_pure _)))

/-- A conditional jump that is too long is read back as the opposite jump over a long one,
which lies three bytes after it. -/
theorem reads_widened
    {condition : Condition}
    {target : Nat}
    {constant : Option PoolIndex}
    (within : context.HoldsTargets offsets)
    (notLast : context.start + 8 < context.codeLength)
    (notLong : context.codeLength ≤ maxCodeLength)
    (written : Linked.bytes ⟨.branch condition target, constant⟩ offsets context.start true =
      .ok bytes) :
    ∃ front back, bytes = front ++ back ∧ front.length = 3 ∧
      Reads context.instruction front (.branch condition.negate (context.start + 8)) ∧
      Reads ({ context with start := context.start + 3 } : InstructionContext).instruction back
        (.goto (placeIn offsets target)) := by
  obtain ⟨distance, isDistance, written⟩ := bind_eq_ok.mp written
  obtain ⟨targetOffset, isOffset, isDistance⟩ := bind_eq_ok.mp isDistance
  cases isDistance
  cases written
  refine ⟨condition.negate.opcode :: write (8 : Int16), _, rfl, rfl, ?_, ?_⟩
  · apply InstructionContext.reads_branch
    have eight : Int16.ofInt (((context.start + 8 : Nat) : Int) - context.start) = 8 := by
      have : ((context.start + 8 : Nat) : Int) - context.start = 8 := by omega
      rw [this]
      rfl
    rw [← eight]
    apply InstructionContext.reads_shortTarget notLast
    rw [fitsShort, Bool.and_eq_true, decide_eq_true_iff, decide_eq_true_iff]
    omega
  · rw [placeIn_eq (offsetOf_eq_ok.mp isOffset).1]
    apply InstructionContext.reads_wideGoto
    have distance : (targetOffset : Int) - context.start - 3 =
        (targetOffset : Int) - ((context.start + 3 : Nat) : Int) := by
      omega
    rw [distance]
    exact InstructionContext.reads_wideTarget (within _ _ isOffset)
      (show context.start + 3 ≤ context.codeLength by omega) notLong

end Linked

end ClosureConversion
