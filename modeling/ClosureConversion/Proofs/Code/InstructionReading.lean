import Mathlib.Data.List.Forall2
import ClosureConversion.Proofs.Code.Linking
import ClosureConversion.Proofs.Code.Reading

/-!
Contract: the reading of every kind of instruction.

Owns:
- numbers that keep their value when they are narrowed and widened again;
- for every kind of instruction, which bytes are read as it.

Does not own: which of several forms of an instruction is written.
-/

namespace ClosureConversion

/-! ## Numbers -/

theorem toInt32_toInt8
    {value : Int32}
    (fits : fitsByte value.toInt = true) :
    value.toInt8.toInt32 = value := by
  rw [fitsByte, Bool.and_eq_true, decide_eq_true_iff, decide_eq_true_iff] at fits
  apply Int32.toInt_inj.mp
  rw [Int8.toInt_toInt32, Int32.toInt_toInt8, Int.bmod_eq_of_le (by omega) (by omega)]

theorem toInt32_toInt16
    {value : Int32}
    (fits : fitsShort value.toInt = true) :
    value.toInt16.toInt32 = value := by
  rw [fitsShort, Bool.and_eq_true, decide_eq_true_iff, decide_eq_true_iff] at fits
  apply Int32.toInt_inj.mp
  rw [Int16.toInt_toInt32, Int32.toInt_toInt16, Int.bmod_eq_of_le (by omega) (by omega)]

theorem toInt16_toInt8
    {value : Int16}
    (fits : fitsByte value.toInt = true) :
    value.toInt8.toInt16 = value := by
  rw [fitsByte, Bool.and_eq_true, decide_eq_true_iff, decide_eq_true_iff] at fits
  apply Int16.toInt_inj.mp
  rw [Int8.toInt_toInt16, Int16.toInt_toInt8, Int.bmod_eq_of_le (by omega) (by omega)]

theorem toUInt16_toUInt8
    {value : UInt16}
    (small : value ≤ 255) :
    value.toUInt8.toUInt16 = value := by
  have smallNat : value.toNat ≤ 255 := UInt16.le_iff_toNat_le.mp small
  apply UInt16.toNat_inj.mp
  rw [UInt8.toNat_toUInt16, UInt16.toNat_toUInt8, Nat.mod_eq_of_lt (by omega)]

/-- The last key of a range of keys, unless there are more than thirty-two bits express. -/
theorem toInt_lastKey
    {low : Int32}
    {count : Nat}
    (notEmpty : 0 < count)
    (fits : low.toInt + count - 1 < 2 ^ 31) :
    (low + Int32.ofNat count - 1).toInt = low.toInt + count - 1 := by
  have bound := low.le_toInt
  have sum : low + Int32.ofNat count - 1 = Int32.ofInt (low.toInt + count - 1) := by
    rw [Int32.ofInt_sub, Int32.ofInt_add, Int32.ofInt_toInt]
    rfl
  rw [sum, Int32.toInt_ofInt_of_le (by omega) (by omega)]

namespace InstructionContext

variable {context : InstructionContext}

/-! ## Instructions of one byte -/

theorem afterOpcode_operation
    (operation : Operation) :
    context.afterOpcode operation.opcode = pure (.op operation) := by
  cases operation with
  | arrayLoad kind => cases kind <;> rfl
  | arrayStore kind => cases kind <;> rfl
  | stack operation => cases operation <;> rfl
  | arithmetic operation kind => cases operation <;> cases kind <;> rfl
  | negate kind => cases kind <;> rfl
  | shift direction kind => cases direction <;> cases kind <;> rfl
  | bitwise operation kind => cases operation <;> cases kind <;> rfl
  | convert conversion => cases conversion <;> rfl
  | compareFloat unordered => cases unordered <;> rfl
  | compareDouble unordered => cases unordered <;> rfl
  | leave kind =>
      cases kind with
      | none => rfl
      | some kind => cases kind <;> rfl
  | _ => rfl

theorem afterOpcode_shortInt
    {value : Int32}
    {opcode : UInt8}
    (short : shortIntOpcode? value = some opcode) :
    context.afterOpcode opcode = pure (.pushInt value) := by
  unfold shortIntOpcode? at short
  split at short
  · rename_i bounds
    cases short
    rw [Bool.and_eq_true, decide_eq_true_iff, decide_eq_true_iff] at bounds
    have isOne : value.toInt = -1 ∨ value.toInt = 0 ∨ value.toInt = 1 ∨ value.toInt = 2 ∨
        value.toInt = 3 ∨ value.toInt = 4 ∨ value.toInt = 5 := by omega
    have named : ∀ number : Int32, value.toInt = number.toInt → value = number :=
      fun _ equal => Int32.toInt_inj.mp equal
    rcases isOne with isOne | isOne | isOne | isOne | isOne | isOne | isOne
    · rw [named (-1) isOne]; rfl
    · rw [named 0 isOne]; rfl
    · rw [named 1 isOne]; rfl
    · rw [named 2 isOne]; rfl
    · rw [named 3 isOne]; rfl
    · rw [named 4 isOne]; rfl
    · rw [named 5 isOne]; rfl
  · cases short

theorem afterOpcode_shortLong
    {value : Int64}
    {opcode : UInt8}
    (short : shortLongOpcode? value = some opcode) :
    context.afterOpcode opcode = pure (.pushLong value) := by
  unfold shortLongOpcode? at short
  split at short
  · rename_i isZero
    cases short
    rw [isZero]
    rfl
  · split at short
    · rename_i isOne
      cases short
      rw [isOne]
      rfl
    · cases short

theorem afterOpcode_shortFloat
    {bits : UInt32}
    {opcode : UInt8}
    (short : shortFloatOpcode? bits = some opcode) :
    context.afterOpcode opcode = pure (.pushFloat bits) := by
  unfold shortFloatOpcode? at short
  split at short
  · rename_i isZero
    cases short
    rw [isZero]
    rfl
  · split at short
    · rename_i isOne
      cases short
      rw [isOne]
      rfl
    · split at short
      · rename_i isTwo
        cases short
        rw [isTwo]
        rfl
      · cases short

theorem afterOpcode_shortDouble
    {bits : UInt64}
    {opcode : UInt8}
    (short : shortDoubleOpcode? bits = some opcode) :
    context.afterOpcode opcode = pure (.pushDouble bits) := by
  unfold shortDoubleOpcode? at short
  split at short
  · rename_i isZero
    cases short
    rw [isZero]
    rfl
  · split at short
    · rename_i isOne
      cases short
      rw [isOne]
      rfl
    · cases short

theorem reads_of_pure
    {opcode : UInt8}
    {instruction : Instruction Nat}
    (isPure : context.afterOpcode opcode = pure instruction) :
    Reads context.instruction [opcode] instruction := by
  apply reads_instruction
  rw [isPure]
  exact reads_pure instruction

/-! ## Constants -/

theorem reads_literalBytes
    {literal : Literal}
    {constant : Option PoolIndex}
    (names : Names (Literal.resolve context.pool) literal constant) :
    Reads context.instruction (literalBytes constant)
      (Instruction.pushLiteral literal).normalize := by
  obtain ⟨index, rfl, resolved⟩ := names
  have pushed : context.literal index = .ok (Instruction.pushLiteral literal).normalize := by
    rw [InstructionContext.literal, resolved, ok_bind]
    cases literal <;> rfl
  unfold literalBytes
  dsimp only [Option.getD_some]
  split
  · rename_i small
    apply reads_single (by decide)
    apply (reads_byte index.toUInt8).last
    apply reads_lift
    rw [toUInt16_toUInt8 small]
    exact pushed
  · apply reads_single (by decide)
    apply (reads_short index).last
    exact reads_lift pushed

theorem reads_wideLiteral
    {literal : Literal}
    {constant : Option PoolIndex}
    (names : Names (Literal.resolve context.pool) literal constant) :
    Reads context.instruction (withConstant 0x14 constant)
      (Instruction.pushLiteral literal).normalize := by
  obtain ⟨index, rfl, resolved⟩ := names
  have pushed : context.literal index = .ok (Instruction.pushLiteral literal).normalize := by
    rw [InstructionContext.literal, resolved, ok_bind]
    cases literal <;> rfl
  apply reads_single (by decide)
  apply (reads_short index).last
  exact reads_lift pushed

theorem reads_refType
    {type : RefType}
    {constant : Option PoolIndex}
    (names : Names (RefType.resolve context.pool) type constant) :
    Reads context.refType (write (constant.getD 0)) type := by
  obtain ⟨index, rfl, resolved⟩ := names
  exact (reads_short index).last (reads_lift resolved)

theorem reads_className
    {name : BinaryName}
    {constant : Option PoolIndex}
    (names : Names (BinaryName.resolve context.pool) name constant) :
    Reads context.className (write (constant.getD 0)) name := by
  obtain ⟨index, rfl, resolved⟩ := names
  exact (reads_short index).last (reads_lift resolved)

theorem reads_field
    {access : FieldAccess}
    {member : FieldRef}
    {constant : Option PoolIndex}
    (names : Names (FieldRef.resolve context.pool) member constant) :
    Reads context.instruction (withConstant access.opcode constant) (.field access member) := by
  obtain ⟨index, rfl, resolved⟩ := names
  have reads : Reads (context.field access) (write index) (.field access member) :=
    (reads_short index).last ((reads_lift resolved).last (reads_pure _))
  cases access <;> exact reads_single (by decide) reads

theorem reads_invoke
    {kind : CallKind}
    (notInterface : kind ≠ .interface)
    {method : MethodRef}
    {constant : Option PoolIndex}
    (names : Names (MethodRef.resolve context.pool) method constant) :
    Reads context.instruction (withConstant kind.opcode constant) (.invoke kind method) := by
  obtain ⟨index, rfl, resolved⟩ := names
  have reads : Reads (context.invoke kind) (write index) (.invoke kind method) := by
    apply (reads_short index).last
    apply (reads_lift resolved).last
    dsimp only
    rw [if_neg notInterface]
    exact reads_pure _
  cases kind with
  | interface => exact absurd rfl notInterface
  | _ => exact reads_single (by decide) reads

theorem reads_invokeInterface
    {method : MethodRef}
    {constant : Option PoolIndex}
    (slots : UInt8)
    (names : Names (MethodRef.resolve context.pool) method constant) :
    Reads context.instruction (withConstant CallKind.interface.opcode constant ++ [slots, 0])
      (.invoke .interface method) := by
  obtain ⟨index, rfl, resolved⟩ := names
  have reads : Reads (context.invoke .interface) (write index ++ [slots, 0])
      (.invoke .interface method) := by
    apply (reads_short index).bind
    apply (reads_lift resolved).bind
    have padded : Reads context.short [slots, 0] (slots.toUInt16 <<< 8 ||| (0 : UInt8).toUInt16) :=
      fun _ _ => rfl
    exact padded.last (reads_pure _)
  exact reads_single (by decide) reads

theorem reads_invokeDynamic
    {call : DynamicCall}
    {constant : Option PoolIndex}
    (names : Names (DynamicCall.resolve context.pool) call constant) :
    Reads context.instruction (withConstant 0xba constant ++ [0, 0]) (.invokeDynamic call) := by
  obtain ⟨index, rfl, resolved⟩ := names
  have reads : Reads context.invokeDynamic (write index ++ [0, 0]) (.invokeDynamic call) := by
    apply (reads_short index).bind
    apply (reads_short 0).last
    exact (reads_lift resolved).last (reads_pure _)
  exact reads_single (by decide) reads

/-! ## Local variables -/

theorem reads_shortAccess
    {kind : LocalKind}
    {slot : UInt16}
    (small : slot ≤ 3) :
    context.afterOpcode (0x1a + kind.code * 4 + slot.toUInt8) = pure (.load kind slot) ∧
      context.afterOpcode (0x3b + kind.code * 4 + slot.toUInt8) = pure (.store kind slot) := by
  have smallNat : slot.toNat ≤ 3 := UInt16.le_iff_toNat_le.mp small
  have named : ∀ number : UInt16, slot.toNat = number.toNat → slot = number :=
    fun _ equal => UInt16.toNat_inj.mp equal
  have isOne : slot.toNat = 0 ∨ slot.toNat = 1 ∨ slot.toNat = 2 ∨ slot.toNat = 3 := by omega
  rcases isOne with isOne | isOne | isOne | isOne
  · rw [named 0 isOne]; cases kind <;> exact ⟨rfl, rfl⟩
  · rw [named 1 isOne]; cases kind <;> exact ⟨rfl, rfl⟩
  · rw [named 2 isOne]; cases kind <;> exact ⟨rfl, rfl⟩
  · rw [named 3 isOne]; cases kind <;> exact ⟨rfl, rfl⟩

theorem reads_load
    (kind : LocalKind)
    (slot : UInt16) :
    Reads context.instruction (localAccessBytes 0x15 0x1a kind slot) (.load kind slot) := by
  unfold localAccessBytes
  split
  · rename_i small
    exact reads_of_pure (reads_shortAccess small).1
  · split
    · rename_i small
      have after : context.afterOpcode (0x15 + kind.code) =
          (do return .load kind (← context.byte).toUInt16) := by
        cases kind <;> rfl
      apply reads_instruction
      rw [after]
      apply (reads_byte slot.toUInt8).last
      rw [toUInt16_toUInt8 small]
      exact reads_pure _
    · have reads : Reads context.wideAccess ((0x15 + kind.code) :: write slot)
          (.load kind slot) := by
        apply (reads_byte (0x15 + kind.code)).bind
        apply (reads_short slot).last
        cases kind <;> exact reads_pure _
      exact reads_single (by decide) reads

theorem reads_store
    (kind : LocalKind)
    (slot : UInt16) :
    Reads context.instruction (localAccessBytes 0x36 0x3b kind slot) (.store kind slot) := by
  unfold localAccessBytes
  split
  · rename_i small
    exact reads_of_pure (reads_shortAccess small).2
  · split
    · rename_i small
      have after : context.afterOpcode (0x36 + kind.code) =
          (do return .store kind (← context.byte).toUInt16) := by
        cases kind <;> rfl
      apply reads_instruction
      rw [after]
      apply (reads_byte slot.toUInt8).last
      rw [toUInt16_toUInt8 small]
      exact reads_pure _
    · have reads : Reads context.wideAccess ((0x36 + kind.code) :: write slot)
          (.store kind slot) := by
        apply (reads_byte (0x36 + kind.code)).bind
        apply (reads_short slot).last
        cases kind <;> exact reads_pure _
      exact reads_single (by decide) reads

theorem reads_increment
    {slot : UInt16}
    {amount : Int16}
    (small : isWideIncrement slot amount = false) :
    Reads context.instruction ([0x84, slot.toUInt8] ++ write amount.toInt8)
      (.increment slot amount) := by
  rw [isWideIncrement, Bool.not_eq_false', Bool.and_eq_true, decide_eq_true_iff] at small
  apply reads_single (by decide)
  apply (reads_byte slot.toUInt8).bind
  apply (reads_signedByte amount.toInt8).last
  rw [toUInt16_toUInt8 small.1, toInt16_toInt8 small.2]
  exact reads_pure _

theorem reads_wideIncrement
    (slot : UInt16)
    (amount : Int16) :
    Reads context.instruction ([0xc4, 0x84] ++ write slot ++ write amount)
      (.increment slot amount) := by
  have reads : Reads context.wideAccess (0x84 :: (write slot ++ write amount))
      (.increment slot amount) := by
    apply (reads_byte 0x84).bind
    apply (reads_short slot).bind
    exact (reads_signedShort amount).last (reads_pure _)
  exact reads_single (by decide) reads

/-! ## Jumps -/

theorem reads_branch
    (condition : Condition)
    {bytes : Bytes}
    {target : Nat}
    (reads : Reads context.shortTarget bytes target) :
    Reads context.instruction (condition.opcode :: bytes) (.branch condition target) := by
  have after : context.afterOpcode condition.opcode =
      (do return .branch condition (← context.shortTarget)) := by
    cases condition <;> rename_i comparison <;> cases comparison <;> rfl
  apply reads_instruction
  rw [after]
  exact reads.last (reads_pure _)

theorem reads_goto
    {bytes : Bytes}
    {target : Nat}
    (reads : Reads context.shortTarget bytes target) :
    Reads context.instruction (0xa7 :: bytes) (.goto target) :=
  reads_single (by decide) (reads.last (reads_pure _))

theorem reads_wideGoto
    {bytes : Bytes}
    {target : Nat}
    (reads : Reads context.wideTarget bytes target) :
    Reads context.instruction (0xc8 :: bytes) (.goto target) :=
  reads_single (by decide) (reads.last (reads_pure _))

theorem reads_tableSwitch
    {defaultBytes : Bytes}
    {default : Nat}
    (readsDefault : Reads context.wideTarget defaultBytes default)
    {chunks : List Bytes}
    {targets : List Nat}
    (readsTargets : List.Forall₂ (Reads context.wideTarget) chunks targets)
    (notEmpty : 0 < targets.length)
    {low : Int32}
    (fits : low.toInt + targets.length - 1 < 2 ^ 31) :
    Reads context.instruction
      (0xaa :: paddingBytes context.start ++ defaultBytes ++ write low ++
        write (low + Int32.ofNat targets.length - 1) ++ chunks.flatten)
      (.tableSwitch default low targets) := by
  have high := toInt_lastKey notEmpty fits
  have ordered : ¬ low + Int32.ofNat targets.length - 1 < low := by
    rw [Int32.lt_iff_toInt_lt, high]
    omega
  have count : ((low + Int32.ofNat targets.length - 1).toInt - low.toInt + 1).toNat =
      targets.length := by
    rw [high]
    omega
  have reads : Reads context.tableSwitch
      (paddingBytes context.start ++ (defaultBytes ++ (write low ++
        (write (low + Int32.ofNat targets.length - 1) ++ chunks.flatten))))
      (.tableSwitch default low targets) := by
    apply reads_padding.bind
    apply readsDefault.bind
    apply (reads_signedWord low).bind
    apply (reads_signedWord (low + Int32.ofNat targets.length - 1)).bind
    rw [if_neg ordered, count]
    exact (reads_times readsTargets).last (reads_pure _)
  have whole := reads_single (show isSingle 0xaa = true by decide) reads
  simpa only [List.append_assoc, List.cons_append] using whole

theorem reads_lookupSwitch
    {defaultBytes : Bytes}
    {default : Nat}
    (readsDefault : Reads context.wideTarget defaultBytes default)
    {chunks : List Bytes}
    {targets : List (Int32 × Nat)}
    (readsTargets : List.Forall₂ (fun chunk (pair : Int32 × Nat) =>
      ∃ bytes, chunk = write pair.1 ++ bytes ∧ Reads context.wideTarget bytes pair.2)
      chunks targets)
    (few : targets.length < 2 ^ 31) :
    Reads context.instruction
      (0xab :: paddingBytes context.start ++ defaultBytes ++
        write (Int32.ofNat targets.length) ++ chunks.flatten)
      (.lookupSwitch default targets) := by
  have count : (Int32.ofNat targets.length).toInt.toNat = targets.length := by
    rw [Int32.toInt_ofNat_of_lt few]
    rfl
  have readsPairs : List.Forall₂ (Reads (do
      let key ← context.signedWord
      let target ← context.wideTarget
      return (key, target))) chunks targets := by
    apply readsTargets.imp
    rintro chunk pair ⟨bytes, rfl, readsTarget⟩
    exact (reads_signedWord pair.1).bind (readsTarget.last (reads_pure _))
  have reads : Reads context.lookupSwitch
      (paddingBytes context.start ++ (defaultBytes ++ (write (Int32.ofNat targets.length) ++
        chunks.flatten)))
      (.lookupSwitch default targets) := by
    apply reads_padding.bind
    apply readsDefault.bind
    apply (reads_signedWord (Int32.ofNat targets.length)).bind
    rw [count]
    exact (reads_times readsPairs).last (reads_pure _)
  have whole := reads_single (show isSingle 0xab = true by decide) reads
  simpa only [List.append_assoc, List.cons_append] using whole

end InstructionContext

end ClosureConversion
