import ClosureConversion.Proofs.ClassFile.Constants
import ClosureConversion.Proofs.Code.Rereading

/-!
Contract: code that a class file can hold.

Owns:
- instructions as they stand in code, with the opcodes, the constants and the jumps that they can
  have;
- code that is made of such instructions and jumps to some of them;
- all of it is decoded, apart from subroutines and computed constants, and calls only methods that
  the constants refer to.

Does not own: whether the instructions make sense together.
-/

namespace ClosureConversion

/-! ## Constants of instructions -/

/-- What an instruction takes a constant of the pool for. -/
inductive ConstantUse where
  | value
  | field
  | method
  | class_
  | type

namespace ConstantUse

/-- The opcodes of the instructions that use the constant at a position of two bytes in this way. -/
def opcodes : ConstantUse → List UInt8
  | .value => [0x13, 0x14]
  | .field => [0xb2, 0xb3, 0xb4, 0xb5]
  | .method => [0xb6, 0xb7, 0xb8]
  | .class_ => [0xbb]
  | .type => [0xbd, 0xc0, 0xc1]

/-- A constant for such a use stands at a position of the pool. -/
def Accepts (leeway : Leeway) (pool : ConstantPool) (index : PoolIndex) : ConstantUse → Prop
  | .value => pool.Loads leeway index
  | .field => ∃ owner signature, pool.get index = .ok (.fieldRef owner signature)
  | .method => ∃ owner signature ofInterface,
      pool.get index = .ok (.methodRef owner signature ofInterface)
  | .class_ => ∃ name, pool.SpellsType index (.object name)
  | .type => ∃ name, pool.get index = .ok (.classInfo name)

end ConstantUse

/-! ## Instructions -/

/-- An instruction as it stands in the code of a method: its opcode, unless that is the only one
with such operands, and its operands. -/
inductive StoredInstruction where
  | plain (opcode : UInt8)
  | pushByte (value : Int8)
  | pushShort (value : Int16)
  | load (index : UInt8)
  | withConstant (opcode : UInt8) (index : PoolIndex)
  | withSlot (opcode slot : UInt8)
  | withWideSlot (opcode : UInt8) (slot : UInt16)
  | increment (slot : UInt8) (amount : Int8)
  | wideIncrement (slot : UInt16) (amount : Int16)
  | jump (opcode : UInt8) (distance : Int16)
  | wideJump (opcode : UInt8) (distance : Int32)
  | tableSwitch (padding : Bytes) (default low high : Int32) (distances : List Int32)
  | lookupSwitch (padding : Bytes) (default : Int32) (cases : List (Int32 × Int32))
  | invokeInterface (index : PoolIndex) (slots : UInt8)
  | invokeDynamic (index : PoolIndex)
  | newArray (element : UInt8)
  | newMultiArray (index : PoolIndex) (dimensions : UInt8)

namespace StoredInstruction

/-- The bytes of an instruction. -/
def bytes : StoredInstruction → Bytes
  | .plain opcode => [opcode]
  | .pushByte value => 0x10 :: write value
  | .pushShort value => 0x11 :: write value
  | .load index => [0x12, index]
  | .withConstant opcode index => opcode :: write index
  | .withSlot opcode slot => [opcode, slot]
  | .withWideSlot opcode slot => 0xc4 :: opcode :: write slot
  | .increment slot amount => 0x84 :: slot :: write amount
  | .wideIncrement slot amount => 0xc4 :: 0x84 :: (write slot ++ write amount)
  | .jump opcode distance => opcode :: write distance
  | .wideJump opcode distance => opcode :: write distance
  | .tableSwitch padding default low high distances =>
      0xaa :: (padding ++ (write default ++ (write low ++ (write high ++
        (distances.map write).flatten))))
  | .lookupSwitch padding default cases =>
      0xab :: (padding ++ (write default ++ (write (Int32.ofNat cases.length) ++
        (cases.map write).flatten)))
  | .invokeInterface index slots => 0xb9 :: (write index ++ [slots, 0])
  | .invokeDynamic index => 0xba :: (write index ++ [0, 0])
  | .newArray element => [0xbc, element]
  | .newMultiArray index dimensions => 0xc5 :: (write index ++ [dimensions])

/-- The opcodes of the instructions without operands. -/
def isPlain (opcode : UInt8) : Bool :=
  opcode ≤ 0x0f || (0x1a ≤ opcode && opcode ≤ 0x35) || (0x3b ≤ opcode && opcode ≤ 0x83) ||
    (0x85 ≤ opcode && opcode ≤ 0x98) || (0xac ≤ opcode && opcode ≤ 0xb1) ||
    (0xbe ≤ opcode && opcode ≤ 0xbf) || (0xc2 ≤ opcode && opcode ≤ 0xc3)

/-- The opcodes of the instructions whose only operand is the slot of a local variable. -/
def takesSlot (leeway : Leeway) (opcode : UInt8) : Bool :=
  (0x15 ≤ opcode && opcode ≤ 0x19) || (0x36 ≤ opcode && opcode ≤ 0x3a) ||
    (leeway.subroutines && opcode = 0xa9)

/-- The opcodes of jumps over a distance of two bytes. -/
def isJump (leeway : Leeway) (opcode : UInt8) : Bool :=
  (0x99 ≤ opcode && opcode ≤ 0xa7) || (0xc6 ≤ opcode && opcode ≤ 0xc7) ||
    (leeway.subroutines && opcode = 0xa8)

/-- The opcodes of jumps over a distance of four bytes. -/
def isWideJump (leeway : Leeway) (opcode : UInt8) : Bool :=
  opcode = 0xc8 || (leeway.subroutines && opcode = 0xc9)

/-- Padding after the opcode at an offset, so that what follows starts at a multiple of four. -/
def IsPadding (start : Nat) (padding : Bytes) : Prop :=
  padding.length < 4 ∧ 4 ∣ start + 1 + padding.length

/-- The instruction can stand at an offset of code. -/
def IsLegal (leeway : Leeway) (pool : ConstantPool) (start : Nat) : StoredInstruction → Prop
  | .plain opcode => isPlain opcode = true
  | .pushByte _ | .pushShort _ | .increment _ _ | .wideIncrement _ _ => True
  | .load index => ConstantUse.value.Accepts leeway pool index.toUInt16
  | .withConstant opcode index =>
      ∃ use : ConstantUse, opcode ∈ use.opcodes ∧ use.Accepts leeway pool index
  | .withSlot opcode _ => takesSlot leeway opcode = true
  | .withWideSlot opcode _ => takesSlot leeway opcode = true
  | .jump opcode _ => isJump leeway opcode = true
  | .wideJump opcode _ => isWideJump leeway opcode = true
  | .tableSwitch padding _ low high distances =>
      IsPadding start padding ∧ low ≤ high ∧
        (distances.length : Int) = high.toInt - low.toInt + 1
  | .lookupSwitch padding _ cases => IsPadding start padding ∧ cases.length < 2 ^ 31
  | .invokeInterface index _ => ConstantUse.method.Accepts leeway pool index
  | .invokeDynamic index => ∃ bootstrap signature,
      pool.get index = .ok (.invokeDynamic bootstrap signature)
  | .newArray element => 4 ≤ element ∧ element ≤ 11
  | .newMultiArray index _ => ConstantUse.type.Accepts leeway pool index

/-- How far from its start an instruction jumps. -/
def distances : StoredInstruction → List Int
  | .jump _ distance => [distance.toInt]
  | .wideJump _ distance => [distance.toInt]
  | .tableSwitch _ default _ _ distances => (default :: distances).map Int32.toInt
  | .lookupSwitch _ default cases => (default :: cases.map Prod.snd).map Int32.toInt
  | _ => []

end StoredInstruction

/-! ## Reading -/

/-- What an instruction is read as: it jumps only as far as the instruction does, and calls only a
static method that a constant refers to. -/
structure StoredInstruction.IsReadAs (stored : StoredInstruction) (context : InstructionContext)
    (instruction : Instruction Nat) : Prop where
  reads : Reads context.instruction stored.bytes instruction
  targets : ∀ target ∈ instruction.targets, (target : Int) - context.start ∈ stored.distances
  calls : ∀ called, staticCall? instruction = some called →
    ∃ index, MethodRef.resolve context.pool index = .ok called.2

namespace InstructionContext

variable {context : InstructionContext}

/-- Padding is taken off, whatever bytes it is. -/
theorem reads_padding_of_isPadding
    {padding : Bytes}
    (isPadding : StoredInstruction.IsPadding context.start padding) :
    Reads context.padding padding () := by
  obtain ⟨short, divides⟩ := isPadding
  have isLong : padding.length = switchPadding context.start := by
    unfold switchPadding
    omega
  have eachByte : List.Forall₂ (Reads context.byte) (padding.map fun byte => [byte]) padding :=
    List.forall₂_map_left_iff.mpr (List.forall₂_same.mpr fun byte _ => reads_byte byte)
  have taken := reads_times eachByte
  rw [isLong, ← List.flatMap_def, List.flatMap_singleton'] at taken
  exact taken.last (reads_pure ())

/-- The distance from the instruction leads into the code. -/
def Leads (context : InstructionContext) (distance : Int) : Prop :=
  ∃ target < context.codeLength, (target : Int) = context.start + distance

theorem exists_target_eq_ok
    {distance : Int}
    (leads : context.Leads distance) :
    ∃ target, context.target distance = .ok target ∧
      (target : Int) - context.start = distance := by
  obtain ⟨target, inside, isTarget⟩ := leads
  have isDistance : (target : Int) - context.start = distance := by omega
  exact ⟨target, isDistance ▸ target_eq_ok inside, isDistance⟩

theorem exists_reads_shortTarget
    {distance : Int16}
    (leads : context.Leads distance.toInt) :
    ∃ target, Reads context.shortTarget (write distance) target ∧
      (target : Int) - context.start = distance.toInt := by
  obtain ⟨target, isTarget, isDistance⟩ := exists_target_eq_ok leads
  exact ⟨target, (reads_signedShort distance).last (reads_lift isTarget), isDistance⟩

theorem exists_reads_wideTarget
    {distance : Int32}
    (leads : context.Leads distance.toInt) :
    ∃ target, Reads context.wideTarget (write distance) target ∧
      (target : Int) - context.start = distance.toInt := by
  obtain ⟨target, isTarget, isDistance⟩ := exists_target_eq_ok leads
  exact ⟨target, (reads_signedWord distance).last (reads_lift isTarget), isDistance⟩

end InstructionContext

namespace StoredInstruction

open InstructionContext

section Kinds

variable {context : InstructionContext}

/-- An instruction that neither jumps nor calls is read as whatever its bytes are read as. -/
theorem isReadAs_of_reads
    {stored : StoredInstruction}
    {instruction : Instruction Nat}
    (reads : Reads context.instruction stored.bytes instruction)
    (noTargets : instruction.targets = [])
    (noCall : staticCall? instruction = none) :
    stored.IsReadAs context instruction where
  reads := reads
  targets target member := by
    rw [noTargets] at member
    cases member
  calls called isCall := by
    rw [noCall] at isCall
    cases isCall

/-- The instruction that an opcode stands for by itself. -/
def plain? (opcode : UInt8) : Option (Instruction Nat) :=
  (shortConstant? opcode).or ((localAccess? opcode).or ((Operation.ofOpcode? opcode).map .op))

/-- An opcode belongs to no family of instructions with operands, and stands for an instruction that
neither jumps nor calls. -/
def standsAlone (opcode : UInt8) : Bool :=
  !(0x15 ≤ opcode && opcode ≤ 0x19) && !(0x36 ≤ opcode && opcode ≤ 0x3a) &&
    (Condition.ofOpcode? opcode).isNone &&
      (plain? opcode).any fun instruction =>
        instruction.targets.isEmpty && (staticCall? instruction).isNone

/-- What holds of every number below 256 holds of every byte. -/
theorem forall_byte_of_forall_lt
    {Holds : UInt8 → Prop}
    (each : ∀ number < 256, Holds (UInt8.ofNat number))
    (byte : UInt8) :
    Holds byte := by
  have holds := each byte.toNat byte.toNat_lt
  rwa [UInt8.ofNat_toNat] at holds

theorem standsAlone_of_isPlain :
    ∀ opcode, isPlain opcode = true → standsAlone opcode = true :=
  forall_byte_of_forall_lt (by decide +kernel)

theorem afterOpcode_of_plain?_eq_some
    {opcode : UInt8}
    (noLoad : (0x15 ≤ opcode && opcode ≤ 0x19) = false)
    (noStore : (0x36 ≤ opcode && opcode ≤ 0x3a) = false)
    (noCondition : Condition.ofOpcode? opcode = none)
    {instruction : Instruction Nat}
    (isPlain : plain? opcode = some instruction) :
    context.afterOpcode opcode = pure instruction := by
  unfold afterOpcode
  unfold plain? at isPlain
  cases isConstant : (shortConstant? opcode : Option (Instruction Nat)) with
  | some constant =>
      rw [isConstant] at isPlain
      cases isPlain
      rfl
  | none =>
      cases isAccess : localAccess? opcode with
      | some access =>
          rw [isConstant, isAccess] at isPlain
          cases isPlain
          rfl
      | none =>
          rw [isConstant, isAccess, Option.none_or, Option.none_or, Option.map_eq_some_iff] at isPlain
          obtain ⟨operation, isOperation, rfl⟩ := isPlain
          simp only [noLoad, noStore, noCondition, isOperation]
          rfl

theorem exists_isReadAs_plain
    {opcode : UInt8}
    (legal : isPlain opcode = true) :
    ∃ instruction, (StoredInstruction.plain opcode).IsReadAs context instruction := by
  have alone := standsAlone_of_isPlain opcode legal
  unfold standsAlone at alone
  simp only [Bool.and_eq_true, Bool.not_eq_true', Option.isNone_iff_eq_none,
    Option.any_eq_true] at alone
  obtain ⟨⟨⟨noLoad, noStore⟩, noCondition⟩, instruction, isPlain, noTargets, noCall⟩ := alone
  exact ⟨instruction, isReadAs_of_reads
    (reads_of_pure (afterOpcode_of_plain?_eq_some noLoad noStore noCondition isPlain))
    (List.isEmpty_iff.mp noTargets) noCall⟩

/-- The opcodes of the instructions that are read with a slot are those of a load or a store. -/
theorem exists_kind_of_takesSlot :
    ∀ opcode, takesSlot .none opcode = true →
      ∃ kind ∈ LocalKind.all, opcode = 0x15 + kind.code ∨ opcode = 0x36 + kind.code :=
  forall_byte_of_forall_lt (by decide +kernel)

theorem exists_isReadAs_withSlot
    {opcode : UInt8}
    (legal : takesSlot .none opcode = true)
    (slot : UInt8) :
    ∃ instruction, (StoredInstruction.withSlot opcode slot).IsReadAs context instruction := by
  obtain ⟨kind, _, rfl | rfl⟩ := exists_kind_of_takesSlot opcode legal
  · have after : context.afterOpcode (0x15 + kind.code) =
        (do return .load kind (← context.byte).toUInt16) := by
      cases kind <;> rfl
    refine ⟨.load kind slot.toUInt16, isReadAs_of_reads (reads_instruction ?_) rfl rfl⟩
    rw [after]
    exact (reads_byte slot).last (reads_pure _)
  · have after : context.afterOpcode (0x36 + kind.code) =
        (do return .store kind (← context.byte).toUInt16) := by
      cases kind <;> rfl
    refine ⟨.store kind slot.toUInt16, isReadAs_of_reads (reads_instruction ?_) rfl rfl⟩
    rw [after]
    exact (reads_byte slot).last (reads_pure _)

theorem exists_isReadAs_withWideSlot
    {opcode : UInt8}
    (legal : takesSlot .none opcode = true)
    (slot : UInt16) :
    ∃ instruction, (StoredInstruction.withWideSlot opcode slot).IsReadAs context instruction := by
  obtain ⟨kind, _, rfl | rfl⟩ := exists_kind_of_takesSlot opcode legal
  · refine ⟨.load kind slot, isReadAs_of_reads (reads_single (by decide) ?_) rfl rfl⟩
    apply (reads_byte (0x15 + kind.code)).bind
    apply (reads_short slot).last
    cases kind <;> exact reads_pure _
  · refine ⟨.store kind slot, isReadAs_of_reads (reads_single (by decide) ?_) rfl rfl⟩
    apply (reads_byte (0x36 + kind.code)).bind
    apply (reads_short slot).last
    cases kind <;> exact reads_pure _

/-- The opcodes of the short jumps that are read are those of the conditional jumps and of the one
that is always taken. -/
theorem exists_condition_of_isJump
    {opcode : UInt8}
    (legal : isJump .none opcode = true) :
    opcode = 0xa7 ∨ ∃ condition : Condition, opcode = condition.opcode := by
  have each : ∀ opcode, isJump .none opcode = true → opcode = 0xa7 ∨
      (Condition.ofOpcode? opcode).any (fun condition => opcode = condition.opcode) = true :=
    forall_byte_of_forall_lt (by decide +kernel)
  refine (each opcode legal).imp_right fun isCondition => ?_
  obtain ⟨condition, _, equal⟩ := Option.any_eq_true _ _ |>.mp isCondition
  exact ⟨condition, of_decide_eq_true equal⟩

theorem exists_isReadAs_jump
    {opcode : UInt8}
    (legal : isJump .none opcode = true)
    {distance : Int16}
    (leads : context.Leads distance.toInt) :
    ∃ instruction, (StoredInstruction.jump opcode distance).IsReadAs context instruction := by
  obtain ⟨target, reads, isDistance⟩ := exists_reads_shortTarget leads
  have targets : ∀ other ∈ [target], (other : Int) - context.start ∈ [distance.toInt] := by
    intro other member
    rw [List.mem_singleton.mp member, isDistance]
    exact List.mem_singleton_self _
  rcases exists_condition_of_isJump legal with rfl | ⟨condition, rfl⟩
  · exact ⟨.goto target, reads_goto reads, targets, nofun⟩
  · exact ⟨.branch condition target, reads_branch condition reads, targets, nofun⟩

theorem exists_isReadAs_wideJump
    {opcode : UInt8}
    (legal : isWideJump .none opcode = true)
    {distance : Int32}
    (leads : context.Leads distance.toInt) :
    ∃ instruction, (StoredInstruction.wideJump opcode distance).IsReadAs context instruction := by
  obtain ⟨target, reads, isDistance⟩ := exists_reads_wideTarget leads
  obtain rfl : opcode = 0xc8 := by simpa [isWideJump, Leeway.none] using legal
  refine ⟨.goto target, reads_wideGoto reads, fun other member => ?_, nofun⟩
  rw [List.mem_singleton.mp member, isDistance]
  exact List.mem_singleton_self _

section Constants

variable {index : PoolIndex}

/-- A call calls the method that its constant refers to. -/
theorem isReadAs_invoke
    {stored : StoredInstruction}
    {kind : CallKind}
    {method : MethodRef}
    (resolved : MethodRef.resolve context.pool index = .ok method)
    (reads : Reads context.instruction stored.bytes (.invoke kind method)) :
    stored.IsReadAs context (.invoke kind method) where
  reads := reads
  targets _ member := nomatch member
  calls called isCall := by
    refine ⟨index, resolved.trans ?_⟩
    unfold staticCall? at isCall
    split at isCall
    · rename_i same
      cases same
      split at isCall
      · cases isCall
        rfl
      · cases isCall
    · cases isCall

variable (wellFormed : context.pool.IsWellFormed .none)

include wellFormed

theorem exists_literal_eq_ok
    (loads : context.pool.Loads .none index) :
    ∃ instruction, context.literal index = .ok instruction ∧ instruction.targets = [] ∧
      staticCall? instruction = none := by
  obtain ⟨literal, resolved⟩ := wellFormed.exists_literal loads
  unfold InstructionContext.literal
  rw [resolved, ok_bind]
  cases literal <;> exact ⟨_, rfl, rfl, rfl⟩

theorem exists_isReadAs_withConstant
    {opcode : UInt8}
    {use : ConstantUse}
    (isUse : opcode ∈ use.opcodes)
    (accepts : use.Accepts .none context.pool index) :
    ∃ instruction, (StoredInstruction.withConstant opcode index).IsReadAs context instruction := by
  cases use with
  | value =>
      obtain ⟨instruction, isLiteral, noTargets, noCall⟩ := exists_literal_eq_ok wellFormed accepts
      have reads : Reads (do context.literal (← context.short)) (write index) instruction :=
        (reads_short index).last (reads_lift isLiteral)
      refine ⟨instruction, isReadAs_of_reads ?_ noTargets noCall⟩
      rcases List.mem_pair.mp isUse with rfl | rfl <;> exact reads_single (by decide) reads
  | field =>
      obtain ⟨owner, signature, stands⟩ := accepts
      obtain ⟨field, resolved⟩ := wellFormed.exists_fieldRef stands
      obtain ⟨access, rfl⟩ : ∃ access : FieldAccess, opcode = access.opcode := by
        simp only [ConstantUse.opcodes, List.mem_cons, List.not_mem_nil, or_false] at isUse
        rcases isUse with rfl | rfl | rfl | rfl
        exacts [⟨.getStatic, rfl⟩, ⟨.putStatic, rfl⟩, ⟨.getField, rfl⟩, ⟨.putField, rfl⟩]
      have names : Names (FieldRef.resolve context.pool) field (some index) :=
        ⟨index, rfl, resolved⟩
      have reads : Reads context.instruction
          (ClosureConversion.withConstant access.opcode (some index)) (.field access field) :=
        reads_field names
      exact ⟨.field access field, isReadAs_of_reads reads rfl rfl⟩
  | method =>
      obtain ⟨owner, signature, ofInterface, stands⟩ := accepts
      obtain ⟨method, resolved⟩ := wellFormed.exists_methodRef stands
      obtain ⟨kind, rfl, notInterface⟩ : ∃ kind : CallKind, opcode = kind.opcode ∧
          kind ≠ .interface := by
        simp only [ConstantUse.opcodes, List.mem_cons, List.not_mem_nil, or_false] at isUse
        rcases isUse with rfl | rfl | rfl
        exacts [⟨.virtual, rfl, nofun⟩, ⟨.special, rfl, nofun⟩, ⟨.static, rfl, nofun⟩]
      have names : Names (MethodRef.resolve context.pool) method (some index) :=
        ⟨index, rfl, resolved⟩
      have reads : Reads context.instruction
          (ClosureConversion.withConstant kind.opcode (some index)) (.invoke kind method) :=
        reads_invoke notInterface names
      exact ⟨.invoke kind method, isReadAs_invoke resolved reads⟩
  | class_ =>
      obtain ⟨name, spells⟩ := accepts
      obtain rfl := List.mem_singleton.mp isUse
      have reads : Reads context.className (write index) name :=
        (reads_short index).last (reads_lift (BinaryName.resolve_of_spellsType spells))
      exact ⟨.new name,
        isReadAs_of_reads (reads_single (by decide) (reads.last (reads_pure _))) rfl rfl⟩
  | type =>
      obtain ⟨name, stands⟩ := accepts
      obtain ⟨type, resolved⟩ := wellFormed.exists_refType stands
      have reads : Reads context.refType (write index) type :=
        (reads_short index).last (reads_lift resolved)
      simp only [ConstantUse.opcodes, List.mem_cons, List.not_mem_nil, or_false] at isUse
      rcases isUse with rfl | rfl | rfl
      · exact ⟨.newRefArray type,
          isReadAs_of_reads (reads_single (by decide) (reads.last (reads_pure _))) rfl rfl⟩
      · exact ⟨.checkCast type,
          isReadAs_of_reads (reads_single (by decide) (reads.last (reads_pure _))) rfl rfl⟩
      · exact ⟨.instanceOf type,
          isReadAs_of_reads (reads_single (by decide) (reads.last (reads_pure _))) rfl rfl⟩

end Constants

section Switches

/-- The targets of a switch are read where its distances stand. -/
theorem exists_reads_distances
    {distances : List Int32}
    (lead : ∀ distance ∈ distances, context.Leads distance.toInt) :
    ∃ targets, List.Forall₂ (Reads context.wideTarget) (distances.map write) targets ∧
      targets.length = distances.length ∧
      ∀ target ∈ targets, (target : Int) - context.start ∈ distances.map Int32.toInt := by
  obtain ⟨targets, areRead⟩ := exists_forall₂_of_forall fun distance member =>
    exists_reads_wideTarget (lead distance member)
  refine ⟨targets, List.forall₂_map_left_iff.mpr (areRead.flip.imp fun _ _ isRead => isRead.1),
    areRead.length_eq, fun target member => ?_⟩
  obtain ⟨distance, isDistance, _, equal⟩ := exists_mem_of_forall₂ areRead.flip member
  rw [equal]
  exact List.mem_map_of_mem isDistance

theorem exists_isReadAs_tableSwitch
    {padding : Bytes}
    {default low high : Int32}
    {distances : List Int32}
    (isPadding : IsPadding context.start padding)
    (ordered : low ≤ high)
    (count : (distances.length : Int) = high.toInt - low.toInt + 1)
    (lead : ∀ distance ∈ default :: distances, context.Leads distance.toInt) :
    ∃ instruction,
      (StoredInstruction.tableSwitch padding default low high distances).IsReadAs context
        instruction := by
  obtain ⟨target, readsDefault, isDistance⟩ :=
    exists_reads_wideTarget (lead default List.mem_cons_self)
  obtain ⟨targets, readsTargets, sameCount, areDistances⟩ := exists_reads_distances
    fun distance member => lead distance (List.mem_cons_of_mem _ member)
  have counted : (high.toInt - low.toInt + 1).toNat = targets.length := by omega
  have notBelow : ¬ high < low := Int32.not_lt.mpr ordered
  have reads : Reads context.tableSwitch (padding ++ (write default ++ (write low ++ (write high ++
      (distances.map write).flatten)))) (.tableSwitch target low targets) := by
    apply (reads_padding_of_isPadding isPadding).bind
    apply readsDefault.bind
    apply (reads_signedWord low).bind
    apply (reads_signedWord high).bind
    rw [if_neg notBelow, counted]
    exact (reads_times readsTargets).last (reads_pure _)
  refine ⟨.tableSwitch target low targets, reads_single (by decide) reads, fun other member => ?_,
    nofun⟩
  rcases List.mem_cons.mp member with rfl | isTarget
  · rw [isDistance]
    exact List.mem_cons_self
  · exact List.mem_cons_of_mem _ (areDistances other isTarget)

theorem exists_isReadAs_lookupSwitch
    {padding : Bytes}
    {default : Int32}
    {cases : List (Int32 × Int32)}
    (isPadding : IsPadding context.start padding)
    (few : cases.length < 2 ^ 31)
    (lead : ∀ distance ∈ default :: cases.map Prod.snd, context.Leads distance.toInt) :
    ∃ instruction,
      (StoredInstruction.lookupSwitch padding default cases).IsReadAs context instruction := by
  obtain ⟨target, readsDefault, isDistance⟩ :=
    exists_reads_wideTarget (lead default List.mem_cons_self)
  have eachCase : ∀ entry ∈ cases, ∃ found : Int32 × Nat,
      Reads (do
        let key ← context.signedWord
        let target ← context.wideTarget
        return (key, target)) (write entry) found ∧
      (found.2 : Int) - context.start = entry.2.toInt := by
    intro entry member
    obtain ⟨target, reads, isDistance⟩ := exists_reads_wideTarget
      (lead entry.2 (List.mem_cons_of_mem _ (List.mem_map_of_mem member)))
    exact ⟨(entry.1, target), (reads_signedWord entry.1).bind (reads.last (reads_pure _)),
      isDistance⟩
  obtain ⟨found, areFound⟩ := exists_forall₂_of_forall eachCase
  have counted : (Int32.ofNat cases.length).toInt.toNat = found.length := by
    rw [Int32.toInt_ofNat_of_lt few, areFound.length_eq]
    rfl
  have reads : Reads context.lookupSwitch (padding ++ (write default ++
      (write (Int32.ofNat cases.length) ++ (cases.map write).flatten)))
      (.lookupSwitch target found) := by
    apply (reads_padding_of_isPadding isPadding).bind
    apply readsDefault.bind
    apply (reads_signedWord (Int32.ofNat cases.length)).bind
    rw [counted]
    exact (reads_times (List.forall₂_map_left_iff.mpr
      (areFound.flip.imp fun _ _ isFound => isFound.1))).last (reads_pure _)
  refine ⟨.lookupSwitch target found, reads_single (by decide) reads, fun other member => ?_, nofun⟩
  rcases List.mem_cons.mp member with rfl | isTarget
  · rw [isDistance]
    exact List.mem_cons_self
  · obtain ⟨entry, isEntry, rfl⟩ := List.mem_map.mp isTarget
    obtain ⟨pair, isPair, _, equal⟩ := exists_mem_of_forall₂ areFound.flip isEntry
    rw [equal]
    exact List.mem_cons_of_mem _ (List.mem_map_of_mem (List.mem_map_of_mem isPair))

end Switches

/-- Every type of elements that an array can be made of by its number is known. -/
theorem isSome_ofArrayCode? :
    ∀ element : UInt8, 4 ≤ element ∧ element ≤ 11 → (BaseType.ofArrayCode? element).isSome :=
  forall_byte_of_forall_lt (by decide +kernel)

/-- Every instruction that can stand in code is read, apart from those for subroutines and those
that load computed constants. -/
theorem exists_isReadAs_of_isLegal
    (wellFormed : context.pool.IsWellFormed .none)
    {stored : StoredInstruction}
    (legal : stored.IsLegal .none context.pool context.start)
    (lead : ∀ distance ∈ stored.distances, context.Leads distance) :
    ∃ instruction, stored.IsReadAs context instruction := by
  cases stored with
  | plain opcode => exact exists_isReadAs_plain legal
  | pushByte value =>
      exact ⟨.pushInt value.toInt32, isReadAs_of_reads
        (reads_single (by decide) ((reads_signedByte value).last (reads_pure _))) rfl rfl⟩
  | pushShort value =>
      exact ⟨.pushInt value.toInt32, isReadAs_of_reads
        (reads_single (by decide) ((reads_signedShort value).last (reads_pure _))) rfl rfl⟩
  | load index =>
      obtain ⟨instruction, isLiteral, noTargets, noCall⟩ := exists_literal_eq_ok wellFormed legal
      exact ⟨instruction, isReadAs_of_reads (reads_single (by decide)
        ((reads_byte index).last (reads_lift isLiteral))) noTargets noCall⟩
  | withConstant opcode index =>
      obtain ⟨use, isUse, accepts⟩ := legal
      exact exists_isReadAs_withConstant wellFormed isUse accepts
  | withSlot opcode slot => exact exists_isReadAs_withSlot legal slot
  | withWideSlot opcode slot => exact exists_isReadAs_withWideSlot legal slot
  | increment slot amount =>
      exact ⟨.increment slot.toUInt16 amount.toInt16, isReadAs_of_reads (reads_single (by decide)
        ((reads_byte slot).bind ((reads_signedByte amount).last (reads_pure _)))) rfl rfl⟩
  | wideIncrement slot amount =>
      exact ⟨.increment slot amount, isReadAs_of_reads (reads_wideIncrement slot amount) rfl rfl⟩
  | jump opcode distance =>
      exact exists_isReadAs_jump legal (lead _ (List.mem_singleton_self _))
  | wideJump opcode distance =>
      exact exists_isReadAs_wideJump legal (lead _ (List.mem_singleton_self _))
  | tableSwitch padding default low high distances =>
      obtain ⟨isPadding, ordered, count⟩ := legal
      exact exists_isReadAs_tableSwitch isPadding ordered count fun distance member =>
        lead _ (List.mem_map_of_mem member)
  | lookupSwitch padding default cases =>
      obtain ⟨isPadding, few⟩ := legal
      exact exists_isReadAs_lookupSwitch isPadding few fun distance member =>
        lead _ (List.mem_map_of_mem member)
  | invokeInterface index slots =>
      obtain ⟨owner, signature, ofInterface, stands⟩ := legal
      obtain ⟨method, resolved⟩ := wellFormed.exists_methodRef stands
      have names : Names (MethodRef.resolve context.pool) method (some index) :=
        ⟨index, rfl, resolved⟩
      have reads : Reads context.instruction
          (ClosureConversion.withConstant CallKind.interface.opcode (some index) ++ [slots, 0])
          (.invoke .interface method) := reads_invokeInterface slots names
      exact ⟨.invoke .interface method, isReadAs_invoke resolved reads⟩
  | invokeDynamic index =>
      obtain ⟨bootstrap, signature, stands⟩ := legal
      obtain ⟨call, resolved⟩ := wellFormed.exists_dynamicCall stands
      have names : Names (DynamicCall.resolve context.pool) call (some index) :=
        ⟨index, rfl, resolved⟩
      have reads : Reads context.instruction
          (ClosureConversion.withConstant 0xba (some index) ++ [0, 0]) (.invokeDynamic call) :=
        reads_invokeDynamic names
      exact ⟨.invokeDynamic call, isReadAs_of_reads reads rfl rfl⟩
  | newArray element =>
      obtain ⟨type, isType⟩ := Option.isSome_iff_exists.mp (isSome_ofArrayCode? element legal)
      refine ⟨.newArray type, isReadAs_of_reads (reads_single (by decide)
        ((reads_byte element).last ?_)) rfl rfl⟩
      rw [isType]
      exact reads_pure _
  | newMultiArray index dimensions =>
      obtain ⟨name, stands⟩ := legal
      obtain ⟨type, resolved⟩ := wellFormed.exists_refType stands
      have reads : Reads context.refType (write index) type :=
        (reads_short index).last (reads_lift resolved)
      exact ⟨.newMultiArray type dimensions, isReadAs_of_reads (reads_single (by decide)
        (reads.bind ((reads_byte dimensions).last (reads_pure _)))) rfl rfl⟩

end Kinds

theorem bytes_ne_nil
    (stored : StoredInstruction) :
    stored.bytes ≠ [] := by
  cases stored <;> exact List.cons_ne_nil _ _

/-! ## Code -/

/-- Instructions one after another from an offset on, each with the offset at which it starts. -/
def placedFrom (offset : Nat) : List StoredInstruction → List (Nat × StoredInstruction)
  | [] => []
  | stored :: rest => (offset, stored) :: placedFrom (offset + stored.bytes.length) rest

/-- The offsets at which the instructions of code start, and the one at which the code ends. -/
def offsets (instructions : List StoredInstruction) : Array Nat :=
  ((placedFrom 0 instructions).map Prod.fst).toArray.push (instructions.flatMap bytes).length

/-- The instructions start at increasing offsets, from the first one on and before the end. -/
theorem pairwise_placedFrom
    (offset : Nat)
    (instructions : List StoredInstruction) :
    ((placedFrom offset instructions).map Prod.fst).Pairwise (· < ·) ∧
      ∀ start ∈ (placedFrom offset instructions).map Prod.fst,
        offset ≤ start ∧ start < offset + (instructions.flatMap bytes).length := by
  induction instructions generalizing offset with
  | nil => exact ⟨.nil, fun _ member => nomatch member⟩
  | cons stored rest inductionHypothesis =>
      obtain ⟨increasing, within⟩ := inductionHypothesis (offset + stored.bytes.length)
      have positive := List.length_pos_iff.mpr stored.bytes_ne_nil
      rw [placedFrom, List.map_cons, List.pairwise_cons, List.flatMap_cons, List.length_append]
      refine ⟨⟨fun start member => ?_, increasing⟩, fun start member => ?_⟩
      · have := within start member
        omega
      · rcases List.mem_cons.mp member with rfl | isLater
        · omega
        · have := within start isLater
          omega

end StoredInstruction

open StoredInstruction in
/-- The bytes are those of instructions that can stand where they do, and each of which jumps only
to the start of one of them. -/
structure IsCode (leeway : Leeway) (pool : ConstantPool) (bytes : Bytes)
    (instructions : List StoredInstruction) : Prop where
  bytes : bytes = instructions.flatMap StoredInstruction.bytes
  legal : ∀ entry ∈ placedFrom 0 instructions, entry.2.IsLegal leeway pool entry.1
  jumps : ∀ entry ∈ placedFrom 0 instructions, ∀ distance ∈ entry.2.distances,
    ∃ target ∈ (placedFrom 0 instructions).map Prod.fst, (target : Int) = entry.1 + distance

namespace StoredInstruction

/-- Instructions one after another are read as instructions that start where they do. -/
theorem exists_decodes_placedFrom
    {pool : ConstantPool}
    (wellFormed : pool.IsWellFormed .none)
    {codeLength offset : Nat}
    {instructions : List StoredInstruction}
    (legal : ∀ entry ∈ placedFrom offset instructions, entry.2.IsLegal .none pool entry.1)
    (lead : ∀ entry ∈ placedFrom offset instructions, ∀ distance ∈ entry.2.distances,
      (InstructionContext.mk entry.1 codeLength pool).Leads distance) :
    ∃ found, Decodes pool codeLength offset (instructions.flatMap bytes) found ∧
      List.Forall₂ (fun entry placed => entry.1 = placed.1 ∧
        placed.2.IsReadAs ⟨placed.1, codeLength, pool⟩ entry.2) found
        (placedFrom offset instructions) := by
  induction instructions generalizing offset with
  | nil => exact ⟨[], .nil, .nil⟩
  | cons stored rest inductionHypothesis =>
      obtain ⟨found, decodes, areRead⟩ := inductionHypothesis
        (fun entry member => legal entry (List.mem_cons_of_mem _ member))
        (fun entry member => lead entry (List.mem_cons_of_mem _ member))
      obtain ⟨instruction, isRead⟩ := exists_isReadAs_of_isLegal wellFormed
        (legal _ List.mem_cons_self) (lead _ List.mem_cons_self)
      exact ⟨(offset, instruction) :: found,
        .cons isRead.reads stored.bytes_ne_nil decodes, .cons ⟨rfl, isRead⟩ areRead⟩

end StoredInstruction

open StoredInstruction in
/-- All code is decoded that needs no leeway. The starts of its instructions and its end are found
then, and the static methods that it calls are ones that constants refer to. -/
theorem IsCode.exists_decodeCode
    {pool : ConstantPool}
    (wellFormed : pool.IsWellFormed .none)
    {bytes : Bytes}
    {instructions : List StoredInstruction}
    (isCode : IsCode .none pool bytes instructions) :
    ∃ decoded, decodeCode bytes pool = .ok decoded ∧
      (∀ offset ∈ offsets instructions, ∃ index, decoded.indexOf? offset = some index) ∧
      ∀ instruction ∈ decoded.instructions, ∀ called, staticCall? instruction = some called →
        ∃ index, MethodRef.resolve pool index = .ok called.2 := by
  obtain ⟨increasing, within⟩ := pairwise_placedFrom 0 instructions
  unfold offsets
  rw [← isCode.bytes] at within ⊢
  have leads : ∀ entry ∈ placedFrom 0 instructions, ∀ distance ∈ entry.2.distances,
      (InstructionContext.mk entry.1 bytes.length pool).Leads distance := by
    intro entry member distance isDistance
    obtain ⟨target, isStart, equal⟩ := isCode.jumps entry member distance isDistance
    have inside : target < bytes.length := by
      have below := (within target isStart).2
      omega
    exact ⟨target, inside, equal⟩
  obtain ⟨found, decodes, areRead⟩ := exists_decodes_placedFrom wellFormed isCode.legal leads
  rw [← isCode.bytes] at decodes
  have sameStarts : found.map Prod.fst = (placedFrom 0 instructions).map Prod.fst := by
    rw [← List.forall₂_eq_eq_eq]
    exact List.forall₂_map_left_iff.mpr (List.forall₂_map_right_iff.mpr
      (areRead.imp fun _ _ isRead => isRead.1))
  rw [← sameStarts] at increasing within ⊢
  have allIncreasing : ((found.map Prod.fst).toArray.push bytes.length).toList.Pairwise (· < ·) := by
    rw [Array.toList_push, List.pairwise_append]
    refine ⟨increasing, List.pairwise_singleton _ _, fun start member last isLast => ?_⟩
    have inside := (within start member).2
    rw [List.mem_singleton.mp isLast]
    omega
  refine ⟨_, decodeCode_eq_ok decodes fun entry member target isTarget => ?_, fun offset member => ?_,
    fun instruction member called isCall => ?_⟩
  · obtain ⟨placed, isPlaced, sameStart, isRead⟩ := exists_mem_of_forall₂ areRead.flip member
    obtain ⟨other, isStart, equal⟩ := isCode.jumps placed isPlaced _ (isRead.targets target isTarget)
    rw [← sameStarts] at isStart
    obtain rfl : target = other := by
      dsimp only at equal
      omega
    obtain ⟨index, stands⟩ := List.mem_iff_getElem?.mp isStart
    exact ⟨index, indexOfOffset?_eq_some increasing (by rwa [List.getElem?_toArray])⟩
  · obtain ⟨index, inside, stands⟩ := Array.mem_iff_getElem.mp member
    exact ⟨index, indexOfOffset?_eq_some allIncreasing (Array.getElem?_eq_some_iff.mpr ⟨inside, stands⟩)⟩
  · obtain ⟨original, isOriginal, rfl⟩ := List.mem_map.mp (List.mem_toArray.mp member)
    obtain ⟨entry, isEntry, rfl⟩ := List.mem_map.mp isOriginal
    obtain ⟨placed, _, _, isRead⟩ := exists_mem_of_forall₂ areRead.flip isEntry
    rw [staticCall?_map] at isCall
    exact isRead.calls called isCall

end ClosureConversion
