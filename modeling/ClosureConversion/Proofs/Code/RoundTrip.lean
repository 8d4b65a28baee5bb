import ClosureConversion.Proofs.Code.Emission

/-!
Contract: encoded code is decoded to the instructions it was encoded from.

Owns:
- that encoded code is made of its instructions, each of which is linked;
- the decoding of bytes that are read as instructions with jumps among them;
- that decoding gives encoded instructions back, and where it does not.

Does not own: what the items of encoded code are decoded as.
-/

namespace ClosureConversion

theorem yields_link
    (instruction : Instruction Nat) :
    Yields (do return ({ instruction, constant := ← instruction.internConstant } : Linked))
      fun final item => item.instruction = instruction ∧
        (item.instruction.CallFits final → item.instruction.IsLinked final item.constant) := by
  apply instruction.yields_internConstant.bind
  intro constant
  exact yields_pure fun final _ linked => ⟨rfl, linked⟩

/-- Encoded code is made of the instructions in their order, each of which is linked with what
it needs, in the pool after encoding and in every pool that extends that one. -/
theorem isMadeOf_of_encodeWithin_eq_ok
    {range : JumpRange}
    {instructions : Array (Instruction Nat)}
    {before after : ConstantPool}
    {code : EncodedCode}
    (consistent : before.IsConsistent)
    (encoded : encodeWithin range instructions before = .ok code after) :
    after.IsConsistent ∧ after.Extends before ∧
      ∃ placed : List (Linked × Bool), code.IsMadeOf range placed ∧
        placed.map (fun item => item.1.instruction) = instructions.toList ∧
        ∀ final : ConstantPool, final.IsConsistent → final.Extends after → ∀ item ∈ placed,
          item.1.instruction.CallFits final →
            item.1.instruction.IsLinked final item.1.constant := by
  unfold encodeWithin at encoded
  obtain ⟨items, between, linking, encoded⟩ := run_bind_eq_ok.mp encoded
  obtain ⟨encodedItems, rfl⟩ := run_ofExcept_eq_ok.mp encoded
  rw [Array.mapM_eq_mapM_toList, map_eq_pure_bind] at linking
  obtain ⟨listed, later, linkingList, isArray⟩ := run_bind_eq_ok.mp linking
  obtain ⟨rfl, rfl⟩ := run_pure_eq_ok.mp isArray
  obtain ⟨afterConsistent, afterExtends, means⟩ :=
    yields_mapM instructions.toList (fun instruction _ => yields_link instruction) before listed
      later consistent linkingList
  obtain ⟨placed, placedItems, madeOf⟩ := isMadeOf_of_encodeLinked_eq_ok encodedItems
  have isListed : placed.map Prod.fst = listed := placedItems
  refine ⟨afterConsistent, afterExtends, placed, madeOf, ?_, ?_⟩
  · have each := means later afterConsistent (.refl later)
    have same : List.Forall₂ (fun item instruction => item.instruction = instruction) listed
        instructions.toList :=
      (each.imp fun _ _ linked => linked.1).flip
    rw [← List.forall₂_map_left_iff, List.forall₂_eq_eq_eq] at same
    rw [← same, ← isListed, List.map_map]
    rfl
  · intro final finalConsistent finalExtends item member
    have inItems : item.1 ∈ listed := isListed ▸ List.mem_map_of_mem member
    obtain ⟨instruction, _, _, linked⟩ :=
      exists_mem_of_forall₂ (means final finalConsistent finalExtends) inItems
    exact linked

/-- Bytes that are read as instructions whose jumps lead to some of them are code. -/
theorem decodeCode_eq_ok
    {pool : ConstantPool}
    {bytes : Bytes}
    {found : List (Nat × Instruction Nat)}
    (decodes : Decodes pool bytes.length 0 bytes found)
    (isFound : ∀ entry ∈ found, ∀ target ∈ entry.2.targets,
      ∃ index, indexOfOffset? (found.map Prod.fst).toArray target = some index) :
    decodeCode bytes pool = .ok {
      instructions := ((found.map Prod.snd).map (Instruction.map fun target =>
        (indexOfOffset? (found.map Prod.fst).toArray target).getD 0)).toArray
      offsets := (found.map Prod.fst).toArray.push bytes.length } := by
  have isRead := readInstructions_eq_ok decodes (Nat.le_refl _) #[] #[]
  rw [Array.empty_append, Array.empty_append] at isRead
  have noBadTarget : ((found.map Prod.snd).toArray.findSome? fun instruction =>
      instruction.targets.find? fun target =>
        !(indexOfOffset? (found.map Prod.fst).toArray target).isSome) = none := by
    rw [Array.findSome?_eq_none_iff]
    intro instruction member
    rw [List.find?_eq_none]
    intro target isTarget
    obtain ⟨entry, isEntry, rfl⟩ := List.mem_map.mp (List.mem_toArray.mp member)
    obtain ⟨index, isIndex⟩ := isFound entry isEntry target isTarget
    rw [isIndex]
    simp
  unfold decodeCode
  dsimp only
  rw [isRead, ok_bind]
  dsimp only
  rw [noBadTarget, List.map_toArray]
  rfl

/-- Code decodes to the instructions it was encoded from, of which a number that was
pushed from the pool is pushed as a number, the keys of a switch are sorted, and a
conditional jump that was too long is the opposite jump over a jump; all jump targets are
shifted accordingly. -/
theorem decodeCode_encodeWithin
    {range : JumpRange}
    (short : -32768 ≤ range.low ∧ range.high ≤ 32767)
    {instructions : Array (Instruction Nat)}
    (switchesFit : ∀ instruction ∈ instructions, instruction.SwitchFits)
    {before after : ConstantPool}
    {code : EncodedCode}
    (consistent : before.IsConsistent)
    (encoded : encodeWithin range instructions before = .ok code after)
    (callsFit : ∀ instruction ∈ instructions, instruction.CallFits after)
    (goesOn : ∀ index ∈ code.widened, index + 1 < instructions.size) :
    ∃ decoded, decodeCode code.bytes after = .ok decoded ∧
      decoded.instructions.toList = code.expansion instructions.toList ∧
      (∀ index ≤ instructions.size, ∃ offset, code.offsets[index]? = some offset ∧
        decoded.offsets[code.shift index]? = some offset) ∧
      code.offsets.back? = some code.bytes.length := by
  obtain ⟨afterConsistent, _, placed, madeOf, instructionsOf, linked⟩ :=
    isMadeOf_of_encodeWithin_eq_ok consistent encoded
  have count : placed.length = instructions.size := by
    have := congrArg List.length instructionsOf
    simpa using this
  have listed : ∀ item ∈ placed, item.1.instruction ∈ instructions := by
    intro item member
    rw [← Array.mem_toList_iff, ← instructionsOf]
    exact List.mem_map_of_mem member
  have itemsLinked : ∀ item ∈ placed, item.1.instruction.IsLinked after item.1.constant :=
    fun item member => linked after afterConsistent (.refl after) item member
      (callsFit _ (listed item member))
  have itemsFit : ∀ item ∈ placed, item.1.instruction.SwitchFits :=
    fun item member => switchesFit _ (listed item member)
  rw [← count] at goesOn ⊢
  have decodes := madeOf.decodes short itemsLinked itemsFit goesOn
  have isLast := madeOf.lastOffset itemsLinked
  let starts := ((emissionFrom (placeIn code.offsets) 0 placed).map Prod.fst).toArray
  have increasing : starts.toList.Pairwise (· < ·) :=
    (pairwise_map_fst_emissionFrom (placeIn code.offsets) 0 placed).1
  have finds : ∀ index offset, index < placed.length → code.offsets[index]? = some offset →
      indexOfOffset? starts offset = some (code.shift index) := by
    intro index offset inside stands
    apply indexOfOffset?_eq_some increasing
    rw [List.getElem?_toArray]
    exact madeOf.getElem?_shift _ inside stands
  refine ⟨_, decodeCode_eq_ok decodes ?_, ?_, ?_, ?_⟩
  · intro entry member target isTarget
    obtain ⟨index, inside, stands⟩ := madeOf.exists_of_mem_targets goesOn member isTarget
    exact ⟨_, finds index target inside stands⟩
  · dsimp only
    rw [← instructionsOf]
    apply map_emissionFrom
    · intro item member target isTarget
      obtain ⟨inside, stands⟩ := madeOf.getElem?_of_mem_targets member isTarget
      rw [finds target _ inside stands, Option.getD_some]
    · intro position item offset stands widened next
      obtain ⟨isLong, isBranch⟩ := Bool.and_eq_true_iff.mp widened
      have listed : position ∈ code.widened :=
        (madeOf.mem_widened position).mpr ⟨item.1, by rw [stands, ← isLong], isBranch⟩
      rw [← madeOf.offsets, Array.getElem?_toList] at next
      rw [finds (position + 1) offset (goesOn position listed) next, Option.getD_some,
        Nat.zero_add]
    · intro position item stands
      rw [Nat.zero_add, madeOf.mem_widened, stands]
      constructor
      · rintro ⟨other, isOther, isBranch⟩
        rw [Option.some.inj isOther]
        exact Bool.and_eq_true_iff.mpr ⟨rfl, isBranch⟩
      · intro widened
        obtain ⟨isLong, isBranch⟩ := Bool.and_eq_true_iff.mp widened
        exact ⟨item.1, by rw [← isLong], isBranch⟩
  · intro index notBeyond
    have total := madeOf.shift_eq notBeyond
    rcases Nat.lt_or_eq_of_le notBeyond with inside | isEnd
    · have offsetInside : index < code.offsets.size := by
        rw [madeOf.offsetCount]
        omega
      have stands := Array.getElem?_eq_getElem offsetInside
      refine ⟨_, stands, ?_⟩
      have found := madeOf.getElem?_shift (placeIn code.offsets) inside stands
      obtain ⟨shiftInside, _⟩ := List.getElem?_eq_some_iff.mp found
      rw [Array.getElem?_push, if_neg, List.getElem?_toArray]
      · exact found
      · rw [List.size_toArray]
        omega
    · refine ⟨_, isEnd ▸ isLast, ?_⟩
      rw [isEnd, List.take_length] at total
      rw [Array.getElem?_push, if_pos]
      rw [List.size_toArray, List.length_map, length_emissionFrom, isEnd]
      exact total
  · rw [Array.back?_eq_getElem?, madeOf.offsetCount, Nat.add_sub_cancel]
    exact isLast

/-- A jump to the start that has to be written as two, before a switch. -/
theorem backwardJump_isDecoded :
    ∃ decoded,
      decodeCode
        [0x00, 0x9a, 0, 8, 0xc8, 0xff, 0xff, 0xff, 0xfc, 0xaa, 0, 0, 0, 0, 0, 19, 0, 0, 0, 7,
          0, 0, 0, 7, 0, 0, 0, 19, 0xb1]
        ConstantPool.empty = .ok decoded ∧
      decoded.instructions.toList =
        [.op .nop, .branch (.zero .notEqual) 3, .goto 0, .tableSwitch 4 7 [4],
          .op (.leave none)] := by
  have encoded : encodeWithin ⟨1, 30⟩
      #[.op .nop, .branch (.zero .equal) 0, .tableSwitch 3 7 [3], .op (.leave none)]
      ConstantPool.empty =
        .ok {
          bytes := [0x00, 0x9a, 0, 8, 0xc8, 0xff, 0xff, 0xff, 0xfc, 0xaa, 0, 0, 0, 0, 0, 19,
            0, 0, 0, 7, 0, 0, 0, 7, 0, 0, 0, 19, 0xb1]
          offsets := #[0, 1, 9, 28, 29]
          widened := [1] } ConstantPool.empty := by
    with_unfolding_all rfl
  obtain ⟨decoded, isDecoded, instructions, _⟩ := decodeCode_encodeWithin (by decide)
    (by simp [Instruction.SwitchFits]) ConstantPool.isConsistent_empty encoded
    (by simp [Instruction.CallFits]) (by decide)
  refine ⟨decoded, isDecoded, ?_⟩
  rw [instructions]
  rfl

/-- A pool that came with one bootstrap method for every number of sixteen bits. Their
handle is missing. -/
def crowdedPool : ConstantPool :=
  ConstantPool.empty.seedBootstraps (List.replicate (2 ^ 16) ⟨100, []⟩)

/-- A dynamic call whose bootstrap method is not in the pool. -/
def lateCall : DynamicCall where
  bootstrap := .field .getStatic ⟨.object, .valueOf, .int⟩
  arguments := []
  name := .valueOf
  type := ⟨[], none⟩

theorem crowdedPool_isConsistent : crowdedPool.IsConsistent where
  ordered := ConstantPool.isConsistent_empty.ordered
  small := ConstantPool.isConsistent_empty.small
  recorded := ConstantPool.isConsistent_empty.recorded

/-- The index of the bootstrap method overflows. -/
theorem lateCall_intern :
    ∃ index after, lateCall.intern crowdedPool = .ok index after ∧
      ∃ failure, DynamicCall.resolve after index = .error failure := by
  have emptyEnd : crowdedPool.constants.endOffset = 1 := rfl
  have limit : ConstantPool.positionLimit = 65535 := rfl
  obtain ⟨handle, withHandle, handleDone, handleEnd, handleSame⟩ :=
    lateCall.bootstrap.fitsIn_intern crowdedPool (by omega)
  obtain ⟨handleConsistent, _, handleMeans⟩ :=
    lateCall.bootstrap.yields_intern _ _ _ crowdedPool_isConsistent handleDone
  obtain ⟨⟨member, handleStands⟩, _⟩ := handleMeans withHandle handleConsistent (.refl _)
  have handleSmall := handleConsistent.lt_endOffset handleStands
  have isNew : withHandle.bootstraps.findIdx? (· = ⟨handle, []⟩) = none := by
    rw [handleSame, List.findIdx?_eq_none_iff]
    intro bootstrap isOld
    rw [List.eq_of_mem_replicate isOld, decide_eq_false_iff_not]
    intro same
    have isHundred : 100 = handle := congrArg BootstrapMethod.handle same
    rw [← isHundred] at handleSmall
    change 100 < _ at handleSmall
    omega
  let withBootstrap : ConstantPool :=
    { withHandle with bootstraps := withHandle.bootstraps ++ [⟨handle, []⟩] }
  have bootstrapDone : ConstantPool.internBootstrap ⟨handle, []⟩ withHandle =
      .ok 0 withBootstrap := by
    have count : withHandle.bootstraps.length = 2 ^ 16 := by
      rw [handleSame]
      exact List.length_replicate
    unfold ConstantPool.internBootstrap
    rw [isNew]
    dsimp only
    rw [count]
    rfl
  obtain ⟨signature, withSignature, signatureDone, signatureEnd, signatureSame⟩ :=
    ConstantPool.fitsIn_internNameAndType lateCall.name.text lateCall.type.descriptor withBootstrap
      (show withHandle.constants.endOffset + 3 ≤ _ by omega)
  have withBootstrapEnd : withBootstrap.constants.endOffset = withHandle.constants.endOffset := rfl
  obtain ⟨index, after, callDone, afterEnd, afterSame⟩ :=
    ConstantPool.fitsIn_intern (.invokeDynamic 0 signature) withSignature
      (show withSignature.constants.endOffset + 1 ≤ _ by omega)
  have argumentsDone : lateCall.arguments.mapM Literal.intern withHandle = .ok [] withHandle := rfl
  have done : lateCall.intern crowdedPool = .ok index after := by
    refine run_bind_eq_ok.mpr ⟨handle, withHandle, handleDone, ?_⟩
    refine run_bind_eq_ok.mpr ⟨[], withHandle, argumentsDone, ?_⟩
    refine run_bind_eq_ok.mpr ⟨0, withBootstrap, bootstrapDone, ?_⟩
    exact run_bind_eq_ok.mpr ⟨signature, withSignature, signatureDone, callDone⟩
  have withBootstrapConsistent : withBootstrap.IsConsistent :=
    ⟨handleConsistent.ordered, handleConsistent.small, handleConsistent.recorded⟩
  have withSignatureConsistent := (ConstantPool.yields_internNameAndType _ _ _ _ _
    withBootstrapConsistent signatureDone).1
  obtain ⟨afterConsistent, _, means⟩ :=
    ConstantPool.yields_intern _ _ _ _ withSignatureConsistent callDone
  have stands := means after afterConsistent (.refl after)
  have first : after.bootstraps[(0 : UInt16).toNat]? = some ⟨100, []⟩ := by
    rw [afterSame, signatureSame]
    change (withHandle.bootstraps ++ [⟨handle, []⟩])[0]? = _
    rw [handleSame]
    change (List.replicate (65535 + 1) (⟨100, []⟩ : BootstrapMethod) ++ _)[0]? = _
    rw [List.replicate_succ]
    rfl
  have missing : ∃ failure, after.get 100 = .error failure := by
    cases found : after.get 100 with
    | error failure => exact ⟨failure, rfl⟩
    | ok constant =>
        have small := afterConsistent.lt_endOffset found
        change 100 < after.constants.endOffset at small
        change after.constants.endOffset ≤ withSignature.constants.endOffset + 1 at afterEnd
        omega
  obtain ⟨failure, missing⟩ := missing
  refine ⟨index, after, done, failure, ?_⟩
  rw [DynamicCall.resolve, stands, ok_bind]
  dsimp only
  rw [first]
  dsimp only
  rw [Handle.resolve, missing]
  rfl

theorem encodeLinked_call
    (call : DynamicCall)
    (index : PoolIndex) :
    encodeLinked JumpRange.short #[⟨.invokeDynamic call, some index⟩] =
      .ok { bytes := 0xba :: write index ++ [0, 0], offsets := #[0, 5], widened := [] } := by
  with_unfolding_all rfl

/-- Two lists that are encoded but not decoded: one that ends with a jump written as two,
and one whose bootstrap method has an index that sixteen bits do not hold. -/
theorem undecodable_isEncoded :
    (ConstantPool.empty.IsConsistent ∧
      ∃ code after, encodeWithin ⟨1, 5⟩ #[.branch (.zero .equal) 0] ConstantPool.empty =
        .ok code after ∧ decodeCode code.bytes after = .error (.invalidJumpTarget 8)) ∧
    (crowdedPool.IsConsistent ∧
      ∃ code after failure,
        encodeWithin JumpRange.short #[.invokeDynamic lateCall] crowdedPool = .ok code after ∧
          decodeCode code.bytes after = .error failure) := by
  refine ⟨⟨ConstantPool.isConsistent_empty, ?_⟩, crowdedPool_isConsistent, ?_⟩
  · have encoded : encodeWithin ⟨1, 5⟩ #[.branch (.zero .equal) 0] ConstantPool.empty =
        .ok {
          bytes := [0x9a, 0, 8, 0xc8, 0xff, 0xff, 0xff, 0xfd]
          offsets := #[0, 8]
          widened := [0] } ConstantPool.empty := by
      with_unfolding_all rfl
    exact ⟨_, _, encoded, rfl⟩
  obtain ⟨index, after, interned, failure, unresolved⟩ := lateCall_intern
  refine ⟨{ bytes := 0xba :: write index ++ [0, 0], offsets := #[0, 5], widened := [] }, after,
    failure, ?_, ?_⟩
  · have linked : (some <$> lateCall.intern : PoolM (Option PoolIndex)) crowdedPool =
        .ok (some index) after := by
      rw [map_eq_pure_bind]
      exact run_bind_eq_ok.mpr ⟨index, after, interned, rfl⟩
    refine run_bind_eq_ok.mpr ⟨#[⟨.invokeDynamic lateCall, some index⟩], after, ?_, ?_⟩
    · rw [Array.mapM_eq_mapM_toList, map_eq_pure_bind]
      refine run_bind_eq_ok.mpr ⟨[⟨.invokeDynamic lateCall, some index⟩], after, ?_, rfl⟩
      rw [List.mapM_cons]
      refine run_bind_eq_ok.mpr ⟨⟨.invokeDynamic lateCall, some index⟩, after, ?_, rfl⟩
      exact run_bind_eq_ok.mpr ⟨some index, after, linked, rfl⟩
    · rw [encodeLinked_call]
      rfl
  · have isError : (InstructionContext.mk 0 5 after).instruction
        ⟨0, 0xba :: (write index ++ [0, 0])⟩ = .error failure := by
      change (InstructionContext.mk 0 5 after).invokeDynamic ⟨1, write index ++ [0, 0]⟩ = _
      unfold InstructionContext.invokeDynamic
      rw [read_bind_of_eq_ok (InstructionContext.reads_short index 1 [0, 0])]
      change ((InstructionContext.mk 0 5 after).short >>= _) ⟨3, write (0 : UInt16) ++ []⟩ = _
      rw [read_bind_of_eq_ok (InstructionContext.reads_short 0 3 []), unresolved]
      rfl
    unfold decodeCode
    dsimp only
    change (readInstructions after 5 5 ⟨0, 0xba :: (write index ++ [0, 0])⟩ #[] #[] >>= _) = _
    rw [readInstructions]
    simp only [isError]
    rfl

end ClosureConversion
