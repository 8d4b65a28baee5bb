import ClosureConversion.Code.Encoding
import ClosureConversion.Proofs.Computation

/-!
Contract: where encoded instructions stand.

Owns:
- the offsets of a layout as sums of sizes, which increase;
- jumps that no layout round has to lengthen any more: all that are still short span
  distances of the range;
- encoded code as the bytes of every item at its offset.

Does not own: what the bytes of an item say.
-/

namespace ClosureConversion

/-! ## Offsets -/

/-- The offsets of items one after another and, last, the offset after them. -/
def offsetsFrom (offset : Nat) : List (Linked × Bool) → List Nat
  | [] => [offset]
  | placed :: rest => offset :: offsetsFrom (offset + placed.1.size offset placed.2) rest

theorem toList_layout
    (items : Array Linked)
    (far : Array Bool) :
    (layout items far).toList = offsetsFrom 0 (items.zip far).toList := by
  suffices general : ∀ (placed : List (Linked × Bool)) (offsets : Array Nat) (offset : Nat),
      let laid := placed.foldl (fun (laid : Array Nat × Nat) (item : Linked × Bool) =>
        (laid.1.push laid.2, laid.2 + item.1.size laid.2 item.2)) (offsets, offset)
      (laid.1.push laid.2).toList = offsets.toList ++ offsetsFrom offset placed by
    have laid := general (items.zip far).toList #[] 0
    rw [Array.foldl_toList] at laid
    exact laid
  intro placed
  induction placed with
  | nil =>
      intro offsets offset
      exact Array.toList_push
  | cons item rest inductionHypothesis =>
      intro offsets offset
      rw [List.foldl_cons]
      have laid := inductionHypothesis (offsets.push offset) (offset + item.1.size offset item.2)
      rw [Array.toList_push, List.append_assoc] at laid
      exact laid

theorem length_offsetsFrom
    (offset : Nat)
    (placed : List (Linked × Bool)) :
    (offsetsFrom offset placed).length = placed.length + 1 := by
  induction placed generalizing offset with
  | nil => rfl
  | cons item rest inductionHypothesis =>
      rw [offsetsFrom, List.length_cons, inductionHypothesis, List.length_cons]

theorem getElem?_zero_offsetsFrom
    (offset : Nat)
    (placed : List (Linked × Bool)) :
    (offsetsFrom offset placed)[0]? = some offset := by
  cases placed <;> rfl

/-- Every item starts where the one before it ends. -/
theorem getElem?_succ_offsetsFrom
    {start offset index : Nat}
    {placed : List (Linked × Bool)}
    {item : Linked × Bool}
    (stands : placed[index]? = some item)
    (starts : (offsetsFrom start placed)[index]? = some offset) :
    (offsetsFrom start placed)[index + 1]? = some (offset + item.1.size offset item.2) := by
  induction placed generalizing start index with
  | nil => cases stands
  | cons first rest inductionHypothesis =>
      cases index with
      | zero =>
          cases stands
          cases starts
          rw [offsetsFrom, List.getElem?_cons_succ, getElem?_zero_offsetsFrom]
      | succ index => exact inductionHypothesis stands starts

theorem Linked.size_pos
    (item : Linked)
    (offset : Nat)
    (far : Bool) :
    0 < item.size offset far := by
  have literalPositive : ∀ constant, 0 < literalSize constant := by
    intro constant
    unfold literalSize
    split
    · split <;> decide
    · decide
  have accessPositive : ∀ slot, 0 < localAccessSize slot := by
    intro slot
    unfold localAccessSize
    split
    · decide
    · split <;> decide
  unfold Linked.size
  split <;> (try split) <;> (try split) <;> (try split) <;>
    first | omega | exact literalPositive _ | exact accessPositive _

/-- The offset of every item lies at or after the first one. -/
theorem le_of_mem_offsetsFrom
    {start offset : Nat}
    {placed : List (Linked × Bool)}
    (member : offset ∈ offsetsFrom start placed) :
    start ≤ offset := by
  induction placed generalizing start with
  | nil => exact Nat.le_of_eq (List.mem_singleton.mp member).symm
  | cons item rest inductionHypothesis =>
      rcases List.mem_cons.mp member with isFirst | inRest
      · exact Nat.le_of_eq isFirst.symm
      · have := inductionHypothesis inRest
        omega

theorem pairwise_offsetsFrom
    (start : Nat)
    (placed : List (Linked × Bool)) :
    (offsetsFrom start placed).Pairwise (· < ·) := by
  induction placed generalizing start with
  | nil => exact List.pairwise_singleton _ _
  | cons item rest inductionHypothesis =>
      refine List.pairwise_cons.mpr ⟨?_, inductionHypothesis _⟩
      intro offset member
      have positive := item.1.size_pos start item.2
      have := le_of_mem_offsetsFrom member
      omega

/-- The last of increasing numbers is the greatest one. -/
theorem le_back_of_mem
    {numbers : Array Nat}
    (increasing : numbers.toList.Pairwise (· < ·))
    {number : Nat}
    (member : number ∈ numbers) :
    number ≤ numbers.back?.getD 0 := by
  obtain ⟨index, inside, rfl⟩ := Array.getElem_of_mem member
  have lastInside : numbers.size - 1 < numbers.size := by omega
  rw [Array.back?, Array.getElem?_eq_getElem lastInside, Option.getD_some]
  rcases Nat.lt_or_ge index (numbers.size - 1) with before | isLast
  · have ordered := List.pairwise_iff_getElem.mp increasing index (numbers.size - 1)
      (by simpa using inside) (by simpa using lastInside) before
    simp only [Array.getElem_toList] at ordered
    omega
  · have : index = numbers.size - 1 := by omega
    subst this
    exact Nat.le_refl _

/-- A jump has a target exactly if it is an instruction and not the end of the code. -/
theorem offsetOf_eq_ok
    {offsets : Array Nat}
    {target offset : Nat} :
    offsetOf offsets target = .ok offset ↔
      offsets[target]? = some offset ∧ target + 1 < offsets.size := by
  unfold offsetOf
  constructor
  · intro found
    split at found
    · rename_i offset next isOffset isNext
      cases found
      obtain ⟨inside, _⟩ := Array.getElem?_eq_some_iff.mp isNext
      exact ⟨isOffset, inside⟩
    · cases found
  · rintro ⟨isOffset, inside⟩
    rw [isOffset, Array.getElem?_eq_getElem inside]

/-! ## Long jumps -/

/-- What a round of the layout says about the jump of an index. -/
theorem farJumps_eq_ok
    {range : JumpRange}
    {items : Array Linked}
    {far farther : Array Bool}
    {offsets : Array Nat}
    (sameSize : far.size = items.size)
    (computed : farJumps range items far offsets = .ok farther) :
    farther.size = items.size ∧
      ∀ index item isFar, items[index]? = some item → far[index]? = some isFar →
        ∃ isFarther, farther[index]? = some isFarther ∧ (isFar = true → isFarther = true) ∧
          (isFarther = false → ∀ target, item.instruction.jumpTarget? = some target →
            ∃ targetOffset, offsetOf offsets target = .ok targetOffset ∧
              range.contains ((targetOffset : Int) - (offsets.getD index 0 : Nat)) = true) := by
  obtain ⟨farSize, each⟩ := mapIdxM_eq_ok computed
  refine ⟨by simpa [sameSize] using farSize, ?_⟩
  intro index item isFar stands isItsFar
  have placed : (items.zip far)[index]? = some (item, isFar) :=
    Array.getElem?_zip_eq_some.mpr ⟨stands, isItsFar⟩
  obtain ⟨isFarther, found, decided⟩ := each index (item, isFar) placed
  refine ⟨isFarther, found, ?_⟩
  dsimp only at decided
  cases isFar with
  | true =>
      cases decided
      exact ⟨fun _ => rfl, fun isShort => (by cases isShort)⟩
  | false =>
      refine ⟨fun isLong => (by cases isLong), ?_⟩
      intro isShort target jumps
      subst isShort
      rw [jumps] at decided
      obtain ⟨targetOffset, isOffset, decided⟩ := bind_eq_ok.mp decided
      refine ⟨targetOffset, isOffset, ?_⟩
      simpa using Except.ok.inj decided

/-- How many jumps a layout could still lengthen. -/
def shortCount (far : Array Bool) : Nat :=
  far.toList.count false

/-- A round that lengthens a jump leaves fewer short ones. -/
theorem shortCount_lt
    {far farther : Array Bool}
    (sameSize : farther.size = far.size)
    (keeps : ∀ index : Nat, far[index]? = some true → farther[index]? = some true)
    (differ : farther ≠ far) :
    shortCount farther < shortCount far := by
  have kept : List.Forall₂ (fun isFar isFarther => isFar = true → isFarther = true)
      far.toList farther.toList := by
    refine List.forall₂_iff_get.mpr ⟨by simpa using sameSize.symm, ?_⟩
    intro index inside insideFarther isLong
    have stands : far[index]? = some true :=
      Array.getElem?_eq_some_iff.mpr ⟨by simpa using inside, by simpa using isLong⟩
    obtain ⟨_, found⟩ := Array.getElem?_eq_some_iff.mp (keeps index stands)
    simpa using found
  suffices general : ∀ {old new : List Bool},
      List.Forall₂ (fun isFar isFarther => isFar = true → isFarther = true) old new →
        new.count false ≤ old.count false ∧ (new ≠ old → new.count false < old.count false) from
    (general kept).2 fun equal => differ (Array.toList_inj.mp equal)
  intro old new kept
  induction kept with
  | nil => exact ⟨Nat.le_refl _, fun differ => absurd rfl differ⟩
  | @cons isFar isFarther old new keeps _ inductionHypothesis =>
      cases isFar with
      | true =>
          rw [keeps rfl]
          simpa using inductionHypothesis
      | false =>
          cases isFarther with
          | true =>
              have := inductionHypothesis.1
              simp only [List.count_cons]
              exact ⟨by simp; omega, fun _ => by simp; omega⟩
          | false => simpa using inductionHypothesis

/-- Enough rounds end in a layout that no further round changes. -/
theorem relax_eq_ok
    {range : JumpRange}
    {items : Array Linked}
    {rounds : Nat}
    {far settled : Array Bool}
    {offsets : Array Nat}
    (sameSize : far.size = items.size)
    (enough : shortCount far < rounds)
    (relaxed : relax range items rounds far = .ok (offsets, settled)) :
    offsets = layout items settled ∧ settled.size = items.size ∧
      farJumps range items settled offsets = .ok settled := by
  induction rounds generalizing far with
  | zero => exact absurd enough (Nat.not_lt_zero _)
  | succ rounds inductionHypothesis =>
      rw [relax] at relaxed
      obtain ⟨farther, isFarther, relaxed⟩ := bind_eq_ok.mp relaxed
      split at relaxed
      · rename_i unchanged
        cases relaxed
        rw [unchanged] at isFarther
        exact ⟨rfl, sameSize, isFarther⟩
      · rename_i changed
        obtain ⟨fartherSize, each⟩ := farJumps_eq_ok sameSize isFarther
        have fewer : shortCount farther < shortCount far := by
          apply shortCount_lt (fartherSize.trans sameSize.symm) _ changed
          intro index isLong
          obtain ⟨inside, _⟩ := Array.getElem?_eq_some_iff.mp isLong
          have stands := Array.getElem?_eq_getElem (show index < items.size by omega)
          obtain ⟨isItsFarther, found, keeps, _⟩ := each index _ true stands isLong
          rw [found, keeps rfl]
        exact inductionHypothesis fartherSize (by omega) relaxed

/-! ## Encoded code -/

/-- The bytes of items at their offsets, one after another. -/
inductive Written (offsets : Array Nat) : Nat → List (Linked × Bool) → Bytes → Prop where
  | nil {offset : Nat} : Written offsets offset [] []
  | cons {offset : Nat} {item : Linked × Bool} {rest : List (Linked × Bool)}
      {chunk bytes : Bytes} :
      item.1.bytes offsets offset item.2 = .ok chunk →
      Written offsets (offset + item.1.size offset item.2) rest bytes →
      Written offsets offset (item :: rest) (chunk ++ bytes)

/-- Code is made of items, of which some are written with long jumps. -/
structure EncodedCode.IsMadeOf
    (code : EncodedCode)
    (range : JumpRange)
    (placed : List (Linked × Bool)) : Prop where
  offsets : code.offsets.toList = offsetsFrom 0 placed
  notLong : ∀ offset ∈ code.offsets.toList, offset ≤ maxCodeLength
  near : ∀ (index : Nat) (item : Linked) (target : Nat), placed[index]? = some (item, false) →
    item.instruction.jumpTarget? = some target →
      ∃ targetOffset, offsetOf code.offsets target = .ok targetOffset ∧
        range.contains ((targetOffset : Int) - (code.offsets.getD index 0 : Nat)) = true
  written : Written code.offsets 0 placed code.bytes
  mem_widened : ∀ index, index ∈ code.widened ↔
    ∃ item : Linked, placed[index]? = some (item, true) ∧ item.instruction.isBranch = true
  widenedOnce : code.widened.Nodup

/-- The bytes that are given for every item by its index, one after another. -/
theorem written_of_chunks
    {offsets : Array Nat}
    {placed : List (Linked × Bool)}
    {chunks : List Bytes}
    (isLayout : offsets.toList = offsetsFrom 0 placed)
    (sameLength : chunks.length = placed.length)
    (each : ∀ (index : Nat) (item : Linked × Bool), placed[index]? = some item →
      ∃ chunk, chunks[index]? = some chunk ∧
        item.1.bytes offsets (offsets.getD index 0) item.2 = .ok chunk) :
    Written offsets 0 placed chunks.flatten := by
  suffices general : ∀ (rest : List (Linked × Bool)) (done : List (Linked × Bool))
      (offset : Nat), placed = done ++ rest → offsets[done.length]? = some offset →
        Written offsets offset rest (chunks.drop done.length).flatten by
    have starts : offsets[0]? = some 0 := by
      rw [← Array.getElem?_toList, isLayout, getElem?_zero_offsetsFrom]
    exact general placed [] 0 rfl starts
  intro rest
  induction rest with
  | nil =>
      intro done offset isPlaced _
      rw [List.append_nil] at isPlaced
      rw [← isPlaced, ← sameLength, List.drop_length]
      exact .nil
  | cons item rest inductionHypothesis =>
      intro done offset isPlaced starts
      have stands : placed[done.length]? = some item := by
        rw [isPlaced]
        simp
      obtain ⟨chunk, isChunk, written⟩ := each done.length item stands
      have here : offsets.getD done.length 0 = offset := by
        rw [Array.getD_eq_getD_getElem?, starts, Option.getD_some]
      obtain ⟨inside, isItsChunk⟩ := List.getElem?_eq_some_iff.mp isChunk
      have next : offsets[(done ++ [item]).length]? =
          some (offset + item.1.size offset item.2) := by
        rw [List.length_append, List.length_singleton, ← Array.getElem?_toList, isLayout]
        apply getElem?_succ_offsetsFrom stands
        rw [← isLayout, Array.getElem?_toList]
        exact starts
      have after := inductionHypothesis (done ++ [item]) _ (by simp [isPlaced]) next
      rw [List.length_append, List.length_singleton] at after
      rw [List.drop_eq_getElem_cons inside, isItsChunk, List.flatten_cons]
      rw [here] at written
      exact .cons written after

/-- Encoded code is made of the items it was encoded from. -/
theorem isMadeOf_of_encodeLinked_eq_ok
    {range : JumpRange}
    {items : Array Linked}
    {code : EncodedCode}
    (encoded : encodeLinked range items = .ok code) :
    ∃ placed : List (Linked × Bool), placed.map Prod.fst = items.toList ∧
      code.IsMadeOf range placed := by
  unfold encodeLinked at encoded
  obtain ⟨⟨offsets, far⟩, relaxed, encoded⟩ := bind_eq_ok.mp encoded
  obtain ⟨isLayout, sameSize, settled⟩ := relax_eq_ok (by simp) (by
    simp [shortCount]) relaxed
  dsimp only at encoded
  split at encoded
  · cases encoded
  rename_i notTooLong
  obtain ⟨chunks, chunksWritten, encoded⟩ := bind_eq_ok.mp encoded
  cases encoded
  obtain ⟨chunkCount, each⟩ := mapIdxM_eq_ok chunksWritten
  obtain ⟨_, jumps⟩ := farJumps_eq_ok sameSize settled
  have isLaidOut : offsets.toList = offsetsFrom 0 (items.zip far).toList := by
    rw [isLayout, toList_layout]
  refine ⟨(items.zip far).toList, ?_, ?_⟩
  · rw [Array.toList_zip, List.map_fst_zip]
    simp [sameSize]
  refine ⟨isLaidOut, ?_, ?_, ?_, ?_, ?_⟩
  · intro offset member
    have isInside : offset ∈ offsets := Array.mem_toList_iff.mp member
    have := le_back_of_mem (isLaidOut ▸ pairwise_offsetsFrom 0 _) isInside
    omega
  · intro index item target stands jumpsTo
    rw [Array.getElem?_toList] at stands
    obtain ⟨itemStands, isShort⟩ := Array.getElem?_zip_eq_some.mp stands
    obtain ⟨stillShort, found, _, near⟩ := jumps index item false itemStands isShort
    rw [isShort, Option.some.injEq] at found
    exact near found.symm target jumpsTo
  · apply written_of_chunks isLaidOut
    · simpa using chunkCount
    · intro index item stands
      rw [Array.getElem?_toList] at stands
      obtain ⟨chunk, isChunk, written⟩ := each index item stands
      exact ⟨chunk, by simpa using isChunk, written⟩
  · intro index
    rw [List.mem_filter, List.mem_range, Array.getElem?_toList]
    constructor
    · rintro ⟨inside, isWidened⟩
      rw [Array.getElem?_eq_getElem inside] at isWidened ⊢
      obtain ⟨isLong, isBranch⟩ := Bool.and_eq_true_iff.mp isWidened
      exact ⟨_, congrArg some (Prod.ext rfl isLong), isBranch⟩
    · rintro ⟨item, stands, isBranch⟩
      obtain ⟨inside, _⟩ := Array.getElem?_eq_some_iff.mp stands
      refine ⟨inside, ?_⟩
      rw [stands]
      exact isBranch
  · exact List.nodup_range.filter _

end ClosureConversion
