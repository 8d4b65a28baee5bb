import ClosureConversion.Code.CheckedKeys
import ClosureConversion.Proofs.Code.RoundTrip
import ClosureConversion.Proofs.Rewriting.Switches

/-!
Contract: the greatest keys of switches in code that is decoded and encoded again.

Owns:
- readers that move along the bytes of code, and what they find at their places;
- the greatest key of every switch is read from its place, and written to its new place;
- it is computed from left to right within thirty-two bits, unless it is the greatest number of
  these.

Does not own: where switches jump to.
-/

namespace ClosureConversion

/-! ## Places -/

/-- The cursor at an offset of the bytes. -/
def CodeCursor.inside (bytes : Bytes) (offset : Nat) : CodeCursor :=
  ⟨offset, bytes.drop offset⟩

/-- From an offset of the bytes on, the reader moves to a later one, and gives what has a property
there. -/
def ReadsInside
    {α : Type}
    (bytes : Bytes)
    (offset : Nat)
    (Holds : α → Nat → Prop)
    (reader : CodeReader α) : Prop :=
  Ensures (fun result => ∃ next, result.2 = .inside bytes next ∧ Holds result.1 next)
    (reader (.inside bytes offset))

section Readers

variable {α β : Type} {bytes : Bytes} {offset : Nat}

theorem readsInside_pure
    {Holds : α → Nat → Prop}
    {value : α}
    (holds : Holds value offset) :
    ReadsInside bytes offset Holds (pure value) :=
  ensures_ok ⟨offset, rfl, holds⟩

theorem readsInside_throw
    {Holds : α → Nat → Prop}
    {failure : BytecodeError} :
    ReadsInside bytes offset Holds (throw failure) :=
  ensures_error

theorem ReadsInside.bind
    {Comes : α → Nat → Prop}
    {Holds : β → Nat → Prop}
    {first : CodeReader α}
    {second : α → CodeReader β}
    (reads : ReadsInside bytes offset Comes first)
    (readsNext : ∀ value next, Comes value next → ReadsInside bytes next Holds (second value)) :
    ReadsInside bytes offset Holds (first >>= second) := by
  intro result done
  obtain ⟨value, between, isFirst, isSecond⟩ := thread_bind_eq_ok.mp done
  obtain ⟨next, rfl, comes⟩ := reads _ isFirst
  exact readsNext value next comes result isSecond

theorem ReadsInside.imp
    {Comes Holds : α → Nat → Prop}
    {reader : CodeReader α}
    (reads : ReadsInside bytes offset Comes reader)
    (implies : ∀ value next, Comes value next → Holds value next) :
    ReadsInside bytes offset Holds reader := by
  intro result done
  obtain ⟨next, isNext, comes⟩ := reads result done
  exact ⟨next, isNext, implies _ _ comes⟩

/-- From every offset of the bytes, the reader moves to a later one. -/
def Moves (bytes : Bytes) (reader : CodeReader α) : Prop :=
  ∀ offset, ReadsInside bytes offset (fun _ _ => True) reader

/-- Whatever comes first, the result is that of the second reader. -/
theorem Moves.before
    {Holds : β → Nat → Prop}
    {first : CodeReader α}
    {second : α → CodeReader β}
    (moves : Moves bytes first)
    (readsNext : ∀ value next, ReadsInside bytes next Holds (second value)) :
    ReadsInside bytes offset Holds (first >>= second) :=
  (moves offset).bind fun value next _ => readsNext value next

theorem moves_bind
    {first : CodeReader α}
    {second : α → CodeReader β}
    (moves : Moves bytes first)
    (movesNext : ∀ value, Moves bytes (second value)) :
    Moves bytes (first >>= second) :=
  fun _ => moves.before movesNext

theorem readsInside_lift
    {Holds : α → Prop}
    {computation : Except BytecodeError α}
    (ensures : Ensures Holds computation) :
    ReadsInside bytes offset (fun value _ => Holds value) (liftM computation) := by
  intro result done
  obtain ⟨isResult, isPlace⟩ := thread_lift_eq_ok.mp done
  exact ⟨offset, isPlace.symm, ensures result.1 isResult⟩

theorem moves_lift
    (computation : Except BytecodeError α) :
    Moves bytes (liftM computation) :=
  fun _ => readsInside_lift fun _ _ => trivial

end Readers

namespace InstructionContext

variable {bytes : Bytes} {offset : Nat} (context : InstructionContext)

section Operands

variable {α : Type}

/-- An operand is what is written at its place. -/
theorem readsInside_operand
    [Binary α]
    [ExactBinary α]
    {size : Nat}
    (sized : ∀ value : α, (write value).length = size) :
    ReadsInside bytes offset
      (fun value next => next = offset + size ∧ (bytes.drop offset).take size = write value)
      (context.operand size : CodeReader α) := by
  intro result done
  unfold operand at done
  split at done
  · rename_i value rest isRead
    cases done
    have taken : bytes.drop offset = write value ++ rest := eq_write_append isRead
    have isRest : rest = bytes.drop (offset + size) := by
      rw [← List.drop_drop, taken, List.drop_left' (sized value)]
    refine ⟨offset + size, ?_, rfl, ?_⟩
    · rw [isRest]
      rfl
    · rw [taken, List.take_left' (sized value)]
  · cases done

theorem moves_operand
    [Binary α]
    [ExactBinary α]
    {size : Nat}
    (sized : ∀ value : α, (write value).length = size) :
    Moves bytes (context.operand size : CodeReader α) :=
  fun _ => (context.readsInside_operand sized).imp fun _ _ _ => trivial

theorem moves_byte :
    Moves bytes context.byte :=
  context.moves_operand fun _ => rfl

theorem moves_signedByte :
    Moves bytes context.signedByte :=
  context.moves_operand fun _ => rfl

theorem moves_short :
    Moves bytes context.short :=
  context.moves_operand fun _ => rfl

theorem moves_signedShort :
    Moves bytes context.signedShort :=
  context.moves_operand fun _ => rfl

theorem readsInside_signedWord :
    ReadsInside bytes offset
      (fun value next => next = offset + 4 ∧ (bytes.drop offset).take 4 = write value)
      context.signedWord :=
  context.readsInside_operand fun _ => rfl

theorem moves_shortTarget :
    Moves bytes context.shortTarget :=
  moves_bind context.moves_signedShort fun _ => moves_lift _

theorem readsInside_wideTarget :
    ReadsInside bytes offset (fun _ next => next = offset + 4) context.wideTarget := by
  refine context.readsInside_signedWord.bind fun value next reads => ?_
  obtain ⟨rfl, _⟩ := reads
  intro result done
  obtain ⟨_, isPlace⟩ := thread_lift_eq_ok.mp done
  exact ⟨_, isPlace.symm, rfl⟩

theorem moves_wideTarget :
    Moves bytes context.wideTarget :=
  fun _ => context.readsInside_wideTarget.imp fun _ _ _ => trivial

/-- Values of one width each are as many as were asked for, and take that many widths. -/
theorem readsInside_timesFrom
    {reader : CodeReader α}
    {size : Nat}
    (reads : ∀ offset, ReadsInside bytes offset (fun _ next => next = offset + size) reader)
    (count : Nat)
    (before : List α)
    (offset : Nat) :
    ReadsInside bytes offset
      (fun values next => values.length = count + before.length ∧ next = offset + size * count)
      (timesFrom reader count before) := by
  induction count generalizing before offset with
  | zero => exact ensures_ok ⟨offset, rfl, (Nat.zero_add _).symm, rfl⟩
  | succ count inductionHypothesis =>
      intro result done
      unfold timesFrom at done
      split at done
      · rename_i value cursor isRead
        obtain ⟨between, rfl, rfl⟩ := reads offset _ isRead
        obtain ⟨next, isNext, length, isPlace⟩ :=
          inductionHypothesis (value :: before) (offset + size) result done
        rw [List.length_cons] at length
        exact ⟨next, isNext, by omega, by rw [isPlace, Nat.mul_succ]; omega⟩
      · cases done

theorem readsInside_times
    {reader : CodeReader α}
    {size : Nat}
    (reads : ∀ offset, ReadsInside bytes offset (fun _ next => next = offset + size) reader)
    (count : Nat) :
    ReadsInside bytes offset
      (fun values next => values.length = count ∧ next = offset + size * count)
      (times count reader) := by
  refine (readsInside_timesFrom reads count [] offset).bind fun reversed next found => ?_
  exact readsInside_pure ⟨by rw [List.length_reverse]; exact found.1, found.2⟩

theorem readsInside_padding :
    ReadsInside bytes offset (fun _ next => next = offset + switchPadding context.start)
      context.padding := by
  have reads : ∀ offset, ReadsInside bytes offset (fun _ next => next = offset + 1) context.byte :=
    fun offset => (context.readsInside_operand fun _ => rfl).imp fun _ _ found => found.1
  refine (readsInside_times reads _).bind fun _ next found => readsInside_pure ?_
  rw [found.2, Nat.one_mul]

end Operands

end InstructionContext

/-! ## Switches -/

/-- The bytes of the greatest key of a switch over a range of keys at an offset. -/
def lastKeyBytes (bytes : Bytes) (offset : Nat) : Bytes :=
  (bytes.drop (offset + 1 + switchPadding offset + 8)).take 4

/-- If the instruction at the offset is a switch over a range of keys, its greatest key stands in
the bytes. -/
def Instruction.HasKeyAt {Label : Type} (bytes : Bytes) (offset : Nat) : Instruction Label → Prop
  | .tableSwitch _ low targets =>
      ∃ high : Int32, lastKeyBytes bytes offset = write high ∧ targets ≠ [] ∧
        high.toInt = low.toInt + targets.length - 1
  | _ => True

namespace InstructionContext

variable {bytes : Bytes} {offset : Nat} (context : InstructionContext)

theorem readsInside_tableSwitch :
    ReadsInside bytes (context.start + 1)
      (fun instruction _ => instruction.HasKeyAt bytes context.start) context.tableSwitch := by
  unfold tableSwitch
  refine context.readsInside_padding.bind fun _ afterPadding atPadding => ?_
  refine context.readsInside_wideTarget.bind fun default afterDefault atDefault => ?_
  refine context.readsInside_signedWord.bind fun low afterLow ⟨atLow, _⟩ => ?_
  refine context.readsInside_signedWord.bind fun high afterHigh ⟨_, isHigh⟩ => ?_
  split
  · exact readsInside_throw
  · rename_i ordered
    refine (readsInside_times (fun _ => context.readsInside_wideTarget) _).bind
      fun targets _ ⟨length, _⟩ => readsInside_pure ?_
    have place : context.start + 1 + switchPadding context.start + 8 = afterLow := by omega
    rw [Int32.lt_iff_toInt_lt] at ordered
    refine ⟨high, by rw [lastKeyBytes, place]; exact isHigh, fun isEmpty => ?_, by omega⟩
    rw [isEmpty, List.length_nil] at length
    omega

theorem readsInside_invoke
    (kind : CallKind) :
    ReadsInside bytes offset
      (fun instruction _ => instruction.HasKeyAt bytes context.start) (context.invoke kind) := by
  refine context.moves_short.before fun index _ => (moves_lift _).before fun method _ => ?_
  split
  · exact context.moves_short.before fun _ _ => readsInside_pure trivial
  · exact readsInside_pure trivial

theorem readsInside_wideAccess :
    ReadsInside bytes offset
      (fun instruction _ => instruction.HasKeyAt bytes context.start) context.wideAccess := by
  refine context.moves_byte.before fun opcode _ => context.moves_short.before fun slot _ => ?_
  split
  · exact readsInside_pure trivial
  split
  · exact readsInside_pure trivial
  split
  · exact context.moves_signedShort.before fun _ _ => readsInside_pure trivial
  · exact readsInside_throw

theorem moves_padding :
    Moves bytes context.padding :=
  fun _ => context.readsInside_padding.imp fun _ _ _ => trivial

theorem moves_times
    {α : Type}
    {reader : CodeReader α}
    (moves : Moves bytes reader)
    (count : Nat) :
    Moves bytes (times count reader) := by
  have each : ∀ before, Moves bytes (timesFrom reader count before) := by
    induction count with
    | zero => exact fun before offset => ensures_ok ⟨offset, rfl, trivial⟩
    | succ count inductionHypothesis =>
        intro before offset result done
        unfold timesFrom at done
        split at done
        · rename_i value cursor isRead
          obtain ⟨between, rfl, _⟩ := moves offset _ isRead
          exact inductionHypothesis (value :: before) between result done
        · cases done
  exact moves_bind (each []) fun _ _ => readsInside_pure trivial

theorem readsInside_lookupSwitch :
    ReadsInside bytes offset
      (fun instruction _ => instruction.HasKeyAt bytes context.start) context.lookupSwitch := by
  have pair : Moves bytes (do
      let key ← context.signedWord
      let target ← context.wideTarget
      return (key, target)) :=
    moves_bind (context.moves_operand fun _ => rfl) fun _ =>
      moves_bind context.moves_wideTarget fun _ _ => readsInside_pure trivial
  refine context.moves_padding.before fun _ _ => context.moves_wideTarget.before fun _ _ => ?_
  refine Moves.before (context.moves_operand fun _ => rfl) fun count _ => ?_
  exact (moves_times pair _).before fun _ _ => readsInside_pure trivial

theorem readsInside_literal
    (index : PoolIndex) :
    ReadsInside bytes offset (fun instruction _ => instruction.HasKeyAt bytes context.start)
      (liftM (context.literal index) : CodeReader (Instruction Nat)) := by
  refine readsInside_lift (ensures_bind fun found => ?_)
  cases found <;> exact ensures_ok trivial

/-- What follows an opcode that belongs to no family. -/
theorem readsInside_single
    (opcode : UInt8) :
    ReadsInside bytes (context.start + 1)
      (fun instruction _ => instruction.HasKeyAt bytes context.start) (context.single opcode) := by
  unfold single
  -- Only one kind of switch has a greatest key.
  split
  case h_1 => exact context.moves_signedByte.before fun _ _ => readsInside_pure trivial
  case h_2 => exact context.moves_signedShort.before fun _ _ => readsInside_pure trivial
  case h_3 => exact context.moves_byte.before fun index _ => context.readsInside_literal _
  case h_4 => exact context.moves_short.before fun index _ => context.readsInside_literal _
  case h_5 => exact context.moves_short.before fun index _ => context.readsInside_literal _
  case h_6 =>
    exact context.moves_byte.before fun _ _ =>
      context.moves_signedByte.before fun _ _ => readsInside_pure trivial
  case h_7 => exact context.moves_shortTarget.before fun _ _ => readsInside_pure trivial
  case h_8 => exact context.readsInside_tableSwitch
  case h_9 => exact context.readsInside_lookupSwitch
  case h_14 => exact context.readsInside_invoke .virtual
  case h_15 => exact context.readsInside_invoke .special
  case h_16 => exact context.readsInside_invoke .static
  case h_17 => exact context.readsInside_invoke .interface
  case h_18 =>
    exact context.moves_short.before fun _ _ => context.moves_short.before fun _ _ =>
      (moves_lift _).before fun _ _ => readsInside_pure trivial
  case h_20 =>
    refine context.moves_byte.before fun code _ => ?_
    split
    · exact readsInside_pure trivial
    · exact readsInside_throw
  case h_24 => exact context.readsInside_wideAccess
  case h_25 =>
    exact (moves_bind context.moves_short fun _ => moves_lift _).before fun _ _ =>
      context.moves_byte.before fun _ _ => readsInside_pure trivial
  case h_26 => exact context.moves_wideTarget.before fun _ _ => readsInside_pure trivial
  case h_27 => exact readsInside_throw
  -- The others refer to a constant and say nothing else.
  case h_10 | h_11 | h_12 | h_13 =>
    exact context.moves_short.before fun _ _ => (moves_lift _).before fun _ _ =>
      readsInside_pure trivial
  all_goals
    exact (moves_bind context.moves_short fun _ => moves_lift _).before fun _ _ =>
      readsInside_pure trivial

theorem readsInside_instruction :
    ReadsInside bytes context.start
      (fun instruction _ => instruction.HasKeyAt bytes context.start) context.instruction := by
  refine (context.readsInside_operand (α := UInt8) fun _ => rfl).bind fun opcode next found => ?_
  obtain ⟨rfl, _⟩ := found
  unfold afterOpcode
  split
  · rename_i instruction isShort
    unfold shortConstant? at isShort
    split at isShort <;> cases isShort <;> exact readsInside_pure trivial
  split
  · rename_i instruction isAccess
    unfold localAccess? at isAccess
    split at isAccess
    · cases isAccess
      exact readsInside_pure trivial
    · split at isAccess <;> cases isAccess
      exact readsInside_pure trivial
  split
  · exact context.moves_byte.before fun _ _ => readsInside_pure trivial
  split
  · exact context.moves_byte.before fun _ _ => readsInside_pure trivial
  split
  · exact context.moves_shortTarget.before fun _ _ => readsInside_pure trivial
  split
  · exact readsInside_pure trivial
  · exact context.readsInside_single opcode

end InstructionContext

/-! ## Code that is decoded -/

/-- Positions do not matter to the greatest key of a switch. -/
theorem Instruction.hasKeyAt_map
    {Label Other : Type}
    {instruction : Instruction Label}
    {f : Label → Other}
    {bytes : Bytes}
    {offset : Nat} :
    (instruction.map f).HasKeyAt bytes offset ↔ instruction.HasKeyAt bytes offset := by
  cases instruction with
  | tableSwitch default low targets =>
      change (∃ high, _ ∧ _ ∧ _) ↔ ∃ high, _ ∧ _ ∧ _
      simp only [List.length_map, ne_eq, List.map_eq_nil_iff]
  | _ => exact Iff.rfl

/-- The greatest key of every switch stands in the bytes from which the code was read. -/
theorem hasKeyAt_of_readInstructions_eq_ok
    {pool : ConstantPool}
    {codeLength fuel offset : Nat}
    {bytes : Bytes}
    {offsets starts : Array Nat}
    {before instructions : Array (Instruction Nat)}
    (isRead : readInstructions pool codeLength fuel (.inside bytes offset) offsets before =
      .ok (starts, instructions))
    (sameSize : offsets.size = before.size)
    (haveKeys : ∀ (index : Nat) (start : Nat) (instruction : Instruction Nat),
      offsets[index]? = some start → before[index]? = some instruction →
        instruction.HasKeyAt bytes start) :
    starts.size = instructions.size ∧
      ∀ (index : Nat) (start : Nat) (instruction : Instruction Nat),
        starts[index]? = some start → instructions[index]? = some instruction →
          instruction.HasKeyAt bytes start := by
  induction fuel generalizing offset offsets before with
  | zero =>
      cases isRead
      exact ⟨sameSize, haveKeys⟩
  | succ fuel inductionHypothesis =>
      unfold readInstructions at isRead
      split at isRead
      · cases isRead
        exact ⟨sameSize, haveKeys⟩
      · dsimp only at isRead
        split at isRead
        · rename_i instruction cursor isNext
          obtain ⟨next, rfl, hasKey⟩ :=
            (InstructionContext.mk offset codeLength pool).readsInside_instruction _ isNext
          refine inductionHypothesis isRead (by rw [Array.size_push, Array.size_push, sameSize])
            fun index start other isStart isOther => ?_
          rw [Array.getElem?_push, sameSize] at isStart
          rw [Array.getElem?_push] at isOther
          split at isStart
          · rename_i isLast
            rw [if_pos isLast] at isOther
            cases isStart
            cases isOther
            exact hasKey
          · rename_i isEarlier
            rw [if_neg isEarlier] at isOther
            exact haveKeys index start other isStart isOther
        · cases isRead

/-- The greatest key of every switch in code that is decoded stands in the bytes. -/
theorem hasKeyAt_of_decodeCode_eq_ok
    {bytes : Bytes}
    {pool : ConstantPool}
    {decoded : DecodedCode}
    (isDecoded : decodeCode bytes pool = .ok decoded)
    {index : Nat}
    {instruction : Instruction Nat}
    (stands : decoded.instructions[index]? = some instruction) :
    ∃ offset, decoded.offsets[index]? = some offset ∧ instruction.HasKeyAt bytes offset := by
  unfold decodeCode at isDecoded
  obtain ⟨⟨starts, found⟩, isFound, isDecoded⟩ := bind_eq_ok.mp isDecoded
  replace isFound : readInstructions pool bytes.length bytes.length (.inside bytes 0) #[] #[] =
    .ok (starts, found) := isFound
  obtain ⟨sameSize, haveKeys⟩ := hasKeyAt_of_readInstructions_eq_ok isFound rfl
    fun index start instruction isStart => nomatch isStart
  dsimp only at isDecoded
  split at isDecoded
  · cases isDecoded
  · cases isDecoded
    rw [Array.getElem?_map, Option.map_eq_some_iff] at stands
    obtain ⟨original, isOriginal, rfl⟩ := stands
    obtain ⟨inside, _⟩ := Array.getElem?_eq_some_iff.mp isOriginal
    obtain ⟨start, isStart⟩ : ∃ start, starts[index]? = some start :=
      ⟨_, Array.getElem?_eq_getElem (by omega)⟩
    refine ⟨start, ?_,
      Instruction.hasKeyAt_map.mpr (haveKeys index start original isStart isOriginal)⟩
    rw [Array.getElem?_push, if_neg (by omega)]
    exact isStart

/-! ## Code that is encoded -/

/-- An instruction that is linked has the constant that its bytes need. -/
theorem hasConstant_of_internConstant_eq_ok
    {instruction : Instruction Nat}
    {constant : Option PoolIndex}
    {before after : ConstantPool}
    (linked : instruction.internConstant before = .ok constant after) :
    Linked.HasConstant ⟨instruction, constant⟩ := by
  have isSome : ∀ {work : PoolM PoolIndex}, (some <$> work) before = .ok constant after →
      constant.isSome = true := by
    intro work done
    obtain ⟨index, _, _, equal⟩ := run_bind_eq_ok.mp (map_eq_pure_bind some work ▸ done)
    obtain ⟨rfl, _⟩ := run_pure_eq_ok.mp equal
    rfl
  cases instruction with
  | pushInt value =>
      by_cases fits : fitsShort value.toInt = true
      · exact .inl fits
      · replace linked : (if fitsShort value.toInt = true then pure none
            else some <$> (Literal.integer value).intern : PoolM (Option PoolIndex)) before =
              .ok constant after := linked
        rw [if_neg fits] at linked
        exact .inr (isSome linked)
  | pushLiteral literal => exact isSome linked
  | _ => trivial

/-- Encoded code is made of the instructions in their order, each of which has the constant that its
bytes need. -/
theorem exists_placed_of_encodeWithin_eq_ok
    {range : JumpRange}
    {instructions : Array (Instruction Nat)}
    {before after : ConstantPool}
    {code : EncodedCode}
    (encoded : encodeWithin range instructions before = .ok code after) :
    ∃ placed : List (Linked × Bool), code.IsMadeOf range placed ∧
      placed.map (fun item => item.1.instruction) = instructions.toList ∧
      ∀ item ∈ placed, item.1.HasConstant := by
  unfold encodeWithin at encoded
  obtain ⟨items, between, linking, encoded⟩ := run_bind_eq_ok.mp encoded
  obtain ⟨encodedItems, rfl⟩ := run_ofExcept_eq_ok.mp encoded
  rw [Array.mapM_eq_mapM_toList, map_eq_pure_bind] at linking
  obtain ⟨listed, later, linkingList, isArray⟩ := run_bind_eq_ok.mp linking
  obtain ⟨rfl, rfl⟩ := run_pure_eq_ok.mp isArray
  obtain ⟨placed, placedItems, madeOf⟩ := isMadeOf_of_encodeLinked_eq_ok encodedItems
  have isListed : placed.map Prod.fst = listed := placedItems
  have each : List.Forall₂ (fun instruction (item : Linked) =>
      item.instruction = instruction ∧ item.HasConstant) instructions.toList listed := by
    refine (forall₂_of_run_mapM_eq_ok linkingList).imp fun instruction item ⟨_, _, isLinked⟩ => ?_
    obtain ⟨constant, _, isConstant, equal⟩ := run_bind_eq_ok.mp isLinked
    obtain ⟨rfl, _⟩ := run_pure_eq_ok.mp equal
    exact ⟨rfl, hasConstant_of_internConstant_eq_ok isConstant⟩
  refine ⟨placed, madeOf, ?_, fun item member => ?_⟩
  · have same : List.Forall₂ (fun item instruction => item.instruction = instruction) listed
        instructions.toList :=
      (each.imp fun _ _ isItem => isItem.1).flip
    rw [← List.forall₂_map_left_iff, List.forall₂_eq_eq_eq] at same
    rw [← same, ← isListed, List.map_map]
    rfl
  · have inItems : item.1 ∈ listed := isListed ▸ List.mem_map_of_mem member
    obtain ⟨_, _, _, hasConstant⟩ := exists_mem_of_forall₂ each inItems
    exact hasConstant

/-- The bytes of every item stand at its offset. -/
theorem Written.exists_chunk
    {offsets : Array Nat}
    {start : Nat}
    {placed : List (Linked × Bool)}
    {bytes : Bytes}
    (written : Written offsets start placed bytes)
    (haveConstants : ∀ item ∈ placed, item.1.HasConstant)
    {index : Nat}
    {item : Linked × Bool}
    (stands : placed[index]? = some item) :
    ∃ front chunk back, (offsetsFrom start placed)[index]? = some (start + front.length) ∧
      item.1.bytes offsets (start + front.length) item.2 = .ok chunk ∧
      bytes = front ++ (chunk ++ back) := by
  induction written generalizing index with
  | nil => cases stands
  | @cons offset first rest chunk bytes chunkWritten _ inductionHypothesis =>
      cases index with
      | zero =>
          cases stands
          exact ⟨[], chunk, bytes, rfl, chunkWritten, rfl⟩
      | succ index =>
          obtain ⟨front, found, back, isOffset, isFound, rfl⟩ :=
            inductionHypothesis (fun other member => haveConstants other (List.mem_cons_of_mem _ member))
              stands
          have sized := Linked.length_bytes_of_hasConstant (haveConstants _ List.mem_cons_self)
            chunkWritten
          have place : offset + first.1.size offset first.2 + front.length =
              offset + (chunk ++ front).length := by
            rw [List.length_append, sized, Nat.add_assoc]
          refine ⟨chunk ++ front, found, back, ?_, place ▸ isFound, by rw [List.append_assoc]⟩
          rw [offsetsFrom, List.getElem?_cons_succ, isOffset, place]

/-- The greatest key of a switch is written to its place. -/
theorem lastKeyBytes_of_bytes_eq_ok
    {default : Nat}
    {low : Int32}
    {targets : List Nat}
    {constant : Option PoolIndex}
    {offsets : Array Nat}
    {far : Bool}
    {front chunk : Bytes}
    (written : Linked.bytes ⟨.tableSwitch default low targets, constant⟩ offsets front.length far =
      .ok chunk)
    (back : Bytes) :
    lastKeyBytes (front ++ (chunk ++ back)) front.length =
      write (low + Int32.ofNat targets.length - 1) := by
  obtain ⟨defaultBytes, isDefault, written⟩ := bind_eq_ok.mp written
  obtain ⟨chunks, _, written⟩ := bind_eq_ok.mp written
  cases written
  obtain ⟨defaultOffset, _, rfl⟩ := wide_eq_ok isDefault
  have four : ∀ number : Int32, (write number).length = 4 := fun _ => rfl
  have padded : (paddingBytes front.length).length = switchPadding front.length := by
    rw [paddingBytes, List.length_replicate]
  unfold lastKeyBytes
  rw [show front.length + 1 + switchPadding front.length + 8 =
      front.length + (1 + (switchPadding front.length + (4 + 4))) by omega, ← List.drop_drop,
    List.drop_left' rfl, ← List.drop_drop]
  simp only [List.cons_append, List.drop_succ_cons, List.drop_zero, List.append_assoc]
  rw [← List.drop_drop, List.drop_left' padded, ← List.drop_drop, List.drop_left' (four _),
    List.drop_left' (four _), List.take_left' (four _)]

/-! ## Greatest keys -/

theorem fitsWord_iff
    {value : Int} :
    fitsWord value = true ↔ -2147483648 ≤ value ∧ value ≤ 2147483647 := by
  rw [fitsWord, Bool.and_eq_true, decide_eq_true_iff, decide_eq_true_iff]

/-- From left to right, the greatest key of a range is computed within thirty-two bits, unless it is
the greatest number of these. -/
theorem checkedLastKey_eq
    {low high : Int32}
    {count : Nat}
    (notEmpty : 0 < count)
    (few : count < 2 ^ 31)
    (isHigh : high.toInt = low.toInt + count - 1) :
    low + Int32.ofNat count - 1 = high ∧
      checkedLastKey low count =
        if high = Int32.maxValue then .error .sum else .ok high := by
  have highest := Int32.toInt_lt high
  have lowest := Int32.le_toInt low
  have isCount : (Int32.ofNat count).toInt = count := Int32.toInt_ofNat_of_lt few
  have isMax : high = Int32.maxValue ↔ high.toInt = 2147483647 := Int32.toInt_inj.symm
  have computed : low + Int32.ofNat count - 1 = high :=
    Int32.toInt_inj.mp (by rw [toInt_lastKey notEmpty (by omega), isHigh])
  refine ⟨computed, ?_⟩
  unfold checkedLastKey checkedSum
  by_cases greatest : high = Int32.maxValue
  · have isGreatest := isMax.mp greatest
    rw [if_pos greatest, if_neg (by rw [isCount, fitsWord_iff]; omega)]
    rfl
  · have notGreatest := mt isMax.mpr greatest
    have isSum : (low + Int32.ofNat count).toInt = high.toInt + 1 := by
      rw [Int32.toInt_add, isCount, Int.bmod_eq_of_le (by omega) (by omega)]
      omega
    have isOne : (1 : Int32).toInt = 1 := rfl
    rw [if_neg greatest, if_pos (by rw [isCount, fitsWord_iff]; omega), ok_bind,
      checkedDifference, if_pos (by rw [isSum, isOne, fitsWord_iff]; omega), computed]

/-- The targets of a switch in encoded code are few. -/
theorem EncodedCode.IsMadeOf.length_targets_lt
    {code : EncodedCode}
    {range : JumpRange}
    {placed : List (Linked × Bool)}
    (madeOf : code.IsMadeOf range placed)
    {index default : Nat}
    {low : Int32}
    {targets : List Nat}
    {item : Linked × Bool}
    (stands : placed[index]? = some item)
    (isSwitch : item.1.instruction = .tableSwitch default low targets) :
    targets.length < 2 ^ 31 := by
  have limit : maxCodeLength = 65535 := rfl
  obtain ⟨inside, _⟩ := List.getElem?_eq_some_iff.mp stands
  obtain ⟨start, starts⟩ : ∃ start, (offsetsFrom 0 placed)[index]? = some start :=
    ⟨_, List.getElem?_eq_getElem (by rw [length_offsetsFrom]; omega)⟩
  have ends := getElem?_succ_offsetsFrom stands starts
  rw [← madeOf.offsets] at ends
  have notLong := madeOf.notLong _ (List.mem_of_getElem? ends)
  rw [Linked.size, isSwitch] at notLong
  dsimp only at notLong
  omega

/-- **Greatest keys**: the greatest key of every switch in code that is decoded is written as it was
read when the code is encoded again. From left to right, it is computed within thirty-two bits just
if it is not the greatest number of these. -/
theorem keepsLastKeys_of_encodeWithin_eq_ok
    {bytes : Bytes}
    {pool : ConstantPool}
    {decoded : DecodedCode}
    (isDecoded : decodeCode bytes pool = .ok decoded)
    {range : JumpRange}
    {before after : ConstantPool}
    {encoded : EncodedCode}
    (isEncoded : encodeWithin range decoded.instructions before = .ok encoded after)
    {index default : Nat}
    {low : Int32}
    {targets : List Nat}
    (stands : decoded.instructions[index]? = some (.tableSwitch default low targets)) :
    ∃ offset place high,
      decoded.offsets[index]? = some offset ∧ lastKeyBytes bytes offset = write high ∧
      encoded.offsets[index]? = some place ∧ lastKeyBytes encoded.bytes place = write high ∧
      checkedLastKey low targets.length =
        if high = Int32.maxValue then .error .sum else .ok high := by
  obtain ⟨offset, isOffset, high, isRead, notEmpty, isHigh⟩ :=
    hasKeyAt_of_decodeCode_eq_ok isDecoded stands
  obtain ⟨placed, madeOf, instructionsOf, haveConstants⟩ :=
    exists_placed_of_encodeWithin_eq_ok isEncoded
  rw [← Array.getElem?_toList, ← instructionsOf, List.getElem?_map, Option.map_eq_some_iff] at stands
  obtain ⟨item, isItem, isSwitch⟩ := stands
  obtain ⟨front, chunk, back, isPlace, isChunk, written⟩ :=
    madeOf.written.exists_chunk haveConstants isItem
  rw [Nat.zero_add] at isPlace isChunk
  obtain ⟨⟨instruction, constant⟩, far⟩ := item
  subst isSwitch
  obtain ⟨isLast, isChecked⟩ := checkedLastKey_eq (List.length_pos_iff.mpr notEmpty)
    (madeOf.length_targets_lt isItem rfl) isHigh
  refine ⟨offset, front.length, high, isOffset, isRead, ?_, ?_, isChecked⟩
  · rw [← Array.getElem?_toList, madeOf.offsets, isPlace]
  · rw [written, lastKeyBytes_of_bytes_eq_ok isChunk, isLast]

namespace SoleKey

/-- The code of a switch over a range of one key, all of whose targets are the switch. -/
def code (key : Int32) : Bytes :=
  [0xaa, 0, 0, 0, 0, 0, 0, 0] ++ write key ++ write key ++ [0, 0, 0, 0]

/-- The switch. -/
def decoded (key : Int32) : DecodedCode where
  instructions := #[.tableSwitch 0 key [0]]
  offsets := #[0, 20]

/-- What the switch is encoded as. -/
def encoded (key : Int32) : EncodedCode where
  bytes := code key
  offsets := #[0, 20]
  widened := []

theorem decodeCode_least : decodeCode (code Int32.minValue) .empty = .ok (decoded Int32.minValue) := by
  with_unfolding_all rfl

theorem encode_least :
    encode (decoded Int32.minValue).instructions .empty = .ok (encoded Int32.minValue) .empty := by
  with_unfolding_all rfl

theorem decodeCode_greatest :
    decodeCode (code Int32.maxValue) .empty = .ok (decoded Int32.maxValue) := by
  with_unfolding_all rfl

theorem encode_greatest :
    encode (decoded Int32.maxValue).instructions .empty = .ok (encoded Int32.maxValue) .empty := by
  with_unfolding_all rfl

end SoleKey

open SoleKey in
/-- The only key of a switch is written as it was read, if it is the least number of thirty-two
bits. -/
theorem leastKey_isKept :
    decodeCode (code Int32.minValue) .empty = .ok (decoded Int32.minValue) ∧
      encode (decoded Int32.minValue).instructions .empty =
        .ok (encoded Int32.minValue) .empty ∧
      ∃ offset place high,
        (decoded Int32.minValue).offsets[0]? = some offset ∧
        lastKeyBytes (code Int32.minValue) offset = write high ∧
        (encoded Int32.minValue).offsets[0]? = some place ∧
        lastKeyBytes (encoded Int32.minValue).bytes place = write high ∧
        checkedLastKey Int32.minValue 1 =
          if high = Int32.maxValue then .error .sum else .ok high := by
  have stands : (decoded Int32.minValue).instructions[0]? =
      some (.tableSwitch 0 Int32.minValue [0]) := rfl
  exact ⟨decodeCode_least, encode_least,
    keepsLastKeys_of_encodeWithin_eq_ok decodeCode_least encode_least stands⟩

open SoleKey in
/-- The only key of a switch is computed over a number that thirty-two bits do not express, if it is
the greatest one that they express. -/
theorem greatestKey_isExceeded :
    decodeCode (code Int32.maxValue) .empty = .ok (decoded Int32.maxValue) ∧
      encode (decoded Int32.maxValue).instructions .empty =
        .ok (encoded Int32.maxValue) .empty ∧
      (decoded Int32.maxValue).instructions[0]? = some (.tableSwitch 0 Int32.maxValue [0]) ∧
      checkedLastKey Int32.maxValue [0].length = .error .sum :=
  ⟨decodeCode_greatest, encode_greatest, rfl, rfl⟩

end ClosureConversion
