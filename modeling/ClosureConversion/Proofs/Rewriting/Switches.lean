import ClosureConversion.Proofs.ClassFile.Declaring
import ClosureConversion.Proofs.Code.Linking
import ClosureConversion.Proofs.Rewriting.Positions

/-!
Contract: the switches in the methods of a class.

Owns:
- the keys of a switch that is read are those of a range that thirty-two bits can express;
- the switches of rewritten methods are those of the methods, and bridges have none.

Does not own: where switches jump to.
-/

namespace ClosureConversion

/-! ## Readers -/

namespace InstructionContext

theorem gives_timesFrom
    {α : Type}
    (reader : CodeReader α)
    (count : Nat)
    (before : List α) :
    Gives (fun values => values.length = count + before.length) (timesFrom reader count before) := by
  induction count generalizing before with
  | zero => exact fun _ => ensures_ok (Nat.zero_add _).symm
  | succ count inductionHypothesis =>
      intro cursor result done
      unfold timesFrom at done
      split at done
      · rename_i value next _
        have length := inductionHypothesis (value :: before) next result done
        rw [List.length_cons] at length
        omega
      · cases done

/-- There are as many values as were asked for. -/
theorem gives_times
    {α : Type}
    (reader : CodeReader α)
    (count : Nat) :
    Gives (fun values => values.length = count) (times count reader) := by
  refine (gives_timesFrom reader count []).bind fun reversed length => gives_pure ?_
  rw [List.length_reverse, length]
  rfl

variable (context : InstructionContext)

theorem gives_tableSwitch :
    Gives Instruction.SwitchFits context.tableSwitch := by
  unfold tableSwitch
  refine gives_bind fun _ => gives_bind fun default => gives_bind fun low => gives_bind fun high => ?_
  split
  · exact gives_throw
  · rename_i ordered
    refine (gives_times _ _).bind fun targets length => gives_pure ?_
    have lowest := Int32.le_toInt low
    have highest := Int32.toInt_lt high
    rw [Int32.lt_iff_toInt_lt] at ordered
    exact ⟨fun isEmpty => by rw [isEmpty, List.length_nil] at length; omega, by omega⟩

theorem gives_invoke
    (kind : CallKind) :
    Gives Instruction.SwitchFits (context.invoke kind) := by
  refine gives_bind fun _ => gives_bind fun _ => ?_
  split
  · exact gives_bind fun _ => gives_pure trivial
  · exact gives_pure trivial

theorem gives_wideAccess :
    Gives Instruction.SwitchFits context.wideAccess := by
  refine gives_bind fun opcode => gives_bind fun slot => ?_
  split
  · exact gives_pure trivial
  split
  · exact gives_pure trivial
  split
  · exact gives_bind fun _ => gives_pure trivial
  · exact gives_throw

theorem ensures_literal
    (index : PoolIndex) :
    Ensures Instruction.SwitchFits (context.literal index) := by
  refine ensures_bind fun found => ?_
  cases found <;> exact ensures_ok trivial

/-- What follows an opcode that belongs to no family. -/
theorem gives_single
    (opcode : UInt8) :
    Gives Instruction.SwitchFits (context.single opcode) := by
  have literal : ∀ index, Gives Instruction.SwitchFits
      (liftM (context.literal index) : CodeReader (Instruction Nat)) :=
    fun index => gives_lift (context.ensures_literal index)
  unfold single
  -- Only one kind of switch counts its targets.
  split
  case h_3 => exact gives_bind fun index => literal index.toUInt16
  case h_4 => exact gives_bind literal
  case h_5 => exact gives_bind literal
  case h_6 => exact gives_bind fun _ => gives_bind fun _ => gives_pure trivial
  case h_8 => exact context.gives_tableSwitch
  case h_9 =>
    exact gives_bind fun _ => gives_bind fun _ => gives_bind fun _ => gives_bind fun _ =>
      gives_pure trivial
  case h_14 => exact context.gives_invoke .virtual
  case h_15 => exact context.gives_invoke .special
  case h_16 => exact context.gives_invoke .static
  case h_17 => exact context.gives_invoke .interface
  case h_18 =>
    exact gives_bind fun _ => gives_bind fun _ => gives_bind fun _ => gives_pure trivial
  case h_20 =>
    refine gives_bind fun code => ?_
    split
    · exact gives_pure trivial
    · exact gives_throw
  case h_24 => exact context.gives_wideAccess
  case h_25 => exact gives_bind fun _ => gives_bind fun _ => gives_pure trivial
  case h_27 => exact gives_throw
  all_goals
    first
    | exact gives_bind fun _ => gives_pure trivial
    | exact gives_bind fun _ => gives_bind fun _ => gives_pure trivial

theorem gives_instruction :
    Gives Instruction.SwitchFits context.instruction := by
  refine gives_bind fun opcode => ?_
  unfold afterOpcode
  split
  · rename_i instruction isShort
    unfold shortConstant? at isShort
    split at isShort <;> cases isShort <;> exact gives_pure trivial
  split
  · rename_i instruction isAccess
    unfold localAccess? at isAccess
    split at isAccess
    · cases isAccess
      exact gives_pure trivial
    · split at isAccess <;> cases isAccess
      exact gives_pure trivial
  split
  · exact gives_bind fun _ => gives_pure trivial
  split
  · exact gives_bind fun _ => gives_pure trivial
  split
  · exact gives_bind fun _ => gives_pure trivial
  split
  · exact gives_pure trivial
  · exact context.gives_single opcode

end InstructionContext

/-! ## Code -/

/-- Positions do not matter to the keys of a switch. -/
theorem Instruction.switchFits_map
    {Label Other : Type}
    {instruction : Instruction Label}
    {f : Label → Other} :
    (instruction.map f).SwitchFits ↔ instruction.SwitchFits := by
  cases instruction with
  | tableSwitch default low targets =>
      change _ ∧ _ ↔ _ ∧ _
      rw [List.length_map, ne_eq, List.map_eq_nil_iff]
  | _ => exact Iff.rfl

theorem switchFits_of_readInstructions_eq_ok
    {pool : ConstantPool}
    {codeLength fuel : Nat}
    {cursor : CodeCursor}
    {offsets starts : Array Nat}
    {before instructions : Array (Instruction Nat)}
    (isRead : readInstructions pool codeLength fuel cursor offsets before =
      .ok (starts, instructions))
    (fit : ∀ instruction ∈ before, instruction.SwitchFits) :
    ∀ instruction ∈ instructions, instruction.SwitchFits := by
  induction fuel generalizing cursor offsets before with
  | zero =>
      cases isRead
      exact fit
  | succ fuel inductionHypothesis =>
      unfold readInstructions at isRead
      split at isRead
      · cases isRead
        exact fit
      · dsimp only at isRead
        split at isRead
        · rename_i instruction next isNext
          refine inductionHypothesis isRead fun other member => ?_
          rcases Array.mem_push.mp member with isEarlier | rfl
          · exact fit other isEarlier
          · exact InstructionContext.gives_instruction _ cursor _ isNext
        · cases isRead

/-- The switches in code that is decoded have keys of thirty-two bits. -/
theorem switchFits_of_decodeCode_eq_ok
    {bytes : Bytes}
    {pool : ConstantPool}
    {decoded : DecodedCode}
    (isDecoded : decodeCode bytes pool = .ok decoded) :
    ∀ instruction ∈ decoded.instructions, instruction.SwitchFits := by
  unfold decodeCode at isDecoded
  obtain ⟨found, isFound, isDecoded⟩ := bind_eq_ok.mp isDecoded
  dsimp only at isDecoded
  split at isDecoded
  · cases isDecoded
  · cases isDecoded
    intro instruction member
    obtain ⟨original, isOriginal, rfl⟩ := Array.mem_map.mp member
    exact Instruction.switchFits_map.mpr
      (switchFits_of_readInstructions_eq_ok isFound (fun _ isOld => nomatch isOld) original
        isOriginal)

/-! ## Methods -/

/-- Every switch has a target at least. -/
theorem switchFits_of_targets_eq_nil
    {instruction : Instruction Nat}
    (noTargets : instruction.targets = []) :
    instruction.SwitchFits := by
  cases instruction with
  | tableSwitch default low others => cases noTargets
  | _ => trivial

/-- A method that is read has no code, or its instructions are those that its code is decoded
to. -/
theorem Method.decodeCode_of_ofMember?_eq_ok
    {file : ClassFile}
    {member : Member .method}
    {method? : Option Method}
    (isRead : Method.ofMember? file member = .ok method?) :
    (method? = none ∧ member.code? file.pool = .ok none) ∨
      ∃ method code decoded, method? = some method ∧ member.code? file.pool = .ok (some code) ∧
        decodeCode code.bytes file.pool = .ok decoded ∧
        method.instructions = decoded.instructions := by
  unfold Method.ofMember? at isRead
  obtain ⟨code?, isCode, isRead⟩ := bind_eq_ok.mp isRead
  cases code? with
  | none =>
      cases isRead
      exact .inl ⟨rfl, isCode⟩
  | some code =>
      obtain ⟨signature, _, isRead⟩ := bind_eq_ok.mp isRead
      obtain ⟨owner, _, isRead⟩ := bind_eq_ok.mp isRead
      obtain ⟨body, bodyRead, isRead⟩ := bind_eq_ok.mp isRead
      cases isRead
      obtain ⟨decoded, isDecoded, bodyRead⟩ := bind_eq_ok.mp bodyRead
      obtain ⟨handlers, _, bodyRead⟩ := bind_eq_ok.mp bodyRead
      obtain ⟨table, _, bodyRead⟩ := bind_eq_ok.mp bodyRead
      obtain ⟨entries, _, bodyRead⟩ := bind_eq_ok.mp bodyRead
      obtain ⟨lines, _, bodyRead⟩ := bind_eq_ok.mp bodyRead
      cases bodyRead
      exact .inr ⟨_, code, decoded, rfl, isCode, isDecoded, rfl⟩

theorem Method.switchFits_of_ofMember?_eq_ok
    {file : ClassFile}
    {member : Member .method}
    {method : Method}
    (isRead : Method.ofMember? file member = .ok (some method)) :
    ∀ instruction ∈ method.instructions, instruction.SwitchFits := by
  rcases decodeCode_of_ofMember?_eq_ok isRead with ⟨isNone, _⟩ |
    ⟨_, code, decoded, equal, _, isDecoded, instructions⟩
  · cases isNone
  · cases equal
    rw [instructions]
    exact switchFits_of_decodeCode_eq_ok isDecoded

section Rewritten

variable {plan : MethodPlan} {method rewritten : Method}

/-- The only instructions with jumps that replace a piece are those of the method. -/
theorem targets_cases_of_pieceCode_eq_ok
    {piece : Piece}
    {code : List (Instruction Nat)}
    (coded : plan.pieceCode method piece = .ok code)
    {instruction : Instruction Nat}
    (isCode : instruction ∈ code) :
    instruction.targets = [] ∨
      ∃ index : Nat, method.instructions[index]? = some instruction := by
  cases piece with
  | site number span =>
      rw [MethodPlan.pieceCode] at coded
      split at coded
      · exact .inl (hasNoJumps_construct coded instruction isCode)
      · cases coded
        cases isCode
  | instruction index =>
      rw [MethodPlan.pieceCode] at coded
      split at coded
      · rename_i original isInstruction
        cases coded
        unfold MethodPlan.instructionCode at isCode
        split at isCode
        · exact .inl (hasNoJumps_boxCode (by simp [Instruction.targets]) _ _ instruction isCode)
        · obtain rfl := List.mem_singleton.mp isCode
          exact .inr ⟨index, isInstruction⟩
      · cases coded
        cases isCode

/-- An instruction with jumps in a rewritten method is one of the method with its targets moved. -/
theorem targets_cases_of_rewrite_eq_ok
    {place : Place}
    (computed : method.rewrite plan place = .ok rewritten)
    {instruction : Instruction Nat}
    (member : instruction ∈ rewritten.instructions) :
    instruction.targets = [] ∨
      ∃ original ∈ method.instructions, ∃ position, instruction = original.map position := by
  obtain ⟨replacements, relocation, replaced, isMadeFrom⟩ := isMadeFrom_of_rewrite_eq_ok computed
  rw [isMadeFrom.instructions, List.mem_toArray, List.mem_append] at member
  rcases member with inPrologue | inCode
  · obtain ⟨boxed, _, isMaking⟩ := List.mem_flatMap.mp inPrologue
    exact .inl (hasNoJumps_makeBox boxed instruction isMaking)
  · obtain ⟨replacement, isReplacement, isMoved⟩ := List.mem_flatMap.mp inCode
    obtain ⟨part, isPart, rfl⟩ := List.mem_map.mp isMoved
    obtain ⟨piece, _, _, coded⟩ :=
      exists_mem_of_forall₂ (forall₂_of_replacements_eq_ok replaced) isReplacement
    rcases targets_cases_of_pieceCode_eq_ok coded isPart with noTargets | ⟨index, isInstruction⟩
    · left
      rw [Instruction.map_of_targets_eq_nil noTargets, noTargets]
    · exact .inr ⟨part, Array.mem_of_getElem? isInstruction, _, rfl⟩

/-- The switches of a rewritten method have keys of thirty-two bits if those of the method do. -/
theorem switchFits_of_rewrite_eq_ok
    {place : Place}
    (computed : method.rewrite plan place = .ok rewritten)
    (switchesFit : ∀ instruction ∈ method.instructions, instruction.SwitchFits) :
    ∀ instruction ∈ rewritten.instructions, instruction.SwitchFits := by
  intro instruction member
  rcases targets_cases_of_rewrite_eq_ok computed member with noTargets |
    ⟨original, isOriginal, position, rfl⟩
  · exact switchFits_of_targets_eq_nil noTargets
  · exact Instruction.switchFits_map.mpr (switchesFit original isOriginal)

end Rewritten

theorem Bridge.switchFits_whole
    (owner : BinaryName)
    (bridge : Bridge) :
    ∀ instruction ∈ (bridge.whole owner).instructions, instruction.SwitchFits := by
  have loads : ∀ (types : List FieldType) (slot : UInt16),
      ∀ instruction ∈ (loadParameters slot types : List (Instruction Nat)),
        instruction.targets = [] := by
    intro types
    induction types with
    | nil => exact fun _ _ member => absurd member List.not_mem_nil
    | cons type types inductionHypothesis =>
        intro slot instruction member
        rcases List.mem_cons.mp member with rfl | isLater
        · rfl
        · exact inductionHypothesis _ instruction isLater
  intro instruction member
  refine switchFits_of_targets_eq_nil ?_
  rcases List.mem_append.mp (List.mem_toArray.mp member) with isLoad | isLast
  · exact loads _ _ instruction isLoad
  · rcases List.mem_cons.mp isLast with rfl | isReturn
    · cases bridge.use <;> rfl
    · rw [List.mem_singleton.mp isReturn]
      rfl

end ClosureConversion
