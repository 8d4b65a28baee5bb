import ClosureConversion.Proofs.Code.InstructionBytes

/-!
Contract: the instructions that decoding finds in encoded code.

Owns:
- bytes that are read as instructions one after another;
- what the items of encoded code are decoded as, where a conditional jump that is too
  long stands as two jumps, and at which offsets;
- the indices of these instructions, and that all jump targets are among their offsets.

Does not own: the bytes of a single instruction.
-/

namespace ClosureConversion

/-! ## Instructions one after another -/

/-- Bytes at an offset are read as instructions, each of which starts at the offset that is
given with it. -/
inductive Decodes (pool : ConstantPool) (codeLength : Nat) :
    Nat → Bytes → List (Nat × Instruction Nat) → Prop where
  | nil {offset : Nat} : Decodes pool codeLength offset [] []
  | cons {offset : Nat} {front back : Bytes} {instruction : Instruction Nat}
      {rest : List (Nat × Instruction Nat)} :
      Reads (InstructionContext.mk offset codeLength pool).instruction front instruction →
      front ≠ [] →
      Decodes pool codeLength (offset + front.length) back rest →
      Decodes pool codeLength offset (front ++ back) ((offset, instruction) :: rest)

theorem readInstructions_eq_ok
    {pool : ConstantPool}
    {codeLength offset : Nat}
    {bytes : Bytes}
    {found : List (Nat × Instruction Nat)}
    (decodes : Decodes pool codeLength offset bytes found)
    {fuel : Nat}
    (enough : bytes.length ≤ fuel)
    (offsets : Array Nat)
    (instructions : Array (Instruction Nat)) :
    readInstructions pool codeLength fuel ⟨offset, bytes⟩ offsets instructions =
      .ok (offsets ++ (found.map Prod.fst).toArray,
        instructions ++ (found.map Prod.snd).toArray) := by
  induction decodes generalizing fuel offsets instructions with
  | nil => cases fuel <;> simp [readInstructions]
  | @cons offset front back instruction rest reads notEmpty _ inductionHypothesis =>
      have positive := List.length_pos_iff.mpr notEmpty
      rw [List.length_append] at enough
      obtain ⟨fuel, rfl⟩ : ∃ less, fuel = less + 1 := ⟨fuel - 1, by omega⟩
      have more : (front ++ back).isEmpty = false := by
        rw [List.isEmpty_eq_false_iff]
        simp [notEmpty]
      rw [readInstructions, more]
      simp only [reads offset back]
      rw [if_neg (by simp), inductionHypothesis (by omega)]
      simp

/-- What an instruction is decoded as: a conditional jump in its long form is the opposite
jump, to what follows, over a jump to its target. -/
def Instruction.expand {Label Target : Type} (instruction : Instruction Label) (far : Bool)
    (place : Label → Target) (next : Target) : List (Instruction Target) :=
  match instruction with
  | .branch condition target =>
      if far then [.branch condition.negate next, .goto (place target)]
      else [.branch condition (place target)]
  | _ => [instruction.normalize.map place]

/-- The offsets of the instructions that an item is decoded as. -/
def Linked.starts (item : Linked) (offset : Nat) (far : Bool) : List Nat :=
  if far && item.instruction.isBranch then [offset, offset + 3] else [offset]

/-- The instructions that items are decoded as, with their offsets; jump targets are
offsets. -/
def emissionFrom (place : Nat → Nat) : Nat → List (Linked × Bool) → List (Nat × Instruction Nat)
  | _, [] => []
  | offset, item :: rest =>
      let next := offset + item.1.size offset item.2
      (item.1.starts offset item.2).zip (item.1.instruction.expand item.2 place next) ++
        emissionFrom place next rest

theorem Instruction.expand_of_not_widened
    {Label Target : Type}
    {instruction : Instruction Label}
    {far : Bool}
    (notWidened : (far && instruction.isBranch) = false)
    (place : Label → Target)
    (next : Target) :
    instruction.expand far place next = [instruction.normalize.map place] := by
  cases instruction with
  | branch condition target =>
      rw [isBranch, Bool.and_true] at notWidened
      rw [notWidened]
      rfl
  | _ => rfl

/-- Only conditional jumps have a long form that differs. -/
theorem Instruction.expand_eq_of_widened
    {Label Target : Type}
    (instruction : Instruction Label)
    (far : Bool)
    (place : Label → Target)
    (next : Target) :
    instruction.expand (far && instruction.isBranch) place next =
      instruction.expand far place next := by
  cases instruction with
  | branch condition target => rw [isBranch, Bool.and_true]
  | _ => rfl

/-- The bytes of items are read as what the items are decoded as. -/
theorem decodes_of_written
    {pool : ConstantPool}
    {codeLength : Nat}
    {offsets : Array Nat}
    {start : Nat}
    {placed : List (Linked × Bool)}
    {bytes : Bytes}
    (written : Written offsets start placed bytes)
    (ends : start + bytes.length ≤ codeLength)
    (notLong : codeLength ≤ maxCodeLength)
    (within : ∀ target offset, offsetOf offsets target = .ok offset → offset < codeLength)
    (linked : ∀ item ∈ placed, item.1.instruction.IsLinked pool item.1.constant)
    (switchesFit : ∀ item ∈ placed, item.1.instruction.SwitchFits)
    (near : ∀ (index : Nat) (item : Linked) (offset target targetOffset : Nat),
      placed[index]? = some (item, false) → (offsetsFrom start placed)[index]? = some offset →
        item.instruction.jumpTarget? = some target → offsetOf offsets target = .ok targetOffset →
          fitsShort ((targetOffset : Int) - offset) = true)
    (goesOn : ∀ (index : Nat) (item : Linked) (offset : Nat), placed[index]? = some (item, true) →
      item.instruction.isBranch = true → (offsetsFrom start placed)[index]? = some offset →
        offset + 8 < codeLength) :
    Decodes pool codeLength start bytes (emissionFrom (placeIn offsets) start placed) := by
  induction written with
  | nil => exact .nil
  | @cons offset item rest chunk bytes chunkWritten restWritten inductionHypothesis =>
      have itemLinked := linked _ List.mem_cons_self
      have sized := Linked.length_bytes itemLinked chunkWritten
      have positive := item.1.size_pos offset item.2
      rw [List.length_append] at ends
      have decodesRest := inductionHypothesis (by omega)
        (fun item member => linked item (List.mem_cons_of_mem _ member))
        (fun item member => switchesFit item (List.mem_cons_of_mem _ member))
        (fun index => near (index + 1))
        (fun index => goesOn (index + 1))
      rw [emissionFrom]
      cases widened : item.2 && item.1.instruction.isBranch with
      | true =>
          obtain ⟨⟨instruction, constant⟩, far⟩ := item
          obtain ⟨rfl, isBranch⟩ := Bool.and_eq_true_iff.mp widened
          cases instruction with
          | branch condition target =>
              let context : InstructionContext := ⟨offset, codeLength, pool⟩
              have notLast := goesOn 0 _ offset rfl rfl rfl
              have holdsTargets : context.HoldsTargets offsets := within
              obtain ⟨front, back, rfl, frontLength, readsFront, readsBack⟩ :=
                Linked.reads_widened holdsTargets notLast notLong chunkWritten
              rw [List.length_append] at sized
              change front.length + back.length = 8 at sized
              change Decodes pool codeLength offset (front ++ back ++ bytes)
                ((offset, .branch condition.negate (offset + 8)) ::
                  (offset + 3, .goto (placeIn offsets target)) ::
                  emissionFrom (placeIn offsets) (offset + 8) rest)
              rw [List.append_assoc]
              apply Decodes.cons readsFront
              · apply List.length_pos_iff.mp
                omega
              rw [frontLength]
              apply Decodes.cons readsBack
              · apply List.length_pos_iff.mp
                omega
              have ends : offset + 3 + back.length = offset + 8 := by omega
              rw [ends]
              exact decodesRest
          | _ => cases isBranch
      | false =>
          let context : InstructionContext := ⟨offset, codeLength, pool⟩
          have holdsTargets : context.HoldsTargets offsets := within
          have chunkEnds : context.start + chunk.length ≤ context.codeLength := by
            change offset + chunk.length ≤ codeLength
            omega
          have itemNear : item.2 = false → ∀ target targetOffset,
              item.1.instruction.jumpTarget? = some target →
                offsetOf offsets target = .ok targetOffset →
                  fitsShort ((targetOffset : Int) - context.start) = true := by
            intro isShort target targetOffset jumps isOffset
            exact near 0 item.1 offset target targetOffset (by rw [← isShort]; rfl) rfl jumps isOffset
          have notWidened : item.2 = true → item.1.instruction.isBranch = false := by
            intro isLong
            rw [isLong] at widened
            exact widened
          have reads : Reads context.instruction chunk
              (item.1.instruction.normalize.map (placeIn offsets)) :=
            Linked.reads_bytes itemLinked (switchesFit item List.mem_cons_self) holdsTargets
              chunkEnds notLong itemNear notWidened chunkWritten
          have starts : item.1.starts offset item.2 = [offset] := by
            rw [Linked.starts, widened]
            rfl
          rw [starts, Instruction.expand_of_not_widened widened]
          apply Decodes.cons reads
          · apply List.length_pos_iff.mp
            omega
          · rw [sized]
            exact decodesRest

/-! ## What decoding finds -/

/-- Whether an item is written as two jumps. -/
def isWidened (item : Linked × Bool) : Bool :=
  item.2 && item.1.instruction.isBranch

theorem length_expand
    (item : Linked × Bool)
    (offset next : Nat)
    (place : Nat → Nat) :
    (item.1.instruction.expand item.2 place next).length =
      (item.1.starts offset item.2).length := by
  unfold Linked.starts
  cases widened : item.2 && item.1.instruction.isBranch with
  | true =>
      obtain ⟨isLong, isBranch⟩ := Bool.and_eq_true_iff.mp widened
      cases isJump : item.1.instruction with
      | branch condition target =>
          rw [isLong]
          rfl
      | _ =>
          rw [isJump] at isBranch
          cases isBranch
  | false =>
      rw [Instruction.expand_of_not_widened widened]
      rfl

theorem length_starts
    (item : Linked × Bool)
    (offset : Nat) :
    (item.1.starts offset item.2).length = if isWidened item then 2 else 1 := by
  unfold Linked.starts isWidened
  split <;> rfl

theorem map_fst_emissionFrom_cons
    (place : Nat → Nat)
    (offset : Nat)
    (item : Linked × Bool)
    (rest : List (Linked × Bool)) :
    (emissionFrom place offset (item :: rest)).map Prod.fst =
      item.1.starts offset item.2 ++
        (emissionFrom place (offset + item.1.size offset item.2) rest).map Prod.fst := by
  rw [emissionFrom, List.map_append, List.map_fst_zip]
  exact Nat.le_of_eq (length_expand item offset _ place).symm

theorem map_snd_emissionFrom_cons
    (place : Nat → Nat)
    (offset : Nat)
    (item : Linked × Bool)
    (rest : List (Linked × Bool)) :
    (emissionFrom place offset (item :: rest)).map Prod.snd =
      item.1.instruction.expand item.2 place (offset + item.1.size offset item.2) ++
        (emissionFrom place (offset + item.1.size offset item.2) rest).map Prod.snd := by
  rw [emissionFrom, List.map_append, List.map_snd_zip]
  exact Nat.le_of_eq (length_expand item offset _ place)

theorem length_emissionFrom
    (place : Nat → Nat)
    (offset : Nat)
    (placed : List (Linked × Bool)) :
    (emissionFrom place offset placed).length = placed.length + placed.countP isWidened := by
  induction placed generalizing offset with
  | nil => rfl
  | cons item rest inductionHypothesis =>
      have starts := congrArg List.length (map_fst_emissionFrom_cons place offset item rest)
      rw [List.length_map, List.length_append, List.length_map, inductionHypothesis,
        length_starts] at starts
      rw [starts, List.length_cons, List.countP_cons]
      split <;> omega

/-- The first instruction that an item is decoded as stands where the item starts. -/
theorem starts_eq_cons
    (item : Linked)
    (offset : Nat)
    (far : Bool) :
    ∃ rest, item.starts offset far = offset :: rest := by
  unfold Linked.starts
  split
  · exact ⟨[offset + 3], rfl⟩
  · exact ⟨[], rfl⟩

/-- The first instruction of an item comes after all instructions of the items before it. -/
theorem getElem?_map_fst_emissionFrom
    {place : Nat → Nat}
    {start offset index : Nat}
    {placed : List (Linked × Bool)}
    (inside : index < placed.length)
    (stands : (offsetsFrom start placed)[index]? = some offset) :
    ((emissionFrom place start placed).map Prod.fst)[index +
      (placed.take index).countP isWidened]? = some offset := by
  induction placed generalizing start index with
  | nil => cases inside
  | cons item rest inductionHypothesis =>
      rw [map_fst_emissionFrom_cons]
      cases index with
      | zero =>
          cases stands
          obtain ⟨others, starts⟩ := starts_eq_cons item.1 offset item.2
          rw [starts]
          rfl
      | succ index =>
          have before := length_starts item start
          have after := inductionHypothesis (Nat.lt_of_succ_lt_succ inside) stands
          rw [List.take_succ_cons, List.countP_cons, List.getElem?_append_right]
          · rw [← after, before]
            congr 1
            split <;> omega
          · rw [before]
            split <;> omega

/-- The offsets of the decoded instructions increase. -/
theorem pairwise_map_fst_emissionFrom
    (place : Nat → Nat)
    (start : Nat)
    (placed : List (Linked × Bool)) :
    ((emissionFrom place start placed).map Prod.fst).Pairwise (· < ·) ∧
      ∀ offset ∈ (emissionFrom place start placed).map Prod.fst, start ≤ offset := by
  induction placed generalizing start with
  | nil => exact ⟨List.Pairwise.nil, fun _ member => nomatch member⟩
  | cons item rest inductionHypothesis =>
      obtain ⟨increasing, notBefore⟩ := inductionHypothesis (start + item.1.size start item.2)
      have positive := item.1.size_pos start item.2
      rw [map_fst_emissionFrom_cons]
      have bounds : ∀ offset ∈ item.1.starts start item.2,
          start ≤ offset ∧ offset < start + item.1.size start item.2 := by
        intro offset member
        unfold Linked.starts at member
        split at member
        · rename_i widened
          obtain ⟨isLong, isBranch⟩ := Bool.and_eq_true_iff.mp widened
          have eight : item.1.size start item.2 = 8 := by
            obtain ⟨⟨instruction, constant⟩, far⟩ := item
            cases instruction with
            | branch condition target =>
                dsimp only at isLong
                rw [isLong]
                rfl
            | _ => cases isBranch
          simp only [List.mem_cons, List.not_mem_nil, or_false] at member
          omega
        · rw [List.mem_singleton.mp member]
          omega
      constructor
      · rw [List.pairwise_append]
        refine ⟨?_, increasing, ?_⟩
        · unfold Linked.starts
          split
          · simp
          · exact List.pairwise_singleton _ _
        · intro left leftMember right rightMember
          have := bounds left leftMember
          have := notBefore right rightMember
          omega
      · intro offset member
        rcases List.mem_append.mp member with inItem | inRest
        · exact (bounds offset inItem).1
        · have := notBefore offset inRest
          omega

/-! ## Jump targets as indices -/

theorem Instruction.map_normalize
    {Label Middle Target : Type}
    {place : Label → Middle}
    {find : Middle → Target}
    {index : Label → Target}
    {instruction : Instruction Label}
    (finds : ∀ target ∈ instruction.targets, find (place target) = index target) :
    (instruction.normalize.map place).map find = instruction.normalize.map index := by
  cases instruction with
  | branch condition target =>
      have here := finds target List.mem_cons_self
      simp only [normalize, map, here]
  | goto target =>
      have here := finds target List.mem_cons_self
      simp only [normalize, map, here]
  | tableSwitch default low targets =>
      have here := finds default List.mem_cons_self
      have there : ∀ target ∈ targets, find (place target) = index target :=
        fun target member => finds target (List.mem_cons_of_mem _ member)
      simp only [normalize, map, here, List.map_map]
      congr 1
      exact List.map_congr_left there
  | lookupSwitch default targets =>
      have here := finds default List.mem_cons_self
      simp only [normalize, map, here, List.map_map]
      congr 1
      apply List.map_congr_left
      intro pair member
      have inTargets : pair ∈ targets := List.mem_mergeSort.mp member
      have there := finds pair.2 (List.mem_cons_of_mem _ (List.mem_map_of_mem inTargets))
      exact Prod.ext rfl there
  | pushLiteral literal => cases literal <;> rfl
  | _ => rfl

/-- The targets of the decoded form are those of the instruction. -/
theorem Instruction.mem_targets_map_normalize
    {Label Target : Type}
    {place : Label → Target}
    {instruction : Instruction Label}
    {target : Target}
    (isTarget : target ∈ (instruction.normalize.map place).targets) :
    ∃ label ∈ instruction.targets, target = place label := by
  cases instruction with
  | branch condition label => exact ⟨label, List.mem_cons_self, List.mem_singleton.mp isTarget⟩
  | goto label => exact ⟨label, List.mem_cons_self, List.mem_singleton.mp isTarget⟩
  | tableSwitch default low labels =>
      rcases List.mem_cons.mp isTarget with isDefault | inTargets
      · exact ⟨default, List.mem_cons_self, isDefault⟩
      · obtain ⟨label, isLabel, isPlace⟩ := List.mem_map.mp inTargets
        exact ⟨label, List.mem_cons_of_mem _ isLabel, isPlace.symm⟩
  | lookupSwitch default labels =>
      rcases List.mem_cons.mp isTarget with isDefault | inTargets
      · exact ⟨default, List.mem_cons_self, isDefault⟩
      · obtain ⟨placedPair, placedMember, isPlaced⟩ := List.mem_map.mp inTargets
        obtain ⟨pair, isPair, isPlacedPair⟩ := List.mem_map.mp placedMember
        have member : pair ∈ labels := List.mem_mergeSort.mp isPair
        refine ⟨pair.2, List.mem_cons_of_mem _ (List.mem_map_of_mem member), ?_⟩
        rw [← isPlaced, ← isPlacedPair]
  | pushLiteral literal => cases literal <;> cases isTarget
  | _ => cases isTarget

theorem Instruction.map_expand
    {Label Middle Target : Type}
    {place : Label → Middle}
    {find : Middle → Target}
    {index : Label → Target}
    {instruction : Instruction Label}
    (finds : ∀ target ∈ instruction.targets, find (place target) = index target)
    {far : Bool}
    {next : Middle}
    {nextIndex : Target}
    (findsNext : (far && instruction.isBranch) = true → find next = nextIndex) :
    (instruction.expand far place next).map (Instruction.map find) =
      instruction.expand far index nextIndex := by
  cases widened : far && instruction.isBranch with
  | true =>
      obtain ⟨rfl, isBranch⟩ := Bool.and_eq_true_iff.mp widened
      cases instruction with
      | branch condition target =>
          have here := finds target List.mem_cons_self
          have next := findsNext rfl
          simp only [expand, if_true, List.map_cons, List.map_nil, map, here, next]
      | _ => cases isBranch
  | false =>
      rw [expand_of_not_widened widened, expand_of_not_widened widened, List.map_singleton,
        map_normalize finds]

/-- Finding the indices of all targets turns the decoded instructions into those that the
original instructions expand to. -/
theorem map_emissionFrom
    {place find index : Nat → Nat}
    {widened : List Nat}
    {start first : Nat}
    {placed : List (Linked × Bool)}
    (finds : ∀ item ∈ placed, ∀ target ∈ item.1.instruction.targets,
      find (place target) = index target)
    (findsNext : ∀ (position : Nat) (item : Linked × Bool) (offset : Nat),
      placed[position]? = some item → isWidened item = true →
        (offsetsFrom start placed)[position + 1]? = some offset →
          find offset = index (first + position + 1))
    (isListed : ∀ (position : Nat) (item : Linked × Bool), placed[position]? = some item →
      (first + position ∈ widened ↔ isWidened item = true)) :
    ((emissionFrom place start placed).map Prod.snd).map (Instruction.map find) =
      ((placed.map fun item => item.1.instruction).zipIdx first).flatMap fun entry =>
        entry.1.expand (decide (entry.2 ∈ widened)) index (index (entry.2 + 1)) := by
  induction placed generalizing start first with
  | nil => rfl
  | cons item rest inductionHypothesis =>
      have here : (item.1.instruction.expand item.2 place (start + item.1.size start item.2)).map
          (Instruction.map find) =
          item.1.instruction.expand item.2 index (index (first + 1)) := by
        apply Instruction.map_expand (finds item List.mem_cons_self)
        intro widened
        exact findsNext 0 item _ rfl widened (getElem?_zero_offsetsFrom _ _)
      have listed : decide (first ∈ widened) = isWidened item := by
        have inList := isListed 0 item rfl
        rw [Nat.add_zero] at inList
        exact Bool.eq_iff_iff.mpr (decide_eq_true_iff.trans inList)
      have there := @inductionHypothesis (start + item.1.size start item.2) (first + 1)
        (fun other member => finds other (List.mem_cons_of_mem _ member))
        (fun position other offset stands isWide starts => by
          rw [findsNext (position + 1) other offset stands isWide starts]
          congr 1
          omega)
        (fun position other stands => by
          rw [← isListed (position + 1) other stands]
          have : first + 1 + position = first + (position + 1) := by omega
          rw [this])
      rw [map_snd_emissionFrom_cons, List.map_append, here, there, List.map_cons,
        List.zipIdx_cons, List.flatMap_cons]
      dsimp only
      rw [listed, isWidened, Instruction.expand_eq_of_widened]

/-- Every target in the decoded instructions is the offset of an item: of one that is
jumped to, or of the one after a conditional jump that is too long. -/
theorem mem_targets_emissionFrom
    {place : Nat → Nat}
    {start : Nat}
    {placed : List (Linked × Bool)}
    {found : Nat × Instruction Nat}
    (member : found ∈ emissionFrom place start placed)
    {target : Nat}
    (isTarget : target ∈ found.2.targets) :
    (∃ item ∈ placed, ∃ label ∈ item.1.instruction.targets, target = place label) ∨
      ∃ position item, placed[position]? = some item ∧ isWidened item = true ∧
        (offsetsFrom start placed)[position + 1]? = some target := by
  induction placed generalizing start with
  | nil => cases member
  | cons item rest inductionHypothesis =>
      rw [emissionFrom] at member
      rcases List.mem_append.mp member with inItem | inRest
      · have expanded := (List.of_mem_zip inItem).2
        cases widened : item.2 && item.1.instruction.isBranch with
        | true =>
            obtain ⟨isLong, isBranch⟩ := Bool.and_eq_true_iff.mp widened
            obtain ⟨⟨instruction, constant⟩, far⟩ := item
            cases instruction with
            | branch condition label =>
                dsimp only at isLong
                subst isLong
                rcases List.mem_cons.mp expanded with isJump | inRest
                · rw [isJump] at isTarget
                  rw [List.mem_singleton.mp isTarget]
                  exact .inr ⟨0, _, rfl, widened, getElem?_zero_offsetsFrom _ _⟩
                · rw [List.mem_singleton.mp inRest] at isTarget
                  exact .inl ⟨_, List.mem_cons_self, label, List.mem_cons_self,
                    List.mem_singleton.mp isTarget⟩
            | _ => cases isBranch
        | false =>
            rw [Instruction.expand_of_not_widened widened] at expanded
            rw [List.mem_singleton.mp expanded] at isTarget
            obtain ⟨label, isLabel, isPlace⟩ := Instruction.mem_targets_map_normalize isTarget
            exact .inl ⟨item, List.mem_cons_self, label, isLabel, isPlace⟩
      · rcases inductionHypothesis inRest with ⟨other, otherMember, label, isLabel, isPlace⟩ |
          ⟨position, other, stands, isWide, starts⟩
        · exact .inl ⟨other, List.mem_cons_of_mem _ otherMember, label, isLabel, isPlace⟩
        · exact .inr ⟨position + 1, other, stands, isWide, starts⟩

theorem Instruction.fallsThrough_map_normalize
    {Label Target : Type}
    (place : Label → Target)
    (instruction : Instruction Label) :
    (instruction.normalize.map place).fallsThrough = instruction.fallsThrough := by
  cases instruction with
  | op operation => cases operation <;> rfl
  | pushLiteral literal => cases literal <;> rfl
  | _ => rfl

/-- The first instruction stands where the first item does. -/
theorem getElem?_zero_emissionFrom
    {place : Nat → Nat}
    {start : Nat}
    {placed : List (Linked × Bool)}
    {first : Nat × Instruction Nat}
    (stands : (emissionFrom place start placed)[0]? = some first) :
    0 < placed.length ∧ first.1 = start := by
  cases placed with
  | nil => cases stands
  | cons item rest =>
      have isFirst := congrArg (Option.map Prod.fst) stands
      obtain ⟨others, starts⟩ := starts_eq_cons item.1 start item.2
      rw [← List.getElem?_map, map_fst_emissionFrom_cons, starts] at isFirst
      exact ⟨Nat.succ_pos _, (Option.some.inj isFirst).symm⟩

/-- After an instruction that control does not go on from stands the next item. It is either
an item of its own, or the second jump of one that is written as two. -/
theorem exists_item_of_stop
    {place : Nat → Nat}
    {start position : Nat}
    {placed : List (Linked × Bool)}
    {stop next : Nat × Instruction Nat}
    (stands : (emissionFrom place start placed)[position]? = some stop)
    (stops : stop.2.fallsThrough = false)
    (follows : (emissionFrom place start placed)[position + 1]? = some next) :
    ∃ index item, placed[index]? = some item ∧ index + 1 < placed.length ∧
      (isWidened item = true ∨ item.1.instruction.fallsThrough = false) ∧
      (offsetsFrom start placed)[index + 1]? = some next.1 := by
  induction placed generalizing start position with
  | nil => cases stands
  | cons item rest inductionHypothesis =>
      have inRest : ∀ {position : Nat},
          (emissionFrom place (start + item.1.size start item.2) rest)[position]? = some stop →
          (emissionFrom place (start + item.1.size start item.2) rest)[position + 1]? = some next →
          ∃ index other, (item :: rest)[index]? = some other ∧ index + 1 < (item :: rest).length ∧
            (isWidened other = true ∨ other.1.instruction.fallsThrough = false) ∧
            (offsetsFrom start (item :: rest))[index + 1]? = some next.1 := by
        intro position stands follows
        obtain ⟨index, other, isOther, inside, ends, starts⟩ := inductionHypothesis stands follows
        exact ⟨index + 1, other, isOther, Nat.succ_lt_succ inside, ends, starts⟩
      have isLast : (isWidened item = true ∨ item.1.instruction.fallsThrough = false) →
          (emissionFrom place (start + item.1.size start item.2) rest)[0]? = some next →
          ∃ index other, (item :: rest)[index]? = some other ∧ index + 1 < (item :: rest).length ∧
            (isWidened other = true ∨ other.1.instruction.fallsThrough = false) ∧
            (offsetsFrom start (item :: rest))[index + 1]? = some next.1 := by
        intro ends isNext
        obtain ⟨notEmpty, starts⟩ := getElem?_zero_emissionFrom isNext
        refine ⟨0, item, rfl, Nat.succ_lt_succ notEmpty, ends, ?_⟩
        rw [offsetsFrom, List.getElem?_cons_succ, getElem?_zero_offsetsFrom, starts]
      rw [emissionFrom] at stands follows
      cases widened : isWidened item with
      | true =>
          obtain ⟨isLong, isBranch⟩ := Bool.and_eq_true_iff.mp widened
          have opened : ∃ condition target, item.1.instruction = .branch condition target := by
            cases isJump : item.1.instruction with
            | branch condition target => exact ⟨condition, target, rfl⟩
            | _ =>
                rw [isJump] at isBranch
                cases isBranch
          obtain ⟨condition, target, isJump⟩ := opened
          simp only [Linked.starts, isLong, isJump, Instruction.isBranch, Instruction.expand,
            Bool.and_self, if_true, List.zip_cons_cons, List.zip_nil_right] at stands follows
          rw [isLong] at inRest isLast
          cases position with
          | zero =>
              cases stands
              cases stops
          | succ position =>
              cases position with
              | zero => exact isLast (.inl widened) follows
              | succ position => exact inRest stands follows
      | false =>
          have starts : item.1.starts start item.2 = [start] := by
            rw [Linked.starts]
            exact if_neg (Bool.eq_false_iff.mp widened)
          rw [starts, Instruction.expand_of_not_widened widened] at stands follows
          cases position with
          | zero =>
              cases stands
              rw [Instruction.fallsThrough_map_normalize] at stops
              exact isLast (.inr stops) follows
          | succ position => exact inRest stands follows

/-- An offset is found at its index among increasing offsets. -/
theorem indexOfOffset?_eq_some
    {offsets : Array Nat}
    (increasing : offsets.toList.Pairwise (· < ·))
    {index offset : Nat}
    (stands : offsets[index]? = some offset) :
    indexOfOffset? offsets offset = some index := by
  obtain ⟨inside, rfl⟩ := Array.getElem?_eq_some_iff.mp stands
  unfold indexOfOffset?
  rw [partitionPoint_lt_eq increasing inside, if_pos stands]

/-- Every target of an instruction that was written is an instruction. -/
theorem Linked.offsetOf_of_mem_targets
    {item : Linked}
    {offsets : Array Nat}
    {offset : Nat}
    {far : Bool}
    {bytes : Bytes}
    (written : item.bytes offsets offset far = .ok bytes)
    {target : Nat}
    (isTarget : target ∈ item.instruction.targets) :
    ∃ targetOffset, offsetOf offsets target = .ok targetOffset := by
  obtain ⟨instruction, constant⟩ := item
  cases instruction with
  | branch condition label =>
      obtain ⟨distance, isDistance, _⟩ := bind_eq_ok.mp written
      obtain ⟨targetOffset, isOffset, _⟩ := bind_eq_ok.mp isDistance
      rw [List.mem_singleton.mp isTarget]
      exact ⟨targetOffset, isOffset⟩
  | goto label =>
      obtain ⟨distance, isDistance, _⟩ := bind_eq_ok.mp written
      obtain ⟨targetOffset, isOffset, _⟩ := bind_eq_ok.mp isDistance
      rw [List.mem_singleton.mp isTarget]
      exact ⟨targetOffset, isOffset⟩
  | tableSwitch default low labels =>
      obtain ⟨defaultBytes, isDefault, written⟩ := bind_eq_ok.mp written
      obtain ⟨chunks, areTargets, _⟩ := bind_eq_ok.mp written
      rcases List.mem_cons.mp isTarget with rfl | inLabels
      · obtain ⟨targetOffset, isOffset, _⟩ := wide_eq_ok isDefault
        exact ⟨targetOffset, isOffset⟩
      · obtain ⟨chunk, _, isChunk⟩ :=
          exists_mem_of_forall₂ (forall₂_of_mapM_eq_ok areTargets).flip inLabels
        obtain ⟨targetOffset, isOffset, _⟩ := wide_eq_ok isChunk
        exact ⟨targetOffset, isOffset⟩
  | lookupSwitch default labels =>
      obtain ⟨defaultBytes, isDefault, written⟩ := bind_eq_ok.mp written
      obtain ⟨chunks, areTargets, _⟩ := bind_eq_ok.mp written
      rcases List.mem_cons.mp isTarget with rfl | inLabels
      · obtain ⟨targetOffset, isOffset, _⟩ := wide_eq_ok isDefault
        exact ⟨targetOffset, isOffset⟩
      · obtain ⟨pair, isPair, rfl⟩ := List.mem_map.mp inLabels
        have sorted : pair ∈ labels.mergeSort fun left right => left.1 ≤ right.1 :=
          List.mem_mergeSort.mpr isPair
        obtain ⟨chunk, _, isChunk⟩ :=
          exists_mem_of_forall₂ (forall₂_of_mapM_eq_ok areTargets).flip sorted
        obtain ⟨bytes, isBytes, _⟩ := bind_eq_ok.mp isChunk
        obtain ⟨targetOffset, isOffset, _⟩ := wide_eq_ok isBytes
        exact ⟨targetOffset, isOffset⟩
  | _ => cases isTarget

/-- Every item of written bytes was written at some offset. -/
theorem Written.exists_of_mem
    {offsets : Array Nat}
    {start : Nat}
    {placed : List (Linked × Bool)}
    {bytes : Bytes}
    (written : Written offsets start placed bytes)
    {item : Linked × Bool}
    (member : item ∈ placed) :
    ∃ offset chunk, item.1.bytes offsets offset item.2 = .ok chunk := by
  induction written with
  | nil => cases member
  | @cons offset first rest chunk bytes chunkWritten _ inductionHypothesis =>
      rcases List.mem_cons.mp member with rfl | inRest
      · exact ⟨offset, chunk, chunkWritten⟩
      · exact inductionHypothesis inRest

/-- The last offset of a layout is the one after all bytes. -/
theorem Written.getElem?_length
    {pool : ConstantPool}
    {offsets : Array Nat}
    {start : Nat}
    {placed : List (Linked × Bool)}
    {bytes : Bytes}
    (written : Written offsets start placed bytes)
    (linked : ∀ item ∈ placed, item.1.instruction.IsLinked pool item.1.constant) :
    (offsetsFrom start placed)[placed.length]? = some (start + bytes.length) := by
  induction written with
  | nil => rfl
  | @cons offset item rest chunk bytes chunkWritten _ inductionHypothesis =>
      have sized := Linked.length_bytes (linked item List.mem_cons_self) chunkWritten
      have there := inductionHypothesis fun other member =>
        linked other (List.mem_cons_of_mem _ member)
      rw [List.length_cons, offsetsFrom, List.getElem?_cons_succ, there, List.length_append, sized,
        Nat.add_assoc]

namespace EncodedCode

/-- The index that an instruction has after decoding: every conditional jump before it that
is too long has become two instructions. -/
def shift (code : EncodedCode) (index : Nat) : Nat :=
  index + code.widened.countP fun widened => widened < index

/-- The instructions that decoding gives back for the encoded ones. -/
def expansion (code : EncodedCode) (instructions : List (Instruction Nat)) :
    List (Instruction Nat) :=
  instructions.zipIdx.flatMap fun entry =>
    entry.1.expand (decide (entry.2 ∈ code.widened)) code.shift (code.shift (entry.2 + 1))

theorem countP_lt_succ
    (numbers : List Nat)
    (index : Nat) :
    numbers.countP (fun number => number < index + 1) =
      numbers.countP (fun number => number < index) + numbers.count index := by
  induction numbers with
  | nil => rfl
  | cons number numbers inductionHypothesis =>
      rw [List.countP_cons, List.countP_cons, List.count_cons, inductionHypothesis]
      by_cases isIndex : number = index
      · subst isIndex
        simp
        omega
      · by_cases less : number < index
        · simp [isIndex, less, Nat.lt_succ_of_lt less]
          omega
        · have : ¬ number < index + 1 := by omega
          simp [isIndex, less, this]

/-- The shift counts the items before that are written as two jumps. -/
theorem IsMadeOf.shift_eq
    {code : EncodedCode}
    {range : JumpRange}
    {placed : List (Linked × Bool)}
    (madeOf : code.IsMadeOf range placed)
    {index : Nat}
    (notBeyond : index ≤ placed.length) :
    code.shift index = index + (placed.take index).countP isWidened := by
  induction index with
  | zero => simp [shift]
  | succ index inductionHypothesis =>
      have inside : index < placed.length := notBeyond
      have before := inductionHypothesis (Nat.le_of_lt inside)
      have listed : index ∈ code.widened ↔ isWidened placed[index] = true := by
        rw [madeOf.mem_widened, List.getElem?_eq_getElem inside, isWidened, Bool.and_eq_true]
        constructor
        · rintro ⟨item, isItem, isBranch⟩
          rw [Option.some.inj isItem]
          exact ⟨rfl, isBranch⟩
        · rintro ⟨isLong, isBranch⟩
          exact ⟨_, congrArg some (Prod.ext rfl isLong), isBranch⟩
      unfold shift at before ⊢
      rw [countP_lt_succ, List.take_succ_eq_append_getElem inside, List.countP_append,
        List.countP_singleton]
      cases isWide : isWidened placed[index] with
      | true =>
          have once := List.count_eq_one_of_mem madeOf.widenedOnce (listed.mpr isWide)
          simp
          omega
      | false =>
          have never : index ∉ code.widened := by
            intro member
            rw [listed.mp member] at isWide
            cases isWide
          rw [List.count_eq_zero_of_not_mem never]
          simp
          omega

section Emission

variable {code : EncodedCode} {range : JumpRange} {placed : List (Linked × Bool)}
  {pool : ConstantPool}

theorem IsMadeOf.increasing
    (madeOf : code.IsMadeOf range placed) :
    code.offsets.toList.Pairwise (· < ·) :=
  madeOf.offsets ▸ pairwise_offsetsFrom 0 placed

theorem IsMadeOf.offsetCount
    (madeOf : code.IsMadeOf range placed) :
    code.offsets.size = placed.length + 1 := by
  rw [← Array.length_toList, madeOf.offsets, length_offsetsFrom]

/-- The offset after the last item is the length of the code. -/
theorem IsMadeOf.lastOffset
    (madeOf : code.IsMadeOf range placed)
    (linked : ∀ item ∈ placed, item.1.instruction.IsLinked pool item.1.constant) :
    code.offsets[placed.length]? = some code.bytes.length := by
  rw [← Array.getElem?_toList, madeOf.offsets, madeOf.written.getElem?_length linked,
    Nat.zero_add]

theorem IsMadeOf.offset_lt
    (madeOf : code.IsMadeOf range placed)
    {index later offset laterOffset : Nat}
    (stands : code.offsets[index]? = some offset)
    (laterStands : code.offsets[later]? = some laterOffset)
    (before : index < later) :
    offset < laterOffset := by
  obtain ⟨inside, rfl⟩ := Array.getElem?_eq_some_iff.mp stands
  obtain ⟨laterInside, rfl⟩ := Array.getElem?_eq_some_iff.mp laterStands
  exact List.pairwise_iff_getElem.mp madeOf.increasing index later (by simpa using inside)
    (by simpa using laterInside) before

/-- An item that is written as two jumps ends eight bytes after its start. -/
theorem IsMadeOf.offset_after_widened
    (madeOf : code.IsMadeOf range placed)
    {index offset : Nat}
    {item : Linked × Bool}
    (stands : placed[index]? = some item)
    (widened : isWidened item = true)
    (starts : code.offsets[index]? = some offset) :
    code.offsets[index + 1]? = some (offset + 8) := by
  rw [← Array.getElem?_toList, madeOf.offsets] at starts ⊢
  rw [getElem?_succ_offsetsFrom stands starts]
  obtain ⟨⟨instruction, constant⟩, far⟩ := item
  obtain ⟨isLong, isBranch⟩ := Bool.and_eq_true_iff.mp widened
  dsimp only at isLong isBranch
  subst isLong
  cases instruction with
  | branch condition target => rfl
  | _ => cases isBranch

/-- The bytes of encoded code are read as what its items are decoded as. -/
theorem IsMadeOf.decodes
    (madeOf : code.IsMadeOf range placed)
    (short : -32768 ≤ range.low ∧ range.high ≤ 32767)
    (linked : ∀ item ∈ placed, item.1.instruction.IsLinked pool item.1.constant)
    (switchesFit : ∀ item ∈ placed, item.1.instruction.SwitchFits)
    (goesOn : ∀ index ∈ code.widened, index + 1 < placed.length) :
    Decodes pool code.bytes.length 0 code.bytes
      (emissionFrom (placeIn code.offsets) 0 placed) := by
  have isLast := madeOf.lastOffset linked
  apply decodes_of_written madeOf.written (by omega)
  · apply madeOf.notLong
    rw [← Array.getElem?_toList] at isLast
    exact List.mem_of_getElem? isLast
  · intro target offset isOffset
    obtain ⟨stands, inside⟩ := offsetOf_eq_ok.mp isOffset
    rw [madeOf.offsetCount] at inside
    exact madeOf.offset_lt stands isLast (by omega)
  · exact linked
  · exact switchesFit
  · intro index item offset target targetOffset stands starts jumps isOffset
    obtain ⟨found, isFound, near⟩ := madeOf.near index item target stands jumps
    rw [isOffset, Except.ok.injEq] at isFound
    subst isFound
    rw [← madeOf.offsets, Array.getElem?_toList] at starts
    rw [Array.getD_eq_getD_getElem?, starts, Option.getD_some, JumpRange.contains, Bool.and_eq_true,
      decide_eq_true_iff, decide_eq_true_iff] at near
    rw [fitsShort, Bool.and_eq_true, decide_eq_true_iff, decide_eq_true_iff]
    omega
  · intro index item offset stands isBranch starts
    have listed := (madeOf.mem_widened index).mpr ⟨item, stands, isBranch⟩
    have inside := goesOn index listed
    rw [← madeOf.offsets, Array.getElem?_toList] at starts
    have next := madeOf.offset_after_widened stands (Bool.and_eq_true_iff.mpr ⟨rfl, isBranch⟩) starts
    exact madeOf.offset_lt next isLast inside

/-- An item is decoded at its shifted index. -/
theorem IsMadeOf.getElem?_shift
    (madeOf : code.IsMadeOf range placed)
    (place : Nat → Nat)
    {index offset : Nat}
    (inside : index < placed.length)
    (stands : code.offsets[index]? = some offset) :
    ((emissionFrom place 0 placed).map Prod.fst)[code.shift index]? = some offset := by
  rw [madeOf.shift_eq (Nat.le_of_lt inside)]
  apply getElem?_map_fst_emissionFrom inside
  rw [← madeOf.offsets, Array.getElem?_toList]
  exact stands

/-- Every target of an item is an item. -/
theorem IsMadeOf.getElem?_of_mem_targets
    (madeOf : code.IsMadeOf range placed)
    {item : Linked × Bool}
    (member : item ∈ placed)
    {target : Nat}
    (isTarget : target ∈ item.1.instruction.targets) :
    target < placed.length ∧ code.offsets[target]? = some (placeIn code.offsets target) := by
  obtain ⟨offset, chunk, written⟩ := madeOf.written.exists_of_mem member
  obtain ⟨targetOffset, isOffset⟩ := Linked.offsetOf_of_mem_targets written isTarget
  obtain ⟨stands, inside⟩ := offsetOf_eq_ok.mp isOffset
  rw [madeOf.offsetCount] at inside
  rw [placeIn_eq stands]
  exact ⟨by omega, stands⟩

/-- Every jump of encoded code leads to the start of an item. -/
theorem IsMadeOf.exists_of_mem_targets
    (madeOf : code.IsMadeOf range placed)
    (goesOn : ∀ index ∈ code.widened, index + 1 < placed.length)
    {entry : Nat × Instruction Nat}
    (member : entry ∈ emissionFrom (placeIn code.offsets) 0 placed)
    {target : Nat}
    (isTarget : target ∈ entry.2.targets) :
    ∃ index < placed.length, code.offsets[index]? = some target := by
  rcases mem_targets_emissionFrom member isTarget with ⟨item, itemMember, label, isLabel, rfl⟩ |
    ⟨position, item, stands, widened, starts⟩
  · exact ⟨label, madeOf.getElem?_of_mem_targets itemMember isLabel⟩
  · obtain ⟨isLong, isBranch⟩ := Bool.and_eq_true_iff.mp widened
    have listed : position ∈ code.widened :=
      (madeOf.mem_widened position).mpr ⟨item.1, by rw [stands, ← isLong], isBranch⟩
    rw [← madeOf.offsets, Array.getElem?_toList] at starts
    exact ⟨position + 1, goesOn position listed, starts⟩

end Emission

end EncodedCode

end ClosureConversion
