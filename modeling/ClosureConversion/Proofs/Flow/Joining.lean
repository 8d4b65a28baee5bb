import ClosureConversion.Proofs.Flow.Covering
import ClosureConversion.Proofs.Hierarchy.Lineages

/-!
Contract: merging frames is a partial join.

Owns:
- the order of values, slots and frames by superclasses that are no interfaces;
- frames in which every wide value has both its halves, and whose classes are known;
- two such frames are merged exactly if there is a frame above both, and to the least one;
- the merge is commutative, associative and idempotent, keeps such frames, and says that it changed
  nothing exactly if it did not change more than useless slots at the end.

Does not own: frames whose classes are not found, for which the order of a merge matters.
-/

namespace ClosureConversion

variable {hierarchy : Hierarchy}

/-! ## Values -/

namespace VerificationType

/-- Null is under every object, and objects are in the order of their types. -/
inductive IsUnder (hierarchy : Hierarchy) : VType → VType → Prop where
  | refl (type : VType) : IsUnder hierarchy type type
  | null (type : RefType) : IsUnder hierarchy .null (.object type)
  | object {sub super : RefType} :
      sub.IsUnder hierarchy super → IsUnder hierarchy (.object sub) (.object super)

/-- A useless slot is above every slot. -/
def SlotUnder (hierarchy : Hierarchy) (special general : VType) : Prop :=
  general = .top ∨ IsUnder hierarchy special general

namespace IsUnder

theorem trans
    (rooted : hierarchy.IsRooted)
    {first second third : VType}
    (lower : IsUnder hierarchy first second)
    (upper : IsUnder hierarchy second third) :
    IsUnder hierarchy first third := by
  cases lower with
  | refl => exact upper
  | null type =>
      cases upper with
      | refl => exact .null type
      | object _ => exact .null _
  | object lowerUnder =>
      cases upper with
      | refl => exact .object lowerUnder
      | object upperUnder => exact .object (lowerUnder.trans rooted upperUnder)

theorem antisymm
    (rooted : hierarchy.IsRooted)
    {first second : VType}
    (lower : IsUnder hierarchy first second)
    (upper : IsUnder hierarchy second first) :
    first = second := by
  cases lower with
  | refl => rfl
  | null type => cases upper
  | object lowerUnder =>
      cases upper with
      | refl => rfl
      | object upperUnder => rw [lowerUnder.antisymm rooted upperUnder]

theorem of_object
    {sub super : RefType}
    (under : IsUnder hierarchy (.object sub) (.object super)) :
    sub.IsUnder hierarchy super := by
  cases under with
  | refl => exact .refl sub
  | object typeUnder => exact typeUnder

end IsUnder

namespace SlotUnder

theorem refl
    (type : VType) :
    SlotUnder hierarchy type type :=
  .inr (.refl type)

theorem trans
    (rooted : hierarchy.IsRooted)
    {first second third : VType}
    (lower : SlotUnder hierarchy first second)
    (upper : SlotUnder hierarchy second third) :
    SlotUnder hierarchy first third := by
  rcases upper with isTop | upperUnder
  · exact .inl isTop
  · rcases lower with rfl | lowerUnder
    · cases upperUnder
      exact .inl rfl
    · exact .inr (lowerUnder.trans rooted upperUnder)

theorem antisymm
    (rooted : hierarchy.IsRooted)
    {first second : VType}
    (lower : SlotUnder hierarchy first second)
    (upper : SlotUnder hierarchy second first) :
    first = second := by
  rcases lower with rfl | lowerUnder
  · rcases upper with isTop | upperUnder
    · exact isTop
    · cases upperUnder
      rfl
  · rcases upper with rfl | upperUnder
    · cases lowerUnder
      rfl
    · exact lowerUnder.antisymm rooted upperUnder

end SlotUnder

/-- Two values of known classes are merged to their join, or there is no value above both. -/
theorem merge_cases
    (rooted : hierarchy.IsRooted)
    {first second : VType}
    (firstKnown : first.IsKnown hierarchy)
    (secondKnown : second.IsKnown hierarchy) :
    (∃ merged, merge hierarchy first second = .ok (some merged) ∧
        IsJoin (IsUnder hierarchy) first second merged ∧ merged.IsKnown hierarchy) ∨
      merge hierarchy first second = .ok none ∧
        ∀ bound, IsUnder hierarchy first bound → ¬IsUnder hierarchy second bound := by
  unfold merge
  split
  · rename_i same
    subst same
    exact .inl ⟨first, rfl, .of_under IsUnder.refl (.refl first), firstKnown⟩
  · rename_i different
    split
    · exact .inl ⟨_, rfl, (IsJoin.of_under IsUnder.refl (.null _)).symm, secondKnown⟩
    · exact .inl ⟨_, rfl, .of_under IsUnder.refl (.null _), firstKnown⟩
    · rename_i firstType secondType _
      obtain ⟨shared, computed, isJoin⟩ :=
        rooted.exists_commonSupertype_eq_ok firstKnown secondKnown
      refine .inl ⟨.object shared, map_eq_ok.mpr ⟨shared, computed, rfl⟩,
        ⟨.object isJoin.left, .object isJoin.right, ?_⟩, isJoin.left.isKnown rooted firstKnown⟩
      intro bound below above
      match bound, below, above with
      | .object bound, below, above =>
          exact .object (isJoin.least bound below.of_object above.of_object)
    · rename_i notNull notNull' notObjects
      refine .inr ⟨rfl, fun bound below above => ?_⟩
      cases below with
      | refl =>
          cases above with
          | refl => exact different rfl
          | null type => exact notNull' type rfl rfl
          | object _ => exact notObjects _ _ rfl rfl
      | null type =>
          cases above with
          | refl => exact notNull type rfl rfl
          | null _ => exact different rfl
          | object _ => exact notNull _ rfl rfl
      | object _ =>
          cases above with
          | refl => exact notObjects _ _ rfl rfl
          | null _ => exact notNull' _ rfl rfl
          | object _ => exact notObjects _ _ rfl rfl

/-- Only a wide value is merged to a wide one, and only with itself. -/
theorem isWide_of_merge
    {first second merged : VType}
    (computed : merge hierarchy first second = .ok (some merged))
    (isWide : merged.isWide = true) :
    first.isWide = true ∧ second.isWide = true := by
  unfold merge at computed
  split at computed
  · rename_i same
    cases computed
    exact ⟨isWide, same ▸ isWide⟩
  · split at computed
    · cases computed
      cases isWide
    · cases computed
      cases isWide
    · obtain ⟨shared, _, isShared⟩ := map_eq_ok.mp computed
      cases isShared
      cases isWide
    · cases computed

end VerificationType

/-! ## Slots and stacks -/

namespace Locals

/-- Equally many slots that hold the same are the same. -/
theorem ext_valueAt
    {first second : List VType}
    (sameLength : first.length = second.length)
    (sameValues : ∀ index, valueAt first index = valueAt second index) :
    first = second := by
  apply List.ext_getElem? fun index => ?_
  by_cases inside : index < first.length
  · rw [getElem?_of_lt_length inside, getElem?_of_lt_length (sameLength ▸ inside),
      sameValues index]
  · rw [List.getElem?_eq_none (by omega), List.getElem?_eq_none (by omega)]

theorem isKnown_valueAt
    {locals : List VType}
    (known : ∀ type ∈ locals, type.IsKnown hierarchy)
    (index : Nat) :
    (valueAt locals index).IsKnown hierarchy := by
  by_cases inside : index < locals.length
  · exact known _ (List.mem_of_getElem? (getElem?_of_lt_length inside))
  · rw [valueAt_of_length_le (by omega)]
    trivial

end Locals

namespace Frame

/-- Two slots of known classes are merged to their join. -/
theorem exists_mergeSlot_eq_ok
    (rooted : hierarchy.IsRooted)
    {first second : VType}
    (firstKnown : first.IsKnown hierarchy)
    (secondKnown : second.IsKnown hierarchy) :
    ∃ merged, mergeSlot hierarchy first second = .ok merged ∧
      IsJoin (VerificationType.SlotUnder hierarchy) first second merged ∧
      merged.IsKnown hierarchy := by
  rcases VerificationType.merge_cases rooted firstKnown secondKnown with
    ⟨merged, computed, isJoin, known⟩ | ⟨computed, unbounded⟩
  · refine ⟨merged, by simp [mergeSlot, computed], ⟨.inr isJoin.left, .inr isJoin.right, ?_⟩, known⟩
    rintro bound (isTop | below) (isTop' | above)
    · exact .inl isTop
    · exact .inl isTop
    · exact .inl isTop'
    · exact .inr (isJoin.least bound below above)
  · refine ⟨.top, by simp [mergeSlot, computed], ⟨.inl rfl, .inl rfl, ?_⟩, trivial⟩
    rintro bound (isTop | below) (isTop' | above)
    · exact .inl isTop
    · exact .inl isTop
    · exact .inl isTop'
    · exact absurd above (unbounded bound below)

/-- Stacks are merged if there is a stack above both. -/
theorem exists_forall₂_merge
    (rooted : hierarchy.IsRooted)
    {first second bound : OperandStack}
    (firstKnown : ∀ type ∈ first, type.IsKnown hierarchy)
    (secondKnown : ∀ type ∈ second, type.IsKnown hierarchy)
    (below : List.Forall₂ (VerificationType.IsUnder hierarchy) first bound)
    (above : List.Forall₂ (VerificationType.IsUnder hierarchy) second bound) :
    ∃ merged, List.Forall₂
      (fun pair value => VerificationType.merge hierarchy pair.1 pair.2 = .ok (some value))
      (first.zip second) merged := by
  induction below generalizing second with
  | nil => exact ⟨[], .nil⟩
  | @cons value limit values limits headBelow _ inductionHypothesis =>
      cases above with
      | @cons other _ others _ headAbove tailAbove =>
          obtain ⟨merged, tailMerged⟩ := inductionHypothesis
            (fun type member => firstKnown type (List.mem_cons_of_mem _ member))
            (fun type member => secondKnown type (List.mem_cons_of_mem _ member)) tailAbove
          rcases VerificationType.merge_cases rooted (firstKnown value List.mem_cons_self)
              (secondKnown other List.mem_cons_self) with
            ⟨head, headMerged, _⟩ | ⟨_, unbounded⟩
          · exact ⟨head :: merged, .cons headMerged tailMerged⟩
          · exact absurd headAbove (unbounded limit headBelow)

/-- Stacks are merged to their join, value by value. -/
theorem isJoin_of_forall₂_merge
    (rooted : hierarchy.IsRooted)
    {first second merged : OperandStack}
    (firstKnown : ∀ type ∈ first, type.IsKnown hierarchy)
    (secondKnown : ∀ type ∈ second, type.IsKnown hierarchy)
    (sameDepth : first.length = second.length)
    (computed : List.Forall₂
      (fun pair value => VerificationType.merge hierarchy pair.1 pair.2 = .ok (some value))
      (first.zip second) merged) :
    IsJoin (List.Forall₂ (VerificationType.IsUnder hierarchy)) first second merged ∧
      ∀ type ∈ merged, type.IsKnown hierarchy := by
  induction first generalizing second merged with
  | nil =>
      cases List.length_eq_zero_iff.mp sameDepth.symm
      cases computed
      exact ⟨⟨.nil, .nil, fun _ below _ => below⟩, nofun⟩
  | cons value values inductionHypothesis =>
      cases second with
      | nil => cases sameDepth
      | cons other others =>
          cases computed with
          | @cons _ head _ tail headComputed tailComputed =>
              obtain ⟨tailJoin, tailKnown⟩ := inductionHypothesis
                (fun type member => firstKnown type (List.mem_cons_of_mem _ member))
                (fun type member => secondKnown type (List.mem_cons_of_mem _ member))
                (Nat.succ.inj sameDepth) tailComputed
              rcases VerificationType.merge_cases rooted (firstKnown value List.mem_cons_self)
                  (secondKnown other List.mem_cons_self) with
                ⟨same, isSame, headJoin, headKnown⟩ | ⟨isNone, _⟩
              · cases headComputed.symm.trans isSame
                refine ⟨⟨.cons headJoin.left tailJoin.left, .cons headJoin.right tailJoin.right,
                  ?_⟩, by simpa using ⟨headKnown, tailKnown⟩⟩
                intro bound below above
                cases below with
                | cons headBelow tailBelow =>
                    cases above with
                    | cons headAbove tailAbove =>
                        exact .cons (headJoin.least _ headBelow headAbove)
                          (tailJoin.least _ tailBelow tailAbove)
              · cases headComputed.symm.trans isNone

/-! ## Frames -/

/-- A frame is under another one if its stack holds as many values, each under the one at its place,
and so do its slots. -/
structure IsUnder (hierarchy : Hierarchy) (special general : Frame) : Prop where
  stack : List.Forall₂ (VerificationType.IsUnder hierarchy) special.stack general.stack
  locals : ∀ index, VerificationType.SlotUnder hierarchy
    (Locals.valueAt special.locals index) (Locals.valueAt general.locals index)

/-- Every wide value has both its halves, and the classes of all values are known. -/
structure IsProper (hierarchy : Hierarchy) (frame : Frame) : Prop where
  whole : Locals.IsWhole frame.locals
  stack : ∀ type ∈ frame.stack, type.IsKnown hierarchy
  locals : ∀ type ∈ frame.locals, type.IsKnown hierarchy

/-- Frames that differ at most in useless slots at the end. -/
def Alike (first second : Frame) : Prop :=
  first.stack = second.stack ∧
    ∀ index, Locals.valueAt first.locals index = Locals.valueAt second.locals index

/-- The frame that two frames are merged to, if they are. -/
def merged? (hierarchy : Hierarchy) (first second : Frame) : Option Frame :=
  match first.merge hierarchy second with
  | .ok (merged, _) => some merged
  | .error _ => none

theorem merged?_eq_some_iff_merge
    {first second merged : Frame} :
    first.merged? hierarchy second = some merged ↔
      ∃ changed, first.merge hierarchy second = .ok (merged, changed) := by
  unfold merged?
  split
  · rename_i computed
    simp [computed]
  · rename_i failed
    simp [failed]

theorem merged?_eq_none_iff
    {first second : Frame} :
    first.merged? hierarchy second = none ↔
      ∃ error, first.merge hierarchy second = .error error := by
  unfold merged?
  split
  · rename_i computed
    simp [computed]
  · rename_i failed
    simp [failed]

namespace IsUnder

theorem refl
    (frame : Frame) :
    frame.IsUnder hierarchy frame where
  stack := List.forall₂_same.mpr fun type _ => .refl type
  locals := fun _ => .refl _

theorem trans
    (rooted : hierarchy.IsRooted)
    {first second third : Frame}
    (lower : first.IsUnder hierarchy second)
    (upper : second.IsUnder hierarchy third) :
    first.IsUnder hierarchy third where
  stack := forall₂_comp (fun _ _ _ below above => below.trans rooted above) lower.stack upper.stack
  locals := fun index => (lower.locals index).trans rooted (upper.locals index)

/-- Frames under each other are the same but for useless slots at the end. -/
theorem alike
    (rooted : hierarchy.IsRooted)
    {first second : Frame}
    (lower : first.IsUnder hierarchy second)
    (upper : second.IsUnder hierarchy first) :
    first.Alike second := by
  refine ⟨?_, fun index => (lower.locals index).antisymm rooted (upper.locals index)⟩
  apply List.ext_get lower.stack.length_eq
  intro index inside otherInside
  exact (lower.stack.get inside otherInside).antisymm rooted (upper.stack.get otherInside inside)

end IsUnder

theorem Alike.eq_of_localSlots
    {first second : Frame}
    (alike : first.Alike second)
    (sameSlots : first.localSlots = second.localSlots) :
    first = second := by
  have sameLocals := Locals.ext_valueAt sameSlots alike.2
  cases first
  cases second
  simp_all [Alike]

/-! ## Merging -/

namespace IsMerge

variable {first second merged : Frame} {slots : List VType}

/-- Slots of frames in which every wide value has both its halves are merged to such slots. -/
theorem isWhole_slots
    (isMerge : IsMerge hierarchy first second merged slots)
    (firstWhole : Locals.IsWhole first.locals)
    (secondWhole : Locals.IsWhole second.locals) :
    Locals.IsWhole slots := by
  intro index isWide
  have slotMerged := isMerge.mergeSlot_eq index
  have bothWide : (Locals.valueAt first.locals index).isWide = true ∧
      (Locals.valueAt second.locals index).isWide = true := by
    unfold mergeSlot at slotMerged
    split at slotMerged
    · rename_i result computed
      cases result with
      | none =>
          rw [← Except.ok.inj slotMerged] at isWide
          cases isWide
      | some value =>
          rw [← Except.ok.inj slotMerged] at isWide
          exact VerificationType.isWide_of_merge computed isWide
    · cases slotMerged
  have firstNext := firstWhole index bothWide.1
  have secondNext := secondWhole index bothWide.2
  have nextMerged := isMerge.mergeSlot_eq (index + 1)
  rw [Locals.valueAt_of_getElem? firstNext, Locals.valueAt_of_getElem? secondNext] at nextMerged
  have firstInside := (List.getElem?_eq_some_iff.mp firstNext).1
  have inside : index + 1 < slots.length := by
    rw [isMerge.length_slots]
    exact Nat.lt_of_lt_of_le firstInside (Nat.le_max_left _ _)
  rw [Locals.getElem?_of_lt_length inside, ← Except.ok.inj nextMerged]
  rfl

/-- No half of a wide value is lost. -/
theorem locals_eq
    (isMerge : IsMerge hierarchy first second merged slots)
    (firstProper : first.IsProper hierarchy)
    (secondProper : second.IsProper hierarchy) :
    merged.locals = slots :=
  isMerge.whole.trans
    (dropHalves_of_isWhole (isMerge.isWhole_slots firstProper.whole secondProper.whole))

/-- Every slot holds the join of the values at its place. -/
theorem isJoin_valueAt
    (rooted : hierarchy.IsRooted)
    (isMerge : IsMerge hierarchy first second merged slots)
    (firstProper : first.IsProper hierarchy)
    (secondProper : second.IsProper hierarchy)
    (index : Nat) :
    IsJoin (VerificationType.SlotUnder hierarchy) (Locals.valueAt first.locals index)
        (Locals.valueAt second.locals index) (Locals.valueAt merged.locals index) ∧
      (Locals.valueAt merged.locals index).IsKnown hierarchy := by
  obtain ⟨value, computed, isJoin, known⟩ := exists_mergeSlot_eq_ok rooted
    (Locals.isKnown_valueAt firstProper.locals index)
    (Locals.isKnown_valueAt secondProper.locals index)
  rw [isMerge.locals_eq firstProper secondProper,
    Except.ok.inj ((isMerge.mergeSlot_eq index).symm.trans computed)]
  exact ⟨isJoin, known⟩

/-- Two frames are merged to their join. -/
theorem isJoin
    (rooted : hierarchy.IsRooted)
    (isMerge : IsMerge hierarchy first second merged slots)
    (firstProper : first.IsProper hierarchy)
    (secondProper : second.IsProper hierarchy) :
    IsJoin (IsUnder hierarchy) first second merged := by
  have stackJoin := (isJoin_of_forall₂_merge rooted firstProper.stack secondProper.stack
    isMerge.sameDepth isMerge.stack).1
  have slotJoin := fun index =>
    (isMerge.isJoin_valueAt rooted firstProper secondProper index).1
  exact ⟨⟨stackJoin.left, fun index => (slotJoin index).left⟩,
    ⟨stackJoin.right, fun index => (slotJoin index).right⟩,
    fun bound below above => ⟨stackJoin.least _ below.stack above.stack,
      fun index => (slotJoin index).least _ (below.locals index) (above.locals index)⟩⟩

theorem isProper
    (rooted : hierarchy.IsRooted)
    (isMerge : IsMerge hierarchy first second merged slots)
    (firstProper : first.IsProper hierarchy)
    (secondProper : second.IsProper hierarchy) :
    merged.IsProper hierarchy where
  whole := isMerge.isWhole
  stack := (isJoin_of_forall₂_merge rooted firstProper.stack secondProper.stack
    isMerge.sameDepth isMerge.stack).2
  locals := by
    intro type member
    obtain ⟨index, found⟩ := List.getElem?_of_mem member
    rw [← Locals.valueAt_of_getElem? found]
    exact (isMerge.isJoin_valueAt rooted firstProper secondProper index).2

end IsMerge

/-- Two frames are merged if there is a frame above both. -/
theorem exists_isMerge
    (rooted : hierarchy.IsRooted)
    {first second bound : Frame}
    (firstProper : first.IsProper hierarchy)
    (secondProper : second.IsProper hierarchy)
    (below : first.IsUnder hierarchy bound)
    (above : second.IsUnder hierarchy bound) :
    ∃ merged slots, IsMerge hierarchy first second merged slots := by
  obtain ⟨stack, stackMerged⟩ := exists_forall₂_merge rooted firstProper.stack secondProper.stack
    below.stack above.stack
  have slotsMerged : ∃ slots, List.Forall₂
      (fun slot pair => mergeSlot hierarchy pair.1 pair.2 = .ok slot)
      slots (pairSlots first.locals second.locals) := by
    apply exists_forall₂_of_forall
    intro pair member
    obtain ⟨index, found⟩ := List.getElem?_of_mem member
    have inside := (List.getElem?_eq_some_iff.mp found).1
    rw [length_pairSlots] at inside
    rw [getElem?_pairSlots _ _ inside] at found
    obtain ⟨slot, computed, _⟩ := exists_mergeSlot_eq_ok rooted
      (Locals.isKnown_valueAt firstProper.locals index)
      (Locals.isKnown_valueAt secondProper.locals index)
    rw [← Option.some.inj found]
    exact ⟨slot, computed⟩
  obtain ⟨slots, slotsMerged⟩ := slotsMerged
  exact ⟨⟨dropHalves slots, stack⟩, slots,
    below.stack.length_eq.trans above.stack.length_eq.symm, stackMerged, slotsMerged.flip, rfl⟩

/-- Frames are merged to their join, with as many slots as the frame with more of them has. -/
theorem merged?_eq_some_iff
    (rooted : hierarchy.IsRooted)
    {first second merged : Frame}
    (firstProper : first.IsProper hierarchy)
    (secondProper : second.IsProper hierarchy) :
    first.merged? hierarchy second = some merged ↔
      IsJoin (IsUnder hierarchy) first second merged ∧
        merged.localSlots = max first.localSlots second.localSlots := by
  rw [merged?_eq_some_iff_merge]
  constructor
  · rintro ⟨changed, computed⟩
    obtain ⟨slots, isMerge, _⟩ := merge_eq_ok_iff.mp computed
    exact ⟨isMerge.isJoin rooted firstProper secondProper, isMerge.localSlots_eq⟩
  · rintro ⟨isJoin, sameSlots⟩
    obtain ⟨other, slots, isMerge⟩ :=
      exists_isMerge rooted firstProper secondProper isJoin.left isJoin.right
    have otherJoin := isMerge.isJoin rooted firstProper secondProper
    have alike := (otherJoin.least merged isJoin.left isJoin.right).alike rooted
      (isJoin.least other otherJoin.left otherJoin.right)
    obtain rfl := alike.eq_of_localSlots (isMerge.localSlots_eq.trans sameSlots.symm)
    refine ⟨!decide (other.stack = first.stack ∧
      slots = Locals.extend first.locals second.localSlots ∧ other.locals = slots), ?_⟩
    exact merge_eq_ok_iff.mpr ⟨slots, isMerge, by simp⟩

/-! ## Laws -/

section Laws

variable {first second third merged : Frame} {changed : Bool}

theorem isProper_of_merged?
    (rooted : hierarchy.IsRooted)
    (firstProper : first.IsProper hierarchy)
    (secondProper : second.IsProper hierarchy)
    (computed : first.merged? hierarchy second = some merged) :
    merged.IsProper hierarchy := by
  obtain ⟨changed, computed⟩ := merged?_eq_some_iff_merge.mp computed
  obtain ⟨slots, isMerge, _⟩ := merge_eq_ok_iff.mp computed
  exact isMerge.isProper rooted firstProper secondProper

theorem merged?_comm
    (rooted : hierarchy.IsRooted)
    (firstProper : first.IsProper hierarchy)
    (secondProper : second.IsProper hierarchy) :
    first.merged? hierarchy second = second.merged? hierarchy first := by
  ext merged
  rw [merged?_eq_some_iff rooted firstProper secondProper,
    merged?_eq_some_iff rooted secondProper firstProper, Nat.max_comm]
  exact and_congr_left fun _ => ⟨IsJoin.symm, IsJoin.symm⟩

/-- Two frames are merged exactly if there is a frame above both. -/
theorem exists_merged?_eq_some_iff
    (rooted : hierarchy.IsRooted)
    (firstProper : first.IsProper hierarchy)
    (secondProper : second.IsProper hierarchy) :
    (∃ merged, first.merged? hierarchy second = some merged) ↔
      ∃ bound, first.IsUnder hierarchy bound ∧ second.IsUnder hierarchy bound := by
  constructor
  · rintro ⟨merged, computed⟩
    have isJoin := ((merged?_eq_some_iff rooted firstProper secondProper).mp computed).1
    exact ⟨merged, isJoin.left, isJoin.right⟩
  · rintro ⟨bound, below, above⟩
    obtain ⟨merged, slots, isMerge⟩ :=
      exists_isMerge rooted firstProper secondProper below above
    exact ⟨merged, (merged?_eq_some_iff rooted firstProper secondProper).mpr
      ⟨isMerge.isJoin rooted firstProper secondProper, isMerge.localSlots_eq⟩⟩

/-- Where the first two frames are merged and then the third, the last two can be merged before the
first. -/
theorem exists_merged?_of_merged?
    (rooted : hierarchy.IsRooted)
    (firstProper : first.IsProper hierarchy)
    (secondProper : second.IsProper hierarchy)
    (thirdProper : third.IsProper hierarchy)
    {left : Frame}
    (leftMerged : first.merged? hierarchy second = some left)
    (allMerged : left.merged? hierarchy third = some merged) :
    ∃ right, second.merged? hierarchy third = some right ∧
      first.merged? hierarchy right = some merged := by
  have leftProper := isProper_of_merged? rooted firstProper secondProper leftMerged
  obtain ⟨leftJoin, leftSlots⟩ :=
    (merged?_eq_some_iff rooted firstProper secondProper).mp leftMerged
  obtain ⟨allJoin, allSlots⟩ := (merged?_eq_some_iff rooted leftProper thirdProper).mp allMerged
  obtain ⟨right, rightMerged⟩ := (exists_merged?_eq_some_iff rooted secondProper thirdProper).mpr
    ⟨merged, leftJoin.right.trans rooted allJoin.left, allJoin.right⟩
  obtain ⟨rightJoin, rightSlots⟩ :=
    (merged?_eq_some_iff rooted secondProper thirdProper).mp rightMerged
  have rightProper := isProper_of_merged? rooted secondProper thirdProper rightMerged
  refine ⟨right, rightMerged, (merged?_eq_some_iff rooted firstProper rightProper).mpr
    ⟨leftJoin.assoc (fun lower upper => lower.trans rooted upper) allJoin rightJoin, ?_⟩⟩
  rw [allSlots, leftSlots, rightSlots, Nat.max_assoc]

theorem merged?_assoc
    (rooted : hierarchy.IsRooted)
    (firstProper : first.IsProper hierarchy)
    (secondProper : second.IsProper hierarchy)
    (thirdProper : third.IsProper hierarchy) :
    (first.merged? hierarchy second).bind (·.merged? hierarchy third) =
      (second.merged? hierarchy third).bind (first.merged? hierarchy ·) := by
  ext merged
  rw [Option.bind_eq_some_iff, Option.bind_eq_some_iff]
  constructor
  · rintro ⟨left, leftMerged, allMerged⟩
    exact exists_merged?_of_merged? rooted firstProper secondProper thirdProper leftMerged allMerged
  · rintro ⟨right, rightMerged, allMerged⟩
    have rightProper := isProper_of_merged? rooted secondProper thirdProper rightMerged
    rw [merged?_comm rooted secondProper thirdProper] at rightMerged
    rw [merged?_comm rooted firstProper rightProper] at allMerged
    obtain ⟨left, leftMerged, allMerged⟩ :=
      exists_merged?_of_merged? rooted thirdProper secondProper firstProper rightMerged allMerged
    rw [merged?_comm rooted secondProper firstProper] at leftMerged
    have leftProper := isProper_of_merged? rooted firstProper secondProper leftMerged
    rw [merged?_comm rooted thirdProper leftProper] at allMerged
    exact ⟨left, leftMerged, allMerged⟩

/-- A merge says that it changed nothing exactly if it did not change more than useless slots at the
end. -/
theorem merge_eq_false_iff
    (firstProper : first.IsProper hierarchy)
    (secondProper : second.IsProper hierarchy)
    (computed : first.merge hierarchy second = .ok (merged, changed)) :
    changed = false ↔ merged.Alike first := by
  obtain ⟨slots, isMerge, isChanged⟩ := merge_eq_ok_iff.mp computed
  rw [isChanged, ← isMerge.locals_eq firstProper secondProper]
  refine and_congr_right fun _ => ⟨?_, ?_⟩
  · rintro ⟨sameLocals, _⟩ index
    rw [sameLocals, Locals.valueAt_extend]
  · intro sameValues
    refine ⟨Locals.ext_valueAt ?_ fun index => ?_, rfl⟩
    · rw [Locals.length_extend]
      exact isMerge.localSlots_eq
    · rw [Locals.valueAt_extend, sameValues index]

/-- A frame that is under another one, and has no more slots, does not change it. -/
theorem merge_eq_of_isUnder
    (rooted : hierarchy.IsRooted)
    (firstProper : first.IsProper hierarchy)
    (secondProper : second.IsProper hierarchy)
    (under : second.IsUnder hierarchy first)
    (noMoreSlots : second.localSlots ≤ first.localSlots) :
    first.merge hierarchy second = .ok (first, false) := by
  have computed := (merged?_eq_some_iff rooted firstProper secondProper).mpr
    ⟨IsJoin.of_under IsUnder.refl under, (Nat.max_eq_left noMoreSlots).symm⟩
  obtain ⟨changed, computed⟩ := merged?_eq_some_iff_merge.mp computed
  obtain rfl := (merge_eq_false_iff firstProper secondProper computed).mpr ⟨rfl, fun _ => rfl⟩
  exact computed

end Laws

/-- What merging frames is. It has a result exactly if there is a frame above both, and that is the
least one. It is commutative and associative, also in whether it has a result, and idempotent. It
says that it changed nothing exactly if that is so, keeps every wide value whole, and changes nothing
when either frame is merged once more. -/
structure MergesAsPartialJoin (hierarchy : Hierarchy) : Prop where
  bounded : ∀ {first second}, IsProper hierarchy first → IsProper hierarchy second →
    ((∃ merged, first.merged? hierarchy second = some merged) ↔
      ∃ bound, first.IsUnder hierarchy bound ∧ second.IsUnder hierarchy bound)
  isJoin : ∀ {first second merged}, IsProper hierarchy first → IsProper hierarchy second →
    first.merged? hierarchy second = some merged → IsJoin (IsUnder hierarchy) first second merged
  comm : ∀ {first second}, IsProper hierarchy first → IsProper hierarchy second →
    first.merged? hierarchy second = second.merged? hierarchy first
  assoc : ∀ {first second third}, IsProper hierarchy first → IsProper hierarchy second →
    IsProper hierarchy third →
    (first.merged? hierarchy second).bind (·.merged? hierarchy third) =
      (second.merged? hierarchy third).bind (first.merged? hierarchy ·)
  idem : ∀ {frame}, IsProper hierarchy frame → frame.merge hierarchy frame = .ok (frame, false)
  fails : ∀ {first second}, IsProper hierarchy first → IsProper hierarchy second →
    ((∃ error, first.merge hierarchy second = .error error) ↔
      ∃ error, second.merge hierarchy first = .error error)
  unchanged : ∀ {first second merged changed}, IsProper hierarchy first →
    IsProper hierarchy second → first.merge hierarchy second = .ok (merged, changed) →
    (changed = false ↔ merged.Alike first)
  isProper : ∀ {first second merged}, IsProper hierarchy first → IsProper hierarchy second →
    first.merged? hierarchy second = some merged → merged.IsProper hierarchy
  absorbs : ∀ {first second merged}, IsProper hierarchy first → IsProper hierarchy second →
    first.merged? hierarchy second = some merged →
    merged.merge hierarchy first = .ok (merged, false) ∧
      merged.merge hierarchy second = .ok (merged, false)

/-- Where all declarations lead up to a root class and are found under their own names, merging
frames of known classes is a partial join. -/
theorem mergesAsPartialJoin_of_isRooted
    (rooted : hierarchy.IsRooted) :
    MergesAsPartialJoin hierarchy where
  bounded := exists_merged?_eq_some_iff rooted
  isJoin firstProper secondProper computed :=
    ((merged?_eq_some_iff rooted firstProper secondProper).mp computed).1
  comm := merged?_comm rooted
  assoc := merged?_assoc rooted
  idem proper := merge_eq_of_isUnder rooted proper proper (.refl _) (Nat.le_refl _)
  fails firstProper secondProper := by
    rw [← merged?_eq_none_iff, ← merged?_eq_none_iff, merged?_comm rooted firstProper secondProper]
  unchanged := merge_eq_false_iff
  isProper := isProper_of_merged? rooted
  absorbs firstProper secondProper computed := by
    have proper := isProper_of_merged? rooted firstProper secondProper computed
    obtain ⟨isJoin, sameSlots⟩ :=
      (merged?_eq_some_iff rooted firstProper secondProper).mp computed
    exact ⟨merge_eq_of_isUnder rooted proper firstProper isJoin.left
        (sameSlots ▸ Nat.le_max_left _ _),
      merge_eq_of_isUnder rooted proper secondProper isJoin.right
        (sameSlots ▸ Nat.le_max_right _ _)⟩

end Frame

/-! ## Roots -/

/-- The classes of the platform lead up to its root class. -/
theorem Hierarchy.core_isRooted : Hierarchy.core.IsRooted where
  toIsOrderly := core_isRegular.toIsOrderly
  named := core_wellFormed.named
  rooted := core_wellFormed.rooted

namespace Boxes

/-- A number with its second half, a box, and a null value on the stack. -/
def fewSlots : Frame :=
  ⟨[.long, .top, .object (.object .integer)], [.null]⟩

/-- The number, another box, a narrow number, and a text on the stack. -/
def moreSlots : Frame :=
  ⟨[.long, .top, .object (.object .long), .int], [.object (.object .string)]⟩

/-- The number, any box of a number, and the text on the stack. -/
def shared : Frame :=
  ⟨[.long, .top, .object (.object .number), .top], [.object (.object .string)]⟩

theorem fewSlots_isProper : fewSlots.IsProper .core where
  whole := by
    rintro (_ | _ | _ | index) isWide
    · rfl
    all_goals cases isWide
  stack := by simp [fewSlots, VerificationType.IsKnown]
  locals := by
    have known : Hierarchy.core.Knows .integer := by decide +kernel
    simpa [fewSlots, VerificationType.IsKnown, RefType.IsKnown] using known

theorem moreSlots_isProper : moreSlots.IsProper .core where
  whole := by
    rintro (_ | _ | _ | _ | index) isWide
    · rfl
    all_goals cases isWide
  stack := by
    have known : Hierarchy.core.Knows .string := by decide +kernel
    simpa [moreSlots, VerificationType.IsKnown, RefType.IsKnown] using known
  locals := by
    have known : Hierarchy.core.Knows .long := by decide +kernel
    simpa [moreSlots, VerificationType.IsKnown, RefType.IsKnown] using known

end Boxes

open Boxes in
/-- Two frames over the classes of the platform are merged to the same frame in either order, and it
is not changed by them any more. -/
theorem core_mergesAsPartialJoin :
    Hierarchy.core.IsRooted ∧ fewSlots.IsProper .core ∧ moreSlots.IsProper .core ∧
      fewSlots.merge .core moreSlots = .ok (shared, true) ∧
      moreSlots.merged? .core fewSlots = some shared ∧
      shared.merge .core fewSlots = .ok (shared, false) := by
  have laws := Frame.mergesAsPartialJoin_of_isRooted Hierarchy.core_isRooted
  have computed : fewSlots.merge .core moreSlots = .ok (shared, true) := by decide +kernel
  have isShared : fewSlots.merged? .core moreSlots = some shared :=
    Frame.merged?_eq_some_iff_merge.mpr ⟨true, computed⟩
  refine ⟨Hierarchy.core_isRooted, fewSlots_isProper, moreSlots_isProper, computed, ?_, ?_⟩
  · rw [laws.comm moreSlots_isProper fewSlots_isProper, isShared]
  · exact (laws.absorbs fewSlots_isProper moreSlots_isProper isShared).1

namespace Unrooted

def topClass : BinaryName := ⟨"a/Top", by decide⟩
def plainClass : BinaryName := ⟨"a/Plain", by decide⟩
def missingClass : BinaryName := ⟨"a/Missing", by decide⟩

/-- A frame with one value on its stack. -/
def holding (name : BinaryName) : Frame :=
  ⟨[], [.object (.object name)]⟩

/-- The root class has a superclass, which another class has as well. -/
def aboveRoot : Hierarchy where
  declared := [
    { CoreClass.publicClass topClass [] [] with super := none },
    { CoreClass.publicClass plainClass [] [] with super := some topClass },
    { CoreClass.root with super := some topClass }]
  loaded := []

/-- A class is found under the name of another one. -/
def otherName : Hierarchy where
  declared := [{ CoreClass.publicClass plainClass [] [] with super := some topClass }]
  loaded := [(topClass, .ok (CoreClass.publicClass missingClass [] []))]

end Unrooted

open Unrooted in
/-- The order of a merge matters where a class of a frame is missing, where the root class has a
superclass, and where a class is found under the name of another one, although all declarations lead
up. -/
theorem merge_order_matters :
    (Hierarchy.core.IsOrderly ∧
        (holding .runnable).merge .core (holding missingClass) = .ok (holding .object, true) ∧
        (holding missingClass).merge .core (holding .runnable) =
          .error (.classes (.missingClass "a/Missing"))) ∧
      (aboveRoot.IsOrderly ∧
        (holding .runnable).merge aboveRoot (holding plainClass) = .ok (holding .object, true) ∧
        (holding .object).merge aboveRoot (holding plainClass) = .ok (holding topClass, true)) ∧
      otherName.IsOrderly ∧
        (holding plainClass).merge otherName (holding topClass) = .ok (holding missingClass, true) ∧
        (holding missingClass).merge otherName (holding topClass) =
          .error (.classes (.missingClass "a/Missing")) := by
  refine ⟨⟨Hierarchy.core_isRegular.toIsOrderly, ?_, ?_⟩,
    ⟨Hierarchy.isOrderly_of_declared (Hierarchy.of_allDeclared ?_), ?_, ?_⟩,
    Hierarchy.isOrderly_of_declared (Hierarchy.of_allDeclared ?_), ?_, ?_⟩
  all_goals decide +kernel

end ClosureConversion
