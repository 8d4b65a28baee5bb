import ClosureConversion.Flow.Merging
import ClosureConversion.Proofs.Hierarchy.Joins

/-!
Contract: which frames stand for which, and merging two frames as the search for one that
stands for both.

Owns:
- the order of values, slots and frames;
- frames in which every wide value has both its halves;
- a merged frame covers both frames, and a frame that covers another one stays as it is
  when the two are merged.

Does not own: what instructions do to frames that cover each other.
-/

namespace ClosureConversion

variable {hierarchy : Hierarchy}

/-! ## Values -/

namespace VerificationType

/-- The order of values: null is below every object, and objects are in the order of
their types. -/
inductive IsBelow (hierarchy : Hierarchy) : VType → VType → Prop where
  | refl (type : VType) : IsBelow hierarchy type type
  | null (type : RefType) : IsBelow hierarchy .null (.object type)
  | object {sub super : RefType} :
      sub.IsBelow hierarchy super → IsBelow hierarchy (.object sub) (.object super)

/-- The order of slots: a useless slot stands for every slot. -/
def FitsSlot (hierarchy : Hierarchy) (special general : VType) : Prop :=
  general = .top ∨ IsBelow hierarchy special general

/-- The superclasses of the class that the type names are found. -/
def IsKnown (hierarchy : Hierarchy) : VType → Prop
  | .object type => type.IsKnown hierarchy
  | _ => True

/-- A value of known classes that is below another one. -/
def KnownBelow (hierarchy : Hierarchy) (special general : VType) : Prop :=
  special.IsKnown hierarchy ∧ special.IsBelow hierarchy general

/-- A value of known classes in a slot that fits another one. -/
def KnownFits (hierarchy : Hierarchy) (special general : VType) : Prop :=
  special.IsKnown hierarchy ∧ FitsSlot hierarchy special general

theorem IsBelow.trans
    (wellFormed : hierarchy.WellFormed)
    {first second third : VType}
    (firstBelow : IsBelow hierarchy first second)
    (secondBelow : IsBelow hierarchy second third) :
    IsBelow hierarchy first third := by
  cases firstBelow with
  | refl => exact secondBelow
  | null type =>
      cases secondBelow with
      | refl => exact .null type
      | object _ => exact .null _
  | object below =>
      cases secondBelow with
      | refl => exact .object below
      | object above => exact .object (below.trans wellFormed above)

theorem IsBelow.isWide_eq
    {special general : VType}
    (below : IsBelow hierarchy special general) :
    special.isWide = general.isWide := by
  cases below <;> rfl

theorem FitsSlot.trans
    (wellFormed : hierarchy.WellFormed)
    {first second third : VType}
    (firstFits : FitsSlot hierarchy first second)
    (secondFits : FitsSlot hierarchy second third) :
    FitsSlot hierarchy first third := by
  rcases secondFits with isTop | secondBelow
  · exact .inl isTop
  · rcases firstFits with rfl | firstBelow
    · cases secondBelow
      exact .inl rfl
    · exact .inr (firstBelow.trans wellFormed secondBelow)

/-- Both values are below the type that they are merged to. -/
theorem isBelow_merge
    (wellFormed : hierarchy.WellFormed)
    {first second merged : VType}
    (computed : merge hierarchy first second = .ok (some merged)) :
    IsBelow hierarchy first merged ∧ IsBelow hierarchy second merged := by
  unfold merge at computed
  split at computed
  · rename_i same
    cases computed
    exact ⟨.refl _, same ▸ .refl _⟩
  · split at computed
    · cases computed
      exact ⟨.null _, .refl _⟩
    · cases computed
      exact ⟨.refl _, .null _⟩
    · obtain ⟨shared, found, isShared⟩ := map_eq_ok.mp computed
      cases isShared
      obtain ⟨firstBelow, secondBelow⟩ := Hierarchy.isBelow_commonSupertype wellFormed found
      exact ⟨.object firstBelow, .object secondBelow⟩
    · cases computed

/-- Merging keeps the width of values. -/
theorem isWide_merge
    {first second merged : VType}
    (computed : merge hierarchy first second = .ok (some merged)) :
    merged.isWide = first.isWide := by
  unfold merge at computed
  split at computed
  · cases computed
    rfl
  · split at computed
    · cases computed
      rfl
    · cases computed
      rfl
    · obtain ⟨shared, found, isShared⟩ := map_eq_ok.mp computed
      cases isShared
      rfl
    · cases computed

/-- A value and one above it are merged to the latter. -/
theorem merge_eq_of_isBelow
    (wellFormed : hierarchy.WellFormed)
    {special general : VType}
    (known : special.IsKnown hierarchy)
    (below : IsBelow hierarchy special general) :
    merge hierarchy general special = .ok (some general) := by
  unfold merge
  split
  · rfl
  · rename_i different
    cases below with
    | refl => exact absurd rfl different
    | null type => rfl
    | object below =>
        exact map_eq_ok.mpr
          ⟨_, Hierarchy.commonSupertype_eq_of_isBelow wellFormed known below, rfl⟩

end VerificationType

/-! ## Slots -/

namespace Locals

/-- What a slot holds; there is nothing of use beyond the last slot. -/
def valueAt (locals : List VType) (index : Nat) : VType :=
  locals.getD index .top

/-- Every wide value is followed by its second half. -/
def IsWhole (locals : List VType) : Prop :=
  ∀ index, (valueAt locals index).isWide = true → locals[index + 1]? = some .top

theorem valueAt_of_getElem?
    {locals : List VType}
    {index : Nat}
    {type : VType}
    (found : locals[index]? = some type) :
    valueAt locals index = type := by
  simp [valueAt, List.getD_eq_getElem?_getD, found]

theorem getElem?_of_lt_length
    {locals : List VType}
    {index : Nat}
    (inside : index < locals.length) :
    locals[index]? = some (valueAt locals index) := by
  rw [valueAt_of_getElem? (List.getElem?_eq_getElem inside)]
  exact List.getElem?_eq_getElem inside

theorem valueAt_of_length_le
    {locals : List VType}
    {index : Nat}
    (beyond : locals.length ≤ index) :
    valueAt locals index = .top := by
  simp [valueAt, List.getD_eq_getElem?_getD, List.getElem?_eq_none beyond]

@[simp] theorem length_extend
    (locals : List VType)
    (count : Nat) :
    (extend locals count).length = max locals.length count := by
  simp only [extend, List.length_append, List.length_replicate]
  omega

@[simp] theorem valueAt_extend
    (locals : List VType)
    (count index : Nat) :
    valueAt (extend locals count) index = valueAt locals index := by
  unfold valueAt extend
  rw [List.getD_eq_getElem?_getD, List.getD_eq_getElem?_getD]
  by_cases inside : index < locals.length
  · rw [List.getElem?_append_left inside]
  · rw [List.getElem?_append_right (by omega), List.getElem?_eq_none (l := locals) (by omega),
      List.getElem?_replicate]
    split <;> rfl

/-- Slots beyond the last one may be added to a list of whole values. -/
theorem IsWhole.extend
    {locals : List VType}
    (whole : IsWhole locals)
    (count : Nat) :
    IsWhole (extend locals count) := by
  intro index isWide
  rw [valueAt_extend] at isWide
  have found := whole index isWide
  have inside : index + 1 < locals.length := (List.getElem?_eq_some_iff.mp found).1
  rw [Locals.extend, List.getElem?_append_left inside]
  exact found

end Locals

/-! ## Frames -/

namespace Frame

/-- A frame is below another one if its stack holds as many values, each below the one at
its place, and its slots fit. -/
structure IsBelow (hierarchy : Hierarchy) (special general : Frame) : Prop where
  stack : List.Forall₂ (VerificationType.IsBelow hierarchy) special.stack general.stack
  locals : ∀ index, VerificationType.FitsSlot hierarchy
    (Locals.valueAt special.locals index) (Locals.valueAt general.locals index)

/-- A frame below another one whose values are all of known classes. -/
structure IsKnownBelow (hierarchy : Hierarchy) (special general : Frame) : Prop where
  stack : List.Forall₂ (VerificationType.KnownBelow hierarchy) special.stack general.stack
  locals : ∀ index, VerificationType.KnownFits hierarchy
    (Locals.valueAt special.locals index) (Locals.valueAt general.locals index)

/-- Stacks of equally wide values take equally many slots. -/
theorem totalWidth_eq_of_isWide_eq
    {first second : OperandStack}
    (sameWidths : List.Forall₂ (fun value other => value.isWide = other.isWide) first second) :
    totalWidth first = totalWidth second := by
  induction sameWidths with
  | nil => rfl
  | @cons value other rest others sameWidth _ inductionHypothesis =>
      have sameHead : width value = width other :=
        congrArg (fun wide => if wide = true then 2 else 1) sameWidth
      change width value + totalWidth rest = width other + totalWidth others
      rw [sameHead, inductionHypothesis]

namespace IsBelow

theorem refl
    (frame : Frame) :
    frame.IsBelow hierarchy frame where
  stack := List.forall₂_same.mpr fun type _ => .refl type
  locals := fun _ => .inr (.refl _)

theorem trans
    (wellFormed : hierarchy.WellFormed)
    {first second third : Frame}
    (firstBelow : first.IsBelow hierarchy second)
    (secondBelow : second.IsBelow hierarchy third) :
    first.IsBelow hierarchy third where
  stack := forall₂_comp (fun _ _ _ lower upper => lower.trans wellFormed upper)
    firstBelow.stack secondBelow.stack
  locals := fun index => (firstBelow.locals index).trans wellFormed (secondBelow.locals index)

/-- Frames that cover each other need the same room for their stacks. -/
theorem stackSlots_eq
    {special general : Frame}
    (below : special.IsBelow hierarchy general) :
    special.stackSlots = general.stackSlots :=
  totalWidth_eq_of_isWide_eq (below.stack.imp fun _ _ valueBelow => valueBelow.isWide_eq)

end IsBelow

namespace IsKnownBelow

theorem isBelow
    {special general : Frame}
    (below : special.IsKnownBelow hierarchy general) :
    special.IsBelow hierarchy general where
  stack := below.stack.imp fun _ _ valueBelow => valueBelow.2
  locals := fun index => (below.locals index).2

/-- What is above a frame above is above. -/
theorem trans_isBelow
    (wellFormed : hierarchy.WellFormed)
    {first second third : Frame}
    (firstBelow : first.IsKnownBelow hierarchy second)
    (secondBelow : second.IsBelow hierarchy third) :
    first.IsKnownBelow hierarchy third where
  stack := forall₂_comp (fun _ _ _ lower upper => ⟨lower.1, lower.2.trans wellFormed upper⟩)
    firstBelow.stack secondBelow.stack
  locals := fun index =>
    ⟨(firstBelow.locals index).1, (firstBelow.isBelow.trans wellFormed secondBelow).locals index⟩

end IsKnownBelow

/-- A frame with more slots says no more. -/
theorem extend_isBelow
    (frame : Frame)
    (count : Nat) :
    Frame.IsBelow hierarchy ⟨Locals.extend frame.locals count, frame.stack⟩ frame where
  stack := (IsBelow.refl frame).stack
  locals := fun index => by
    rw [Locals.valueAt_extend]
    exact .inr (.refl _)

/-! ## Merging -/

/-- What is related to the pairs of two lists is related to each of them. -/
theorem forall₂_of_zip
    {α β γ : Type}
    (Related : α → β → γ → Prop)
    {first : List α}
    {second : List β}
    {results : List γ}
    (sameLength : first.length = second.length)
    (related : List.Forall₂ (fun pair result => Related pair.1 pair.2 result)
      (first.zip second) results) :
    List.Forall₂ (fun value result => ∃ other, Related value other result) first results ∧
      List.Forall₂ (fun value result => ∃ other, Related other value result) second results := by
  induction first generalizing second results with
  | nil =>
      cases List.length_eq_zero_iff.mp sameLength.symm
      cases related
      exact ⟨.nil, .nil⟩
  | cons head tail inductionHypothesis =>
      cases second with
      | nil => cases sameLength
      | cons other others =>
          cases related with
          | cons headRelated tailRelated =>
              obtain ⟨firstRelated, secondRelated⟩ :=
                inductionHypothesis (Nat.succ.inj sameLength) tailRelated
              exact ⟨.cons ⟨_, headRelated⟩ firstRelated, .cons ⟨_, headRelated⟩ secondRelated⟩

theorem mergeValue_eq_ok
    {first second merged : VType} :
    mergeValue hierarchy first second = .ok merged ↔
      VerificationType.merge hierarchy first second = .ok (some merged) := by
  unfold mergeValue
  split <;> simp_all

/-- Both slots fit the slot that they are merged to. -/
theorem fitsSlot_mergeSlot
    (wellFormed : hierarchy.WellFormed)
    {first second merged : VType}
    (computed : mergeSlot hierarchy first second = .ok merged) :
    VerificationType.FitsSlot hierarchy first merged ∧
      VerificationType.FitsSlot hierarchy second merged := by
  unfold mergeSlot at computed
  split at computed
  · rename_i result found
    cases computed
    cases result with
    | none => exact ⟨.inl rfl, .inl rfl⟩
    | some type =>
        obtain ⟨firstBelow, secondBelow⟩ := VerificationType.isBelow_merge wellFormed found
        exact ⟨.inr firstBelow, .inr secondBelow⟩
  · cases computed

/-- A slot and one that it fits are merged to the latter. -/
theorem mergeSlot_eq_of_fitsSlot
    (wellFormed : hierarchy.WellFormed)
    {special general : VType}
    (known : special.IsKnown hierarchy)
    (fits : VerificationType.FitsSlot hierarchy special general) :
    mergeSlot hierarchy general special = .ok general := by
  unfold mergeSlot
  rcases fits with rfl | below
  · cases special <;> rfl
  · rw [VerificationType.merge_eq_of_isBelow wellFormed known below]
    rfl

theorem length_pairSlots
    (first second : List VType) :
    (pairSlots first second).length = max first.length second.length := by
  simp only [pairSlots, List.length_zip, Locals.length_extend]
  omega

theorem getElem?_pairSlots
    (first second : List VType)
    {index : Nat}
    (inside : index < max first.length second.length) :
    (pairSlots first second)[index]? =
      some (Locals.valueAt first index, Locals.valueAt second index) := by
  have insideFirst : index < (Locals.extend first second.length).length := by simpa using inside
  have insideSecond : index < (Locals.extend second first.length).length := by
    rw [Locals.length_extend]
    omega
  rw [pairSlots, List.getElem?_zip_eq_some]
  rw [Locals.getElem?_of_lt_length insideFirst, Locals.getElem?_of_lt_length insideSecond]
  simp

theorem length_dropHalves
    (slots : List VType) :
    (dropHalves slots).length = slots.length := by
  simp only [dropHalves, List.length_zipWith, List.length_append, List.length_map,
    List.length_tail, List.length_singleton]
  omega

/-- The slot after every slot, if there is one. -/
theorem getElem?_next
    {slots : List VType}
    {index : Nat}
    (inside : index < slots.length) :
    (slots.tail.map some ++ [none])[index]? = some slots[index + 1]? := by
  by_cases isLast : index + 1 < slots.length
  · rw [List.getElem?_append_left (by simp; omega), List.getElem?_map, List.getElem?_tail,
      List.getElem?_eq_getElem isLast]
    rfl
  · rw [List.getElem?_append_right (by simp; omega), List.getElem?_eq_none (l := slots) (by omega)]
    simp only [List.length_map, List.length_tail]
    rw [show index - (slots.length - 1) = 0 by omega]
    rfl

/-- What a slot holds after the halves of wide values without the other half are dropped. -/
theorem valueAt_dropHalves
    (slots : List VType)
    (index : Nat) :
    Locals.valueAt (dropHalves slots) index =
      if (Locals.valueAt slots index).isWide = true ∧ slots[index + 1]? ≠ some .top then .top
      else Locals.valueAt slots index := by
  by_cases inside : index < slots.length
  · have found : (dropHalves slots)[index]? =
        some (if (Locals.valueAt slots index).isWide && slots[index + 1]? ≠ some .top then .top
          else Locals.valueAt slots index) := by
      rw [dropHalves, List.getElem?_zipWith, getElem?_next inside,
        Locals.getElem?_of_lt_length inside]
    rw [Locals.valueAt_of_getElem? found]
    simp
  · rw [Locals.valueAt_of_length_le (by rw [length_dropHalves]; omega),
      Locals.valueAt_of_length_le (by omega)]
    simp [VerificationType.isWide]

theorem isWhole_dropHalves
    (slots : List VType) :
    Locals.IsWhole (dropHalves slots) := by
  intro index isWide
  rw [valueAt_dropHalves] at isWide
  split at isWide
  · cases isWide
  · rename_i keeps
    have next : slots[index + 1]? = some .top := by
      by_contra lost
      exact keeps ⟨isWide, lost⟩
    have inside := (List.getElem?_eq_some_iff.mp next).1
    have nextTop := valueAt_dropHalves slots (index + 1)
    rw [Locals.valueAt_of_getElem? next] at nextTop
    rw [Locals.getElem?_of_lt_length (by rw [length_dropHalves]; exact inside), nextTop]
    simp [VerificationType.isWide]

theorem dropHalves_of_isWhole
    {slots : List VType}
    (whole : Locals.IsWhole slots) :
    dropHalves slots = slots := by
  apply List.ext_getElem?
  intro index
  by_cases inside : index < slots.length
  · rw [Locals.getElem?_of_lt_length inside,
      Locals.getElem?_of_lt_length (by rw [length_dropHalves]; exact inside), valueAt_dropHalves]
    split
    · rename_i lost
      exact absurd (whole index lost.1) lost.2
    · rfl
  · rw [List.getElem?_eq_none (l := slots) (by omega),
      List.getElem?_eq_none (l := dropHalves slots) (by rw [length_dropHalves]; omega)]

/-- Slots that keep no half of a wide value say no more than before. -/
theorem fitsSlot_dropHalves
    {slots : List VType}
    {index : Nat}
    {type : VType}
    (fits : VerificationType.FitsSlot hierarchy type (Locals.valueAt slots index)) :
    VerificationType.FitsSlot hierarchy type (Locals.valueAt (dropHalves slots) index) := by
  rw [valueAt_dropHalves]
  split
  · exact .inl rfl
  · exact fits

/-- The steps of a merge that has a result. -/
structure IsMerge (hierarchy : Hierarchy) (first second merged : Frame) (slots : List VType) :
    Prop where
  sameDepth : first.stack.length = second.stack.length
  stack : List.Forall₂
    (fun pair value => VerificationType.merge hierarchy pair.1 pair.2 = .ok (some value))
    (first.stack.zip second.stack) merged.stack
  locals : List.Forall₂ (fun pair slot => mergeSlot hierarchy pair.1 pair.2 = .ok slot)
    (pairSlots first.locals second.locals) slots
  whole : merged.locals = dropHalves slots

/-- A merge has a result if all its steps have one, and says that it changed nothing if none of
them did. -/
theorem merge_eq_ok_iff
    {first second merged : Frame}
    {changed : Bool} :
    first.merge hierarchy second = .ok (merged, changed) ↔
      ∃ slots, IsMerge hierarchy first second merged slots ∧
        (changed = false ↔ merged.stack = first.stack ∧
          slots = Locals.extend first.locals second.localSlots ∧ merged.locals = slots) := by
  have reversed : ∀ {values : OperandStack}, first.stack.length = second.stack.length →
      (List.Forall₂ (fun pair value => mergeValue hierarchy pair.1 pair.2 = .ok value)
        (first.stack.reverse.zip second.stack.reverse) values.reverse ↔
      List.Forall₂ (fun pair value =>
        VerificationType.merge hierarchy pair.1 pair.2 = .ok (some value))
        (first.stack.zip second.stack) values) := by
    intro values sameDepth
    rw [List.zip, ← List.reverse_zipWith sameDepth, List.forall₂_reverse_iff]
    simp only [mergeValue_eq_ok]
  unfold merge
  constructor
  · intro computed
    split at computed
    · cases computed
    · rename_i sameDepth
      have sameDepth : first.stack.length = second.stack.length := by simpa using sameDepth
      split at computed
      · cases computed
      · rename_i values mergedValues
        split at computed
        · cases computed
        · rename_i slots mergedSlots
          cases computed
          refine ⟨slots, ⟨sameDepth, (reversed sameDepth).mp ?_, forall₂_of_mapM_eq_ok mergedSlots,
            rfl⟩, ?_⟩
          · rw [List.reverse_reverse]
            exact forall₂_of_mapM_eq_ok mergedValues
          · simp only [Bool.or_eq_false_iff, decide_eq_false_iff_not, not_not, and_assoc,
              List.reverse_eq_iff, localSlots]
  · rintro ⟨slots, ⟨sameDepth, stack, locals, whole⟩, isChanged⟩
    have mergedValues := mapM_eq_ok_of_forall₂ ((reversed sameDepth).mpr stack)
    have mergedSlots := mapM_eq_ok_of_forall₂ locals
    rw [if_neg (by simpa using sameDepth)]
    split
    · rename_i failed
      exact absurd (failed.symm.trans mergedValues) nofun
    · rename_i values found
      cases found.symm.trans mergedValues
      split
      · rename_i failed
        exact absurd (failed.symm.trans mergedSlots) nofun
      · rename_i found
        cases found.symm.trans mergedSlots
        rw [List.reverse_reverse, ← whole]
        refine congrArg (fun changed => Except.ok (merged, changed)) ?_
        rw [← Bool.not_inj_iff, Bool.eq_iff_iff, Bool.not_eq_true', Bool.not_eq_true', isChanged]
        simp [localSlots, and_assoc]

/-- A merge with a result, and when it says that it changed the first frame. -/
theorem isMerge_of_merge_eq_ok
    {first second merged : Frame}
    {changed : Bool}
    (computed : first.merge hierarchy second = .ok (merged, changed)) :
    ∃ slots, IsMerge hierarchy first second merged slots ∧
      (changed = false → merged =
        ⟨Locals.extend first.locals second.localSlots, first.stack⟩) := by
  obtain ⟨slots, isMerge, isChanged⟩ := merge_eq_ok_iff.mp computed
  refine ⟨slots, isMerge, fun unchanged => ?_⟩
  obtain ⟨sameStack, sameSlots, sameLocals⟩ := isChanged.mp unchanged
  rw [← sameStack, ← sameSlots, ← sameLocals]

namespace IsMerge

variable {first second merged : Frame} {slots : List VType}

theorem length_slots
    (isMerge : IsMerge hierarchy first second merged slots) :
    slots.length = max first.localSlots second.localSlots := by
  rw [← isMerge.locals.length_eq, length_pairSlots]
  rfl

theorem localSlots_eq
    (isMerge : IsMerge hierarchy first second merged slots) :
    merged.localSlots = max first.localSlots second.localSlots := by
  rw [localSlots, isMerge.whole, length_dropHalves, isMerge.length_slots]

theorem length_stack
    (isMerge : IsMerge hierarchy first second merged slots) :
    first.stack.length = merged.stack.length := by
  rw [← isMerge.stack.length_eq, List.length_zip, ← isMerge.sameDepth, Nat.min_self]

theorem stackSlots_eq
    (isMerge : IsMerge hierarchy first second merged slots) :
    merged.stackSlots = first.stackSlots := by
  obtain ⟨firstMerged, _⟩ := forall₂_of_zip
    (fun value other result =>
      VerificationType.merge hierarchy value other = .ok (some result))
    isMerge.sameDepth isMerge.stack
  refine (totalWidth_eq_of_isWide_eq (firstMerged.imp ?_)).symm
  rintro value result ⟨other, computed⟩
  exact (VerificationType.isWide_merge computed).symm

theorem isWhole
    (isMerge : IsMerge hierarchy first second merged slots) :
    Locals.IsWhole merged.locals := by
  rw [isMerge.whole]
  exact isWhole_dropHalves slots

/-- Every slot is the merge of the two slots at its place, if only of two missing ones. -/
theorem mergeSlot_eq
    (isMerge : IsMerge hierarchy first second merged slots)
    (index : Nat) :
    mergeSlot hierarchy (Locals.valueAt first.locals index) (Locals.valueAt second.locals index) =
      .ok (Locals.valueAt slots index) := by
  have sameLength := isMerge.length_slots
  unfold localSlots at sameLength
  by_cases inside : index < slots.length
  · have pairInside : index < (pairSlots first.locals second.locals).length := by
      rw [length_pairSlots]
      omega
    have slotMerged := isMerge.locals.get pairInside inside
    have pairFound := getElem?_pairSlots first.locals second.locals
      (show index < max first.locals.length second.locals.length by omega)
    have slotFound := Locals.getElem?_of_lt_length inside
    rw [List.getElem?_eq_getElem pairInside] at pairFound
    rw [List.getElem?_eq_getElem inside] at slotFound
    simp only [List.get_eq_getElem, Option.some.inj pairFound, Option.some.inj slotFound]
      at slotMerged
    exact slotMerged
  · rw [Locals.valueAt_of_length_le (by omega), Locals.valueAt_of_length_le (by omega),
      Locals.valueAt_of_length_le (by omega)]
    rfl

/-- The merged frame covers both frames. -/
theorem isBelow
    (wellFormed : hierarchy.WellFormed)
    (isMerge : IsMerge hierarchy first second merged slots) :
    first.IsBelow hierarchy merged ∧ second.IsBelow hierarchy merged := by
  obtain ⟨firstMerged, secondMerged⟩ := forall₂_of_zip
    (fun value other result =>
      VerificationType.merge hierarchy value other = .ok (some result))
    isMerge.sameDepth isMerge.stack
  refine ⟨⟨firstMerged.imp ?_, ?_⟩, ⟨secondMerged.imp ?_, ?_⟩⟩
  · rintro value result ⟨other, computed⟩
    exact (VerificationType.isBelow_merge wellFormed computed).1
  · intro index
    rw [isMerge.whole]
    exact fitsSlot_dropHalves (fitsSlot_mergeSlot wellFormed (isMerge.mergeSlot_eq index)).1
  · rintro value result ⟨other, computed⟩
    exact (VerificationType.isBelow_merge wellFormed computed).2
  · intro index
    rw [isMerge.whole]
    exact fitsSlot_dropHalves (fitsSlot_mergeSlot wellFormed (isMerge.mergeSlot_eq index)).2

end IsMerge

/-- A reading of frames by which a merged frame stands for both frames, and for no more
than the first one if it did not change. -/
structure MergeOrder (hierarchy : Hierarchy) (Below : Frame → Frame → Prop) : Prop where
  refl : ∀ frame, Below frame frame
  trans : ∀ {first second third}, Below first second → Below second third → Below first third
  merge : ∀ {first second merged changed},
    first.merge hierarchy second = .ok (merged, changed) →
    Below first merged ∧ Below second merged ∧ (changed = false → Below merged first)

theorem mergeOrder_isBelow
    (wellFormed : hierarchy.WellFormed) :
    MergeOrder hierarchy (IsBelow hierarchy) where
  refl := .refl
  trans := .trans wellFormed
  merge := by
    intro first second merged changed computed
    obtain ⟨slots, isMerge, unchanged⟩ := isMerge_of_merge_eq_ok computed
    obtain ⟨firstBelow, secondBelow⟩ := isMerge.isBelow wellFormed
    refine ⟨firstBelow, secondBelow, fun isUnchanged => ?_⟩
    rw [unchanged isUnchanged]
    exact extend_isBelow first second.localSlots

/-- In any hierarchy, frames may be read as saying no more than that there is one. -/
theorem mergeOrder_trivial :
    MergeOrder hierarchy (fun _ _ => True) where
  refl := fun _ => trivial
  trans := fun _ _ => trivial
  merge := fun _ => ⟨trivial, trivial, fun _ => trivial⟩

theorem forall₂_mergeValue_of_knownBelow
    (wellFormed : hierarchy.WellFormed)
    {special general : OperandStack}
    (below : List.Forall₂ (VerificationType.KnownBelow hierarchy) special general) :
    List.Forall₂ (fun pair value => mergeValue hierarchy pair.1 pair.2 = .ok value)
      (general.zip special) general := by
  induction below with
  | nil => exact .nil
  | cons headBelow _ inductionHypothesis =>
      have headMerged :=
        VerificationType.merge_eq_of_isBelow wellFormed headBelow.1 headBelow.2
      exact .cons (mergeValue_eq_ok.mpr headMerged) inductionHypothesis

theorem forall₂_mergeSlot_of_knownFits
    (wellFormed : hierarchy.WellFormed)
    {special general : List VType}
    (fits : ∀ index, VerificationType.KnownFits hierarchy
      (Locals.valueAt special index) (Locals.valueAt general index)) :
    List.Forall₂ (fun pair slot => mergeSlot hierarchy pair.1 pair.2 = .ok slot)
      (pairSlots general special) (Locals.extend general special.length) := by
  apply List.forall₂_of_length_eq_of_get
  · rw [length_pairSlots, Locals.length_extend]
  · intro index insidePairs insideSlots
    have pairFound := getElem?_pairSlots general special
      (by rwa [length_pairSlots] at insidePairs)
    have slotFound := Locals.getElem?_of_lt_length insideSlots
    rw [List.getElem?_eq_getElem insidePairs] at pairFound
    rw [List.getElem?_eq_getElem insideSlots, Locals.valueAt_extend] at slotFound
    simp only [List.get_eq_getElem, Option.some.inj pairFound, Option.some.inj slotFound]
    exact mergeSlot_eq_of_fitsSlot wellFormed (fits index).1 (fits index).2

/-- A frame that covers another one stays as it is when the two are merged. -/
theorem merge_eq_of_isKnownBelow
    (wellFormed : hierarchy.WellFormed)
    {special general : Frame}
    (whole : Locals.IsWhole general.locals)
    (below : special.IsKnownBelow hierarchy general) :
    general.merge hierarchy special =
      .ok (⟨Locals.extend general.locals special.localSlots, general.stack⟩, false) := by
  have sameDepth : general.stack.length = special.stack.length := below.stack.length_eq.symm
  have values := forall₂_mergeValue_of_knownBelow wellFormed below.stack
  rw [← List.forall₂_reverse_iff, List.zip, List.reverse_zipWith sameDepth] at values
  have mergedValues := mapM_eq_ok_of_forall₂ values
  have mergedSlots := mapM_eq_ok_of_forall₂
    (forall₂_mergeSlot_of_knownFits wellFormed below.locals)
  unfold merge
  rw [if_neg (by simpa using sameDepth)]
  split
  · rename_i failed
    exact absurd (failed.symm.trans mergedValues) nofun
  · rename_i found
    cases found.symm.trans mergedValues
    split
    · rename_i failed
      exact absurd (failed.symm.trans mergedSlots) nofun
    · rename_i found
      cases found.symm.trans mergedSlots
      rw [dropHalves_of_isWhole (whole.extend _)]
      simp [localSlots]

end Frame

end ClosureConversion
