import Mathlib.Data.List.Induction
import ClosureConversion.CheckedOffsets
import ClosureConversion.Proofs.Pool

/-!
Contract: sequences after any number of elements were pushed and taken off again.

Owns:
- where the elements of a sequence stand that is made from a list, and what is found there;
- that a sequence is made from the list of the elements that are left, whatever came between;
- which pushes leave the offsets that can be expressed, and that nothing else fails;
- what is said of an offset inside an element, after the one at which it starts: the index of the
  element after it, or that it is beyond the sequence.

Does not own: what the elements are.
-/

namespace ClosureConversion

namespace OffsetSeq

variable {α : Type} [Width α]

/-! ## Sequences of listed elements -/

theorem ofList_concat
    (start : Nat)
    (values : List α)
    (value : α) :
    ofList start (values ++ [value]) = (ofList start values).push value :=
  List.foldl_concat _ _ _ _

theorem endOffset_ofList
    (start : Nat)
    (values : List α) :
    (ofList start values).endOffset = start + totalWidth values :=
  endOffset_pushAll (startingAt start) values

theorem values_ofList
    (start : Nat)
    (values : List α) :
    (ofList start values).values = values :=
  values_pushAll (startingAt start) values

theorem length_toList_ofList
    (start : Nat)
    (values : List α) :
    (ofList start values).toList.length = values.length := by
  rw [← List.length_map, ← OffsetSeq.values, values_ofList]

theorem isOrdered_ofList
    (start : Nat)
    {values : List α}
    (wide : ∀ value ∈ values, 0 < width value) :
    (ofList start values).IsOrdered :=
  (isOrdered_startingAt start).pushAll_of_wide wide

/-- An element stands after the widths of the elements before it. -/
theorem getElem?_toList_ofList
    (start : Nat)
    (values : List α)
    (index : Nat) :
    (ofList start values).toList[index]? =
      values[index]?.map fun value => (start + totalWidth (values.take index), value) := by
  -- The last value is pushed at the end of the others, whose places stay as they are.
  induction values using List.reverseRecOn with
  | nil => rfl
  | append_singleton values value inductionHypothesis =>
      have length := length_toList_ofList start values
      rw [ofList_concat, toList_push, endOffset_ofList]
      rcases Nat.lt_trichotomy index values.length with before | rfl | after
      · rw [List.getElem?_append_left (by omega), List.getElem?_append_left before,
          inductionHypothesis, List.take_append_of_le_length (Nat.le_of_lt before)]
      · rw [List.getElem?_append_right (by omega), length, Nat.sub_self,
          List.getElem?_concat_length, List.take_left' rfl]
        rfl
      · rw [List.getElem?_eq_none (by simp; omega), List.getElem?_eq_none (by simp; omega)]
        rfl

theorem pop?_push
    (sequence : OffsetSeq α)
    (value : α) :
    (sequence.push value).pop? = some (sequence, sequence.endOffset, value) := by
  simp only [pop?, push, Array.back?_push, Array.pop_push]

/-- The last one of the listed elements is taken off, as if it had not been listed. -/
theorem pop?_ofList
    (start : Nat)
    (values : List α) :
    (ofList start values).pop? = values.getLast?.map fun last =>
      (ofList start values.dropLast, start + totalWidth values.dropLast, last) := by
  rcases List.eq_nil_or_concat values with rfl | ⟨front, last, rfl⟩
  · rfl
  · rw [List.concat_eq_append, ofList_concat, pop?_push, endOffset_ofList, List.getLast?_concat,
      List.dropLast_concat]
    rfl

/-- The values stand one after another from the start on, each as wide as it is. Each is found at the
offset at which it stands, and taking an element off undoes its push. -/
structure IsLaidOut (sequence : OffsetSeq α) (start : Nat) (values : List α) : Prop where
  entry (index : Nat) : sequence.toList[index]? =
    values[index]?.map fun value => (start + totalWidth (values.take index), value)
  increasing : sequence.toList.Pairwise fun left right => left.1 < right.1
  ends : sequence.endOffset = start + totalWidth values
  undone {value : α} {longer : OffsetSeq α} (pushed : sequence.pushChecked value = .ok longer) :
    longer.pop? = some (sequence, sequence.endOffset, value)
  /-- What is left does not show that the last value was ever pushed. -/
  popped : sequence.pop? = values.getLast?.map fun last =>
    (ofList start values.dropLast, start + totalWidth values.dropLast, last)
  located {offset index : Nat} {value : α} :
    sequence.locate offset = .element index value ↔
      sequence.toList[index]? = some (offset, value)

theorem pushChecked_eq_ok_iff
    {sequence longer : OffsetSeq α}
    {value : α} :
    sequence.pushChecked value = .ok longer ↔
      sequence.endOffset + width value ≤ greatestOffset ∧ longer = sequence.push value := by
  unfold pushChecked
  split
  case isTrue fits => simp only [fits, true_and, Except.ok.injEq, eq_comm]
  case isFalse exceeds => simp only [exceeds, false_and, reduceCtorEq]

theorem isLaidOut_ofList
    (start : Nat)
    {values : List α}
    (wide : ∀ value ∈ values, 0 < width value) :
    (ofList start values).IsLaidOut start values where
  entry := getElem?_toList_ofList start values
  increasing := (isOrdered_ofList start wide).increasing
  ends := endOffset_ofList start values
  undone pushed := by
    obtain ⟨_, rfl⟩ := pushChecked_eq_ok_iff.mp pushed
    exact pop?_push _ _
  popped := pop?_ofList start values
  located := (isOrdered_ofList start wide).locate_eq_element_iff

end OffsetSeq

/-! ## Alterations -/

/-- What is done at the end of a sequence. -/
inductive Alteration (α : Type) where
  | push (value : α)
  | pop

namespace Alteration

variable {α : Type}

/-- The elements that an alteration leaves of a list. -/
def leave (values : List α) : Alteration α → List α
  | .push value => values ++ [value]
  | .pop => values.dropLast

/-- The elements that are left after all alterations, if there are none before. -/
def left (alterations : List (Alteration α)) : List α :=
  alterations.foldl leave []

theorem left_concat
    (alterations : List (Alteration α))
    (alteration : Alteration α) :
    left (alterations ++ [alteration]) = leave (left alterations) alteration :=
  List.foldl_concat _ _ _ _

/-- What is left was pushed. -/
theorem push_mem_of_mem_left
    {alterations : List (Alteration α)}
    {value : α}
    (isLeft : value ∈ left alterations) :
    .push value ∈ alterations := by
  induction alterations using List.reverseRecOn with
  | nil => cases isLeft
  | append_singleton alterations alteration inductionHypothesis =>
      rw [left_concat] at isLeft
      rw [List.mem_append, List.mem_singleton]
      cases alteration with
      | push last =>
          rcases List.mem_append.mp isLeft with isEarlier | isLast
          · exact .inl (inductionHypothesis isEarlier)
          · exact .inr (congrArg push (List.mem_singleton.mp isLast))
      | pop => exact .inl (inductionHypothesis ((List.dropLast_sublist _).subset isLeft))

theorem left_map_push
    (values : List α) :
    left (values.map push) = values := by
  induction values using List.reverseRecOn with
  | nil => rfl
  | append_singleton values value inductionHypothesis =>
      rw [List.map_append, List.map_singleton, left_concat, inductionHypothesis, leave]

end Alteration

namespace OffsetSeq

variable {α : Type} [Width α]

open Alteration

/-- The sequence after an alteration. Nothing is taken off an empty one. -/
def alter (sequence : OffsetSeq α) : Alteration α → Except ArithmeticFault (OffsetSeq α)
  | .push value => sequence.pushChecked value
  | .pop => .ok (sequence.pop?.elim sequence Prod.fst)

/-- The sequence after one alteration and the next. -/
def alterAll (sequence : OffsetSeq α) (alterations : List (Alteration α)) :
    Except ArithmeticFault (OffsetSeq α) :=
  alterations.foldlM alter sequence

/-- From the start on, every element that is pushed ends at an offset that can be expressed. -/
def Fits (start : Nat) (alterations : List (Alteration α)) : Prop :=
  ∀ earlier value, earlier ++ [.push value] <+: alterations →
    start + totalWidth (left earlier) + width value ≤ greatestOffset

theorem fits_nil
    {start : Nat} :
    Fits start ([] : List (Alteration α)) := by
  intro earlier value before
  cases List.append_eq_nil_iff.mp (List.prefix_nil.mp before) |>.2

theorem fits_concat_iff
    {start : Nat}
    {alterations : List (Alteration α)}
    {alteration : Alteration α} :
    Fits start (alterations ++ [alteration]) ↔
      Fits start alterations ∧ ∀ value, alteration = .push value →
        start + totalWidth (left alterations) + width value ≤ greatestOffset := by
  constructor
  · intro fits
    refine ⟨fun earlier value before => fits earlier value (before.trans (List.prefix_append _ _)),
      ?_⟩
    rintro value rfl
    exact fits alterations value List.prefix_rfl
  · rintro ⟨fits, lastFits⟩ earlier value before
    rcases List.prefix_concat_iff.mp before with same | isEarlier
    · obtain ⟨rfl, isLast⟩ := List.append_inj' same rfl
      exact lastFits value (List.singleton_inj.mp isLast).symm
    · exact fits earlier value isEarlier

/-- An alteration of the sequence of a list leaves the sequence of what it leaves of the list. -/
theorem alter_ofList_eq_ok_iff
    {start : Nat}
    {values : List α}
    {alteration : Alteration α}
    {altered : OffsetSeq α} :
    (ofList start values).alter alteration = .ok altered ↔
      (∀ value, alteration = .push value →
        start + totalWidth values + width value ≤ greatestOffset) ∧
      altered = ofList start (leave values alteration) := by
  cases alteration with
  | push value =>
      rw [alter, pushChecked_eq_ok_iff, endOffset_ofList, leave, ofList_concat]
      simp only [Alteration.push.injEq, forall_eq']
  | pop =>
      have isPopped : (ofList start values).pop?.elim (ofList start values) Prod.fst =
          ofList start values.dropLast := by
        rw [pop?_ofList]
        cases isLast : values.getLast? with
        | none =>
            rw [List.getLast?_eq_none_iff.mp isLast]
            rfl
        | some last => rfl
      simp only [alter, isPopped, leave, Except.ok.injEq, reduceCtorEq, false_implies,
        implies_true, true_and, eq_comm]

/-- Alterations of an empty sequence leave the sequence of what is left, unless an offset cannot be
expressed on the way. -/
theorem alterAll_eq_ok_iff
    {start : Nat}
    {alterations : List (Alteration α)}
    {altered : OffsetSeq α} :
    (startingAt start).alterAll alterations = .ok altered ↔
      Fits start alterations ∧ altered = ofList start (left alterations) := by
  -- What the last alteration does depends only on the list from which the sequence before it is made.
  induction alterations using List.reverseRecOn generalizing altered with
  | nil =>
      constructor
      · intro isDone
        exact ⟨fits_nil, (Except.ok.inj isDone).symm⟩
      · rintro ⟨_, rfl⟩
        rfl
  | append_singleton alterations alteration inductionHypothesis =>
      have isStep : (startingAt start).alterAll (alterations ++ [alteration]) =
          (startingAt start).alterAll alterations >>= fun sequence => sequence.alter alteration := by
        simp only [alterAll, List.foldlM_append, List.foldlM_cons, List.foldlM_nil, bind_pure]
      rw [isStep, bind_eq_ok, fits_concat_iff, left_concat]
      constructor
      · rintro ⟨sequence, isAltered, isLast⟩
        obtain ⟨fits, rfl⟩ := inductionHypothesis.mp isAltered
        obtain ⟨lastFits, isSequence⟩ := alter_ofList_eq_ok_iff.mp isLast
        exact ⟨⟨fits, lastFits⟩, isSequence⟩
      · rintro ⟨⟨fits, lastFits⟩, isSequence⟩
        exact ⟨_, inductionHypothesis.mpr ⟨fits, rfl⟩,
          alter_ofList_eq_ok_iff.mpr ⟨lastFits, isSequence⟩⟩

theorem exists_alterAll_eq_ok_iff
    {start : Nat}
    {alterations : List (Alteration α)} :
    (∃ altered, (startingAt start).alterAll alterations = .ok altered) ↔ Fits start alterations := by
  constructor
  · rintro ⟨altered, isAltered⟩
    exact (alterAll_eq_ok_iff.mp isAltered).1
  · intro fits
    exact ⟨_, alterAll_eq_ok_iff.mpr ⟨fits, rfl⟩⟩

/-- Whatever is pushed and taken off, the elements that are left stand one after another. -/
theorem isLaidOut_of_alterAll_eq_ok
    {start : Nat}
    {alterations : List (Alteration α)}
    (wide : ∀ value, .push value ∈ alterations → 0 < width value)
    {altered : OffsetSeq α}
    (isAltered : (startingAt start).alterAll alterations = .ok altered) :
    altered.IsLaidOut start (left alterations) := by
  obtain ⟨_, rfl⟩ := alterAll_eq_ok_iff.mp isAltered
  apply isLaidOut_ofList
  intro value isLeft
  exact wide value (push_mem_of_mem_left isLeft)

/-- Elements that are pushed only fit if all of them do together. -/
theorem fits_map_push_iff
    {values : List α} :
    Fits 0 (values.map .push) ↔ totalWidth values ≤ greatestOffset := by
  induction values using List.reverseRecOn with
  | nil =>
      apply iff_of_true fits_nil
      exact Nat.zero_le _
  | append_singleton values value inductionHypothesis =>
      have total : totalWidth (values ++ [value]) = totalWidth values + width value :=
        totalWidth_append values [value]
      rw [List.map_append, List.map_singleton, fits_concat_iff, inductionHypothesis, left_map_push,
        total, Nat.zero_add]
      simp only [Alteration.push.injEq, forall_eq']
      omega

/-- Collecting is pushing one element after another. -/
theorem collect_eq_alterAll
    (values : List α) :
    collect values = (startingAt 0).alterAll (values.map .push) := by
  rw [collect, alterAll, List.foldlM_map]
  rfl

/-- **Layout of a sequence**: however elements that take an offset at least are pushed and taken off
from a start on, each one that is left stands after the widths of those before it, at increasing
offsets, and is found at its offset only; the sequence ends after all widths, and taking an element
off undoes its push. The same holds of a sequence that is collected from a list. Nothing fails but a
push after which the offset cannot be expressed. -/
theorem alterAll_laysOut
    (start : Nat)
    {alterations : List (Alteration α)}
    (wide : ∀ value, .push value ∈ alterations → 0 < width value) :
    (∀ altered, (startingAt start).alterAll alterations = .ok altered →
      altered.IsLaidOut start (left alterations)) ∧
    ((∃ altered, (startingAt start).alterAll alterations = .ok altered) ↔
      Fits start alterations) ∧
    ∀ values : List α, (∀ value ∈ values, 0 < width value) →
      (∀ collected, collect values = .ok collected → collected.IsLaidOut 0 values) ∧
      ((∃ collected, collect values = .ok collected) ↔ totalWidth values ≤ greatestOffset) := by
  refine ⟨fun altered isAltered => isLaidOut_of_alterAll_eq_ok wide isAltered,
    exists_alterAll_eq_ok_iff, fun values valuesWide => ⟨?_, ?_⟩⟩
  · intro collected isCollected
    rw [collect_eq_alterAll] at isCollected
    rw [← left_map_push values]
    apply isLaidOut_of_alterAll_eq_ok _ isCollected
    intro value isPushed
    obtain ⟨other, member, same⟩ := List.mem_map.mp isPushed
    cases same
    exact valuesWide value member
  · rw [collect_eq_alterAll, exists_alterAll_eq_ok_iff, fits_map_push_iff]

/-- A long that is pushed and taken off again leaves no trace among the constants. -/
theorem poppedLong_laysOut :
    let alterations : List (Alteration Constant) :=
      [.push (.integer 7), .push (.long 8), .pop, .pop, .pop, .push (.double 0), .push (.integer 9)]
    let table : ConstantTable := ⟨#[(1, .double 0), (3, .integer 9)], 4⟩
    (∀ value, .push value ∈ alterations → 0 < width value) ∧
      (startingAt 1).alterAll alterations = .ok table ∧
      table.IsLaidOut 1 [.double 0, .integer 9] := by
  intro alterations table
  have wide : ∀ value, .push value ∈ alterations → 0 < width value :=
    fun value _ => ConstantPool.width_pos value
  have isAltered : (startingAt 1).alterAll alterations = .ok table := rfl
  exact ⟨wide, isAltered, (alterAll_laysOut 1 wide).1 table isAltered⟩

/-! ## Answers inside elements -/

/-- The element of the index takes the offset, but starts before it. -/
def IsInside (sequence : OffsetSeq α) (index offset : Nat) : Prop :=
  ∃ first value, sequence.toList[index]? = some (first, value) ∧
    first < offset ∧ offset < first + width value

/-- No element starts at the offset, which is not one before the start. -/
structure IsUnoccupied (sequence : OffsetSeq α) (start offset : Nat) : Prop where
  notBefore : start ≤ offset
  elsewhere : ∀ entry ∈ sequence.toList, entry.1 ≠ offset

/-- An offset inside an element is answered with the index of that element, and one is beyond the
sequence from its end on. -/
def NamesHolders (sequence : OffsetSeq α) (start : Nat) : Prop :=
  ∀ offset, sequence.IsUnoccupied start offset →
    (∀ index, sequence.locate offset = .before index ↔ sequence.IsInside index offset) ∧
    (sequence.locate offset = .beyond ↔ sequence.endOffset ≤ offset)

/-- An offset inside an element is answered with the index of the element after that one. If there is
none, the offset counts as one beyond the sequence. -/
def NamesFollowers (sequence : OffsetSeq α) (start : Nat) : Prop :=
  ∀ offset, sequence.IsUnoccupied start offset →
    (∀ index, sequence.locate offset = .before index ↔
      ∃ holder, index = holder + 1 ∧ index < sequence.size ∧ sequence.IsInside holder offset) ∧
    (sequence.locate offset = .beyond ↔
      sequence.endOffset ≤ offset ∨
        ∃ last, sequence.size = last + 1 ∧ sequence.IsInside last offset)

theorem isInside_iff
    {sequence : OffsetSeq α}
    {index first : Nat}
    {value : α}
    (stands : sequence.toList[index]? = some (first, value))
    {offset : Nat} :
    sequence.IsInside index offset ↔ first < offset ∧ offset < first + width value := by
  simp only [IsInside, stands, Option.some.injEq, Prod.mk.injEq, and_assoc, exists_and_left,
    exists_eq_left']

/-! ## Ends of elements -/

namespace IsLaidOut

variable
  {sequence : OffsetSeq α}
  {start : Nat}
  {values : List α}
  (laidOut : sequence.IsLaidOut start values)

include laidOut

theorem values_eq :
    sequence.values = values := by
  apply List.ext_getElem?
  intro index
  rw [OffsetSeq.values, List.getElem?_map, laidOut.entry, Option.map_map]
  exact Option.map_id'

theorem size_eq :
    sequence.size = values.length := by
  rw [← laidOut.values_eq, OffsetSeq.values, List.length_map]
  rfl

/-- An element ends after its width and the widths of the elements before it. -/
theorem end_eq
    {index first : Nat}
    {value : α}
    (stands : sequence.toList[index]? = some (first, value)) :
    first + width value = start + totalWidth (values.take (index + 1)) := by
  rw [laidOut.entry, Option.map_eq_some_iff] at stands
  obtain ⟨other, isValue, same⟩ := stands
  cases same
  rw [List.take_add_one, isValue, totalWidth_append, Nat.add_assoc]
  rfl

/-- The first element starts where the sequence does. -/
theorem first_eq
    {entry : Nat × α}
    (stands : sequence.toList[0]? = some entry) :
    entry.1 = start := by
  rw [laidOut.entry, Option.map_eq_some_iff] at stands
  obtain ⟨value, _, rfl⟩ := stands
  rfl

/-- An element starts where the one before it ends. -/
theorem next_eq
    {index first : Nat}
    {value : α}
    {next : Nat × α}
    (stands : sequence.toList[index]? = some (first, value))
    (standsNext : sequence.toList[index + 1]? = some next) :
    next.1 = first + width value := by
  rw [laidOut.end_eq stands]
  rw [laidOut.entry, Option.map_eq_some_iff] at standsNext
  obtain ⟨other, _, rfl⟩ := standsNext
  rfl

/-- The sequence ends where the last element does. -/
theorem endOffset_eq
    {last first : Nat}
    {value : α}
    (isLast : sequence.size = last + 1)
    (stands : sequence.toList[last]? = some (first, value)) :
    sequence.endOffset = first + width value := by
  rw [laidOut.end_eq stands, laidOut.ends, ← isLast, laidOut.size_eq, List.take_length]

variable (wide : ∀ value ∈ values, 0 < width value)

include wide

theorem isOrdered :
    sequence.IsOrdered where
  increasing := laidOut.increasing
  bounded := by
    rintro ⟨first, value⟩ member
    obtain ⟨index, stands⟩ := List.mem_iff_getElem?.mp member
    have isValue : value ∈ values := by
      rw [← laidOut.values_eq]
      exact List.mem_map_of_mem member
    have valueWide := wide value isValue
    have ends := laidOut.end_eq stands
    have total : totalWidth values =
        totalWidth (values.take (index + 1)) + totalWidth (values.drop (index + 1)) := by
      rw [← totalWidth_append, List.take_append_drop]
    have sequenceEnds := laidOut.ends
    show first < sequence.endOffset
    omega

/-- No later element starts before an element ends. -/
theorem end_le
    {earlier later first : Nat}
    {value : α}
    {entry : Nat × α}
    (isEarlier : sequence.toList[earlier]? = some (first, value))
    (isLater : sequence.toList[later]? = some entry)
    (before : earlier < later) :
    first + width value ≤ entry.1 := by
  have laterInside : later < sequence.size := (List.getElem?_eq_some_iff.mp isLater).1
  by_cases same : later = earlier + 1
  · subst same
    exact Nat.le_of_eq (laidOut.next_eq isEarlier isLater).symm
  · obtain ⟨nextFirst, nextValue, isNext⟩ :=
      exists_entry (show earlier + 1 < sequence.size by omega)
    have next : nextFirst = first + width value := laidOut.next_eq isEarlier isNext
    have less : nextFirst < entry.1 :=
      (laidOut.isOrdered wide).fst_lt_fst isNext isLater (by omega)
    omega

/-! ## Offsets inside elements -/

section Unoccupied

variable {offset : Nat}

theorem countUpTo_pos
    (notBefore : start ≤ offset)
    (notEmpty : 0 < sequence.size) :
    0 < sequence.countUpTo offset := by
  obtain ⟨first, value, stands⟩ := exists_entry notEmpty
  apply ((laidOut.isOrdered wide).lt_countUpTo_iff stands).mpr
  rw [laidOut.first_eq stands]
  exact notBefore

/-- The elements up to one that is followed by another one start before an offset, and the others do
not, exactly if the offset is inside that element. -/
theorem countUpTo_eq_succ_iff
    (unoccupied : sequence.IsUnoccupied start offset)
    {holder : Nat}
    (isFollowed : holder + 1 < sequence.size) :
    sequence.countUpTo offset = holder + 1 ↔ sequence.IsInside holder offset := by
  have ordered := laidOut.isOrdered wide
  obtain ⟨first, value, stands⟩ := exists_entry (Nat.lt_of_succ_lt isFollowed)
  obtain ⟨nextFirst, nextValue, isNext⟩ := exists_entry isFollowed
  have next : nextFirst = first + width value := laidOut.next_eq stands isNext
  have counted : holder < sequence.countUpTo offset ↔ first ≤ offset :=
    ordered.lt_countUpTo_iff stands
  have nextCounted : holder + 1 < sequence.countUpTo offset ↔ nextFirst ≤ offset :=
    ordered.lt_countUpTo_iff isNext
  have elsewhere : first ≠ offset := unoccupied.elsewhere _ (List.mem_of_getElem? stands)
  constructor
  · intro isCount
    exact ⟨first, value, stands, by omega, by omega⟩
  · intro isInside
    obtain ⟨after, inside⟩ := (isInside_iff stands).mp isInside
    omega

/-- All elements start before an offset exactly if it is not before the end of the sequence, or inside
the last element. -/
theorem countUpTo_eq_size_iff
    (unoccupied : sequence.IsUnoccupied start offset) :
    sequence.countUpTo offset = sequence.size ↔
      sequence.endOffset ≤ offset ∨
        ∃ last, sequence.size = last + 1 ∧ sequence.IsInside last offset := by
  have ordered := laidOut.isOrdered wide
  have within := sequence.countUpTo_le_size offset
  cases isSize : sequence.size with
  | zero =>
      have isEmpty : values = [] := List.eq_nil_of_length_eq_zero (laidOut.size_eq ▸ isSize)
      have ends : sequence.endOffset = start := by
        rw [laidOut.ends, isEmpty]
        rfl
      have notBefore := unoccupied.notBefore
      apply iff_of_true (by omega)
      exact .inl (by omega)
  | succ last =>
      obtain ⟨first, value, stands⟩ := exists_entry (show last < sequence.size by omega)
      have counted : last < sequence.countUpTo offset ↔ first ≤ offset :=
        ordered.lt_countUpTo_iff stands
      have elsewhere : first ≠ offset := unoccupied.elsewhere _ (List.mem_of_getElem? stands)
      have ends := laidOut.endOffset_eq isSize stands
      constructor
      · intro isCount
        by_cases past : sequence.endOffset ≤ offset
        · exact .inl past
        · exact .inr ⟨last, rfl, first, value, stands, by omega, by omega⟩
      · rintro (past | ⟨other, same, isInside⟩)
        · omega
        · cases Nat.succ.inj same
          obtain ⟨after, inside⟩ := (isInside_iff stands).mp isInside
          omega

end Unoccupied

theorem namesFollowers :
    sequence.NamesFollowers start := by
  intro offset unoccupied
  constructor
  · intro index
    rw [locate_eq_before_iff unoccupied.elsewhere]
    constructor
    · rintro ⟨isCount, inside⟩
      have counted := laidOut.countUpTo_pos wide unoccupied.notBefore (Nat.zero_lt_of_lt inside)
      obtain ⟨holder, rfl⟩ := Nat.exists_eq_succ_of_ne_zero (show index ≠ 0 by omega)
      exact ⟨holder, rfl, inside,
        (laidOut.countUpTo_eq_succ_iff wide unoccupied inside).mp isCount⟩
    · rintro ⟨holder, rfl, inside, isInside⟩
      exact ⟨(laidOut.countUpTo_eq_succ_iff wide unoccupied inside).mpr isInside, inside⟩
  · rw [locate_eq_beyond_iff unoccupied.elsewhere]
    exact laidOut.countUpTo_eq_size_iff wide unoccupied

/-- No element starts right after the offset at which a wide element starts. -/
theorem isUnoccupied_succ
    {index first : Nat}
    {value : α}
    (stands : sequence.toList[index]? = some (first, value))
    (takesMore : 1 < width value) :
    sequence.IsUnoccupied start (first + 1) where
  notBefore := by
    rw [laidOut.entry, Option.map_eq_some_iff] at stands
    obtain ⟨other, _, same⟩ := stands
    cases same
    omega
  elsewhere := by
    intro entry member same
    obtain ⟨other, standsOther⟩ := List.mem_iff_getElem?.mp member
    rcases Nat.lt_trichotomy other index with before | rfl | after
    · have less := (laidOut.isOrdered wide).fst_lt_fst standsOther stands before
      simp only at less
      omega
    · rw [stands, Option.some.injEq] at standsOther
      subst standsOther
      simp only at same
      omega
    · have notBefore := laidOut.end_le wide stands standsOther after
      omega

/-- Holders are named only where there is nothing to name. -/
theorem namesHolders_iff :
    sequence.NamesHolders start ↔ ∀ value ∈ values, width value = 1 := by
  have follows := laidOut.namesFollowers wide
  constructor
  · intro names value member
    have atLeast := wide value member
    by_contra notSingle
    have takesMore : 1 < width value := by omega
    -- The offset after the one at which the element starts would be answered with its index, but is
    -- answered with that of the next element.
    obtain ⟨index, isValue⟩ := List.mem_iff_getElem?.mp member
    have stands : sequence.toList[index]? =
        some (start + totalWidth (values.take index), value) := by
      rw [laidOut.entry, isValue]
      rfl
    have unoccupied := laidOut.isUnoccupied_succ wide stands takesMore
    have named := ((names _ unoccupied).1 index).mpr
      ((isInside_iff stands).mpr ⟨Nat.lt_succ_self _, Nat.add_lt_add_left takesMore _⟩)
    obtain ⟨holder, rfl, _, first, other, standsOther, _, inside⟩ :=
      ((follows _ unoccupied).1 index).mp named
    have notBefore : first + width other ≤ start + totalWidth (values.take (holder + 1)) :=
      laidOut.end_le wide standsOther stands (Nat.lt_succ_self holder)
    omega
  · intro single offset unoccupied
    have notInside (index : Nat) : ¬ sequence.IsInside index offset := by
      rintro ⟨first, value, stands, after, inside⟩
      have isValue : value ∈ values := by
        rw [← laidOut.values_eq]
        exact List.mem_map_of_mem (List.mem_of_getElem? stands)
      have isSingle := single value isValue
      omega
    have answered := follows offset unoccupied
    simp only [notInside, and_false, exists_false, or_false] at answered
    simp only [notInside]
    exact answered

end IsLaidOut

/-! ## Offsets inside what is left -/

/-- **Offsets inside elements**: however elements that take an offset at least are pushed and taken
off, an offset inside one of them is answered with the index of the element after that one, and one
inside the last element as beyond the sequence. The index is that of the element itself only if every
element takes one offset, so that there is none inside any. -/
theorem alterAll_namesFollowers
    {start : Nat}
    {alterations : List (Alteration α)}
    (wide : ∀ value, .push value ∈ alterations → 0 < width value)
    {altered : OffsetSeq α}
    (isAltered : (startingAt start).alterAll alterations = .ok altered) :
    altered.NamesFollowers start ∧
      (altered.NamesHolders start ↔ ∀ value ∈ altered.values, width value = 1) := by
  have laidOut := isLaidOut_of_alterAll_eq_ok wide isAltered
  have leftWide : ∀ value ∈ left alterations, 0 < width value :=
    fun value isLeft => wide value (push_mem_of_mem_left isLeft)
  rw [laidOut.values_eq]
  exact ⟨laidOut.namesFollowers leftWide, laidOut.namesHolders_iff leftWide⟩

/-- The second offset of a long between two integers is answered with the index of the integer after
it. -/
theorem longBetweenIntegers_namesFollower :
    let alterations : List (Alteration Constant) :=
      [.push (.integer 7), .push (.long 8), .push (.integer 9)]
    let table : ConstantTable := ⟨#[(1, .integer 7), (2, .long 8), (4, .integer 9)], 5⟩
    (∀ value, .push value ∈ alterations → 0 < width value) ∧
      (startingAt 1).alterAll alterations = .ok table ∧
      table.NamesFollowers 1 ∧
      (table.NamesHolders 1 ↔ ∀ value ∈ table.values, width value = 1) := by
  intro alterations table
  have wide : ∀ value, .push value ∈ alterations → 0 < width value :=
    fun value _ => ConstantPool.width_pos value
  have isAltered : (startingAt 1).alterAll alterations = .ok table := rfl
  exact ⟨wide, isAltered, alterAll_namesFollowers wide isAltered⟩

/-- The second offset of a long is answered with the index of the long after it, and that of the last
long as beyond the table, although the table ends later. -/
theorem twoLongs_areMisnamed :
    let table : ConstantTable := ⟨#[(1, .long 8), (3, .long 9)], 5⟩
    (startingAt 1).alterAll [.push (.long 8), .push (.long 9)] = .ok table ∧
      (table.IsUnoccupied 1 2 ∧ table.IsInside 0 2 ∧ table.locate 2 = .before 1) ∧
      (table.IsUnoccupied 1 4 ∧ table.IsInside 1 4 ∧ 4 < table.endOffset ∧
        table.locate 4 = .beyond) ∧
      ¬ table.NamesHolders 1 := by
  intro table
  have second : table.IsUnoccupied 1 2 := ⟨by decide, by decide⟩
  have fourth : table.IsUnoccupied 1 4 := ⟨by decide, by decide⟩
  have named : table.locate 2 = .before 1 := by cbv
  have beyond : table.locate 4 = .beyond := by cbv
  refine ⟨rfl, ⟨second, ⟨1, .long 8, rfl, by decide, by decide⟩, named⟩,
    ⟨fourth, ⟨3, .long 9, rfl, by decide, by decide⟩, by decide, beyond⟩, ?_⟩
  intro names
  exact absurd (((names 4 fourth).2).mp beyond) (by decide)

end OffsetSeq

end ClosureConversion
