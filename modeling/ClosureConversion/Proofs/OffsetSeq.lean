import ClosureConversion.OffsetSeq

/-!
Contract: what the searches for an offset find.

Owns:
- the answer of the binary search, for a test that stops holding at one index;
- the width of several elements together, and pushing them one after another;
- sequences whose offsets increase, and that pushing an element keeps them so;
- finding exactly the elements of such a sequence by their offsets.

Does not own: what the elements are.
-/

namespace ClosureConversion

universe u

/-- The search finds the index at which the test stops holding. -/
theorem partitionPoint_eq
    {holds : Nat → Bool}
    {low high cut : Nat}
    (notBelow : low ≤ cut)
    (notAbove : cut ≤ high)
    (splits : ∀ index, low ≤ index → index < high → (holds index = true ↔ index < cut)) :
    partitionPoint holds low high = cut := by
  fun_induction partitionPoint holds low high with
  | case1 low high within middle found inductionHypothesis =>
      have middleBelow : middle < cut := (splits middle (by omega) (by omega)).mp found
      apply inductionHypothesis
      · omega
      · exact notAbove
      · intro index above below
        exact splits index (by omega) below
  | case2 low high within middle failed inductionHypothesis =>
      have middleAbove : ¬ middle < cut := by
        intro below
        exact failed ((splits middle (by omega) (by omega)).mpr below)
      apply inductionHypothesis
      · exact notBelow
      · omega
      · intro index above below
        exact splits index above (by omega)
  | case3 low high outside => omega

/-- The indices before the one that the search finds are those at which the test holds, for a test
that holds before every index at which it does. -/
theorem lt_partitionPoint_iff
    {holds : Nat → Bool}
    {low high : Nat}
    (downward : ∀ first second, first ≤ second → second < high →
      holds second = true → holds first = true)
    {index : Nat}
    (above : low ≤ index)
    (below : index < high) :
    index < partitionPoint holds low high ↔ holds index = true := by
  fun_induction partitionPoint holds low high with
  | case1 low high within middle found inductionHypothesis =>
      have middleBelow : middle < high := by omega
      have bounds := partitionPoint_bounds holds (show middle + 1 ≤ high from middleBelow)
      by_cases after : middle < index
      · exact inductionHypothesis downward after below
      · exact iff_of_true (by omega) (downward index middle (by omega) middleBelow found)
  | case2 low high within middle failed inductionHypothesis =>
      have bounds := partitionPoint_bounds holds (show low ≤ middle by omega)
      by_cases before : index < middle
      · apply inductionHypothesis _ above before
        intro first second notAfter inside
        exact downward first second notAfter (by omega)
      · exact iff_of_false (by omega) fun held => failed (downward middle index (by omega) below held)
  | case3 low high outside => omega

/-- The search finds the place of a number among increasing numbers. -/
theorem partitionPoint_lt_eq
    {numbers : Array Nat}
    (increasing : numbers.toList.Pairwise (· < ·))
    {index : Nat}
    (inside : index < numbers.size) :
    partitionPoint (fun other => numbers.getD other 0 < numbers[index]) 0 numbers.size = index := by
  apply partitionPoint_eq (Nat.zero_le index) (Nat.le_of_lt inside)
  intro other _ otherInside
  rw [decide_eq_true_iff, Array.getD_eq_getD_getElem?, Array.getElem?_eq_getElem otherInside,
    Option.getD_some]
  have ordered := List.pairwise_iff_getElem.mp increasing
  simp only [Array.length_toList, Array.getElem_toList] at ordered
  constructor
  · intro less
    rcases Nat.lt_trichotomy other index with below | equal | above
    · exact below
    · subst equal
      omega
    · have := ordered index other inside otherInside above
      omega
  · intro less
    exact ordered other index otherInside inside less

/-! ## Widths -/

section Widths

variable {α : Type} [Width α]

theorem totalWidth_cons
    (value : α)
    (rest : List α) :
    totalWidth (value :: rest) = width value + totalWidth rest :=
  rfl

theorem totalWidth_append
    (first second : List α) :
    totalWidth (first ++ second) = totalWidth first + totalWidth second := by
  induction first with
  | nil => exact (Nat.zero_add _).symm
  | cons value rest inductionHypothesis =>
      rw [List.cons_append, totalWidth_cons, totalWidth_cons, inductionHypothesis, Nat.add_assoc]

end Widths

/-! ## Sequences -/

namespace OffsetSeq

variable {α : Type u}

/-- The offsets increase, up to the one at which the next element will start. -/
structure IsOrdered (sequence : OffsetSeq α) : Prop where
  increasing : sequence.toList.Pairwise fun left right => left.1 < right.1
  bounded : ∀ entry ∈ sequence.toList, entry.1 < sequence.endOffset

theorem toList_push
    [Width α]
    (sequence : OffsetSeq α)
    (value : α) :
    (sequence.push value).toList = sequence.toList ++ [(sequence.endOffset, value)] := by
  rw [toList, push, Array.toList_push]
  rfl

theorem isOrdered_startingAt
    (start : Nat) :
    (startingAt start : OffsetSeq α).IsOrdered where
  increasing := List.Pairwise.nil
  bounded _ member := nomatch member

/-- An element that takes an offset at least is pushed without disorder. -/
theorem IsOrdered.push
    [Width α]
    {sequence : OffsetSeq α}
    (ordered : sequence.IsOrdered)
    {value : α}
    (wide : 0 < width value) :
    (sequence.push value).IsOrdered where
  increasing := by
    rw [toList_push, List.pairwise_append]
    refine ⟨ordered.increasing, List.pairwise_singleton _ _, ?_⟩
    intro left leftMember right rightMember
    rw [List.mem_singleton.mp rightMember]
    exact ordered.bounded left leftMember
  bounded entry member := by
    have ends : (sequence.push value).endOffset = sequence.endOffset + width value := rfl
    rw [toList_push] at member
    rcases List.mem_append.mp member with before | isLast
    · have := ordered.bounded entry before
      omega
    · rw [List.mem_singleton.mp isLast]
      omega

/-- Of two elements the earlier one starts first. -/
theorem IsOrdered.fst_lt_fst
    {sequence : OffsetSeq α}
    (ordered : sequence.IsOrdered)
    {earlier later : Nat}
    {left right : Nat × α}
    (isLeft : sequence.toList[earlier]? = some left)
    (isRight : sequence.toList[later]? = some right)
    (before : earlier < later) :
    left.1 < right.1 := by
  obtain ⟨earlierInside, rfl⟩ := List.getElem?_eq_some_iff.mp isLeft
  obtain ⟨laterInside, rfl⟩ := List.getElem?_eq_some_iff.mp isRight
  exact List.pairwise_iff_getElem.mp ordered.increasing earlier later earlierInside laterInside before

theorem exists_entry
    {sequence : OffsetSeq α}
    {index : Nat}
    (inside : index < sequence.size) :
    ∃ first value, sequence.toList[index]? = some (first, value) :=
  ⟨_, _, List.getElem?_eq_getElem inside⟩

theorem countUpTo_le_size
    (sequence : OffsetSeq α)
    (offset : Nat) :
    sequence.countUpTo offset ≤ sequence.size :=
  (partitionPoint_bounds _ (Nat.zero_le _)).2

/-- The elements that are counted up to an offset are those that start at or before it. -/
theorem IsOrdered.lt_countUpTo_iff
    {sequence : OffsetSeq α}
    (ordered : sequence.IsOrdered)
    {index : Nat}
    {entry : Nat × α}
    (stands : sequence.toList[index]? = some entry)
    {offset : Nat} :
    index < sequence.countUpTo offset ↔ entry.1 ≤ offset := by
  have inside : index < sequence.entries.size := (List.getElem?_eq_some_iff.mp stands).1
  unfold countUpTo
  rw [lt_partitionPoint_iff _ (Nat.zero_le _) inside, ← Array.getElem?_toList]
  · simp only [show sequence.entries.toList[index]? = some entry from stands, decide_eq_true_iff]
  · intro first second notAfter secondInside held
    have isSecond := Array.getElem?_eq_getElem secondInside
    have isFirst := Array.getElem?_eq_getElem (show first < sequence.entries.size by omega)
    simp only [isSecond, decide_eq_true_iff] at held
    simp only [isFirst, decide_eq_true_iff]
    by_cases same : first = second
    · subst same
      exact held
    · rw [← Array.getElem?_toList] at isFirst isSecond
      have less := ordered.fst_lt_fst isFirst isSecond (by omega)
      omega

/-- How many elements start up to the offset of one of them. -/
theorem IsOrdered.countUpTo_eq
    {sequence : OffsetSeq α}
    (ordered : sequence.IsOrdered)
    {index : Nat}
    (inside : index < sequence.entries.size) :
    sequence.countUpTo sequence.entries[index].1 = index + 1 := by
  have stands : sequence.toList[index]? = some sequence.entries[index] :=
    Array.getElem?_toList.trans (Array.getElem?_eq_getElem inside)
  have counted := (ordered.lt_countUpTo_iff stands).mpr (Nat.le_refl _)
  apply Nat.le_antisymm _ counted
  apply Nat.not_lt.mp
  intro nextCounted
  have nextInside : index + 1 < sequence.entries.size :=
    Nat.lt_of_lt_of_le nextCounted (sequence.countUpTo_le_size _)
  have nextStands : sequence.toList[index + 1]? = some sequence.entries[index + 1] :=
    Array.getElem?_toList.trans (Array.getElem?_eq_getElem nextInside)
  have notAfter := (ordered.lt_countUpTo_iff nextStands).mp nextCounted
  have less := ordered.fst_lt_fst stands nextStands (Nat.lt_succ_self index)
  omega

/-- What is found at an offset is an element that starts there, under its index. -/
theorem getElem?_of_locate_eq_element
    {sequence : OffsetSeq α}
    {offset index : Nat}
    {value : α}
    (found : sequence.locate offset = .element index value) :
    sequence.toList[index]? = some (offset, value) := by
  unfold locate at found
  have nowhere : (if sequence.countUpTo offset = sequence.size then Location.beyond
      else .before (sequence.countUpTo offset) : Location α) ≠ .element index value := by
    split <;> exact nofun
  dsimp only at found
  split at found
  · exact absurd found nowhere
  · rename_i last isCount
    split at found
    · rename_i start other entry
      split at found
      · rename_i startsThere
        cases found
        subst startsThere
        exact (Array.getElem?_toList).trans entry
      · exact absurd found nowhere
    · exact absurd found nowhere

/-- What is found at an offset is an element that starts there. -/
theorem mem_toList_of_value?_locate_eq_some
    {sequence : OffsetSeq α}
    {offset : Nat}
    {value : α}
    (found : (sequence.locate offset).value? = some value) :
    (offset, value) ∈ sequence.toList := by
  cases isFound : sequence.locate offset with
  | element index other =>
      rw [isFound] at found
      cases found
      exact List.mem_of_getElem? (getElem?_of_locate_eq_element isFound)
  | before index =>
      rw [isFound] at found
      cases found
  | beyond =>
      rw [isFound] at found
      cases found

/-- An element is found at an offset under an index exactly if it stands there under that index. -/
theorem IsOrdered.locate_eq_element_iff
    {sequence : OffsetSeq α}
    (ordered : sequence.IsOrdered)
    {offset index : Nat}
    {value : α} :
    sequence.locate offset = .element index value ↔
      sequence.toList[index]? = some (offset, value) := by
  constructor
  · exact getElem?_of_locate_eq_element
  · intro stands
    have entry? : sequence.entries[index]? = some (offset, value) :=
      Array.getElem?_toList.symm.trans stands
    obtain ⟨inside, entry⟩ := Array.getElem?_eq_some_iff.mp entry?
    have count := ordered.countUpTo_eq inside
    rw [entry] at count
    simp only [locate, count, entry?, if_true]

/-- An element is found at an offset exactly if it starts there. -/
theorem IsOrdered.value?_locate_eq_some_iff
    {sequence : OffsetSeq α}
    (ordered : sequence.IsOrdered)
    {offset : Nat}
    {value : α} :
    (sequence.locate offset).value? = some value ↔ (offset, value) ∈ sequence.toList := by
  constructor
  · exact mem_toList_of_value?_locate_eq_some
  · intro member
    obtain ⟨index, stands⟩ := List.mem_iff_getElem?.mp member
    rw [ordered.locate_eq_element_iff.mpr stands]
    rfl

/-- Where no element starts, the number of the elements that start before is answered, if there are
others. -/
theorem locate_eq_of_unoccupied
    {sequence : OffsetSeq α}
    {offset : Nat}
    (unoccupied : ∀ entry ∈ sequence.toList, entry.1 ≠ offset) :
    sequence.locate offset =
      if sequence.countUpTo offset = sequence.size then .beyond
      else .before (sequence.countUpTo offset) := by
  unfold locate
  dsimp only
  split
  · rfl
  · rename_i last isCount
    split
    · rename_i start other entry
      have elsewhere : start ≠ offset :=
        unoccupied (start, other) (Array.mem_toList_iff.mpr (Array.mem_of_getElem? entry))
      rw [if_neg elsewhere]
    · rfl

/-- Where no element starts, an index is answered exactly if it is the number of the elements that
start before, and there are others. -/
theorem locate_eq_before_iff
    {sequence : OffsetSeq α}
    {offset : Nat}
    (unoccupied : ∀ entry ∈ sequence.toList, entry.1 ≠ offset)
    {index : Nat} :
    sequence.locate offset = .before index ↔
      sequence.countUpTo offset = index ∧ index < sequence.size := by
  have within := sequence.countUpTo_le_size offset
  rw [locate_eq_of_unoccupied unoccupied]
  split
  · simp only [reduceCtorEq, false_iff, not_and]
    omega
  · simp only [Location.before.injEq]
    omega

/-- Where no element starts, the offset is beyond the sequence exactly if all elements start before. -/
theorem locate_eq_beyond_iff
    {sequence : OffsetSeq α}
    {offset : Nat}
    (unoccupied : ∀ entry ∈ sequence.toList, entry.1 ≠ offset) :
    sequence.locate offset = .beyond ↔ sequence.countUpTo offset = sequence.size := by
  rw [locate_eq_of_unoccupied unoccupied]
  split
  · rename_i isAll
    simp only [isAll]
  · rename_i isPart
    simp only [isPart, reduceCtorEq]

end OffsetSeq

/-! ## Several elements -/

namespace OffsetSeq

variable {α : Type} [Width α]

/-- The sequence with further elements after all others. -/
def pushAll (sequence : OffsetSeq α) (values : List α) : OffsetSeq α :=
  values.foldl push sequence

theorem endOffset_pushAll
    (sequence : OffsetSeq α)
    (values : List α) :
    (sequence.pushAll values).endOffset = sequence.endOffset + totalWidth values := by
  induction values generalizing sequence with
  | nil => rfl
  | cons value values inductionHypothesis =>
      have pushed : (sequence.push value).endOffset = sequence.endOffset + width value := rfl
      change ((sequence.push value).pushAll values).endOffset =
        sequence.endOffset + (width value + totalWidth values)
      rw [inductionHypothesis, pushed, Nat.add_assoc]

theorem pushAll_append
    (sequence : OffsetSeq α)
    (first second : List α) :
    sequence.pushAll (first ++ second) = (sequence.pushAll first).pushAll second :=
  List.foldl_append

theorem values_pushAll
    (sequence : OffsetSeq α)
    (values : List α) :
    (sequence.pushAll values).values = sequence.values ++ values := by
  induction values generalizing sequence with
  | nil => exact (List.append_nil _).symm
  | cons value values inductionHypothesis =>
      change ((sequence.push value).pushAll values).values = _
      rw [inductionHypothesis, OffsetSeq.values, toList_push, List.map_append, List.append_assoc]
      rfl

/-- Elements that take an offset at least are pushed without disorder. -/
theorem IsOrdered.pushAll_of_wide
    {sequence : OffsetSeq α}
    (ordered : sequence.IsOrdered)
    {values : List α}
    (wide : ∀ value ∈ values, 0 < width value) :
    (sequence.pushAll values).IsOrdered := by
  induction values generalizing sequence with
  | nil => exact ordered
  | cons value values inductionHypothesis =>
      apply inductionHypothesis (ordered.push (wide value List.mem_cons_self))
      intro other member
      exact wide other (List.mem_cons_of_mem _ member)

end OffsetSeq

end ClosureConversion
