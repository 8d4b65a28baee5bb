import Mathlib.Data.List.Nodup
import ClosureConversion.Closure.Capture
import ClosureConversion.Proofs.Computation

/-!
Contract: the boxes that the closures of a method share with it.

Owns:
- what all boxes of a method have in common: each is for a variable of its own, in a slot of
  its own after those of the method;
- which captures have a box: those of the mutable variables of the method.

Does not own: which variables are mutable, or the code that uses the boxes.
-/

namespace ClosureConversion

/-- The box of a variable is a box for it. -/
theorem key_of_boxOf?_eq_some
    {boxes : List BoxedLocal}
    {key : VariableKey}
    {boxed : BoxedLocal}
    (found : boxOf? boxes key = some boxed) :
    boxed ∈ boxes ∧ boxed.key = key :=
  ⟨List.mem_of_find?_eq_some found, by simpa using List.find?_some found⟩

theorem isSome_boxOf?
    {boxes : List BoxedLocal}
    {key : VariableKey} :
    (boxOf? boxes key).isSome = true ↔ ∃ boxed ∈ boxes, boxed.key = key := by
  simp [boxOf?]

/-- The boxes of a method: one for each of several variables, in the slots that follow those of
the method. -/
structure AreBoxes (method : Method) (boxes : List BoxedLocal) : Prop where
  slots : ∀ (position : Nat) (boxed : BoxedLocal), boxes[position]? = some boxed →
    boxed.boxSlot.toNat = method.maxLocals.toNat + position
  keys : boxes.Pairwise fun first second => first.key ≠ second.key
  isLocal : ∀ boxed ∈ boxes, ∃ start, boxed.key = .local boxed.slot start ∧
    boxed.isParameter = method.isFormalParameter boxed.slot start

namespace AreBoxes

variable {method : Method} {boxes : List BoxedLocal}

theorem nil : AreBoxes method [] where
  slots := by simp
  keys := .nil
  isLocal := by simp

/-- One more box, in the next slot, for a variable that has none. -/
theorem concat
    (areBoxes : AreBoxes method boxes)
    {boxed : BoxedLocal}
    {start : Nat}
    (isNext : boxed.boxSlot.toNat = method.maxLocals.toNat + boxes.length)
    (isNew : (boxOf? boxes boxed.key).isSome = false)
    (isVariable : boxed.key = .local boxed.slot start)
    (isParameter : boxed.isParameter = method.isFormalParameter boxed.slot start) :
    AreBoxes method (boxes ++ [boxed]) where
  slots := by
    intro position other found
    rcases Nat.lt_trichotomy position boxes.length with below | rfl | above
    · rw [List.getElem?_append_left below] at found
      exact areBoxes.slots position other found
    · rw [List.getElem?_concat_length] at found
      rw [← Option.some.inj found]
      exact isNext
    · rw [List.getElem?_eq_none (by rw [List.length_append, List.length_singleton]; omega)] at found
      cases found
  keys := by
    rw [List.pairwise_append]
    refine ⟨areBoxes.keys, List.pairwise_singleton _ _, ?_⟩
    intro other member last isLast sameKey
    rw [List.mem_singleton.mp isLast] at sameKey
    exact Bool.false_ne_true (isNew.symm.trans (isSome_boxOf?.mpr ⟨other, member, sameKey⟩))
  isLocal := by
    intro other member
    rw [List.mem_append, List.mem_singleton] at member
    rcases member with isOld | rfl
    · exact areBoxes.isLocal other isOld
    · exact ⟨start, isVariable, isParameter⟩

/-- No two boxes share a slot. -/
theorem eq_of_boxSlot_eq
    (areBoxes : AreBoxes method boxes)
    {i j : Nat}
    {first second : BoxedLocal}
    (isFirst : boxes[i]? = some first)
    (isSecond : boxes[j]? = some second)
    (sameSlot : first.boxSlot = second.boxSlot) :
    i = j := by
  have firstSlot := areBoxes.slots i first isFirst
  have secondSlot := areBoxes.slots j second isSecond
  rw [sameSlot] at firstSlot
  omega

/-- A box is found by its variable. -/
theorem boxOf?_key
    (areBoxes : AreBoxes method boxes)
    {boxed : BoxedLocal}
    (member : boxed ∈ boxes) :
    boxOf? boxes boxed.key = some boxed := by
  obtain ⟨found, isFound⟩ :=
    Option.isSome_iff_exists.mp (isSome_boxOf?.mpr ⟨boxed, member, rfl⟩)
  obtain ⟨isMember, sameKey⟩ := key_of_boxOf?_eq_some isFound
  have nodup : (boxes.map BoxedLocal.key).Nodup := List.pairwise_map.mpr areBoxes.keys
  rw [isFound, List.inj_on_of_nodup_map nodup isMember member sameKey]

/-- A box is not in a slot of the method. -/
theorem maxLocals_le_boxSlot
    (areBoxes : AreBoxes method boxes)
    {boxed : BoxedLocal}
    (member : boxed ∈ boxes) :
    method.maxLocals ≤ boxed.boxSlot := by
  obtain ⟨position, found⟩ := List.getElem?_of_mem member
  have slot := areBoxes.slots position boxed found
  rw [UInt16.le_iff_toNat_le]
  omega

end AreBoxes

/-- What is known of the boxes after some captures were looked at: they are for mutable
variables among these, and every such variable has one. -/
structure BoxesOf (method : Method) (captures : List Capture) (boxes : List BoxedLocal) :
    Prop where
  areBoxes : AreBoxes method boxes
  captured : ∀ boxed ∈ boxes, ∃ capture ∈ captures,
    capture.mutable = true ∧ capture.key = boxed.key ∧ capture.type = boxed.type
  complete : ∀ capture ∈ captures, capture.mutable = true → ∀ slot start,
    capture.key = .local slot start → (boxOf? boxes capture.key).isSome = true

namespace BoxesOf

variable {method : Method} {captures : List Capture} {boxes next : List BoxedLocal}
  {capture : Capture}

/-- A capture that needs no new box. -/
theorem keep
    (boxesOf : BoxesOf method captures boxes)
    (needsNone : capture.mutable = true → ∀ slot start, capture.key = .local slot start →
      (boxOf? boxes capture.key).isSome = true) :
    BoxesOf method (captures ++ [capture]) boxes where
  areBoxes := boxesOf.areBoxes
  captured := by
    intro boxed member
    obtain ⟨other, isCaptured, isFor⟩ := boxesOf.captured boxed member
    exact ⟨other, List.mem_append_left _ isCaptured, isFor⟩
  complete := by
    intro other member
    rw [List.mem_append, List.mem_singleton] at member
    rcases member with isOld | rfl
    · exact boxesOf.complete other isOld
    · exact needsNone

/-- Looking at one more capture. -/
theorem addBox
    (boxesOf : BoxesOf method captures boxes)
    (added : addBox method boxes capture = .ok next) :
    BoxesOf method (captures ++ [capture]) next := by
  unfold ClosureConversion.addBox at added
  split at added
  · rename_i slot start isLocal
    split at added
    · rename_i needsNone
      cases added
      refine boxesOf.keep fun isMutable _ _ _ => ?_
      simpa [isMutable] using needsNone
    · rename_i needsOne
      have isMutable : capture.mutable = true := by
        cases isMutable : capture.mutable with
        | true => rfl
        | false => simp [isMutable] at needsOne
      have isNew : (boxOf? boxes capture.key).isSome = false := by
        simpa [isMutable] using needsOne
      dsimp only at added
      split at added
      · cases added
      · rename_i fits
        cases added
        have slotEq : (method.maxLocals.toNat + boxes.length).toUInt16.toNat =
            method.maxLocals.toNat + boxes.length :=
          UInt16.toNat_ofNat_of_lt (Nat.lt_succ_of_le (Nat.le_of_not_lt fits))
        refine ⟨boxesOf.areBoxes.concat slotEq isNew isLocal rfl, ?_, ?_⟩
        · intro boxed member
          rw [List.mem_append, List.mem_singleton] at member
          rcases member with isOld | rfl
          · obtain ⟨other, isCaptured, isFor⟩ := boxesOf.captured boxed isOld
            exact ⟨other, List.mem_append_left _ isCaptured, isFor⟩
          · exact ⟨capture, by simp, isMutable, rfl, rfl⟩
        · intro other member otherMutable otherSlot otherStart otherLocal
          rw [isSome_boxOf?]
          rw [List.mem_append, List.mem_singleton] at member
          rcases member with isOld | rfl
          · obtain ⟨boxed, isBoxed, isFor⟩ := isSome_boxOf?.mp
              (boxesOf.complete other isOld otherMutable otherSlot otherStart otherLocal)
            exact ⟨boxed, List.mem_append_left _ isBoxed, isFor⟩
          · exact ⟨_, List.mem_append_right _ List.mem_cons_self, rfl⟩
  · rename_i notLocal
    cases added
    refine boxesOf.keep fun _ slot start isLocal => ?_
    exact absurd isLocal (notLocal slot start)

end BoxesOf

/-- The boxes of a method are those of the captures of its sites. -/
theorem boxesOf_boxesFor
    {method : Method}
    {sites : List SiteCaptures}
    {boxes : List BoxedLocal}
    (found : boxesFor method sites = .ok boxes) :
    BoxesOf method (sites.flatMap SiteCaptures.captures) boxes := by
  refine foldlM_preserves (BoxesOf method) ?_ ⟨.nil, by simp, by simp⟩ found
  intro done capture reached next _ boxesOf added
  exact boxesOf.addBox added

end ClosureConversion
