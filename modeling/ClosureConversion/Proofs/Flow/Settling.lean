import Mathlib.Algebra.Group.Action.Defs
import Mathlib.Algebra.GroupWithZero.Nat
import Mathlib.Algebra.Order.BigOperators.Group.Finset
import ClosureConversion.Proofs.Flow.Depth
import ClosureConversion.Proofs.Flow.Worklist
import ClosureConversion.Proofs.Hierarchy.Heights

/-!
Contract: the analysis of a method ends.

Owns:
- how often a frame may still become more general, and a merge that says that it changed a frame
  leaves less of that;
- what a visit of an instruction leaves to be done is less than there was before it;
- the analysis without a bound on the number of visits ends in any hierarchy whose superclasses
  lead up, and the bound is not reached;
- where the root class has a superclass, it need not end.

Does not own: what the frames are at the end.
-/

namespace ClosureConversion

open Finset OmegaCompletePartialOrder

variable {hierarchy : Hierarchy}

/-! ## Room -/

/-- A list each of whose elements is as before or weighs less weighs less, unless it is as
before. -/
theorem sum_le_of_forall₂
    {α : Type}
    (weight : α → Nat)
    {before after : List α}
    (lowered : List.Forall₂ (fun value result => result = value ∨ weight result < weight value)
      before after) :
    (after.map weight).sum ≤ (before.map weight).sum ∧
      (after ≠ before → (after.map weight).sum < (before.map weight).sum) := by
  induction lowered with
  | nil => exact ⟨Nat.le_refl _, fun changed => absurd rfl changed⟩
  | @cons value result values results isLowered _ inductionHypothesis =>
      obtain ⟨noMore, less⟩ := inductionHypothesis
      simp only [List.map_cons, List.sum_cons]
      rcases isLowered with rfl | lower
      · refine ⟨Nat.add_le_add_left noMore _, fun changed => Nat.add_lt_add_left (less ?_) _⟩
        rintro rfl
        exact changed rfl
      · exact ⟨by omega, fun _ => by omega⟩

namespace VerificationType

/-- How often a value may still become more general. -/
def room (hierarchy : Hierarchy) : VType → Nat
  | .top => 0
  | .null => hierarchy.names.length + 3
  | .object type => hierarchy.typeHeight type + 1
  | _ => 1

theorem room_le
    (type : VType) :
    type.room hierarchy ≤ hierarchy.names.length + 3 := by
  cases type with
  | object type =>
      have bounded : hierarchy.typeHeight type ≤ hierarchy.names.length + 1 :=
        Hierarchy.typeHeight_le type
      simp only [room]
      omega
  | _ => simp [room]

/-- The type that two values are merged to is the first one, or leaves less room. -/
theorem merge_eq_or_room_lt
    (grounded : hierarchy.IsGrounded)
    {first second merged : VType}
    (computed : merge hierarchy first second = .ok (some merged)) :
    merged = first ∨ merged.room hierarchy < first.room hierarchy := by
  unfold merge at computed
  split at computed
  · cases computed
    exact .inl rfl
  · split at computed
    · rename_i type _
      cases computed
      have bounded : hierarchy.typeHeight type ≤ hierarchy.names.length + 1 :=
        Hierarchy.typeHeight_le type
      exact .inr (by simp only [room]; omega)
    · cases computed
      exact .inl rfl
    · obtain ⟨shared, isShared, isMerged⟩ := map_eq_ok.mp computed
      cases isMerged
      rcases Hierarchy.commonSupertype_eq_or_typeHeight_lt grounded isShared with rfl | lower
      · exact .inl rfl
      · exact .inr (Nat.succ_lt_succ lower)
    · cases computed

theorem top_eq_or_room_lt
    (type : VType) :
    .top = type ∨ (.top : VType).room hierarchy < type.room hierarchy := by
  cases type with
  | top => exact .inl rfl
  | _ => exact .inr (by simp [room])

end VerificationType

namespace Frame

/-- How often a frame may still become more general. -/
def room (hierarchy : Hierarchy) (frame : Frame) : Nat :=
  (frame.locals.map (VerificationType.room hierarchy)).sum +
    (frame.stack.map (VerificationType.room hierarchy)).sum

theorem room_le
    (frame : Frame) :
    frame.room hierarchy ≤
      (frame.localSlots + frame.stack.length) * (hierarchy.names.length + 3) := by
  have bounded : ∀ values : List VType, (values.map (VerificationType.room hierarchy)).sum ≤
      values.length * (hierarchy.names.length + 3) := by
    intro values
    rw [← List.length_map (f := VerificationType.room hierarchy), ← smul_eq_mul]
    refine List.sum_le_card_nsmul _ _ fun room isRoom => ?_
    obtain ⟨type, _, rfl⟩ := List.mem_map.mp isRoom
    exact type.room_le
  rw [Nat.add_mul]
  exact Nat.add_le_add (bounded _) (bounded _)

theorem mergeSlot_eq_or_room_lt
    (grounded : hierarchy.IsGrounded)
    {first second merged : VType}
    (computed : mergeSlot hierarchy first second = .ok merged) :
    merged = first ∨ merged.room hierarchy < first.room hierarchy := by
  unfold mergeSlot at computed
  split at computed
  · rename_i result isMerged
    cases computed
    cases result with
    | none => exact first.top_eq_or_room_lt
    | some type => exact VerificationType.merge_eq_or_room_lt grounded isMerged
  · cases computed

/-- Slots beyond the last one leave no room. -/
theorem sum_room_extend
    (locals : List VType)
    (count : Nat) :
    ((Locals.extend locals count).map (VerificationType.room hierarchy)).sum =
      (locals.map (VerificationType.room hierarchy)).sum := by
  simp [Locals.extend, VerificationType.room]

/-- Halves of wide values that are dropped leave less room. -/
theorem forall₂_dropHalves
    (slots : List VType) :
    List.Forall₂ (fun slot kept => kept = slot ∨ kept.room hierarchy < slot.room hierarchy)
      slots (dropHalves slots) := by
  refine List.forall₂_of_length_eq_of_get (length_dropHalves slots).symm fun index inside _ => ?_
  have isKept := valueAt_dropHalves slots index
  rw [Locals.valueAt_of_getElem? (List.getElem?_eq_getElem inside),
    Locals.valueAt_of_getElem? (List.getElem?_eq_getElem (by rwa [length_dropHalves]))] at isKept
  simp only [List.get_eq_getElem, isKept]
  split
  · exact VerificationType.top_eq_or_room_lt _
  · exact .inl rfl

/-- A merge leaves as much room as there was, or less if it says that it changed the frame. -/
theorem room_of_merge_eq_ok
    (grounded : hierarchy.IsGrounded)
    {first second merged : Frame}
    {changed : Bool}
    (computed : first.merge hierarchy second = .ok (merged, changed)) :
    if changed then merged.room hierarchy < first.room hierarchy
    else merged.room hierarchy = first.room hierarchy := by
  obtain ⟨slots, isMerge, isChanged⟩ := merge_eq_ok_iff.mp computed
  obtain ⟨stackMerged, _⟩ := forall₂_of_zip
    (fun value other result => VerificationType.merge hierarchy value other = .ok (some result))
    isMerge.sameDepth isMerge.stack
  have stack := sum_le_of_forall₂ (VerificationType.room hierarchy)
    (stackMerged.imp fun value result ⟨_, isMerged⟩ =>
      VerificationType.merge_eq_or_room_lt grounded isMerged)
  obtain ⟨slotsMerged, _⟩ := forall₂_of_zip
    (fun value other result => mergeSlot hierarchy value other = .ok result)
    (by simp [Nat.max_comm]) isMerge.locals
  have locals := sum_le_of_forall₂ (VerificationType.room hierarchy)
    (slotsMerged.imp fun value result ⟨_, isMerged⟩ => mergeSlot_eq_or_room_lt grounded isMerged)
  have kept := sum_le_of_forall₂ (VerificationType.room hierarchy) (forall₂_dropHalves slots)
  rw [sum_room_extend] at locals
  rw [← isMerge.whole] at kept
  unfold room
  cases changed with
  | false =>
      obtain ⟨sameStack, sameSlots, sameLocals⟩ := isChanged.mp rfl
      rw [if_neg Bool.false_ne_true, sameLocals, sameStack, sameSlots, sum_room_extend]
  | true =>
      rw [if_pos rfl]
      have changes : merged.stack ≠ first.stack ∨
          slots ≠ Locals.extend first.locals second.localSlots ∨ merged.locals ≠ slots := by
        by_contra same
        simp only [ne_eq, not_or, not_not] at same
        exact absurd (isChanged.mpr ⟨same.1, same.2.1, same.2.2⟩) Bool.noConfusion
      rcases changes with stackChanges | slotsChange | localsChange
      · have less := stack.2 stackChanges
        omega
      · have less := locals.2 slotsChange
        omega
      · have less := kept.2 localsChange
        omega

end Frame

/-! ## Merges end -/

/-- An error that stands for a merge without an end. -/
def MergeError.IsEndless : MergeError → Prop
  | .flow _ => False
  | .classes error => error.IsEndless

theorem VerificationType.returns_merge
    (grounded : hierarchy.IsGrounded)
    (first second : VType) :
    Returns (merge hierarchy first second) := by
  unfold merge
  split
  · exact avoids_ok
  · split
    · exact avoids_ok
    · exact avoids_ok
    · exact returns_map_iff.mpr (grounded.returns_commonSupertype _ _)
    · exact avoids_ok

namespace Frame

theorem avoids_mergeValue
    (grounded : hierarchy.IsGrounded)
    (first second : VType) :
    Avoids MergeError.IsEndless (mergeValue hierarchy first second) := by
  unfold mergeValue
  split
  · exact avoids_ok
  · exact avoids_error id
  · rename_i error failed
    exact avoids_error (VerificationType.returns_merge grounded first second error failed)

theorem avoids_mergeSlot
    (grounded : hierarchy.IsGrounded)
    (first second : VType) :
    Avoids MergeError.IsEndless (mergeSlot hierarchy first second) := by
  unfold mergeSlot
  split
  · exact avoids_ok
  · rename_i error failed
    exact avoids_error (VerificationType.returns_merge grounded first second error failed)

theorem avoids_merge
    (grounded : hierarchy.IsGrounded)
    (first second : Frame) :
    Avoids MergeError.IsEndless (first.merge hierarchy second) := by
  unfold merge
  split
  · exact avoids_error id
  · split
    · rename_i error failed
      exact avoids_error (avoids_mapM (fun pair _ => avoids_mergeValue grounded pair.1 pair.2)
        error failed)
    · split
      · rename_i error failed
        exact avoids_error (avoids_mapM (fun pair _ => avoids_mergeSlot grounded pair.1 pair.2)
          error failed)
      · exact avoids_ok

end Frame

/-! ## Counting -/

namespace FlowState

/-- The sum over all instructions of what the frame of each counts for. -/
def tally (weight : Option Frame → Nat) (state : FlowState) : Nat :=
  ∑ index ∈ range state.frames.size, weight (state.frame? index)

/-- How many instructions have a frame. -/
def recorded (state : FlowState) : Nat :=
  state.tally fun frame? => if frame?.isSome then 1 else 0

variable {method : Method} {state next : FlowState} {target : Nat} {frame : Frame}

theorem tally_le
    (weight : Option Frame → Nat)
    (most : Nat)
    (atMost : ∀ index, weight (state.frame? index) ≤ most) :
    state.tally weight ≤ state.frames.size * most := by
  unfold tally
  simpa using sum_le_card_nsmul (range state.frames.size) _ most fun index _ => atMost index

theorem recorded_le
    (state : FlowState) :
    state.recorded ≤ state.frames.size := by
  have counted : state.tally _ ≤ _ :=
    tally_le (fun frame? => if frame?.isSome then 1 else 0) 1 fun index => by split <;> omega
  simpa [recorded] using counted

/-- Setting a frame exchanges what the old one counts for. -/
theorem SetsFrame.tally_add
    (sets : state.SetsFrame target frame next)
    (inside : target < state.frames.size)
    (weight : Option Frame → Nat) :
    next.tally weight + weight (state.frame? target) =
      state.tally weight + weight (some frame) := by
  have sameSize : next.frames.size = state.frames.size := by
    rw [sets.frames, Array.size_setIfInBounds]
  have isTarget : target ∈ range state.frames.size := mem_range.mpr inside
  unfold tally
  rw [sameSize, ← add_sum_erase _ _ isTarget,
    ← add_sum_erase _ (fun index => weight (state.frame? index)) isTarget]
  have others : ∑ index ∈ (range state.frames.size).erase target, weight (next.frame? index) =
      ∑ index ∈ (range state.frames.size).erase target, weight (state.frame? index) := by
    refine sum_congr rfl fun index isOther => ?_
    rw [sets.frame?_eq inside, if_neg (mem_erase.mp isOther).1]
  rw [others, sets.frame?_eq inside, if_pos rfl]
  omega

end FlowState

namespace Method

/-- How many slots a frame of the method may have. -/
def slotBound (method : Method) : Nat :=
  max method.entryFrame.localSlots 65537

/-- What an instruction without a frame counts for: more than any frame that it may get. -/
def freshRoom (hierarchy : Hierarchy) (method : Method) : Nat :=
  1 + (method.entryFrame.localSlots + 65537 + 2 * method.instructions.size + 1) *
    (hierarchy.names.length + 4)

/-- What an instruction counts for. -/
def roomOf (hierarchy : Hierarchy) (method : Method) : Option Frame → Nat
  | none => method.freshRoom hierarchy
  | some frame => frame.room hierarchy

theorem visitBound_eq
    (method : Method) :
    FlowState.visitBound method hierarchy =
      2 + method.instructions.size * method.freshRoom hierarchy :=
  rfl

end Method

namespace FlowState

variable {method : Method} {state next : FlowState} {target : Nat} {incoming : Frame}

/-- What remains to be done: the visits that wait, and those that frames have room for. -/
def potential (hierarchy : Hierarchy) (method : Method) (state : FlowState) : Nat :=
  state.worklist.length + state.tally (method.roomOf hierarchy)

/-- A frame that control may bring to an instruction. -/
structure Admits (method : Method) (state : FlowState) (frame : Frame) : Prop where
  slots : frame.localSlots ≤ method.slotBound
  depth : frame.stack.length ≤ 2 * state.recorded

/-- Every instruction adds at most two values to the stack, and stacks meet with equally many
values. So there are no more on any stack than twice the instructions with a frame. -/
structure IsBounded (method : Method) (state : FlowState) : Prop where
  size : state.frames.size = method.instructions.size
  slots : ∀ {index frame}, state.frame? index = some frame →
    frame.localSlots ≤ method.slotBound
  depth : ∀ {index frame}, state.frame? index = some frame →
    frame.stack.length + 2 ≤ 2 * state.recorded

/-- A later state in which there is no more to be done. -/
structure Settles (hierarchy : Hierarchy) (method : Method) (earlier later : FlowState) :
    Prop where
  bounded : later.IsBounded method
  potential : later.potential hierarchy method ≤ earlier.potential hierarchy method
  recorded : earlier.recorded ≤ later.recorded

namespace Settles

theorem refl
    (bounded : state.IsBounded method) :
    Settles hierarchy method state state :=
  ⟨bounded, Nat.le_refl _, Nat.le_refl _⟩

theorem trans
    {earlier between later : FlowState}
    (settles : Settles hierarchy method earlier between)
    (settlesOn : Settles hierarchy method between later) :
    Settles hierarchy method earlier later :=
  ⟨settlesOn.bounded, Nat.le_trans settlesOn.potential settles.potential,
    Nat.le_trans settles.recorded settlesOn.recorded⟩

/-- What may be brought to an instruction may be so later. -/
theorem admits
    {earlier later : FlowState}
    (settles : Settles hierarchy method earlier later)
    {frame : Frame}
    (admits : earlier.Admits method frame) :
    later.Admits method frame :=
  ⟨admits.slots, Nat.le_trans admits.depth (Nat.mul_le_mul_left 2 settles.recorded)⟩

end Settles

/-- A frame that may be brought to an instruction has less room than no frame. -/
theorem Admits.room_lt
    (bounded : state.IsBounded method)
    {frame : Frame}
    (admits : state.Admits method frame) :
    frame.room hierarchy < method.freshRoom hierarchy := by
  have values : frame.localSlots + frame.stack.length ≤
      method.entryFrame.localSlots + 65537 + 2 * method.instructions.size + 1 := by
    have slots := admits.slots
    have depth := admits.depth
    have few := recorded_le state
    rw [bounded.size] at few
    unfold Method.slotBound at slots
    omega
  calc frame.room hierarchy
      ≤ (frame.localSlots + frame.stack.length) * (hierarchy.names.length + 3) := frame.room_le
    _ ≤ (method.entryFrame.localSlots + 65537 + 2 * method.instructions.size + 1) *
          (hierarchy.names.length + 4) := Nat.mul_le_mul values (Nat.le_succ _)
    _ < method.freshRoom hierarchy := by
        unfold Method.freshRoom
        omega

/-- Setting a frame keeps a state bounded. -/
theorem SetsFrame.isBounded
    {frame : Frame}
    (sets : state.SetsFrame target frame next)
    (inside : target < state.frames.size)
    (bounded : state.IsBounded method)
    (grows : state.recorded ≤ next.recorded)
    (slots : frame.localSlots ≤ method.slotBound)
    (depth : frame.stack.length + 2 ≤ 2 * next.recorded) :
    next.IsBounded method where
  size := by rw [sets.frames, Array.size_setIfInBounds, bounded.size]
  slots := by
    intro index other isOther
    rw [sets.frame?_eq inside] at isOther
    split at isOther
    · cases isOther
      exact slots
    · exact bounded.slots isOther
  depth := by
    intro index other isOther
    rw [sets.frame?_eq inside] at isOther
    split at isOther
    · cases isOther
      exact depth
    · exact Nat.le_trans (bounded.depth isOther) (Nat.mul_le_mul_left 2 grows)

theorem length_worklist_record_le
    (frame : Frame) :
    (state.record target frame).worklist.length ≤ state.worklist.length + 1 := by
  unfold record
  dsimp only
  split
  · exact Nat.le_succ _
  · exact Nat.le_refl _

/-- Control going on to an instruction leaves no more to be done: it waits only if its frame lost
room. -/
theorem settles_flowInto
    (grounded : hierarchy.IsGrounded)
    (inside : target < state.frames.size)
    (bounded : state.IsBounded method)
    (admits : state.Admits method incoming)
    (computed : state.flowInto method hierarchy target incoming = .ok next) :
    Settles hierarchy method state next := by
  rcases flowInto_cases computed with
    ⟨missing, rfl⟩ | ⟨existing, merged, changed, found, isMerged, rfl⟩
  · have sets : state.SetsFrame target incoming (state.record target incoming) :=
      setsFrame_record incoming
    have counted := sets.tally_add inside fun frame? => if frame?.isSome then 1 else 0
    have weighed := sets.tally_add inside (method.roomOf hierarchy)
    have waits : (state.record target incoming).worklist.length ≤ state.worklist.length + 1 :=
      length_worklist_record_le incoming
    have fresh : incoming.room hierarchy < method.freshRoom hierarchy := admits.room_lt bounded
    rw [missing] at counted weighed
    simp only [Option.isSome_none, Option.isSome_some, Bool.false_eq_true, if_false, if_true]
      at counted
    change recorded _ + 0 = state.recorded + 1 at counted
    change tally _ _ + method.freshRoom hierarchy = tally _ _ + incoming.room hierarchy at weighed
    refine ⟨sets.isBounded inside bounded (by omega) admits.slots ?_, ?_, by omega⟩
    · have depth := admits.depth
      omega
    · unfold potential
      omega
  · have room := Frame.room_of_merge_eq_ok grounded isMerged
    obtain ⟨slots, isMerge, _⟩ := Frame.isMerge_of_merge_eq_ok isMerged
    have mergedSlots : merged.localSlots ≤ method.slotBound := by
      rw [isMerge.localSlots_eq]
      exact Nat.max_le.mpr ⟨bounded.slots found, admits.slots⟩
    have mergedDepth : merged.stack.length + 2 ≤ 2 * state.recorded := by
      rw [← isMerge.length_stack]
      exact bounded.depth found
    have settled : ∀ {later : FlowState}, state.SetsFrame target merged later →
        later.worklist.length + merged.room hierarchy ≤
          state.worklist.length + existing.room hierarchy →
        Settles hierarchy method state later := by
      intro later sets lower
      have counted := sets.tally_add inside fun frame? => if frame?.isSome then 1 else 0
      have weighed := sets.tally_add inside (method.roomOf hierarchy)
      rw [found] at counted weighed
      change recorded _ + 1 = state.recorded + 1 at counted
      change tally _ _ + existing.room hierarchy = tally _ _ + merged.room hierarchy at weighed
      refine ⟨sets.isBounded inside bounded (by omega) mergedSlots (by omega), ?_, by omega⟩
      unfold potential
      omega
    cases changed with
    | true =>
        have waits : (state.record target merged).worklist.length ≤ state.worklist.length + 1 :=
          length_worklist_record_le merged
        rw [if_pos rfl] at room
        exact settled (setsFrame_record merged) (by rw [if_pos rfl]; omega)
    | false =>
        rw [if_neg Bool.false_ne_true] at room
        exact settled ⟨rfl, fun _ member => member, rfl, rfl⟩
          (by rw [if_neg Bool.false_ne_true]; exact Nat.le_of_eq (congrArg _ room))

/-! ## Visits -/

theorem returns_flowInto
    (grounded : hierarchy.IsGrounded)
    (state : FlowState)
    (target : Nat)
    (incoming : Frame) :
    Returns (state.flowInto method hierarchy target incoming) := by
  unfold flowInto
  split
  · exact avoids_ok
  · rename_i existing _
    have merges := Frame.avoids_merge grounded existing incoming
    split
    · exact avoids_error id
    · rename_i error failed
      exact avoids_error (merges _ failed)
    · split <;> exact avoids_ok

/-- A visit ends. -/
theorem returns_visit
    (grounded : hierarchy.IsGrounded)
    (state : FlowState)
    (index : Nat) :
    Returns (visit method hierarchy state index) := by
  unfold visit
  split
  · split
    · exact avoids_error id
    · rename_i before instruction _ _ after _
      refine Avoids.bind ?_ fun handled _ => Avoids.bind ?_ fun jumped _ => ?_
      · exact avoids_foldlM (fun range _ reached => avoids_foldlM
          (fun entry _ reached => returns_flowInto grounded _ _ _) reached) _
      · exact avoids_foldlM (fun target _ reached => returns_flowInto grounded _ _ _) _
      · split
        · split
          · exact returns_flowInto grounded _ _ _
          · exact avoids_error id
        · exact avoids_ok
  · exact avoids_ok

/-- Exceptions leave no more to be done. -/
theorem settles_flowIntoHandlers
    (grounded : hierarchy.IsGrounded)
    (inside : method.TargetsInside)
    {earlier : FlowState}
    {index : Nat}
    {before after : Frame}
    (settles : Settles hierarchy method earlier state)
    (entryAdmits : ∀ range entry, entry ∈ handlerEntries range before after →
      earlier.Admits method entry)
    (computed : flowIntoHandlers method hierarchy state index before after = .ok next) :
    Settles hierarchy method earlier next := by
  refine foldlM_preserves (fun _ reached => Settles hierarchy method earlier reached) ?_ settles
    computed
  intro done range reached nextReached member settles handled
  have isHandler := (List.mem_filter.mp member).1
  refine foldlM_preserves (fun _ reached => Settles hierarchy method earlier reached) ?_ settles
    handled
  intro done entry reached nextReached isEntry settles stepped
  have handlerInside : range.handler < (reached.measure entry).frames.size := by
    change range.handler < reached.frames.size
    rw [settles.bounded.size]
    exact (inside.handlers range isHandler).2.2
  have measured : Settles hierarchy method earlier (reached.measure entry) :=
    ⟨⟨settles.bounded.size, settles.bounded.slots, settles.bounded.depth⟩, settles.potential,
      settles.recorded⟩
  exact measured.trans (settles_flowInto grounded handlerInside measured.bounded
    (measured.admits (entryAdmits range entry isEntry)) stepped)

/-- A visit leaves no more to be done. -/
theorem settles_visit
    (grounded : hierarchy.IsGrounded)
    (inside : method.TargetsInside)
    (bounded : state.IsBounded method)
    {index : Nat}
    (computed : visit method hierarchy state index = .ok next) :
    Settles hierarchy method state next := by
  unfold visit at computed
  split at computed
  · rename_i before instruction isBefore isInstruction
    split at computed
    · cases computed
    · rename_i after executed
      obtain ⟨handled, isHandled, computed⟩ := bind_eq_ok.mp computed
      obtain ⟨jumped, isJumped, computed⟩ := bind_eq_ok.mp computed
      have beforeDepth := bounded.depth isBefore
      have afterAdmits : state.Admits method after := by
        refine ⟨?_, Nat.le_trans (Frame.length_stack_of_execute_eq_ok executed) beforeDepth⟩
        exact Nat.le_trans (Frame.localSlots_le_of_execute_eq_ok executed)
          (Nat.max_le.mpr ⟨bounded.slots isBefore, Nat.le_max_right _ _⟩)
      have entryAdmits : ∀ range entry, entry ∈ handlerEntries range before after →
          state.Admits method entry := by
        intro range entry isEntry
        have oneDeep : 1 ≤ 2 * state.recorded := by omega
        have beforeSlots := bounded.slots isBefore
        rcases List.mem_cons.mp isEntry with rfl | isAfter
        · exact ⟨beforeSlots, oneDeep⟩
        · rw [List.mem_singleton.mp isAfter]
          exact ⟨afterAdmits.slots, oneDeep⟩
      have measured : Settles hierarchy method state (state.measure after) :=
        ⟨⟨bounded.size, bounded.slots, bounded.depth⟩, Nat.le_refl _, Nat.le_refl _⟩
      have handlersSettle := settles_flowIntoHandlers grounded inside measured entryAdmits isHandled
      have targetsSettle : Settles hierarchy method state jumped := by
        refine foldlM_preserves (fun _ reached => Settles hierarchy method state reached) ?_
          handlersSettle isJumped
        intro done target reached nextReached member settles stepped
        have targetInside : target < reached.frames.size := by
          rw [settles.bounded.size]
          exact inside.instructions isInstruction target member
        exact settles.trans (settles_flowInto grounded targetInside settles.bounded
          (settles.admits afterAdmits) stepped)
      split at computed
      · split at computed
        · rename_i nextInside
          exact targetsSettle.trans (settles_flowInto grounded
            (by rw [targetsSettle.bounded.size]; exact nextInside) targetsSettle.bounded
            (targetsSettle.admits afterAdmits) computed)
        · cases computed
      · cases computed
        exact targetsSettle
  · cases computed
    exact .refl bounded

/-! ## Runs -/

/-- A run ends if it may visit more instructions than there is to be done. -/
theorem returns_run
    (grounded : hierarchy.IsGrounded)
    (inside : method.TargetsInside)
    (bounded : state.IsBounded method)
    {fuel : Nat}
    (enough : state.potential hierarchy method < fuel) :
    Returns (run method hierarchy fuel state) := by
  induction fuel generalizing state with
  | zero => exact absurd enough (Nat.not_lt_zero _)
  | succ fuel inductionHypothesis =>
      unfold run
      split
      · exact avoids_ok
      · rename_i index rest isWaiting
        have returns : Returns (visit method hierarchy { state with worklist := rest } index) :=
          returns_visit grounded _ index
        split
        · rename_i visited isVisited
          -- The visit itself is no longer to be done.
          have boundedRest : IsBounded method { state with worklist := rest } :=
            ⟨bounded.size, bounded.slots, bounded.depth⟩
          have settles := settles_visit grounded inside boundedRest isVisited
          have lower := settles.potential
          change visited.potential hierarchy method ≤ rest.length + state.tally _ at lower
          refine inductionHypothesis settles.bounded ?_
          unfold potential at enough
          rw [isWaiting, List.length_cons] at enough
          omega
        · rename_i error failed
          exact avoids_error (returns error failed)

theorem isBounded_start
    (notEmpty : 0 < method.instructions.size) :
    (start method).IsBounded method := by
  have entryOnly : ∀ {index frame}, (start method).frame? index = some frame →
      frame = method.entryFrame := by
    intro index frame isFrame
    rw [frame?_start notEmpty] at isFrame
    split at isFrame
    · exact (Option.some.inj isFrame).symm
    · cases isFrame
  have size : (start method).frames.size = method.instructions.size := by simp [start]
  have oneRecorded : 1 ≤ (start method).recorded := by
    have counted := single_le_sum (f := fun index =>
      if ((start method).frame? index).isSome then 1 else 0)
      (fun index _ => Nat.zero_le _) (mem_range.mpr (size ▸ notEmpty))
    rw [frame?_start notEmpty] at counted
    exact counted
  refine ⟨size, ?_, ?_⟩
  · intro index frame isFrame
    rw [entryOnly isFrame]
    exact Nat.le_max_left _ _
  · intro index frame isFrame
    rw [entryOnly isFrame]
    change 0 + 2 ≤ _
    omega

/-- In the beginning there is less to be done than the bound on visits. -/
theorem potential_start_lt
    (notEmpty : 0 < method.instructions.size) :
    (start method).potential hierarchy method < visitBound method hierarchy := by
  have bounded := isBounded_start notEmpty
  have each : ∀ index, method.roomOf hierarchy ((start method).frame? index) ≤
      method.freshRoom hierarchy := by
    intro index
    cases isFrame : (start method).frame? index with
    | none => exact Nat.le_refl _
    | some frame =>
        have depth := bounded.depth isFrame
        exact Nat.le_of_lt (Admits.room_lt bounded ⟨bounded.slots isFrame, by omega⟩)
  have total := tally_le _ _ each
  rw [bounded.size] at total
  rw [Method.visitBound_eq]
  change 1 + (start method).tally _ < _
  omega

/-! ## Without a bound -/

/-- The visit of the first instruction that waits, and then `settle`. -/
def settleStep (method : Method) (hierarchy : Hierarchy)
    (settle : FlowState → Part (Except BytecodeError FlowState))
    (state : FlowState) : Part (Except BytecodeError FlowState) :=
  match state.worklist with
  | [] => .some (.ok state)
  | index :: rest =>
      match visit method hierarchy { state with worklist := rest } index with
      | .ok visited => settle visited
      | .error error => .some (.error error)

/-- The visits, without a bound on their number. -/
def settle (method : Method) (hierarchy : Hierarchy) :
    FlowState → Part (Except BytecodeError FlowState) :=
  Part.fix (settleStep method hierarchy)

theorem continuous_settleStep :
    ωScottContinuous (settleStep method hierarchy) := by
  refine .of_apply₂ fun state => ?_
  unfold settleStep
  cases state.worklist with
  | nil => exact .const
  | cons index rest =>
      cases isVisited : visit method hierarchy { state with worklist := rest } index with
      | error error =>
          simp only [isVisited]
          exact .const
      | ok visited =>
          simp only [isVisited]
          exact continuous_call visited

theorem settle_eq
    (state : FlowState) :
    settle method hierarchy state =
      settleStep method hierarchy (settle method hierarchy) state :=
  congrFun (Part.fix_eq_of_ωScottContinuous continuous_settleStep) state

/-- Visits with a bound that is not reached are those without. -/
theorem settle_eq_some_run
    {fuel : Nat}
    (returns : Returns (run method hierarchy fuel state)) :
    settle method hierarchy state = .some (run method hierarchy fuel state) := by
  induction fuel generalizing state with
  | zero => exact absurd trivial (returns _ rfl)
  | succ fuel inductionHypothesis =>
      rw [settle_eq, settleStep]
      unfold run at returns ⊢
      cases isWaiting : state.worklist with
      | nil => rfl
      | cons index rest =>
          simp only [isWaiting] at returns ⊢
          cases isVisited : visit method hierarchy { state with worklist := rest } index with
          | error error => rfl
          | ok visited =>
              simp only [isVisited] at returns ⊢
              exact inductionHypothesis returns

end FlowState

/-- The analysis of a method, without a bound on the number of visits. -/
def Method.analyzeUnbounded (method : Method) (hierarchy : Hierarchy) :
    Part (Except BytecodeError FlowAnalysis) :=
  if method.instructions.isEmpty then .some (.error (.malformedCode 0 "method body is empty"))
  else
    match method.badTarget? with
    | some target => .some (.error (.invalidJumpTarget target))
    | none => (FlowState.settle method hierarchy (FlowState.start method)).map
        (·.map FlowState.found)

/-- What it takes for an analysis to end: it does, without reaching the bound on visits, as every
merge that says that it changed a frame leaves less room in it, of which there was no more than so
much for each value. -/
structure Method.Ends (hierarchy : Hierarchy) (method : Method) : Prop where
  unbounded : method.analyzeUnbounded hierarchy = .some (method.analyze hierarchy)
  returns : Returns (method.analyze hierarchy)
  rises : ∀ {first second merged : Frame} {changed : Bool},
    first.merge hierarchy second = .ok (merged, changed) →
      if changed then merged.room hierarchy < first.room hierarchy
      else merged.room hierarchy = first.room hierarchy
  finite : ∀ frame : Frame, frame.room hierarchy ≤
    (frame.localSlots + frame.stack.length) * (hierarchy.names.length + 3)

theorem Method.analyze_eq
    (method : Method) :
    method.analyze hierarchy =
      if method.instructions.isEmpty then .error (.malformedCode 0 "method body is empty")
      else
        match method.badTarget? with
        | some target => .error (.invalidJumpTarget target)
        | none => (FlowState.run method hierarchy (FlowState.visitBound method hierarchy)
            (FlowState.start method)).map FlowState.found := by
  unfold analyze
  dsimp only
  split
  · rfl
  · cases method.badTarget? with
    | some target => rfl
    | none =>
        dsimp only
        cases FlowState.run method hierarchy (FlowState.visitBound method hierarchy)
          (FlowState.start method) <;> rfl

/-- **Settling**: the analysis of any method ends in any hierarchy whose superclasses lead up. -/
theorem Method.ends_of_isGrounded
    (grounded : hierarchy.IsGrounded)
    (method : Method) :
    method.Ends hierarchy := by
  suffices ends : method.analyzeUnbounded hierarchy = .some (method.analyze hierarchy) ∧
      Returns (method.analyze hierarchy) from
    ⟨ends.1, ends.2, Frame.room_of_merge_eq_ok grounded, fun frame => frame.room_le⟩
  rw [analyze_eq]
  unfold analyzeUnbounded
  split
  · exact ⟨rfl, avoids_error id⟩
  · rename_i someInstruction
    cases noBadTarget : method.badTarget? with
    | some target => exact ⟨rfl, avoids_error id⟩
    | none =>
        have notEmpty : 0 < method.instructions.size := by
          rw [Array.isEmpty_iff_size_eq_zero] at someInstruction
          exact Nat.pos_of_ne_zero someInstruction
        have returns := FlowState.returns_run grounded
          (targetsInside_of_badTarget?_eq_none noBadTarget)
          (FlowState.isBounded_start notEmpty) (FlowState.potential_start_lt notEmpty)
        exact ⟨by rw [FlowState.settle_eq_some_run returns, Part.map_some], returns.map _⟩

/-! ## Handlers of their own code -/

namespace Catching

def classA : BinaryName := ⟨"c/A", by decide⟩
def classB : BinaryName := ⟨"c/B", by decide⟩
def classC : BinaryName := ⟨"c/C", by decide⟩
def classI : BinaryName := ⟨"c/I", by decide⟩

/-- A method that drops a value, and goes back to that with two kinds of exceptions. -/
def method (first second : BinaryName) : Method where
  instructions := #[.op .pushNull, .op (.stack .pop), .op (.leave none)]
  handlers := #[⟨1, 2, 1, some first⟩, ⟨1, 2, 1, some second⟩]
  owner := .object
  flags := MethodFlags.accStatic
  name := ⟨"drop", by decide⟩
  type := ⟨[], none⟩
  hasVariableTable := true
  maxLocals := 0

/-- The state after the value was made. -/
def begun : FlowState where
  frames := #[some ⟨[], []⟩, some ⟨[], [.null]⟩, none]
  worklist := [1]
  maxStack := 1
  maxLocals := 0

/-- The states in which exceptions were caught whose types have a class in common. -/
def caught (shared : BinaryName) (worklist : List Nat) : FlowState where
  frames := #[some ⟨[], []⟩, some ⟨[], [.object (.object shared)]⟩, some ⟨[], []⟩]
  worklist := worklist
  maxStack := 1
  maxLocals := 0

/-- The root class has a superclass. -/
def aboveRoot : Hierarchy where
  declared := [
    { CoreClass.publicClass classA [] [] with super := none },
    { CoreClass.publicClass classB [] [] with super := some classA },
    CoreClass.interface classI [] [],
    { CoreClass.root with super := some classA }]
  loaded := []

/-- A class is found under the name of one that is above it. -/
def otherName : Hierarchy where
  declared := [
    { CoreClass.publicClass classC [] [] with super := some classB },
    { CoreClass.publicClass classB [] [] with super := some classA }]
  loaded := [(classA, .ok (CoreClass.publicClass classC [] []))]

/-- The analysis of the method goes round for ever, although lookups end and no class is above
itself. -/
structure GoesRound (hierarchy : Hierarchy) (first second : BinaryName) : Prop where
  lookups : ∀ name, Returns (hierarchy.resolve name)
  acyclic : ∀ name, ¬Relation.TransGen (hierarchy.Leads Hierarchy.superParents) name name
  unbounded : (method first second).analyzeUnbounded hierarchy = .none
  bounded : (method first second).analyze hierarchy = .error .unsettledFrames

variable {first second shared : BinaryName}

theorem settle_of_visit
    {method : Method}
    {state next : FlowState}
    {index : Nat}
    {rest : List Nat}
    (isWaiting : state.worklist = index :: rest)
    (visited : FlowState.visit method hierarchy { state with worklist := rest } index = .ok next) :
    FlowState.settle method hierarchy state = FlowState.settle method hierarchy next := by
  rw [FlowState.settle_eq, FlowState.settleStep]
  simp only [isWaiting, visited]

theorem run_of_visit
    {method : Method}
    {state next : FlowState}
    {index : Nat}
    {rest : List Nat}
    (isWaiting : state.worklist = index :: rest)
    (visited : FlowState.visit method hierarchy { state with worklist := rest } index = .ok next)
    (fuel : Nat) :
    FlowState.run method hierarchy (fuel + 1) state = FlowState.run method hierarchy fuel next := by
  rw [FlowState.run]
  simp only [isWaiting, visited]

/-- Where a visit leads back to the state before it, there is no end. -/
theorem settle_eq_none_of_visit
    {method : Method}
    {state : FlowState}
    {index : Nat}
    {rest : List Nat}
    (isWaiting : state.worklist = index :: rest)
    (again : FlowState.visit method hierarchy { state with worklist := rest } index = .ok state) :
    FlowState.settle method hierarchy state = .none := by
  rw [Part.eq_none_iff]
  intro result settled
  refine fix_induction FlowState.continuous_settleStep (motive := fun other _ => other ≠ state) ?_
    settled rfl
  rintro continued inductionHypothesis other otherResult continues rfl
  simp only [FlowState.settleStep, isWaiting, again] at continues
  exact inductionHypothesis other otherResult continues rfl

theorem run_eq_error_of_visit
    {method : Method}
    {state : FlowState}
    {index : Nat}
    {rest : List Nat}
    (isWaiting : state.worklist = index :: rest)
    (again : FlowState.visit method hierarchy { state with worklist := rest } index = .ok state)
    (fuel : Nat) :
    FlowState.run method hierarchy fuel state = .error .unsettledFrames := by
  induction fuel with
  | zero => rfl
  | succ fuel inductionHypothesis =>
      rw [run_of_visit isWaiting again]
      exact inductionHypothesis

theorem goesRound
    (shared : BinaryName)
    (lookups : ∀ name, Returns (hierarchy.resolve name))
    (known : ∀ name ∈ hierarchy.names, hierarchy.Knows name)
    (making : FlowState.visit (method first second) hierarchy
      { FlowState.start (method first second) with worklist := [] } 0 = .ok begun)
    (catching : FlowState.visit (method first second) hierarchy
      { begun with worklist := [] } 1 = .ok (caught shared [2, 1]))
    (leaving : FlowState.visit (method first second) hierarchy (caught shared [1]) 2 =
      .ok (caught shared [1]))
    (again : FlowState.visit (method first second) hierarchy (caught shared []) 1 =
      .ok (caught shared [1])) :
    GoesRound hierarchy first second where
  lookups := lookups
  acyclic := Hierarchy.acyclic_of_knows lookups fun found =>
    known _ (Hierarchy.mem_names_of_resolve found)
  unbounded := by
    have endless : FlowState.settle (method first second) hierarchy
        (FlowState.start (method first second)) = .none := by
      rw [settle_of_visit rfl making, settle_of_visit rfl catching, settle_of_visit rfl leaving]
      exact settle_eq_none_of_visit rfl again
    change (FlowState.settle (method first second) hierarchy _).map _ = _
    rw [endless, Part.map_none]
  bounded := by
    have endless : ∀ fuel, FlowState.run (method first second) hierarchy (fuel + 3)
        (FlowState.start (method first second)) = .error .unsettledFrames := by
      intro fuel
      rw [run_of_visit rfl making, run_of_visit rfl catching, run_of_visit rfl leaving]
      exact run_eq_error_of_visit rfl again fuel
    obtain ⟨fuel, isBound⟩ : ∃ fuel,
        FlowState.visitBound (method first second) hierarchy = fuel + 3 := by
      refine ⟨_, (Nat.sub_add_cancel ?_).symm⟩
      rw [Method.visitBound_eq]
      unfold Method.freshRoom
      change 3 ≤ 2 + 3 * _
      omega
    rw [Method.analyze_eq, isBound, endless]
    rfl

end Catching

open Catching in
/-- The analysis of a method whose exceptions lead back to where they come from ends, with the
classes of the platform. -/
theorem catching_ends :
    Hierarchy.core.IsGrounded ∧ (method .runtimeException .error).Ends .core := by
  have grounded : Hierarchy.core.IsGrounded :=
    Hierarchy.core_wellFormed.isGrounded (Hierarchy.returns_resolve (by simp [Hierarchy.core]))
  exact ⟨grounded, Method.ends_of_isGrounded grounded _⟩

open Catching in
/-- The analysis need not end where the root class has a superclass, although every class is found
under its own name, nor where one is found under another name, although the root class has no
superclass. -/
theorem catching_goesRound :
    ((∀ name declaration, aboveRoot.resolve name = .ok declaration → declaration.name = name) ∧
        GoesRound aboveRoot classB classI) ∧
      (∀ declaration, otherName.resolve .object = .ok declaration → declaration.super = none) ∧
        GoesRound otherName classB classA := by
  refine ⟨⟨fun name declaration => Hierarchy.named_of_loaded (by simp [aboveRoot]),
    goesRound .object (Hierarchy.returns_resolve (by simp [aboveRoot])) ?_ ?_ ?_ ?_ ?_⟩,
    ?_, goesRound classC (Hierarchy.returns_resolve ?_) ?_ ?_ ?_ ?_ ?_⟩
  case refine_6 =>
    intro declaration found
    have isRoot : otherName.resolve .object = .ok CoreClass.root := by decide +kernel
    cases found.symm.trans isRoot
    rfl
  case refine_7 =>
    intro entry isLoaded
    rw [List.mem_singleton.mp isLoaded]
    exact avoids_ok
  all_goals decide +kernel

end ClosureConversion
