import ClosureConversion.Proofs.Flow.Joining
import ClosureConversion.Proofs.StackMap.Room
import Mathlib.Data.List.TakeWhile

/-!
Contract: no frame has one half of a wide value without the other.

Owns:
- the frames that the entries of methods and handlers, instructions and merges make of given
  ones;
- in all of them a wide value is followed by its second half, if that is so in the given ones;
- nothing has to be dropped from the merged slots of such frames, no instruction reads half of a
  value, and a stack map tells what is in every slot.

Does not own: what the frames of an analysis hold.
-/

namespace ClosureConversion

/-! ## Slots of a stack map -/

namespace VerificationType

variable {Class Site : Type}

/-- The slots that values take, one after another. -/
def slots (values : List (VerificationType Class Site)) : List (VerificationType Class Site) :=
  values.flatMap fun type => if type.isWide then [type, .top] else [type]

theorem slots_cons
    (type : VerificationType Class Site)
    (rest : List (VerificationType Class Site)) :
    slots (type :: rest) = (if type.isWide then [type, .top] else [type]) ++ slots rest :=
  List.flatMap_cons

theorem slots_append
    (first second : List (VerificationType Class Site)) :
    slots (first ++ second) = slots first ++ slots second :=
  List.flatMap_append

theorem slots_replicate_top
    (count : Nat) :
    slots (List.replicate count (.top : VerificationType Class Site)) =
      List.replicate count .top := by
  induction count with
  | zero => rfl
  | succ count inductionHypothesis =>
      rw [List.replicate_succ, slots_cons, inductionHypothesis]
      rfl

theorem isWide_of_isToldAs
    {offsets : Array Nat}
    {pool : ConstantPool}
    {type : VType}
    {told : StackMapType}
    (isTold : type.IsToldAs offsets pool told) :
    told.isWide = type.isWide := by
  cases type <;> cases told <;> first | rfl | cases isTold

/-- What is told of values is told of the slots that they take. -/
theorem forall₂_slots_of_isToldAs
    {offsets : Array Nat}
    {pool : ConstantPool}
    {types : List VType}
    {told : List StackMapType}
    (areTold : List.Forall₂ (IsToldAs offsets pool) types told) :
    List.Forall₂ (IsToldAs offsets pool) (slots types) (slots told) := by
  induction areTold with
  | nil => exact .nil
  | cons isTold _ inductionHypothesis =>
      rw [slots_cons, slots_cons, isWide_of_isToldAs isTold]
      split
      · exact .cons isTold (.cons trivial inductionHypothesis)
      · exact .cons isTold inductionHypothesis

end VerificationType

/-- The slots of a frame in a stack map, if there are so many: what it does not mention is
useless. -/
def MapFrame.slots (frame : MapFrame) (count : Nat) : List StackMapType :=
  let mentioned := VerificationType.slots frame.locals
  mentioned ++ List.replicate (count - mentioned.length) .top

/-- Only useless values are trimmed. -/
theorem MapFrame.exists_trimmed_append
    (locals : List StackMapType) :
    ∃ count, locals = trimmed locals ++ List.replicate count .top := by
  refine ⟨(locals.reverse.takeWhile (· = .top)).length, ?_⟩
  have useless : locals.reverse.takeWhile (· = .top) =
      List.replicate (locals.reverse.takeWhile (· = .top)).length .top := by
    refine List.eq_replicate_of_mem fun type member => ?_
    have isTop := List.mem_takeWhile_imp
      (p := fun type : StackMapType => decide (type = .top)) member
    exact of_decide_eq_true isTop
  have split := congrArg List.reverse
    (List.takeWhile_append_dropWhile (p := fun type => decide (type = .top)) (l := locals.reverse))
  rw [List.reverse_reverse, List.reverse_append, useless, List.reverse_replicate] at split
  exact split.symm

/-- The slots of all values are those of the trimmed ones and useless ones. -/
theorem MapFrame.slots_trimmed
    (locals : List StackMapType)
    (stack : List StackMapType) :
    (MapFrame.mk (trimmed locals) stack).slots (VerificationType.slots locals).length =
      VerificationType.slots locals := by
  obtain ⟨count, isTrimmed⟩ := exists_trimmed_append locals
  have allSlots : VerificationType.slots locals =
      VerificationType.slots (trimmed locals) ++ List.replicate count .top := by
    rw [← VerificationType.slots_replicate_top, ← VerificationType.slots_append, ← isTrimmed]
  rw [MapFrame.slots, allSlots, List.length_append, List.length_replicate]
  dsimp only
  rw [Nat.add_sub_cancel_left]

/-- The values in whole slots take these slots. -/
theorem Locals.slots_values
    {locals : List VType}
    (whole : IsWhole locals) :
    VerificationType.slots (values locals) = locals := by
  fun_induction values locals with
  | case1 => rfl
  | case2 type isWide =>
      cases whole 0 isWide
  | case3 type isWide second others inductionHypothesis =>
      rw [VerificationType.slots_cons, if_pos isWide, inductionHypothesis whole.tail.tail]
      obtain rfl : second = .top := Option.some.inj (whole 0 isWide)
      rfl
  | case4 type rest notWide inductionHypothesis =>
      rw [VerificationType.slots_cons, if_neg notWide, inductionHypothesis whole.tail]
      rfl

/-! ## Reading slots -/

/-- The slot whose value an instruction reads. -/
def Instruction.readSlot? {Label : Type} : Instruction Label → Option UInt16
  | .load _ slot => some slot
  | .increment slot _ => some slot
  | _ => none

namespace Frame

variable {hierarchy : Hierarchy}

/-- No instruction reads a slot that holds nothing of use. -/
theorem execute_eq_error_of_top
    {frame : Frame}
    {owner : BinaryName}
    {code : Array (Instruction Nat)}
    {index : Nat}
    {instruction : Instruction Nat}
    {slot : UInt16}
    (reads : instruction.readSlot? = some slot)
    (isTop : frame.locals[slot.toNat]? = some .top) :
    frame.execute owner code index instruction = .error .invalidType := by
  have found : Locals.get frame.locals slot = .ok .top := by
    rw [Locals.get, isTop]
  cases instruction with
  | load kind read =>
      cases reads
      have notOfKind : (VerificationType.top : VType).isOfKind kind = false := by
        cases kind <;> rfl
      unfold execute
      dsimp only
      rw [found]
      change (if _ then _ else _) = _
      rw [if_neg (by rw [notOfKind]; exact Bool.false_ne_true)]
      rfl
  | increment read amount =>
      cases reads
      unfold execute
      dsimp only
      rw [found]
      rfl
  | _ => cases reads

/-! ## Merged slots -/

/-- The merged slots of whole frames are whole. -/
theorem isWhole_of_mapM_mergeSlot
    {first second slots : List VType}
    (firstWhole : Locals.IsWhole first)
    (secondWhole : Locals.IsWhole second)
    (computed : (pairSlots first second).mapM
      (fun (first, second) => mergeSlot hierarchy first second) = .ok slots) :
    Locals.IsWhole slots := by
  have isMerge : IsMerge hierarchy ⟨first, []⟩ ⟨second, []⟩ ⟨dropHalves slots, []⟩ slots :=
    ⟨rfl, .nil, forall₂_of_mapM_eq_ok computed, rfl⟩
  exact isMerge.isWhole_slots firstWhole secondWhole

/-! ## Frames made of others -/

/-- The frames that are made of given ones, in any number of steps. -/
inductive IsMadeFrom (hierarchy : Hierarchy) (Given : Frame → Prop) : Frame → Prop where
  | given {frame : Frame} : Given frame → IsMadeFrom hierarchy Given frame
  | methodEntry (owner : BinaryName) (isStatic isConstructor : Bool)
      (parameters : List FieldType) :
      IsMadeFrom hierarchy Given (Frame.methodEntry owner isStatic isConstructor parameters)
  | handlerEntry {frame : Frame} (catchType : Option BinaryName) :
      IsMadeFrom hierarchy Given frame →
      IsMadeFrom hierarchy Given (Frame.handlerEntry frame.locals catchType)
  | execute {frame after : Frame} {owner : BinaryName} {code : Array (Instruction Nat)}
      {index : Nat} {instruction : Instruction Nat} :
      IsMadeFrom hierarchy Given frame →
      frame.execute owner code index instruction = .ok after →
      IsMadeFrom hierarchy Given after
  | merge {first second merged : Frame} {changed : Bool} :
      IsMadeFrom hierarchy Given first → IsMadeFrom hierarchy Given second →
      first.merge hierarchy second = .ok (merged, changed) →
      IsMadeFrom hierarchy Given merged

theorem IsMadeFrom.isWhole
    {Given : Frame → Prop}
    (givenWhole : ∀ frame, Given frame → Locals.IsWhole frame.locals)
    {frame : Frame}
    (made : frame.IsMadeFrom hierarchy Given) :
    Locals.IsWhole frame.locals := by
  induction made with
  | given isGiven => exact givenWhole _ isGiven
  | methodEntry owner isStatic isConstructor parameters =>
      exact FlowState.isWhole_methodEntry owner isStatic isConstructor parameters
  | handlerEntry catchType _ inductionHypothesis => exact inductionHypothesis
  | execute _ executed inductionHypothesis =>
      exact isWhole_of_execute_eq_ok inductionHypothesis executed
  | merge _ _ computed _ _ =>
      obtain ⟨slots, isMerge, _⟩ := isMerge_of_merge_eq_ok computed
      exact isMerge.isWhole

/-- What follows from every wide value having both its halves. A merge with another such frame
drops nothing from the slots, the second half cannot be read, and what a stack map tells of the
frame tells what is in every slot. -/
structure KeepsHalves (hierarchy : Hierarchy) (frame : Frame) : Prop where
  whole : ∀ {slot : Nat} {type : VType}, frame.locals[slot]? = some type → type.isWide = true →
    frame.locals[slot + 1]? = some .top
  merges : ∀ {other : Frame} {slots : List VType}, Locals.IsWhole other.locals →
    (pairSlots frame.locals other.locals).mapM
      (fun (first, second) => mergeSlot hierarchy first second) = .ok slots →
    dropHalves slots = slots
  unread : ∀ {owner : BinaryName} {code : Array (Instruction Nat)} {index slot : Nat}
    {instruction : Instruction Nat} {half : UInt16} {type : VType},
    frame.locals[slot]? = some type → type.isWide = true →
    half.toNat = slot + 1 → instruction.readSlot? = some half →
    frame.execute owner code index instruction = .error .invalidType
  told : ∀ offsets : Array Nat, Yields (frame.toMapFrame offsets) fun final told =>
    List.Forall₂ (VerificationType.IsToldAs offsets final) frame.locals
      (told.slots frame.localSlots)

/-- A stack map tells what is in every slot of a whole frame. -/
theorem yields_toMapFrame_slots
    {frame : Frame}
    (whole : Locals.IsWhole frame.locals)
    (offsets : Array Nat) :
    Yields (frame.toMapFrame offsets) fun final told =>
      List.Forall₂ (VerificationType.IsToldAs offsets final) frame.locals
        (told.slots frame.localSlots) := by
  apply (yields_mapM _ fun type _ => type.yields_toStackMap offsets).bind
  intro locals
  apply (yields_mapM _ fun type _ => type.yields_toStackMap offsets).bind
  intro stack
  refine yields_pure fun final _ _ localsTold => ?_
  have slotsTold := VerificationType.forall₂_slots_of_isToldAs localsTold
  rw [Locals.slots_values whole] at slotsTold
  rw [localSlots, slotsTold.length_eq, MapFrame.slots_trimmed]
  exact slotsTold

/-- Frames made of whole ones are whole, and nothing is lost of them. -/
theorem keepsHalves_of_isMadeFrom
    {Given : Frame → Prop}
    (givenWhole : ∀ frame, Given frame → Locals.IsWhole frame.locals)
    {frame : Frame}
    (made : frame.IsMadeFrom hierarchy Given) :
    frame.KeepsHalves hierarchy := by
  have whole := made.isWhole givenWhole
  have next : ∀ {slot : Nat} {type : VType}, frame.locals[slot]? = some type →
      type.isWide = true → frame.locals[slot + 1]? = some .top := by
    intro slot type found isWide
    exact whole slot (by rw [Locals.valueAt_of_getElem? found]; exact isWide)
  exact {
    whole := next
    merges := fun otherWhole computed =>
      dropHalves_of_isWhole (isWhole_of_mapM_mergeSlot whole otherWhole computed)
    unread := fun found isWide isHalf reads =>
      execute_eq_error_of_top reads (by rw [isHalf]; exact next found isWide)
    told := yields_toMapFrame_slots whole }

end Frame

namespace Overlapping

/-- A long and a double, the second half of the one beside the first half of the other. -/
def numbers : Frame :=
  ⟨[.long, .top, .double, .top], [.long]⟩

/-- Another long in the middle has taken a half of each. -/
def overlapped : Frame :=
  ⟨[.top, .long, .top, .top], []⟩

theorem numbers_isWhole :
    Locals.IsWhole numbers.locals := by
  rintro (_ | _ | _ | _ | slot) isWide
  · rfl
  · cases isWide
  · rfl
  all_goals cases isWide

/-- A handler begins with the slots after the long was stored over both numbers. -/
theorem isMadeFrom_numbers :
    (Frame.handlerEntry overlapped.locals none).IsMadeFrom .core (· = numbers) := by
  have stored : numbers.execute .object #[] 0 (.store .long 1) = .ok overlapped := by rfl
  exact .handlerEntry none (.execute (.given rfl) stored)

end Overlapping

open Overlapping in
/-- Of a long that was stored over two other numbers, a stack map tells both halves, and nothing
of the other numbers. -/
theorem overlapping_keepsHalves :
    (∀ frame, frame = numbers → Locals.IsWhole frame.locals) ∧
      (Frame.handlerEntry overlapped.locals none).IsMadeFrom .core (· = numbers) ∧
      (Frame.handlerEntry overlapped.locals none).KeepsHalves .core ∧
      overlapped.toMapFrame #[] .empty = .ok ⟨[.top, .long], []⟩ .empty ∧
      (MapFrame.mk [.top, .long] []).slots 4 = [.top, .long, .top, .top] := by
  have givenWhole : ∀ frame, frame = numbers → Locals.IsWhole frame.locals := by
    rintro frame rfl
    exact numbers_isWhole
  exact ⟨givenWhole, isMadeFrom_numbers,
    Frame.keepsHalves_of_isMadeFrom givenWhole isMadeFrom_numbers, rfl, rfl⟩

end ClosureConversion
