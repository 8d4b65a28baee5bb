import ClosureConversion.Proofs.Capture.Boxes
import ClosureConversion.Proofs.Rewriting.Machine

/-!
Contract: what variables hold, be it in their slots or in boxes.

Owns:
- writing one variable changes no other one;
- the code for an access to a variable that is kept in a box does to what the box holds what
  the access does to the slot;
- what slots and boxes hold once all boxes of a method were made.

Does not own: in which order instructions run.
-/

namespace ClosureConversion

namespace Machine

/-- What a variable holds that is kept in a slot, or in a box. -/
def content (machine : Machine) (slot : UInt16) : Option BoxedLocal → Option Value
  | none => some (machine.slots slot)
  | some boxed =>
      match machine.slots boxed.boxSlot with
      | .box number => (machine.boxes[number]?).map Prod.snd
      | _ => none

/-- The machine after a value was given to a variable that is kept in a slot, or in a box. -/
def write (machine : Machine) (slot : UInt16) (value : Value) : Option BoxedLocal → Machine
  | none => machine.setSlot slot value
  | some boxed =>
      match machine.slots boxed.boxSlot with
      | .box number => machine.setBox number boxed.type value
      | _ => machine

/-- All boxes of a method were made, in order. -/
def HoldsBoxes (machine : Machine) (boxes : List BoxedLocal) : Prop :=
  ∀ position boxed, boxes[position]? = some boxed →
    ∃ value, machine.Refers boxed.boxSlot position boxed.type value

variable {machine : Machine} {slot : UInt16} {value : Value}

@[simp] theorem content_withStack
    {stack : List Value}
    {box? : Option BoxedLocal} :
    content { machine with stack } slot box? = machine.content slot box? := by
  cases box? <;> rfl

theorem HoldsBoxes.withStack
    {boxes : List BoxedLocal}
    (holds : machine.HoldsBoxes boxes)
    (stack : List Value) :
    HoldsBoxes { machine with stack } boxes := by
  intro position boxed found
  obtain ⟨value, refers⟩ := holds position boxed found
  exact ⟨value, refers.slot, refers.box⟩

theorem content_of_refers
    {boxed : BoxedLocal}
    {number : Nat}
    {type : FieldType}
    (refers : machine.Refers boxed.boxSlot number type value) :
    machine.content slot (some boxed) = some value := by
  simp [content, refers.slot, refers.box]

theorem write_of_refers
    {boxed : BoxedLocal}
    {number : Nat}
    {type : FieldType}
    {content : Value}
    (refers : machine.Refers boxed.boxSlot number type content) :
    machine.write slot value (some boxed) = machine.setBox number boxed.type value := by
  simp [write, refers.slot]

end Machine

/-- A place for a variable: a slot of the method, or a box for a variable of the slot. -/
structure IsCell (method : Method) (boxes : List BoxedLocal) (slot : UInt16)
    (box? : Option BoxedLocal) : Prop where
  inside : slot < method.maxLocals
  box : ∀ boxed, box? = some boxed → boxed ∈ boxes ∧ boxed.slot = slot

section Writing

variable {method : Method} {boxes : List BoxedLocal} {machine : Machine} {slot other : UInt16}
  {box? otherBox? : Option BoxedLocal} {value : Value}

/-- A box of the method was made. -/
theorem Machine.HoldsBoxes.exists_refers
    (holds : machine.HoldsBoxes boxes)
    {boxed : BoxedLocal}
    (member : boxed ∈ boxes) :
    ∃ number content, boxes[number]? = some boxed ∧
      machine.Refers boxed.boxSlot number boxed.type content := by
  obtain ⟨number, found⟩ := List.getElem?_of_mem member
  obtain ⟨content, refers⟩ := holds number boxed found
  exact ⟨number, content, found, refers⟩

/-- The slot of a box is none of the method. -/
theorem AreBoxes.boxSlot_ne
    (areBoxes : AreBoxes method boxes)
    {boxed : BoxedLocal}
    (member : boxed ∈ boxes)
    (inside : slot < method.maxLocals) :
    boxed.boxSlot ≠ slot := by
  rintro rfl
  exact absurd (areBoxes.maxLocals_le_boxSlot member) (UInt16.not_le.mpr inside)

/-- Writing a variable leaves all boxes where they are. -/
theorem Machine.HoldsBoxes.write
    (holds : machine.HoldsBoxes boxes)
    (areBoxes : AreBoxes method boxes)
    (isCell : IsCell method boxes slot box?) :
    (machine.write slot value box?).HoldsBoxes boxes := by
  intro position boxed found
  obtain ⟨content, refers⟩ := holds position boxed found
  cases box? with
  | none =>
      have different := areBoxes.boxSlot_ne (List.mem_of_getElem? found) isCell.inside
      refine ⟨content, ?_, refers.box⟩
      rw [← refers.slot]
      exact Function.update_of_ne different _ _
  | some written =>
      obtain ⟨number, old, isWritten, writtenRefers⟩ :=
        holds.exists_refers (isCell.box written rfl).1
      rw [Machine.write_of_refers writtenRefers]
      have inRange : number < machine.boxes.length :=
        (List.getElem?_eq_some_iff.mp writtenRefers.box).1
      by_cases same : number = position
      · subst same
        obtain rfl := Option.some.inj (isWritten.symm.trans found)
        exact ⟨value, refers.slot, List.getElem?_set_self inRange⟩
      · exact ⟨content, refers.slot, (List.getElem?_set_ne same).trans refers.box⟩

/-- A variable holds what was written to it. -/
theorem Machine.HoldsBoxes.content_write
    (holds : machine.HoldsBoxes boxes)
    (isCell : IsCell method boxes slot box?) :
    (machine.write slot value box?).content slot box? = some value := by
  cases box? with
  | none => exact congrArg some (Function.update_self ..)
  | some written =>
      obtain ⟨number, old, _, refers⟩ := holds.exists_refers (isCell.box written rfl).1
      rw [Machine.write_of_refers refers]
      exact Machine.content_of_refers
        ⟨refers.slot, List.getElem?_set_self (List.getElem?_eq_some_iff.mp refers.box).1⟩

/-- Writing one variable changes no other one. -/
theorem Machine.HoldsBoxes.content_write_of_ne
    (holds : machine.HoldsBoxes boxes)
    (areBoxes : AreBoxes method boxes)
    (isCell : IsCell method boxes slot box?)
    (isOther : IsCell method boxes other otherBox?)
    (different : slot ≠ other ∨ box? ≠ otherBox?) :
    (machine.write slot value box?).content other otherBox? = machine.content other otherBox? := by
  cases otherBox? with
  | none =>
      cases box? with
      | none =>
          have apart : other ≠ slot := by simpa [eq_comm] using different
          exact congrArg some (Function.update_of_ne apart _ _)
      | some written =>
          obtain ⟨number, old, _, refers⟩ := holds.exists_refers (isCell.box written rfl).1
          rw [Machine.write_of_refers refers]
          rfl
  | some read =>
      obtain ⟨isRead, readSlot⟩ := isOther.box read rfl
      obtain ⟨readNumber, content, foundRead, readRefers⟩ := holds.exists_refers isRead
      rw [Machine.content_of_refers readRefers]
      cases box? with
      | none =>
          refine Machine.content_of_refers ⟨?_, readRefers.box⟩
          rw [← readRefers.slot]
          exact Function.update_of_ne (areBoxes.boxSlot_ne isRead isCell.inside) _ _
      | some written =>
          obtain ⟨isWritten, writtenSlot⟩ := isCell.box written rfl
          obtain ⟨number, old, foundWritten, refers⟩ := holds.exists_refers isWritten
          -- boxes are numbered by their positions, so that one number is one box
          have apart : number ≠ readNumber := by
            rintro rfl
            obtain rfl := Option.some.inj (foundWritten.symm.trans foundRead)
            exact different.elim (fun apart => apart (writtenSlot.symm.trans readSlot))
              fun apart => apart rfl
          rw [Machine.write_of_refers refers]
          exact Machine.content_of_refers
            ⟨readRefers.slot, (List.getElem?_set_ne apart).trans readRefers.box⟩

end Writing

/-! ## Accesses -/

/-- The code for an access to a variable that is kept in its slot, or in a box. -/
def accessCode (instruction : Instruction Nat) : Option BoxedLocal → List (Instruction Nat)
  | some boxed =>
      (MethodPlan.boxOperation instruction).code [.load .reference boxed.boxSlot] boxed.type
  | none => [instruction]

/-- The code for an access has no jumps. -/
theorem map_accessCode
    {instruction : Instruction Nat}
    {access : LocalAccess}
    (isAccess : instruction.localAccess? = some access)
    (box? : Option BoxedLocal)
    (f : Nat → Nat) :
    (accessCode instruction box?).map (fun part => part.map f) = accessCode instruction box? := by
  cases box? with
  | none => cases instruction <;> cases isAccess <;> rfl
  | some boxed =>
      unfold accessCode BoxOperation.code
      rw [List.map_append]
      congr 1
      cases MethodPlan.boxOperation instruction with
      | load => rfl
      | increment amount => rfl
      | store =>
          unfold BoxOperation.body insertIndex
          cases boxed.type.isWide <;> rfl

section Accesses

variable {method : Method} {boxes : List BoxedLocal} {machine : Machine} {slot : UInt16}
  {box? : Option BoxedLocal} {value : Value}

/-- A load pushes what the variable holds. -/
theorem Machine.HoldsBoxes.run_load
    (holds : machine.HoldsBoxes boxes)
    (isCell : IsCell method boxes slot box?)
    {kind : LocalKind}
    (isContent : machine.content slot box? = some value) :
    machine.run (accessCode (.load kind slot) box?) = some (machine.push value) := by
  cases box? with
  | none =>
      rw [Machine.content, Option.some.injEq] at isContent
      rw [← isContent]
      rfl
  | some boxed =>
      obtain ⟨number, content, _, refers⟩ := holds.exists_refers (isCell.box boxed rfl).1
      rw [Machine.content_of_refers refers, Option.some.injEq] at isContent
      rw [← isContent]
      exact Machine.run_load refers

/-- A store gives the value on top of the stack to the variable. -/
theorem Machine.HoldsBoxes.run_store
    (holds : machine.HoldsBoxes boxes)
    (isCell : IsCell method boxes slot box?)
    {kind : LocalKind}
    {rest : List Value}
    (isStacked : machine.stack = value :: rest)
    (fits : ∀ boxed, box? = some boxed → value.Fits boxed.type) :
    machine.run (accessCode (.store kind slot) box?) =
      some ({ machine with stack := rest }.write slot value box?) := by
  cases box? with
  | none => simp [accessCode, Machine.step, Machine.write, isStacked]
  | some boxed =>
      obtain ⟨number, content, _, refers⟩ := holds.exists_refers (isCell.box boxed rfl).1
      have written : { machine with stack := rest }.write slot value (some boxed) =
          { machine with stack := rest }.setBox number boxed.type value :=
        Machine.write_of_refers ⟨refers.slot, refers.box⟩
      rw [written]
      exact Machine.run_store refers isStacked (fits boxed rfl)

/-- An increment adds to what the variable holds. -/
theorem Machine.HoldsBoxes.run_increment
    (holds : machine.HoldsBoxes boxes)
    (isCell : IsCell method boxes slot box?)
    {amount : Int16}
    {before : Int32}
    (isContent : machine.content slot box? = some (.int before))
    (fits : ∀ boxed, box? = some boxed → (Value.int (before + amount.toInt32)).Fits boxed.type) :
    machine.run (accessCode (.increment slot amount) box?) =
      some (machine.write slot (.int (before + amount.toInt32)) box?) := by
  cases box? with
  | none =>
      rw [Machine.content, Option.some.injEq] at isContent
      simp [accessCode, Machine.step, Machine.write, isContent]
  | some boxed =>
      obtain ⟨number, content, _, refers⟩ := holds.exists_refers (isCell.box boxed rfl).1
      rw [Machine.content_of_refers refers, Option.some.injEq] at isContent
      rw [isContent] at refers
      rw [Machine.write_of_refers refers]
      exact Machine.run_increment refers (fits boxed rfl)

end Accesses

/-! ## Where a method begins -/

/-- Some boxes of a method were made where it begins. -/
structure HasMade (method : Method) (entry : UInt16 → Value) (made : List BoxedLocal)
    (machine : Machine) : Prop where
  slots : ∀ slot, slot < method.maxLocals → machine.slots slot = entry slot
  count : machine.boxes.length = made.length
  refers : ∀ position boxed, made[position]? = some boxed →
    machine.Refers boxed.boxSlot position boxed.type (Machine.initialContent entry boxed)

namespace HasMade

variable {method : Method} {entry : UInt16 → Value} {made rest : List BoxedLocal}
  {boxed : BoxedLocal} {machine : Machine}

theorem initialContent_eq
    (hasMade : HasMade method entry made machine)
    (inside : boxed.slot < method.maxLocals) :
    Machine.initialContent machine.slots boxed = Machine.initialContent entry boxed := by
  unfold Machine.initialContent
  rw [hasMade.slots boxed.slot inside]

/-- Making the next box. -/
theorem makeBox
    (hasMade : HasMade method entry made machine)
    (areBoxes : AreBoxes method (made ++ boxed :: rest))
    (inside : boxed.slot < method.maxLocals)
    (fits : (Machine.initialContent entry boxed).Fits boxed.type) :
    ∃ next, machine.run (MethodPlan.makeBox boxed) = some next ∧
      HasMade method entry (made ++ [boxed]) next := by
  have sameContent := hasMade.initialContent_eq inside
  have isNext : (made ++ boxed :: rest)[made.length]? = some boxed := by simp
  -- the slot of the box is none of the method, and none of a box that was made before
  refine ⟨_, Machine.run_makeBox (by rw [sameContent]; exact fits), ?_, ?_, ?_⟩
  · intro slot isSlot
    have different : boxed.boxSlot ≠ slot := areBoxes.boxSlot_ne (by simp) isSlot
    exact (Function.update_of_ne different.symm _ _).trans (hasMade.slots slot isSlot)
  · simp [hasMade.count]
  · intro position other found
    rcases Nat.lt_trichotomy position made.length with below | rfl | above
    · rw [List.getElem?_append_left below] at found
      have isOther : (made ++ boxed :: rest)[position]? = some other := by
        rw [List.getElem?_append_left below]
        exact found
      have different : other.boxSlot ≠ boxed.boxSlot := fun sameSlot =>
        Nat.ne_of_lt below (areBoxes.eq_of_boxSlot_eq isOther isNext sameSlot)
      have refers := hasMade.refers position other found
      refine ⟨(Function.update_of_ne different _ _).trans refers.slot, ?_⟩
      exact (List.getElem?_append_left (hasMade.count ▸ below)).trans refers.box
    · rw [List.getElem?_concat_length] at found
      obtain rfl := Option.some.inj found
      rw [← hasMade.count, ← sameContent]
      exact ⟨Function.update_self .., List.getElem?_concat_length⟩
    · have pastEnd : (made ++ [boxed]).length ≤ position := by
        rw [List.length_append, List.length_singleton]
        exact above
      rw [List.getElem?_eq_none pastEnd] at found
      cases found

/-- Making all boxes that are left. -/
theorem makeAll
    (hasMade : HasMade method entry made machine)
    (areBoxes : AreBoxes method (made ++ rest))
    (inside : ∀ boxed ∈ rest, boxed.slot < method.maxLocals)
    (fits : ∀ boxed ∈ rest, (Machine.initialContent entry boxed).Fits boxed.type) :
    ∃ reached, machine.run (rest.flatMap MethodPlan.makeBox) = some reached ∧
      HasMade method entry (made ++ rest) reached := by
  induction rest generalizing made machine with
  | nil =>
      rw [List.append_nil]
      exact ⟨machine, rfl, hasMade⟩
  | cons boxed rest inductionHypothesis =>
      obtain ⟨next, isNext, hasNext⟩ := hasMade.makeBox areBoxes (inside boxed List.mem_cons_self)
        (fits boxed List.mem_cons_self)
      rw [List.append_cons] at areBoxes ⊢
      obtain ⟨reached, isReached, hasAll⟩ := inductionHypothesis hasNext areBoxes
        (fun other member => inside other (List.mem_cons_of_mem _ member))
        fun other member => fits other (List.mem_cons_of_mem _ member)
      refine ⟨reached, ?_, hasAll⟩
      rw [List.flatMap_cons, Machine.run_append, isNext]
      exact isReached

theorem holdsBoxes
    (hasMade : HasMade method entry made machine) :
    machine.HoldsBoxes made :=
  fun position boxed found => ⟨_, hasMade.refers position boxed found⟩

end HasMade

end ClosureConversion
