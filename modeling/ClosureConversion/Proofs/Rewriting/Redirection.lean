import ClosureConversion.Proofs.Flow.Paths
import ClosureConversion.Proofs.Rewriting.Cells
import ClosureConversion.Proofs.Rewriting.Planning

/-!
Contract: the variables of a rewritten method.

Owns:
- what the slots hold along a path through the instructions outside the sites, in a method
  and in the method that it is rewritten to;
- if every read along a path is of the variable that was defined last, or of one with the
  same box, the rewritten method reads what the method reads;
- what was defined last does not reach a read of a variable with another box.

Does not own: what closures do with the boxes that they share.
-/

namespace ClosureConversion

/-! ## Paths outside the sites -/

/-- Whether the instruction did what it does to slots before control left it. -/
def Departure.completes : Departure → Bool
  | .exception _ completed => completed
  | _ => true

/-- Where control goes from an index on. -/
def arrival (index : Nat) (departures : List Departure) : Nat :=
  departures.foldl (fun index departure => departure.target index) index

/-- What gave a slot its value. -/
inductive Definition where
  | entry
  | instruction (index : Nat) (mode : AccessMode)
deriving DecidableEq, Repr

namespace Method

/-- The access to a slot that the instruction of an index makes, outside the sites. -/
def accessOutside? (method : Method) (sites : List LambdaSite) (index : Nat) :
    Option LocalAccess :=
  if sites.any fun site => site.contains index then none
  else (method.instructions[index]?).bind Instruction.localAccess?

/-- The access to a slot that was made when control leaves the instruction of an index. -/
def accessOnLeaving? (method : Method) (sites : List LambdaSite) (index : Nat)
    (departure : Departure) : Option LocalAccess :=
  if departure.completes then method.accessOutside? sites index else none

/-- What gave the slots their values after control left an instruction. -/
def redefine (method : Method) (sites : List LambdaSite) (index : Nat) (departure : Departure)
    (definitions : UInt16 → Definition) : UInt16 → Definition :=
  match method.accessOnLeaving? sites index departure with
  | some access =>
      if access.mode = .load then definitions
      else Function.update definitions access.slot (.instruction index access.mode)
  | none => definitions

/-- What gave the slots their values after a path. -/
def definitionsAfter (method : Method) (sites : List LambdaSite) (index : Nat)
    (definitions : UInt16 → Definition) : List Departure → UInt16 → Definition
  | [] => definitions
  | departure :: departures =>
      method.definitionsAfter sites (departure.target index)
        (method.redefine sites index departure definitions) departures

/-- Runs the code for an instruction if it accesses a slot, given the value on top of the
operand stack. -/
def leave (method : Method) (sites : List LambdaSite) (code : Nat → List (Instruction Nat))
    (index : Nat) (machine : Machine) (departure : Departure) (top : Value) : Option Machine :=
  match method.accessOnLeaving? sites index departure with
  | some _ => Machine.run { machine with stack := [top] } (code index)
  | none => some machine

/-- Runs the code for the instructions along a path, given the value on top of the operand
stack at each of them. -/
def pass (method : Method) (sites : List LambdaSite) (code : Nat → List (Instruction Nat))
    (index : Nat) (machine : Machine) : List (Departure × Value) → Option Machine
  | [] => some machine
  | (departure, top) :: steps => do
      let next ← method.leave sites code index machine departure top
      method.pass sites code (departure.target index) next steps

/-- The code of the method itself. -/
def ownCode (method : Method) (index : Nat) : List (Instruction Nat) :=
  method.instructions[index]?.toList

/-- The code in a rewritten method for the instruction of an index. -/
def movedCode (rewritten : Method) (relocation : Relocation) (index : Nat) :
    List (Instruction Nat) :=
  rewritten.codeFor relocation ⟨index, index + 1⟩

/-- Every slot that an instruction accesses is one of the method. -/
def AccessesInside (method : Method) : Prop :=
  ∀ instruction ∈ method.instructions, ∀ access ∈ instruction.localAccess?,
    access.slot < method.maxLocals
deriving Decidable

end Method

/-! ## Boxes -/

namespace MethodPlan

/-- The box that holds the variable of an access to a slot, if it is kept in one. -/
def boxAt? (plan : MethodPlan) (method : Method) (slot : UInt16) (index : Nat)
    (mode : AccessMode) : Option BoxedLocal :=
  (method.variableUse slot index mode).key?.bind (boxOf? plan.boxes)

/-- The box that a slot's value went to, if it went to one. The value of a parameter goes to
the box of the parameter. -/
def boxOfDefinition? (plan : MethodPlan) (method : Method) (slot : UInt16) :
    Definition → Option BoxedLocal
  | .entry => if slot < method.parameterSlots then boxOf? plan.boxes (.local slot 0) else none
  | .instruction index mode => plan.boxAt? method slot index mode

/-- The slot that an instruction outside the sites loads or increments, and the box that is
used in its place if there is one. -/
def accessRead? (plan : MethodPlan) (method : Method) (index : Nat) :
    Option (UInt16 × Option BoxedLocal) :=
  (method.accessOutside? plan.lambdaSites index).bind fun access =>
    if access.mode = .store then none
    else some (access.slot, plan.boxAt? method access.slot index access.mode)

/-- The slot that a capture is in, and the box that is captured in its place if there is
one. -/
def captureRead? (plan : MethodPlan) (capture : Capture) : Option (UInt16 × Option BoxedLocal) :=
  match capture.key with
  | .local slot _ => some (slot, boxOf? plan.boxes capture.key)
  | _ => none

/-- The slots that are read at an index, by an instruction outside the sites or by a site that
begins there, and the boxes that are used in their place. -/
def readsAt (plan : MethodPlan) (method : Method) (index : Nat) :
    List (UInt16 × Option BoxedLocal) :=
  (plan.accessRead? method index).toList ++
    (plan.sites.filter fun sitePlan =>
        sitePlan.site.parent = none ∧ sitePlan.site.start = index).flatMap fun sitePlan =>
      sitePlan.captures.captures.filterMap plan.captureRead?

/-- Whatever is read at an index is read from where its value went to. -/
def Agrees (plan : MethodPlan) (method : Method) (index : Nat)
    (definitions : UInt16 → Definition) : Prop :=
  ∀ read ∈ plan.readsAt method index,
    read.2 = plan.boxOfDefinition? method read.1 (definitions read.1)
deriving Decidable

/-- Whatever went to a box fits its type. -/
def FitsBoxes (plan : MethodPlan) (method : Method) (definitions : UInt16 → Definition)
    (slots : UInt16 → Value) : Prop :=
  ∀ boxed ∈ plan.boxes,
    plan.boxOfDefinition? method boxed.slot (definitions boxed.slot) = some boxed →
    (slots boxed.slot).Fits boxed.type
deriving Decidable

end MethodPlan

section Cells

variable {plan : MethodPlan} {method : Method} {slot : UInt16} {box? : Option BoxedLocal}

theorem Method.AccessesInside.lt_of_hasAccess
    (accesses : method.AccessesInside)
    (hasAccess : method.HasAccess slot) :
    slot < method.maxLocals := by
  obtain ⟨index, instruction, access, isInstruction, isAccess, rfl⟩ := hasAccess
  exact accesses instruction (Array.mem_of_getElem? isInstruction) access isAccess

/-- A box that was found for a variable of a slot is for that slot. -/
theorem IsPlanned.slot_of_boxOf?
    (planned : IsPlanned method plan)
    {start : Nat}
    {boxed : BoxedLocal}
    (found : boxOf? plan.boxes (.local slot start) = some boxed) :
    boxed ∈ plan.boxes ∧ boxed.slot = slot ∧
      boxed.isParameter = method.isFormalParameter slot start := by
  obtain ⟨member, sameKey⟩ := key_of_boxOf?_eq_some found
  obtain ⟨other, isLocal, isParameter⟩ := planned.boxes.isLocal boxed member
  rw [isLocal, VariableKey.local.injEq] at sameKey
  obtain ⟨rfl, rfl⟩ := sameKey
  exact ⟨member, rfl, isParameter⟩

theorem IsPlanned.isCell_boxAt?
    (planned : IsPlanned method plan)
    (inside : slot < method.maxLocals)
    (index : Nat)
    (mode : AccessMode) :
    IsCell method plan.boxes slot (plan.boxAt? method slot index mode) where
  inside := inside
  box := by
    intro boxed found
    obtain ⟨key, isKey, isBox⟩ := Option.bind_eq_some_iff.mp found
    obtain ⟨member, sameKey⟩ := key_of_boxOf?_eq_some isBox
    obtain ⟨start, isLocal, _⟩ := planned.boxes.isLocal boxed member
    rw [← sameKey, isLocal] at isKey
    exact ⟨member, Method.slot_of_variableUse isKey⟩

theorem IsPlanned.isCell_boxOfDefinition?
    (planned : IsPlanned method plan)
    (inside : slot < method.maxLocals)
    (definition : Definition) :
    IsCell method plan.boxes slot (plan.boxOfDefinition? method slot definition) := by
  cases definition with
  | instruction index mode => exact planned.isCell_boxAt? inside index mode
  | entry =>
      refine ⟨inside, fun boxed found => ?_⟩
      by_cases isParameter : slot < method.parameterSlots
      · rw [MethodPlan.boxOfDefinition?, if_pos isParameter] at found
        obtain ⟨member, sameSlot, _⟩ := planned.slot_of_boxOf? found
        exact ⟨member, sameSlot⟩
      · rw [MethodPlan.boxOfDefinition?, if_neg isParameter] at found
        cases found

/-- An access that is made outside the sites. -/
theorem Method.accessOutside?_eq_some
    {sites : List LambdaSite}
    {index : Nat}
    {access : LocalAccess}
    (found : method.accessOutside? sites index = some access) :
    IsOutside sites index ∧ ∃ instruction, method.instructions[index]? = some instruction ∧
      instruction.localAccess? = some access := by
  unfold Method.accessOutside? at found
  split at found
  · cases found
  · rename_i isOutside
    obtain ⟨instruction, isInstruction, isAccess⟩ := Option.bind_eq_some_iff.mp found
    refine ⟨fun site member => ?_, instruction, isInstruction, isAccess⟩
    by_contra contains
    exact isOutside (List.any_eq_true.mpr ⟨site, member, by simpa using contains⟩)

/-- What is read is a variable of the method. -/
theorem IsPlanned.isCell_of_mem_readsAt
    (planned : IsPlanned method plan)
    (accesses : method.AccessesInside)
    {index : Nat}
    (isRead : (slot, box?) ∈ plan.readsAt method index) :
    IsCell method plan.boxes slot box? := by
  unfold MethodPlan.readsAt at isRead
  rcases List.mem_append.mp isRead with isAccess | isCapture
  · rw [Option.mem_toList, MethodPlan.accessRead?, Option.bind_eq_some_iff] at isAccess
    obtain ⟨access, isOutside, reads⟩ := isAccess
    obtain ⟨_, instruction, isInstruction, isAccess⟩ := Method.accessOutside?_eq_some isOutside
    split at reads
    · cases reads
    · cases reads
      exact planned.isCell_boxAt?
        (accesses instruction (Array.mem_of_getElem? isInstruction) access isAccess) index _
  · obtain ⟨sitePlan, isSite, isCapture⟩ := List.mem_flatMap.mp isCapture
    obtain ⟨capture, captured, reads⟩ := List.mem_filterMap.mp isCapture
    unfold MethodPlan.captureRead? at reads
    split at reads
    · rename_i start isLocal
      cases reads
      have hasAccess := planned.captureAccessed sitePlan (List.mem_filter.mp isSite).1 capture
        captured slot start isLocal
      refine ⟨accesses.lt_of_hasAccess hasAccess, fun boxed found => ?_⟩
      rw [isLocal] at found
      obtain ⟨member, sameSlot, _⟩ := planned.slot_of_boxOf? found
      exact ⟨member, sameSlot⟩
    · cases reads

end Cells

/-! ## One step -/

section Step

variable {plan : MethodPlan} {method rewritten : Method} {relocation : Relocation} {index : Nat}
  {departure : Departure} {top : Value} {definitions : UInt16 → Definition}
  {original mirrored next : Machine}

/-- What is accessed when control leaves an instruction is accessed at the instruction. -/
theorem accessOutside?_of_accessOnLeaving?
    {sites : List LambdaSite}
    {access : LocalAccess}
    (found : method.accessOnLeaving? sites index departure = some access) :
    method.accessOutside? sites index = some access := by
  unfold Method.accessOnLeaving? at found
  split at found
  · exact found
  · cases found

/-- The code for an access stands in the rewritten method. -/
theorem IsRewriting.movedCode_eq
    (isRewriting : IsRewriting plan method relocation rewritten)
    (isOutside : IsOutside plan.lambdaSites index)
    {instruction : Instruction Nat}
    {access : LocalAccess}
    (isInstruction : method.instructions[index]? = some instruction)
    (isAccess : instruction.localAccess? = some access) :
    rewritten.movedCode relocation index =
      accessCode instruction (plan.boxAt? method access.slot index access.mode) := by
  have isCode : plan.instructionCode method index instruction =
      accessCode instruction (plan.boxAt? method access.slot index access.mode) := by
    unfold MethodPlan.instructionCode Method.variableKeyAt? accessCode MethodPlan.boxAt?
    rw [isAccess]
    rfl
  rw [← map_accessCode isAccess _ relocation.place, ← isCode]
  exact isRewriting.instruction index instruction isInstruction isOutside

/-- The rewritten method holds what the method holds: each value is where it went to. -/
structure Mirrors (plan : MethodPlan) (method : Method) (definitions : UInt16 → Definition)
    (slots : UInt16 → Value) (mirrored : Machine) : Prop where
  boxes : mirrored.HoldsBoxes plan.boxes
  contents : ∀ slot, slot < method.maxLocals →
    mirrored.content slot (plan.boxOfDefinition? method slot (definitions slot)) =
      some (slots slot)

variable {slots : UInt16 → Value}

theorem Mirrors.withStack
    (mirrors : Mirrors plan method definitions slots mirrored)
    (stack : List Value) :
    Mirrors plan method definitions slots { mirrored with stack } where
  boxes := mirrors.boxes.withStack stack
  contents := by
    intro slot inside
    rw [Machine.content_withStack]
    exact mirrors.contents slot inside

/-- A value is given to a slot in the method, and goes where it has to in the rewritten one. -/
theorem Mirrors.write
    (planned : IsPlanned method plan)
    (mirrors : Mirrors plan method definitions slots mirrored)
    {slot : UInt16}
    (inside : slot < method.maxLocals)
    (index : Nat)
    (mode : AccessMode)
    (value : Value) :
    Mirrors plan method (Function.update definitions slot (.instruction index mode))
      (Function.update slots slot value)
      (mirrored.write slot value (plan.boxAt? method slot index mode)) where
  boxes := mirrors.boxes.write planned.boxes (planned.isCell_boxAt? inside index mode)
  contents := by
    intro other otherInside
    by_cases same : other = slot
    · subst same
      rw [Function.update_self, Function.update_self]
      exact mirrors.boxes.content_write (planned.isCell_boxAt? inside index mode)
    · rw [Function.update_of_ne same, Function.update_of_ne same,
        mirrors.boxes.content_write_of_ne planned.boxes (planned.isCell_boxAt? inside index mode)
          (planned.isCell_boxOfDefinition? otherInside _) (Or.inl (Ne.symm same))]
      exact mirrors.contents other otherInside

/-- A place for a variable is left alone by control that leaves an instruction, unless the
instruction gives the variable its value there. -/
def IsLeftAlone (plan : MethodPlan) (method : Method) (index : Nat) (departure : Departure)
    (slot : UInt16) (box? : Option BoxedLocal) : Prop :=
  ∀ access ∈ method.accessOnLeaving? plan.lambdaSites index departure,
    access.mode ≠ .load → access.slot = slot →
      plan.boxAt? method slot index access.mode ≠ box?

/-- Writing where a variable is kept leaves all other places alone. -/
theorem Mirrors.content_write_of_isLeftAlone
    (planned : IsPlanned method plan)
    (mirrors : Mirrors plan method definitions slots mirrored)
    {access : LocalAccess}
    (inside : access.slot < method.maxLocals)
    (isAccess : method.accessOnLeaving? plan.lambdaSites index departure = some access)
    (writes : access.mode ≠ .load)
    (value : Value)
    {slot : UInt16}
    {box? : Option BoxedLocal}
    (isCell : IsCell method plan.boxes slot box?)
    (isLeftAlone : IsLeftAlone plan method index departure slot box?) :
    (mirrored.write access.slot value
        (plan.boxAt? method access.slot index access.mode)).content slot box? =
      mirrored.content slot box? := by
  refine mirrors.boxes.content_write_of_ne planned.boxes (planned.isCell_boxAt? inside index _)
    isCell ?_
  by_cases same : access.slot = slot
  · right
    rw [same]
    exact isLeftAlone access isAccess writes same
  · exact Or.inl same

/-- What an instruction reads is kept where it went to. -/
theorem MethodPlan.Agrees.boxAt?_eq
    (agrees : plan.Agrees method index definitions)
    {access : LocalAccess}
    (isAccess : method.accessOutside? plan.lambdaSites index = some access)
    (reads : access.mode ≠ .store) :
    plan.boxAt? method access.slot index access.mode =
      plan.boxOfDefinition? method access.slot (definitions access.slot) := by
  have isRead : plan.accessRead? method index =
      some (access.slot, plan.boxAt? method access.slot index access.mode) := by
    unfold MethodPlan.accessRead?
    rw [isAccess, Option.bind_some, if_neg reads]
  exact agrees _ (List.mem_append_left _ (Option.mem_toList.mpr isRead))

/-- What an instruction gives to a variable that is kept in a box fits the box. -/
theorem MethodPlan.FitsBoxes.fits_redefined
    (fits : plan.FitsBoxes method (method.redefine plan.lambdaSites index departure definitions)
      slots)
    (planned : IsPlanned method plan)
    {access : LocalAccess}
    (inside : access.slot < method.maxLocals)
    (isAccess : method.accessOnLeaving? plan.lambdaSites index departure = some access)
    (writes : access.mode ≠ .load)
    {boxed : BoxedLocal}
    (found : plan.boxAt? method access.slot index access.mode = some boxed) :
    (slots access.slot).Fits boxed.type := by
  obtain ⟨member, sameSlot⟩ := (planned.isCell_boxAt? inside index access.mode).box boxed found
  have redefined : method.redefine plan.lambdaSites index departure definitions access.slot =
      .instruction index access.mode := by
    unfold Method.redefine
    rw [isAccess]
    simp only [if_neg writes, Function.update_self]
  have fitting := fits boxed member
  rw [sameSlot, redefined] at fitting
  exact fitting found

/-- A variable that is read where its value went to holds the value. -/
theorem Mirrors.content_eq
    (mirrors : Mirrors plan method definitions slots mirrored)
    {slot : UInt16}
    (inside : slot < method.maxLocals)
    {box? : Option BoxedLocal}
    (agreed : box? = plan.boxOfDefinition? method slot (definitions slot)) :
    mirrored.content slot box? = some (slots slot) := by
  rw [agreed]
  exact mirrors.contents slot inside

/-- A load that agrees pushes what the slot of the method holds. -/
theorem Mirrors.load
    (mirrors : Mirrors plan method definitions slots mirrored)
    {slot : UInt16}
    {box? : Option BoxedLocal}
    (isCell : IsCell method plan.boxes slot box?)
    (agreed : box? = plan.boxOfDefinition? method slot (definitions slot))
    {kind : LocalKind} :
    ∃ loaded, mirrored.run (accessCode (.load kind slot) box?) = some loaded ∧
      Mirrors plan method definitions slots loaded ∧
      ∀ other otherBox?, loaded.content other otherBox? = mirrored.content other otherBox? :=
  ⟨_, mirrors.boxes.run_load isCell (mirrors.content_eq isCell.inside agreed),
    mirrors.withStack _, fun _ _ => Machine.content_withStack⟩

/-- A store sends the value to the variable of the store, whatever was there before. -/
theorem Mirrors.store
    (planned : IsPlanned method plan)
    (mirrors : Mirrors plan method definitions slots mirrored)
    {slot : UInt16}
    {kind : LocalKind}
    (inside : slot < method.maxLocals)
    (isAccess : method.accessOnLeaving? plan.lambdaSites index departure =
      some ⟨slot, .store, kind⟩)
    {rest : List Value}
    (isStacked : mirrored.stack = top :: rest)
    (fits : ∀ boxed, plan.boxAt? method slot index .store = some boxed → top.Fits boxed.type) :
    ∃ stored,
      mirrored.run (accessCode (.store kind slot) (plan.boxAt? method slot index .store)) =
          some stored ∧
        Mirrors plan method (Function.update definitions slot (.instruction index .store))
          (Function.update slots slot top) stored ∧
        ∀ other box?, IsCell method plan.boxes other box? →
          IsLeftAlone plan method index departure other box? →
          stored.content other box? = mirrored.content other box? := by
  have emptied := mirrors.withStack rest
  have writes : AccessMode.store ≠ .load := by decide
  refine ⟨_, mirrors.boxes.run_store (planned.isCell_boxAt? inside index _) isStacked fits,
    emptied.write planned inside index .store top, ?_⟩
  intro other box? isOther isLeftAlone
  exact (emptied.content_write_of_isLeftAlone planned inside isAccess writes top isOther
    isLeftAlone).trans Machine.content_withStack

/-- An increment that agrees adds to what the slot of the method holds. -/
theorem Mirrors.increment
    (planned : IsPlanned method plan)
    (mirrors : Mirrors plan method definitions slots mirrored)
    {slot : UInt16}
    (inside : slot < method.maxLocals)
    (isAccess : method.accessOnLeaving? plan.lambdaSites index departure =
      some ⟨slot, .increment, .int⟩)
    (agreed : plan.boxAt? method slot index .increment =
      plan.boxOfDefinition? method slot (definitions slot))
    {amount : Int16}
    {before : Int32}
    (isBefore : slots slot = .int before)
    (fits : ∀ boxed, plan.boxAt? method slot index .increment = some boxed →
      (Value.int (before + amount.toInt32)).Fits boxed.type) :
    ∃ incremented,
      mirrored.run (accessCode (.increment slot amount)
          (plan.boxAt? method slot index .increment)) = some incremented ∧
        Mirrors plan method (Function.update definitions slot (.instruction index .increment))
          (Function.update slots slot (.int (before + amount.toInt32))) incremented ∧
        ∀ other box?, IsCell method plan.boxes other box? →
          IsLeftAlone plan method index departure other box? →
          incremented.content other box? = mirrored.content other box? := by
  have writes : AccessMode.increment ≠ .load := by decide
  have isContent : mirrored.content slot (plan.boxAt? method slot index .increment) =
      some (.int before) := by
    rw [mirrors.content_eq inside agreed, isBefore]
  refine ⟨_, mirrors.boxes.run_increment (planned.isCell_boxAt? inside index _) isContent fits,
    mirrors.write planned inside index .increment _, ?_⟩
  intro other box? isOther isLeftAlone
  exact mirrors.content_write_of_isLeftAlone planned inside isAccess writes _ isOther isLeftAlone

/-- If what an instruction reads was read from where it went to, the rewritten method does with
it what the method does. -/
theorem Mirrors.leave
    (planned : IsPlanned method plan)
    (accesses : method.AccessesInside)
    (isRewriting : IsRewriting plan method relocation rewritten)
    (mirrors : Mirrors plan method definitions original.slots mirrored)
    (agrees : plan.Agrees method index definitions)
    (left : method.leave plan.lambdaSites method.ownCode index original departure top = some next)
    (fits : plan.FitsBoxes method (method.redefine plan.lambdaSites index departure definitions)
      next.slots) :
    ∃ mirroredNext,
      method.leave plan.lambdaSites (rewritten.movedCode relocation) index mirrored departure top =
          some mirroredNext ∧
        Mirrors plan method (method.redefine plan.lambdaSites index departure definitions)
          next.slots mirroredNext ∧
        ∀ slot box?, IsCell method plan.boxes slot box? →
          IsLeftAlone plan method index departure slot box? →
          mirroredNext.content slot box? = mirrored.content slot box? := by
  unfold Method.leave at left ⊢
  unfold Method.redefine
  cases isAccess : method.accessOnLeaving? plan.lambdaSites index departure with
  | none =>
      rw [isAccess] at left
      cases left
      exact ⟨mirrored, rfl, mirrors, fun _ _ _ _ => rfl⟩
  | some access =>
      have accessHere := accessOutside?_of_accessOnLeaving? isAccess
      obtain ⟨isOutside, instruction, isInstruction, accesses?⟩ :=
        Method.accessOutside?_eq_some accessHere
      have inside := accesses instruction (Array.mem_of_getElem? isInstruction) access accesses?
      have ownCode : method.ownCode index = [instruction] := by
        unfold Method.ownCode
        rw [isInstruction]
        rfl
      rw [isAccess, ownCode] at left
      dsimp only at left ⊢
      rw [isRewriting.movedCode_eq isOutside isInstruction accesses?]
      have topped := mirrors.withStack [top]
      cases instruction with
      | load kind slot =>
          cases accesses?
          cases left
          rw [if_pos rfl]
          have reads : AccessMode.load ≠ .store := by decide
          obtain ⟨loaded, isLoaded, mirrorsLoaded, frame⟩ :=
            topped.load (planned.isCell_boxAt? inside index .load)
              (agrees.boxAt?_eq accessHere reads)
          exact ⟨loaded, isLoaded, mirrorsLoaded, fun other box? _ _ =>
            (frame other box?).trans Machine.content_withStack⟩
      | store kind slot =>
          cases accesses?
          cases left
          have writes : AccessMode.store ≠ .load := by decide
          rw [if_neg writes]
          have fitsBox : ∀ boxed, plan.boxAt? method slot index .store = some boxed →
              top.Fits boxed.type := by
            intro boxed found
            have fitting := fits.fits_redefined planned inside isAccess writes found
            rwa [Machine.setSlot_slots_self] at fitting
          obtain ⟨stored, isStored, mirrorsStored, frame⟩ :=
            topped.store planned inside isAccess rfl fitsBox
          exact ⟨stored, isStored, mirrorsStored, fun other box? isOther isLeftAlone =>
            (frame other box? isOther isLeftAlone).trans Machine.content_withStack⟩
      | increment slot amount =>
          cases accesses?
          have reads : AccessMode.increment ≠ .store := by decide
          have writes : AccessMode.increment ≠ .load := by decide
          rw [if_neg writes]
          obtain ⟨stepped, isStepped, isNext⟩ := Option.bind_eq_some_iff.mp left
          cases isNext
          obtain ⟨before, isBefore, rfl⟩ := Machine.step_increment_eq_some isStepped
          have fitsBox : ∀ boxed, plan.boxAt? method slot index .increment = some boxed →
              (Value.int (before + amount.toInt32)).Fits boxed.type := by
            intro boxed found
            have fitting := fits.fits_redefined planned inside isAccess writes found
            rwa [Machine.setSlot_slots_self] at fitting
          obtain ⟨incremented, isIncremented, mirrorsIncremented, frame⟩ :=
            topped.increment planned inside isAccess (agrees.boxAt?_eq accessHere reads) isBefore
              fitsBox
          exact ⟨incremented, isIncremented, mirrorsIncremented,
            fun other box? isOther isLeftAlone =>
              (frame other box? isOther isLeftAlone).trans Machine.content_withStack⟩
      | _ => cases accesses?

end Step

/-! ## Along a path -/

/-- Along a path all that is read is read from where its value went to, and whatever goes to a
box fits its type. -/
def IsFaithful (plan : MethodPlan) (method : Method) (index : Nat)
    (definitions : UInt16 → Definition) (original : Machine) :
    List (Departure × Value) → Prop
  | [] => plan.FitsBoxes method definitions original.slots
  | (departure, top) :: steps =>
      plan.FitsBoxes method definitions original.slots ∧ plan.Agrees method index definitions ∧
        ∀ next ∈ method.leave plan.lambdaSites method.ownCode index original departure top,
          IsFaithful plan method (departure.target index)
            (method.redefine plan.lambdaSites index departure definitions) next steps

instance decidableIsFaithful (plan : MethodPlan) (method : Method) :
    ∀ index definitions original steps,
      Decidable (IsFaithful plan method index definitions original steps)
  | _, definitions, original, [] =>
      inferInstanceAs (Decidable (plan.FitsBoxes method definitions original.slots))
  | index, definitions, original, (departure, top) :: steps =>
      have (next : Machine) : Decidable (IsFaithful plan method (departure.target index)
          (method.redefine plan.lambdaSites index departure definitions) next steps) :=
        decidableIsFaithful plan method _ _ _ steps
      inferInstanceAs (Decidable (plan.FitsBoxes method definitions original.slots ∧
        plan.Agrees method index definitions ∧
        ∀ next ∈ method.leave plan.lambdaSites method.ownCode index original departure top,
          IsFaithful plan method (departure.target index)
            (method.redefine plan.lambdaSites index departure definitions) next steps))

/-- A place for a variable is left alone along a path. -/
def IsLeftAloneAlong (plan : MethodPlan) (method : Method) (slot : UInt16)
    (box? : Option BoxedLocal) (index : Nat) : List Departure → Prop
  | [] => True
  | departure :: departures =>
      IsLeftAlone plan method index departure slot box? ∧
        IsLeftAloneAlong plan method slot box? (departure.target index) departures

section Paths

variable {plan : MethodPlan} {method rewritten : Method} {relocation : Relocation} {index : Nat}
  {departure : Departure} {top : Value} {definitions : UInt16 → Definition}
  {original mirrored reached : Machine} {steps earlier later : List (Departure × Value)}

theorem pass_cons
    {sites : List LambdaSite}
    {code : Nat → List (Instruction Nat)} :
    method.pass sites code index original ((departure, top) :: steps) =
      (method.leave sites code index original departure top).bind fun next =>
        method.pass sites code (departure.target index) next steps :=
  rfl

theorem pass_append
    {sites : List LambdaSite}
    {code : Nat → List (Instruction Nat)} :
    method.pass sites code index original (earlier ++ later) =
      (method.pass sites code index original earlier).bind fun next =>
        method.pass sites code (arrival index (earlier.map Prod.fst)) next later := by
  induction earlier generalizing index original with
  | nil => rfl
  | cons step earlier inductionHypothesis =>
      obtain ⟨departure, top⟩ := step
      rw [List.cons_append, pass_cons, pass_cons, Option.bind_assoc]
      congr 1
      funext next
      exact inductionHypothesis

theorem IsFaithful.fits
    (faithful : IsFaithful plan method index definitions original steps) :
    plan.FitsBoxes method definitions original.slots := by
  cases steps with
  | nil => exact faithful
  | cons step steps => exact faithful.1

/-- Both parts of a faithful path are faithful. -/
theorem IsFaithful.split
    (faithful : IsFaithful plan method index definitions original (earlier ++ later))
    (passes : method.pass plan.lambdaSites method.ownCode index original earlier = some reached) :
    IsFaithful plan method index definitions original earlier ∧
      IsFaithful plan method (arrival index (earlier.map Prod.fst))
        (method.definitionsAfter plan.lambdaSites index definitions (earlier.map Prod.fst))
        reached later := by
  induction earlier generalizing index definitions original with
  | nil =>
      cases passes
      exact ⟨faithful.fits, faithful⟩
  | cons step earlier inductionHypothesis =>
      obtain ⟨departure, top⟩ := step
      obtain ⟨fits, agrees, rest⟩ := faithful
      rw [pass_cons] at passes
      obtain ⟨next, left, passes⟩ := Option.bind_eq_some_iff.mp passes
      obtain ⟨restEarlier, restLater⟩ := inductionHypothesis (rest next left) passes
      refine ⟨⟨fits, agrees, fun other leftOther => ?_⟩, restLater⟩
      obtain rfl := Option.some.inj (left.symm.trans leftOther)
      exact restEarlier

/-- Along a faithful path the rewritten method keeps holding what the method holds, and no place
changes that is left alone. -/
theorem Mirrors.pass
    (planned : IsPlanned method plan)
    (accesses : method.AccessesInside)
    (isRewriting : IsRewriting plan method relocation rewritten)
    (mirrors : Mirrors plan method definitions original.slots mirrored)
    (faithful : IsFaithful plan method index definitions original steps)
    (passes : method.pass plan.lambdaSites method.ownCode index original steps = some reached) :
    ∃ mirroredReached,
      method.pass plan.lambdaSites (rewritten.movedCode relocation) index mirrored steps =
          some mirroredReached ∧
        Mirrors plan method
          (method.definitionsAfter plan.lambdaSites index definitions (steps.map Prod.fst))
          reached.slots mirroredReached ∧
        ∀ slot box?, IsCell method plan.boxes slot box? →
          IsLeftAloneAlong plan method slot box? index (steps.map Prod.fst) →
          mirroredReached.content slot box? = mirrored.content slot box? := by
  -- `Mirrors` carries the induction; what the frame says of one step is composed alongside
  induction steps generalizing index definitions original mirrored with
  | nil =>
      cases passes
      exact ⟨mirrored, rfl, mirrors, fun _ _ _ _ => rfl⟩
  | cons step steps inductionHypothesis =>
      obtain ⟨departure, top⟩ := step
      obtain ⟨_, agrees, rest⟩ := faithful
      rw [pass_cons] at passes
      obtain ⟨next, left, passes⟩ := Option.bind_eq_some_iff.mp passes
      obtain ⟨mirroredNext, mirroredLeft, mirrorsNext, frame⟩ :=
        mirrors.leave planned accesses isRewriting agrees left (rest next left).fits
      obtain ⟨mirroredReached, mirroredPasses, mirrorsReached, frameRest⟩ :=
        inductionHypothesis mirrorsNext (rest next left) passes
      refine ⟨mirroredReached, ?_, mirrorsReached, ?_⟩
      · rw [pass_cons, mirroredLeft]
        exact mirroredPasses
      · intro slot box? isCell isLeftAlone
        exact (frameRest slot box? isCell isLeftAlone.2).trans
          (frame slot box? isCell isLeftAlone.1)

/-- Where the boxes were made, the rewritten method holds what the method holds. -/
theorem exists_mirrors_entry
    (planned : IsPlanned method plan)
    (accesses : method.AccessesInside)
    {entry : UInt16 → Value}
    (fits : plan.FitsBoxes method (fun _ => .entry) entry) :
    ∃ start, (Machine.atEntry entry).run (plan.boxes.flatMap MethodPlan.makeBox) = some start ∧
      Mirrors plan method (fun _ => .entry) entry start := by
  have fitsInitially : ∀ boxed ∈ plan.boxes,
      (Machine.initialContent entry boxed).Fits boxed.type := by
    intro boxed member
    obtain ⟨start, isLocal, isParameter⟩ := planned.boxes.isLocal boxed member
    unfold Machine.initialContent
    split
    · rename_i holdsParameter
      rw [isParameter, Method.isFormalParameter, Bool.and_eq_true, decide_eq_true_eq,
        decide_eq_true_eq] at holdsParameter
      obtain ⟨rfl, isBelow⟩ := holdsParameter
      refine fits boxed member ?_
      rw [MethodPlan.boxOfDefinition?, if_pos isBelow, ← isLocal]
      exact planned.boxes.boxOf?_key member
    · exact Machine.fits_first
  -- before the first box is made, each slot of the method holds what it does at the entry
  have unmade : HasMade method entry [] (.atEntry entry) := ⟨fun _ _ => rfl, rfl, by simp⟩
  obtain ⟨start, isStart, hasMade⟩ := unmade.makeAll planned.boxes
    (fun boxed member => accesses.lt_of_hasAccess (planned.boxAccessed boxed member)) fitsInitially
  refine ⟨start, isStart, hasMade.holdsBoxes, ?_⟩
  intro slot inside
  have inSlot : start.content slot none = some (entry slot) :=
    congrArg some (hasMade.slots slot inside)
  by_cases isParameter : slot < method.parameterSlots
  · rw [MethodPlan.boxOfDefinition?, if_pos isParameter]
    cases found : boxOf? plan.boxes (.local slot 0) with
    | none => exact inSlot
    | some boxed =>
        obtain ⟨member, rfl, isFormal⟩ := planned.slot_of_boxOf? found
        obtain ⟨position, isBoxed⟩ := List.getElem?_of_mem member
        rw [Machine.content_of_refers (hasMade.refers position boxed isBoxed),
          Machine.initialContent, if_pos]
        rw [isFormal, Method.isFormalParameter, Bool.and_eq_true, decide_eq_true_eq,
          decide_eq_true_eq]
        exact ⟨rfl, isParameter⟩
  · rw [MethodPlan.boxOfDefinition?, if_neg isParameter]
    exact inSlot

end Paths

/-! ## Whole methods -/

/-- Runs the accesses that a method makes along a path outside the sites. -/
def Method.runAlong (method : Method) (sites : List LambdaSite) (entry : UInt16 → Value)
    (steps : List (Departure × Value)) : Option Machine :=
  method.pass sites method.ownCode 0 (.atEntry entry) steps

/-- Makes the boxes of the rewritten method, and runs what replaces the accesses along a path of
the method. -/
def Method.runRewrittenAlong (method : Method) (sites : List LambdaSite) (relocation : Relocation)
    (rewritten : Method) (entry : UInt16 → Value) (steps : List (Departure × Value)) :
    Option Machine := do
  let start ← (Machine.atEntry entry).run
    (instructionsIn rewritten.instructions ⟨0, relocation.place 0⟩)
  method.pass sites (rewritten.movedCode relocation) 0 start steps

/-- What gave the slots of a method their values after a path from its entry. -/
def Method.lastDefinitions (method : Method) (sites : List LambdaSite)
    (departures : List Departure) : UInt16 → Definition :=
  method.definitionsAfter sites 0 (fun _ => .entry) departures

/-- The rewritten method runs along every path on whose way all reads agree with the last
definitions. Where the path leads, a read that agrees yields what it yields in the method; a
read of another place yields what was there before the value went elsewhere. -/
theorem Method.rewrite_redirects
    {Memory : Type}
    {method rewritten : Method}
    {calls : List Nat}
    {firstId : Nat}
    {settings : Settings}
    {hierarchy : Hierarchy}
    {convention : Convention Memory}
    {place : Place}
    {before after : Memory}
    {plan : MethodPlan}
    (planned : planMethod method calls firstId settings hierarchy convention place before =
      .ok plan after)
    (accesses : method.AccessesInside)
    (computed : method.rewrite plan place = .ok rewritten) :
    ∃ relocation, plan.relocation method = .ok relocation ∧
      IsRewriting plan method relocation rewritten ∧
      ∀ entry steps index machine,
        method.Path (steps.map Prod.fst) index →
        method.runAlong plan.lambdaSites entry steps = some machine →
        IsFaithful plan method 0 (fun _ => .entry) (.atEntry entry) steps →
        ∃ mirrored,
          method.runRewrittenAlong plan.lambdaSites relocation rewritten entry steps =
              some mirrored ∧
            ∀ slot box?, (slot, box?) ∈ plan.readsAt method index →
              (box? = plan.boxOfDefinition? method slot
                  (method.lastDefinitions plan.lambdaSites (steps.map Prod.fst) slot) →
                mirrored.content slot box? = some (machine.slots slot)) ∧
              ∀ earlier later, steps = earlier ++ later →
                IsLeftAloneAlong plan method slot box? (arrival 0 (earlier.map Prod.fst))
                  (later.map Prod.fst) →
                ∃ passed,
                  method.runRewrittenAlong plan.lambdaSites relocation rewritten entry earlier =
                      some passed ∧
                    mirrored.content slot box? = passed.content slot box? := by
  have isPlanned := isPlanned_of_planMethod_eq_ok planned
  obtain ⟨relocation, isRelocation, isRewriting⟩ :=
    isRewriting_of_rewrite_eq_ok isPlanned.apart computed
  refine ⟨relocation, isRelocation, isRewriting, ?_⟩
  intro entry steps index machine _ passes faithful
  have fits : plan.FitsBoxes method (fun _ => .entry) entry := faithful.fits
  obtain ⟨start, isStart, mirrorsStart⟩ := exists_mirrors_entry isPlanned accesses fits
  rw [← isRewriting.prologue] at isStart
  have fromStart : ∀ others,
      method.runRewrittenAlong plan.lambdaSites relocation rewritten entry others =
        method.pass plan.lambdaSites (rewritten.movedCode relocation) 0 start others := by
    intro others
    unfold Method.runRewrittenAlong
    rw [isStart]
    rfl
  obtain ⟨mirrored, mirroredPasses, mirrors, _⟩ :=
    mirrorsStart.pass isPlanned accesses isRewriting faithful passes
  refine ⟨mirrored, (fromStart steps).trans mirroredPasses, ?_⟩
  intro slot box? isRead
  have isCell := isPlanned.isCell_of_mem_readsAt accesses isRead
  refine ⟨mirrors.content_eq isCell.inside, ?_⟩
  -- the frame of the rest of the path, from where the place was written last
  rintro earlier later rfl isLeftAlone
  unfold Method.runAlong at passes
  rw [pass_append] at passes
  obtain ⟨reached, passesEarlier, passesLater⟩ := Option.bind_eq_some_iff.mp passes
  obtain ⟨faithfulEarlier, faithfulLater⟩ := faithful.split passesEarlier
  obtain ⟨passed, isPassed, mirrorsPassed, _⟩ :=
    mirrorsStart.pass isPlanned accesses isRewriting faithfulEarlier passesEarlier
  obtain ⟨last, isLast, _, frame⟩ :=
    mirrorsPassed.pass isPlanned accesses isRewriting faithfulLater passesLater
  rw [pass_append, isPassed, Option.bind_some, isLast] at mirroredPasses
  obtain rfl := Option.some.inj mirroredPasses
  exact ⟨passed, (fromStart earlier).trans isPassed, frame slot box? isCell isLeftAlone⟩

/-! ## A variable that is kept in two places -/

namespace TwoScopes

/-- The method that the closure implements. -/
def step : AbstractMethod := ⟨counter, ⟨"countOn", by decide⟩, ⟨[], some (.base .int)⟩, true⟩

/-- The type of the closure. -/
def counterClass : ClassDeclaration :=
  CoreClass.functional counter step.name step.type.parameters step.type.result

/-- The classes of the platform, and the type of the closure. -/
def hierarchy : Hierarchy where
  declared := [counterClass]
  loaded := []

/-- The method with one scope of the variable, which begins where it is initialised. -/
def unsplit : Method :=
  { method 2 with
    localVariables := ((method 2).localVariables.extract 0 1).push ⟨4, 12, total, .base .int, 1⟩ }

/-- What the closure captures if it sees the variable in a scope that begins at an index. -/
def captures (start : Nat) : MethodCaptures where
  sites := [{ captures := [{ capture true with key := .local 1 start }] }]
  boxes := [{ box with key := .local 1 start }]

/-- The name of the class of the closure. -/
def className : BinaryName := ⟨"counting/Demo$Counter$L10$0", by decide⟩

/-- The plan if the closure sees the variable in a scope that begins at an index. -/
def plan (start : Nat) : MethodPlan :=
  .ofSteps [site] (captures start) [step] [className]

/-- The way through the initialisation to the site. -/
def toSite : List (Departure × Value) :=
  [(.next, .null), (.next, .int 1), (.next, .null), (.next, .int 1), (.jump 7, .null)]

/-- The way on through the site and the first increment. -/
def toIncrement : List (Departure × Value) :=
  toSite ++ [(.next, .null), (.next, .int 1), (.next, .object 0)]

/-- What the slots hold where the method is called. -/
def arguments : UInt16 → Value := fun _ => .int 1

theorem abstractMethods_eq :
    abstractMethods [site] hierarchy .unknown = .ok [step] := by
  have found : hierarchy.resolve counter = .ok counterClass := by decide +kernel
  have isSole : hierarchy.soleCandidate counter 0 counterClass = .ok (some step) := by
    decide +kernel
  have isStep : site.abstractMethod hierarchy = .ok step :=
    LambdaSite.abstractMethod_eq_ok found isSole
  unfold abstractMethods
  rw [List.mapM_cons, isStep]
  rfl

theorem path_toSite
    {other : Method}
    (sameCode : other.instructions = (method 2).instructions) :
    other.Path (toSite.map Prod.fst) 7 := by
  have atStart : other.Path [] 0 := .entry
  have atBranch := atStart.leave .next ⟨_, by rw [sameCode]; rfl, rfl⟩
  have atInit := atBranch.leave .next ⟨_, by rw [sameCode]; rfl, rfl⟩
  have atStore := atInit.leave .next ⟨_, by rw [sameCode]; rfl, rfl⟩
  have atJump := atStore.leave .next ⟨_, by rw [sameCode]; rfl, rfl⟩
  exact atJump.leave (.jump 7) ⟨_, by rw [sameCode]; rfl, List.mem_cons_self⟩

end TwoScopes

open TwoScopes in
/-- With one scope, the second increment reads what the first one left. -/
theorem oneScope_isKept :
    planMethod unsplit [8] 0 .standard hierarchy convention .unknown () = .ok (plan 4) () ∧
      unsplit.AccessesInside ∧
      ∃ rewritten relocation mirrored,
        unsplit.rewrite (plan 4) .unknown = .ok rewritten ∧
        (plan 4).relocation unsplit = .ok relocation ∧
        unsplit.Path (toIncrement.map Prod.fst) 10 ∧
        unsplit.runRewrittenAlong (plan 4).lambdaSites relocation rewritten arguments toIncrement =
          some mirrored ∧
        mirrored.content 1 (boxOf? (plan 4).boxes (.local 1 4)) = some (.int 2) := by
  have planned : planMethod unsplit [8] 0 .standard hierarchy convention .unknown () =
      .ok (plan 4) () := by
    exact planMethod_eq_ok.mpr ⟨frames 2, [site], captures 4, [step], [className], (),
      by decide +kernel, by with_unfolding_all rfl, by with_unfolding_all rfl,
      abstractMethods_eq, by decide +kernel, rfl⟩
  have accesses : unsplit.AccessesInside := by decide
  have atSite : unsplit.Path (toSite.map Prod.fst) 7 := path_toSite rfl
  have atCall := atSite.leave .next ⟨_, rfl, rfl⟩
  have atFirst := atCall.leave .next ⟨_, rfl, rfl⟩
  have atSecond : unsplit.Path (toIncrement.map Prod.fst) 10 := atFirst.leave .next ⟨_, rfl, rfl⟩
  have faithful : IsFaithful (plan 4) unsplit 0 (fun _ => .entry) (.atEntry arguments)
      toIncrement := by
    decide +kernel
  obtain ⟨rewritten, computed⟩ : ∃ rewritten, unsplit.rewrite (plan 4) .unknown = .ok rewritten :=
    ⟨_, by with_unfolding_all rfl⟩
  obtain ⟨relocation, isRelocation, _, redirects⟩ :=
    Method.rewrite_redirects planned accesses computed
  obtain ⟨mirrored, isMirrored, reads⟩ := redirects arguments toIncrement 10 _ atSecond rfl faithful
  refine ⟨planned, accesses, rewritten, relocation, mirrored, computed, isRelocation, atSecond,
    isMirrored, ?_⟩
  exact (reads 1 _ (by decide +kernel)).1 (by decide +kernel)

open TwoScopes in
/-- With two scopes, the closure captures a box that the initialisation never reaches: it holds
zero, and the slot one. -/
theorem twoScopes_isSplit :
    planMethod (method 2) [8] 0 .standard hierarchy convention .unknown () = .ok (plan 7) () ∧
      (method 2).AccessesInside ∧
      ∃ rewritten relocation machine mirrored,
        (method 2).rewrite (plan 7) .unknown = .ok rewritten ∧
        (plan 7).relocation (method 2) = .ok relocation ∧
        (method 2).Path (toSite.map Prod.fst) 7 ∧
        (method 2).lastDefinitions (plan 7).lambdaSites (toSite.map Prod.fst) 1 =
          .instruction 3 .store ∧
        rewritten.movedCode relocation 3 = [.store .int 1] ∧
        (1, some box) ∈ (plan 7).readsAt (method 2) 7 ∧
        (method 2).runAlong (plan 7).lambdaSites arguments toSite = some machine ∧
        machine.slots 1 = .int 1 ∧
        (method 2).runRewrittenAlong (plan 7).lambdaSites relocation rewritten arguments toSite =
          some mirrored ∧
        mirrored.content 1 (some box) = some (.int 0) := by
  refine ⟨planMethod_eq_ok.mpr ⟨frames 2, [site], captures 7, [step], [className], (),
      by decide +kernel, by with_unfolding_all rfl, by with_unfolding_all rfl,
      abstractMethods_eq, by decide +kernel, rfl⟩,
    by decide, _, _, _, _, by with_unfolding_all rfl, by with_unfolding_all rfl, path_toSite rfl,
    rfl, by with_unfolding_all rfl, by decide +kernel, rfl, rfl, by with_unfolding_all rfl,
    by with_unfolding_all rfl⟩

end ClosureConversion
