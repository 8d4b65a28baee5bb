import ClosureConversion.Proofs.Capture.Providing
import ClosureConversion.Proofs.Closure.Composition
import ClosureConversion.Proofs.Closure.Consistency
import ClosureConversion.Proofs.Closure.Handlers

/-!
Contract: the slots of the methods of a closure.

Owns:
- values that get their slots one after another share none of them, as long as there are slots
  enough;
- the code of a site loads and stores values only at the first of the slots that the receiver, the
  parameters and its own variables have, which have room for them;
- the implemented method and the methods of default values keep all their values apart.

Does not own: which values are in the slots.
-/

namespace ClosureConversion

/-! ## Ranges of slots -/

/-- The slots of a value: the first of them, and how many there are. -/
structure SlotRange where
  first : UInt16
  width : Nat
deriving DecidableEq, Repr

namespace SlotRange

/-- All slots of the one range come before those of the other one. -/
def Precedes (range other : SlotRange) : Prop :=
  range.first.toNat + range.width ≤ other.first.toNat

/-- The access is to the first slot of the range, which has room for the value. -/
def Holds (range : SlotRange) (access : LocalAccess) : Prop :=
  access.slot = range.first ∧ access.kind.slots ≤ range.width

/-- The slot of the receiver of a method. -/
def receiver : SlotRange :=
  ⟨0, 1⟩

end SlotRange

/-- The ranges of values of several widths, one after another. -/
def rangesFrom (first : UInt16) (widths : List Nat) : List SlotRange :=
  List.zipWith SlotRange.mk (slotsFrom first widths) widths

/-- The ranges of values that have slots. -/
def rangesOf {α : Type} (widthOf : α → Nat) (placed : List (α × UInt16)) : List SlotRange :=
  placed.map fun (value, slot) => ⟨slot, widthOf value⟩

section Ranges

variable {α : Type} {first : UInt16} {widths others : List Nat} {range : SlotRange}

theorem rangesOf_zip_slotsFrom
    (widthOf : α → Nat)
    (first : UInt16)
    (values : List α) :
    rangesOf widthOf (values.zip (slotsFrom first (values.map widthOf))) =
      rangesFrom first (values.map widthOf) := by
  induction values generalizing first with
  | nil => rfl
  | cons value rest inductionHypothesis =>
      exact congrArg (List.cons _) (inductionHypothesis _)

theorem rangesFrom_append
    (first : UInt16)
    (widths others : List Nat) :
    rangesFrom first (widths ++ others) =
      rangesFrom first widths ++ rangesFrom (slotAfter first widths) others := by
  induction widths generalizing first with
  | nil => rfl
  | cons slots rest inductionHypothesis =>
      exact congrArg (List.cons _) (inductionHypothesis _)

theorem le_first_of_mem_rangesFrom
    (fits : first.toNat + widths.sum ≤ 65535)
    (member : range ∈ rangesFrom first widths) :
    first.toNat ≤ range.first.toNat := by
  induction widths generalizing first with
  | nil => cases member
  | cons slots rest inductionHypothesis =>
      rw [List.sum_cons] at fits
      have next : (first + slots.toUInt16).toNat = first.toNat + slots :=
        toNat_nextSlot (by omega)
      rcases List.mem_cons.mp member with rfl | isLater
      · exact Nat.le_refl _
      · have after := inductionHypothesis (by omega) isLater
        omega

/-- Values that get their slots one after another share none of them. -/
theorem pairwise_rangesFrom
    (fits : first.toNat + widths.sum ≤ 65535) :
    (rangesFrom first widths).Pairwise SlotRange.Precedes := by
  induction widths generalizing first with
  | nil => exact .nil
  | cons slots rest inductionHypothesis =>
      rw [List.sum_cons] at fits
      have next : (first + slots.toUInt16).toNat = first.toNat + slots :=
        toNat_nextSlot (by omega)
      refine .cons (fun other member => ?_) (inductionHypothesis (by omega))
      have after := le_first_of_mem_rangesFrom (by omega) member
      exact Nat.le_trans next.ge after

end Ranges

/-! ## Code that keeps to ranges -/

/-- The instruction accesses a slot only if that is the first one of a range with room for the
value. -/
def Instruction.KeepsTo (ranges : List SlotRange) (instruction : Instruction Nat) : Prop :=
  ∀ access, instruction.localAccess? = some access → ∃ range ∈ ranges, range.Holds access

/-- All instructions of the code keep to the ranges. -/
def KeepsTo (ranges : List SlotRange) (code : List (Instruction Nat)) : Prop :=
  ∀ instruction ∈ code, instruction.KeepsTo ranges

section Keeping

variable {ranges : List SlotRange} {range : SlotRange} {instruction : Instruction Nat}
  {code : List (Instruction Nat)}

theorem Instruction.KeepsTo.of_none
    (isNone : instruction.localAccess? = none) :
    instruction.KeepsTo ranges := by
  intro access isAccess
  rw [isNone] at isAccess
  cases isAccess

theorem Instruction.KeepsTo.of_holds
    {access : LocalAccess}
    (isAccess : instruction.localAccess? = some access)
    (isRange : range ∈ ranges)
    (holds : range.Holds access) :
    instruction.KeepsTo ranges := by
  intro other isOther
  cases isAccess.symm.trans isOther
  exact ⟨range, isRange, holds⟩

@[simp]
theorem Instruction.localAccess?_map
    (f : Nat → Nat)
    (instruction : Instruction Nat) :
    (instruction.map f).localAccess? = instruction.localAccess? := by
  cases instruction <;> rfl

theorem LocalKind.slots_ofType
    (type : FieldType) :
    (LocalKind.ofType type).slots = width type := by
  cases type with
  | base type => cases type <;> rfl
  | ref type => rfl

@[simp]
theorem keepsTo_nil :
    KeepsTo ranges [] := by
  simp [KeepsTo]

@[simp]
theorem keepsTo_cons :
    KeepsTo ranges (instruction :: code) ↔ instruction.KeepsTo ranges ∧ KeepsTo ranges code := by
  simp [KeepsTo]

@[simp]
theorem keepsTo_append
    {first second : List (Instruction Nat)} :
    KeepsTo ranges (first ++ second) ↔ KeepsTo ranges first ∧ KeepsTo ranges second :=
  List.forall_mem_append

theorem keepsTo_flatten
    {parts : List (List (Instruction Nat))}
    (each : ∀ part ∈ parts, KeepsTo ranges part) :
    KeepsTo ranges parts.flatten := by
  intro instruction member
  obtain ⟨part, isPart, isInstruction⟩ := List.mem_flatten.mp member
  exact each part isPart instruction isInstruction

/-- Work on the operand stack accesses no slot. -/
theorem keepsTo_of_worksOnStack
    (works : WorksOnStack code) :
    KeepsTo ranges code := by
  intro instruction member
  cases works instruction member with
  | plain _ noAccess => exact .of_none noAccess
  | box type => exact .of_none rfl
  | unbox type => exact .of_none rfl

theorem KeepsTo.map
    (keeps : KeepsTo ranges code)
    (f : Nat → Nat) :
    KeepsTo ranges (code.map (Instruction.map f)) := by
  intro instruction member
  obtain ⟨origin, isOrigin, rfl⟩ := List.mem_map.mp member
  unfold Instruction.KeepsTo
  rw [Instruction.localAccess?_map]
  exact keeps origin isOrigin

theorem keepsTo_load
    {type : FieldType}
    (isRange : range ∈ ranges)
    (hasRoom : width type ≤ range.width) :
    KeepsTo ranges [.load (.ofType type) range.first] :=
  keepsTo_cons.mpr ⟨.of_holds rfl isRange ⟨rfl, LocalKind.slots_ofType type ▸ hasRoom⟩,
    keepsTo_nil⟩

theorem keepsTo_store
    {type : FieldType}
    (isRange : range ∈ ranges)
    (hasRoom : width type ≤ range.width) :
    KeepsTo ranges [.store (.ofType type) range.first] :=
  keepsTo_cons.mpr ⟨.of_holds rfl isRange ⟨rfl, LocalKind.slots_ofType type ▸ hasRoom⟩,
    keepsTo_nil⟩

/-! ### Boxes and closures -/

theorem keepsTo_boxCode
    {push : List (Instruction Nat)}
    (pushes : KeepsTo ranges push)
    (type : FieldType)
    (operation : BoxOperation) :
    KeepsTo ranges (operation.code push type) :=
  keepsTo_append.mpr ⟨pushes, keepsTo_of_worksOnStack (worksOnStack_boxBody type operation)⟩

theorem keepsTo_newBox
    {value : List (Instruction Nat)}
    (pushes : KeepsTo ranges value)
    (type : FieldType) :
    KeepsTo ranges (newBox type value) :=
  keepsTo_append.mpr
    ⟨keepsTo_append.mpr ⟨keepsTo_of_worksOnStack (worksOnStack_newArrayOf type), pushes⟩,
      keepsTo_cons.mpr ⟨.of_none rfl, keepsTo_nil⟩⟩

theorem keepsTo_construct
    {ε : Type}
    {plan : SitePlan}
    {load : Capture → Except ε (List (Instruction Nat))}
    (loads : ∀ capture ∈ plan.captures.captures, Ensures (KeepsTo ranges) (load capture)) :
    Ensures (KeepsTo ranges) (plan.construct load) := by
  unfold SitePlan.construct
  refine (ensures_mapM loads).bind fun loaded each => ensures_ok ?_
  have starts : KeepsTo ranges [.new plan.className, .op (.stack .dup)] :=
    keepsTo_cons.mpr ⟨.of_none rfl, keepsTo_cons.mpr ⟨.of_none rfl, keepsTo_nil⟩⟩
  exact keepsTo_append.mpr ⟨keepsTo_append.mpr ⟨starts, keepsTo_flatten each⟩,
    keepsTo_cons.mpr ⟨.of_none rfl, keepsTo_nil⟩⟩

end Keeping

/-! ## The slots of a site -/

/-- How many slots a variable of a site takes: two if any value in it does. -/
def internalWidth (entry : UInt16 × Bool) : Nat :=
  if entry.2 then 2 else 1

namespace ClosureScope

/-- The slots of the arguments of the implemented method. -/
def argumentRanges (scope : ClosureScope) : List SlotRange :=
  rangesOf width scope.arguments

/-- The slots of the parameters that fields stand for. -/
def parameterRanges (scope : ClosureScope) (fields : List FieldRef) : List SlotRange :=
  rangesOf scope.parameterWidth (fields.zip scope.parameterSlots)

/-- The new slots of the variables of the site. -/
def internalRanges (scope : ClosureScope) : List SlotRange :=
  rangesOf internalWidth (scope.self.captures.internal.zip (scope.locals.map Prod.snd))

/-- How many slots the implemented method uses. -/
def usedSlots (scope : ClosureScope) (fields : List FieldRef) : Nat :=
  1 + (scope.self.method.type.parameters.map width).sum +
    (fields.map scope.parameterWidth).sum + (scope.self.captures.internal.map internalWidth).sum

/-- Ranges have the receiver, the parameters and the variables of a site at the slots at which the
code of the site finds them. -/
structure FindsIn (scope : ClosureScope) (ranges : List SlotRange) : Prop where
  receiver : .receiver ∈ ranges
  parameter : ∀ field slot, scope.parameterSlot? field = some slot →
    ⟨slot, scope.parameterWidth field⟩ ∈ ranges
  internal : ∀ slot moved slots, scope.localSlot slot = .ok moved →
    KeepsSlot scope.self.captures.internal slot slots →
      ∃ range ∈ ranges, range.first = moved ∧ slots ≤ range.width

/-- A piece of the code of a site has room in the slots of the site, and a closure inside it takes
what the site holds. -/
structure Suits (scope : ClosureScope) (piece : Piece) : Prop where
  hasRoom : scope.self.captures.HasRoomFor scope.method (scope.sites.map SitePlan.captures)
    scope.self.site piece
  provides : ∀ nested span inner, piece = .site nested span → scope.sites[nested]? = some inner →
    ∀ capture ∈ inner.captures.captures,
      scope.self.captures.Provides scope.self.site scope.number capture

section Pieces

variable {scope : ClosureScope} {ranges : List SlotRange}

/-! ### Variables -/

theorem keepsTo_captureField
    (finds : scope.FindsIn ranges)
    (key : VariableKey) :
    Ensures (fun entry => KeepsTo ranges entry.1) (scope.captureField key) := by
  unfold captureField
  split
  · exact ensures_error
  · exact ensures_ok (keepsTo_cons.mpr ⟨.of_holds rfl finds.receiver ⟨rfl, Nat.le_refl 1⟩,
      keepsTo_cons.mpr ⟨.of_none rfl, keepsTo_nil⟩⟩)

theorem keepsTo_captureCode
    (finds : scope.FindsIn ranges)
    (key : VariableKey)
    (instruction : Instruction Nat)
    (mode : AccessMode) :
    Ensures (KeepsTo ranges) (scope.captureCode key instruction mode) := by
  unfold captureCode
  refine (keepsTo_captureField finds key).bind fun entry pushes => ?_
  dsimp only
  split
  · exact ensures_ok (keepsTo_boxCode pushes _ _)
  · split
    · exact ensures_ok pushes
    · exact ensures_error

/-- An access keeps its kind when it moves to another slot. -/
theorem keepsTo_internalCode
    (finds : scope.FindsIn ranges)
    {instruction : Instruction Nat}
    {access : LocalAccess}
    (isAccess : instruction.localAccess? = some access)
    (keeps : KeepsSlot scope.self.captures.internal access.slot access.kind.slots) :
    Ensures (KeepsTo ranges) (scope.internalCode instruction access.slot) := by
  intro code isCode
  unfold internalCode at isCode
  obtain ⟨moved, isMoved, equal⟩ := bind_eq_ok.mp isCode
  cases equal
  obtain ⟨range, isRange, rfl, hasRoom⟩ := finds.internal _ _ _ isMoved keeps
  cases instruction <;> cases isAccess <;>
    exact keepsTo_cons.mpr ⟨.of_holds rfl isRange ⟨rfl, hasRoom⟩, keepsTo_nil⟩

theorem keepsTo_localCode
    (finds : scope.FindsIn ranges)
    {index : Nat}
    {instruction : Instruction Nat}
    {access : LocalAccess}
    (isAccess : instruction.localAccess? = some access)
    (hasRoom : accessNeed scope.method scope.self.site index access = .keep access.slot →
      KeepsSlot scope.self.captures.internal access.slot access.kind.slots) :
    Ensures (KeepsTo ranges) (scope.localCode index instruction access) := by
  unfold accessNeed at hasRoom
  unfold localCode
  cases means : scope.method.variableUse access.slot index access.mode with
  | this =>
      dsimp only
      split
      · exact ensures_error
      · exact (keepsTo_captureField finds .this).bind fun entry pushes => ensures_ok pushes
  | declared entry =>
      simp only [means] at hasRoom
      dsimp only
      split
      · rw [if_pos ‹_›] at hasRoom
        exact keepsTo_internalCode finds isAccess (hasRoom rfl)
      · exact keepsTo_captureCode finds _ _ _
  | parameter slot => exact keepsTo_captureCode finds _ _ _
  | unknown =>
      simp only [means] at hasRoom
      exact keepsTo_internalCode finds isAccess (hasRoom trivial)

theorem keepsTo_parameterCode
    (finds : scope.FindsIn ranges)
    (binder : Nat)
    (field : FieldRef)
    (isWrite : Bool) :
    Ensures (KeepsTo ranges) (scope.parameterCode binder field isWrite) := by
  unfold parameterCode
  split
  · unfold ownParameterCode
    split
    · exact ensures_error
    · rename_i slot isSlot
      have isRange := finds.parameter field slot isSlot
      unfold parameterWidth at isRange
      split
      · rename_i isBoxed
        rw [if_pos isBoxed] at isRange
        have loads : Instruction.KeepsTo ranges (.load .reference slot) :=
          .of_holds rfl isRange ⟨rfl, Nat.le_refl 1⟩
        exact ensures_ok (keepsTo_boxCode (keepsTo_cons.mpr ⟨loads, keepsTo_nil⟩) _ _)
      · rename_i isPlain
        rw [if_neg isPlain] at isRange
        split
        · exact ensures_ok (keepsTo_store isRange (Nat.le_refl _))
        · exact ensures_ok (keepsTo_load isRange (Nat.le_refl _))
  · unfold outerParameterCode
    refine (keepsTo_captureField finds _).bind fun entry pushes => ?_
    dsimp only
    split
    · exact ensures_ok (keepsTo_boxCode pushes _ _)
    · split
      · exact ensures_error
      · exact ensures_ok pushes

/-! ### Closures inside the closure -/

/-- A parameter in a box takes the slot of the box, and others as many as their type says. -/
theorem width_storedType_of_provides
    {capture : Capture}
    {field : FieldRef}
    (provides : scope.self.captures.Provides scope.self.site scope.number capture)
    (isKey : capture.key = .parameter scope.number field) :
    width capture.storedType = scope.parameterWidth field := by
  obtain ⟨sameType, sameBox⟩ := provides.ownParameter field isKey
  unfold Capture.storedType parameterWidth isBoxed
  rw [sameBox, sameType]
  split <;> rfl

theorem keepsTo_loadForNested
    (finds : scope.FindsIn ranges)
    {capture : Capture}
    (provides : scope.self.captures.Provides scope.self.site scope.number capture)
    (hasRoom : ∀ slot start, capture.key = .local slot start →
      scope.self.site.declares start = true →
        KeepsSlot scope.self.captures.internal slot (width capture.type)) :
    Ensures (KeepsTo ranges) (scope.loadForNested capture) := by
  have pushesField : Ensures (KeepsTo ranges) (do
      let entry ← scope.captureField capture.key
      return entry.1) :=
    (keepsTo_captureField finds _).bind fun entry pushes => ensures_ok pushes
  unfold loadForNested
  dsimp only
  split
  · rename_i binder field isKey
    split
    · rename_i isOwn
      rw [isOwn] at isKey
      split
      · rename_i slot isSlot
        exact ensures_ok (keepsTo_load (finds.parameter field slot isSlot)
          (width_storedType_of_provides provides isKey).le)
      · exact ensures_error
    · exact pushesField
  · rename_i slot start isKey
    split
    · rename_i declares
      intro code isCode
      obtain ⟨moved, isMoved, equal⟩ := bind_eq_ok.mp isCode
      cases equal
      obtain ⟨range, isRange, rfl, enough⟩ :=
        finds.internal _ _ _ isMoved (hasRoom slot start isKey declares)
      exact keepsTo_load isRange enough
    · exact pushesField
  · exact pushesField

/-! ### Code -/

theorem keepsTo_otherCode
    {span : Span}
    {index : Nat}
    {instruction : Instruction Nat}
    {code : List (Instruction Nat)}
    {before after : BridgeTable}
    (noAccess : instruction.localAccess? = none)
    (coded : otherCode span index instruction before = .ok (code, after)) :
    KeepsTo ranges code := by
  unfold otherCode at coded
  obtain ⟨⟨bridge, table⟩, _, coded⟩ := bind_eq_ok.mp coded
  cases bridge with
  | some bridge =>
      cases coded
      exact keepsTo_cons.mpr ⟨.of_none rfl, keepsTo_nil⟩
  | none =>
      obtain ⟨plain, isPlain, equal⟩ := bind_eq_ok.mp coded
      cases equal
      unfold plainCode at isPlain
      split at isPlain
      · cases isPlain
      · cases isPlain
        exact keepsTo_cons.mpr ⟨.of_none noAccess, keepsTo_nil⟩

theorem keepsTo_instructionCode
    (finds : scope.FindsIn ranges)
    {span : Span}
    {index : Nat}
    {instruction : Instruction Nat}
    {code : List (Instruction Nat)}
    {before after : BridgeTable}
    (isInstruction : scope.method.instructions[index]? = some instruction)
    (hasRoom : HasRoomAt scope.method scope.self.site index scope.self.captures.internal)
    (coded : scope.instructionCode span index instruction before = .ok (code, after)) :
    KeepsTo ranges code := by
  unfold instructionCode at coded
  split at coded
  · rename_i access isAccess
    obtain ⟨replaced, isCode, equal⟩ := bind_eq_ok.mp coded
    cases equal
    exact keepsTo_localCode finds isAccess (hasRoom instruction access isInstruction isAccess) _
      isCode
  · rename_i noAccess
    split at coded
    · split at coded
      · obtain ⟨replaced, isCode, equal⟩ := bind_eq_ok.mp coded
        cases equal
        exact keepsTo_parameterCode finds _ _ _ _ isCode
      · exact keepsTo_otherCode noAccess coded
    · exact keepsTo_otherCode noAccess coded

theorem keepsTo_pieceCode
    (finds : scope.FindsIn ranges)
    {span : Span}
    {piece : Piece}
    {code : List (Instruction Nat)}
    {before after : BridgeTable}
    (suits : scope.Suits piece)
    (coded : scope.pieceCode span piece before = .ok (code, after)) :
    KeepsTo ranges code := by
  unfold pieceCode at coded
  cases piece with
  | site nested inside =>
      obtain ⟨constructed, isCode, equal⟩ := map_eq_ok.mp (mapError_eq_ok.mp coded)
      cases equal
      unfold constructNested at isCode
      split at isCode
      · rename_i inner isInner
        have isSettled : (scope.sites.map SitePlan.captures)[nested]? = some inner.captures := by
          rw [List.getElem?_map, isInner]
          rfl
        refine keepsTo_construct (fun capture isCapture => ?_) _ isCode
        exact keepsTo_loadForNested finds
          (suits.provides nested inside inner rfl isInner capture isCapture)
          (suits.hasRoom inner.captures isSettled capture isCapture)
      · cases isCode
        exact keepsTo_nil
  | instruction index =>
      dsimp only at coded
      cases isInstruction : scope.method.instructions[index]? with
      | none =>
          rw [isInstruction] at coded
          cases coded
          exact keepsTo_nil
      | some instruction =>
          rw [isInstruction] at coded
          exact keepsTo_instructionCode finds isInstruction suits.hasRoom
            (mapError_eq_ok.mp coded)

/-- The code for a span keeps to the ranges, as the code for each of its pieces does. -/
theorem keepsTo_translate
    (finds : scope.FindsIn ranges)
    {span : Span}
    {replacements : List Replacement}
    {before after : BridgeTable}
    (suits : ∀ piece ∈ piecesOf scope.lambdaSites (some scope.number) span, scope.Suits piece)
    (translated : scope.translate span before = .ok (replacements, after))
    (relocation : Relocation) :
    KeepsTo ranges (relocation.code replacements) := by
  intro instruction member
  obtain ⟨replacement, isReplacement, isInstruction⟩ := List.mem_flatMap.mp member
  obtain ⟨piece, isPiece, _, earlier, later, coded⟩ :=
    exists_mem_of_forall₂ (forall₂_of_translate_eq_ok translated) isReplacement
  exact (keepsTo_pieceCode finds (suits piece isPiece) coded).map _ instruction isInstruction

end Pieces

/-! ## Placement -/

/-- Each variable of the site has a slot in which the code of the site finds it, and as many slots
as any value in it takes. -/
def Relocates (scope : ClosureScope) : Prop :=
  List.Forall₂ (fun entry range => scope.localSlot entry.1 = .ok range.first ∧
      range.width = internalWidth entry)
    scope.self.captures.internal scope.internalRanges

section Placement

variable {scope : ClosureScope} {first : UInt16} {fields : List FieldRef}

theorem lookup_relocateSlots
    {internal : List (UInt16 × Bool)}
    (distinct : (internal.map Prod.fst).Nodup) :
    List.Forall₂ (fun entry range =>
        (relocateSlots internal first).lookup entry.1 = some range.first ∧
          range.width = internalWidth entry)
      internal (rangesFrom first (internal.map internalWidth)) := by
  induction internal generalizing first with
  | nil => exact .nil
  | cons entry rest inductionHypothesis =>
      obtain ⟨isNew, distinctRest⟩ := List.nodup_cons.mp distinct
      have relocated : relocateSlots (entry :: rest) first =
          (entry.1, first) :: relocateSlots rest (first + (internalWidth entry).toUInt16) := rfl
      refine .cons ⟨by rw [relocated, List.lookup_cons_self], rfl⟩ ?_
      refine ((List.forall₂_and_left _ _).mpr
        ⟨fun _ member => member, inductionHypothesis distinctRest⟩).imp ?_
      rintro other range ⟨isLater, found, sameWidth⟩
      -- Looking for a later slot passes the first one, as slots are kept once.
      have different : other.1 ≠ entry.1 := fun same =>
        isNew (same ▸ List.mem_map_of_mem (f := Prod.fst) isLater)
      refine ⟨?_, sameWidth⟩
      rw [relocated, List.lookup_cons, beq_false_of_ne different]
      exact found

/-- New slots are given out one after another. -/
theorem internalRanges_eq
    (areLocals : scope.locals = relocateSlots scope.self.captures.internal first) :
    scope.internalRanges = rangesFrom first (scope.self.captures.internal.map internalWidth) := by
  have slots : scope.locals.map Prod.snd =
      slotsFrom first (scope.self.captures.internal.map internalWidth) := by
    rw [areLocals]
    unfold relocateSlots
    exact List.map_snd_zip (by simp [length_slotsFrom])
  unfold internalRanges
  rw [slots, rangesOf_zip_slotsFrom]

theorem relocates
    (areLocals : scope.locals = relocateSlots scope.self.captures.internal first)
    (distinct : (scope.self.captures.internal.map Prod.fst).Nodup) :
    scope.Relocates := by
  unfold Relocates
  rw [internalRanges_eq areLocals]
  refine (lookup_relocateSlots distinct).imp ?_
  rintro entry range ⟨found, sameWidth⟩
  refine ⟨?_, sameWidth⟩
  unfold localSlot
  rw [areLocals, found]

/-- A slot with room for a value moves to one with room for it. -/
theorem Relocates.exists_range
    (isRelocated : scope.Relocates)
    {slot moved : UInt16}
    {slots : Nat}
    (isMoved : scope.localSlot slot = .ok moved)
    (keeps : KeepsSlot scope.self.captures.internal slot slots) :
    ∃ range ∈ scope.internalRanges, range.first = moved ∧ slots ≤ range.width := by
  obtain ⟨wide, member, enough⟩ := keeps
  obtain ⟨range, isRange, isFirst, isWidth⟩ := exists_mem_of_forall₂ isRelocated.flip member
  refine ⟨range, isRange, Except.ok.inj (isFirst.symm.trans isMoved), ?_⟩
  rw [isWidth]
  exact enough

/-- The slot of a parameter is the one that goes with its field. -/
theorem mem_zip_of_parameterSlot?
    {field : FieldRef}
    {slot : UInt16}
    (isSlot : scope.parameterSlot? field = some slot)
    (areFields : boundFields scope.self.site = .ok fields) :
    (field, slot) ∈ fields.zip scope.parameterSlots := by
  unfold parameterSlot? LambdaSite.binding? at isSlot
  obtain ⟨position, isPosition, isThere⟩ := Option.bind_eq_some_iff.mp isSlot
  obtain ⟨below, isField, _⟩ := List.findIdx?_eq_some_iff_getElem.mp isPosition
  have isParameter := List.getElem?_eq_getElem below
  have bound := forall₂_of_boundFields areFields
  have belowFields : position < fields.length := bound.length_eq ▸ below
  have isBound := related_of_getElem? bound isParameter (List.getElem?_eq_getElem belowFields)
  have sameField : fields[position] = field :=
    Option.some.inj (isBound.symm.trans (of_decide_eq_true isField))
  exact List.mem_of_getElem? (List.getElem?_zip_eq_some.mpr
    ⟨sameField ▸ List.getElem?_eq_getElem belowFields, isThere⟩)

theorem mem_rangesOf
    {α : Type}
    {widthOf : α → Nat}
    {placed : List (α × UInt16)}
    {value : α}
    {slot : UInt16}
    (member : (value, slot) ∈ placed) :
    ⟨slot, widthOf value⟩ ∈ rangesOf widthOf placed :=
  List.mem_map_of_mem (f := fun entry : α × UInt16 => SlotRange.mk entry.2 (widthOf entry.1)) member

theorem findsIn
    (isRelocated : scope.Relocates)
    {others : List SlotRange}
    (parameters : ∀ field slot, scope.parameterSlot? field = some slot →
      ⟨slot, scope.parameterWidth field⟩ ∈ others) :
    scope.FindsIn (.receiver :: others ++ scope.internalRanges) where
  receiver := List.mem_cons_self
  parameter := fun field slot isSlot =>
    List.mem_append_left _ (List.mem_cons_of_mem _ (parameters field slot isSlot))
  internal := fun slot moved slots isMoved keeps => by
    obtain ⟨range, isRange, found⟩ := isRelocated.exists_range isMoved keeps
    exact ⟨range, List.mem_append_right _ isRange, found⟩

end Placement

end ClosureScope

/-! ## Methods -/

/-- The code of a method has the receiver, other values and the variables of a site in slots of
their own: their ranges come one after another, and every instruction that loads or stores a value
does so at the first slot of a range that has room for the value. -/
structure ClosureScope.KeepsApart (scope : ClosureScope) (others : List SlotRange)
    (code : List (Instruction Nat)) : Prop where
  relocates : scope.Relocates
  apart : (.receiver :: others ++ scope.internalRanges).Pairwise SlotRange.Precedes
  keeps : KeepsTo (.receiver :: others ++ scope.internalRanges) code

/-- The methods of the class of a closure keep their values apart: the implemented method its
receiver, its arguments, the parameters of the closure and the variables of the site, and the
methods of default values the receiver and the variables of the site. -/
structure ClosureScope.HasLayout (scope : ClosureScope) (fields : List FieldRef)
    (defaults : List MethodDefinition) (implemented : MethodDefinition) : Prop where
  bound : boundFields scope.self.site = .ok fields
  implements : ∃ body, implemented =
      ⟨declares MethodFlags.accPublic scope.self.method.name scope.self.method.type, some body⟩ ∧
    (scope.withSlots fields).KeepsApart
      (scope.argumentRanges ++ (scope.withSlots fields).parameterRanges fields)
      body.instructions.toList
  accessors : ∀ accessor ∈ defaults, ∃ body, accessor.body = some body ∧
    scope.KeepsApart [] body.instructions.toList

namespace ClosureScope

section Methods

variable {scope : ClosureScope} {hierarchy : Hierarchy} {before after : BridgeTable}
  {ranges : List SlotRange} {fields : List FieldRef}

/-! ### Default values -/

/-- Slots are handed out after that of the receiver. -/
theorem receiver_cons_rangesFrom
    (widths : List Nat) :
    .receiver :: rangesFrom 1 widths = rangesFrom 0 (1 :: widths) :=
  rfl

theorem keepsApart_of_defaultMethod
    (areLocals : scope.locals = relocateSlots scope.self.captures.internal 1)
    (noParameters : scope.parameterSlots = [])
    (distinct : (scope.self.captures.internal.map Prod.fst).Nodup)
    (suits : ∀ span ∈ scope.self.site.code,
      ∀ piece ∈ piecesOf scope.lambdaSites (some scope.number) span, scope.Suits piece)
    (fits : 1 + (scope.self.captures.internal.map internalWidth).sum ≤ 65535)
    {position : Nat}
    {parameter : SiteParameter}
    {definition : MethodDefinition}
    (isParameter : parameter ∈ scope.self.site.parameters)
    (made : defaultMethod scope position parameter before = .ok (definition, after)) :
    ∃ body, definition.body = some body ∧ scope.KeepsApart [] body.instructions.toList := by
  obtain ⟨field, span, replacements, body, isDefault⟩ := defaultMethod_eq_ok made
  have isRelocated := relocates areLocals distinct
  -- The code for default values has no slots for parameters, so it accesses none.
  have finds : scope.FindsIn (.receiver :: [] ++ scope.internalRanges) := by
    refine findsIn isRelocated fun field slot isSlot => ?_
    unfold parameterSlot? at isSlot
    rw [noParameters] at isSlot
    simp at isSlot
  have isCode : span ∈ scope.self.site.code :=
    List.mem_append_left _ (List.mem_filterMap.mpr ⟨parameter, isParameter, isDefault.default⟩)
  refine ⟨body, by rw [isDefault.definition], isRelocated, ?_, ?_⟩
  · rw [List.cons_append, List.nil_append, internalRanges_eq areLocals, receiver_cons_rangesFrom]
    refine pairwise_rangesFrom ?_
    rw [List.sum_cons]
    exact (Nat.zero_add _).le.trans fits
  · rw [isDefault.instructions]
    exact keepsTo_append.mpr ⟨keepsTo_translate finds (suits span isCode) isDefault.translated _,
      keepsTo_cons.mpr ⟨.of_none rfl, keepsTo_nil⟩⟩

/-! ### The implemented method -/

theorem keepsTo_parameterPrologue
    (hasReceiver : .receiver ∈ ranges)
    {arguments : List (FieldType × UInt16)}
    (hasArguments : ∀ argument slot, (argument, slot) ∈ arguments →
      ⟨slot, width argument⟩ ∈ ranges)
    (hasParameters : ∀ field slot, (field, slot) ∈ fields.zip scope.parameterSlots →
      ⟨slot, scope.parameterWidth field⟩ ∈ ranges) :
    Ensures (KeepsTo ranges) (parameterPrologue scope hierarchy fields arguments) := by
  unfold parameterPrologue
  refine (ensures_mapM ?_).bind fun parts each => ensures_ok (keepsTo_flatten each)
  rintro ⟨⟨field, slot⟩, position⟩ member
  have isPlaced := List.mem_of_getElem? (List.mem_zipIdx_iff_getElem?.mp member)
  have isRange := hasParameters field slot isPlaced
  have pushes : Ensures (KeepsTo ranges)
      (parameterValue scope hierarchy field arguments[position]?) := by
    unfold parameterValue
    split
    · rename_i argument other isArgument
      have loads := keepsTo_load (hasArguments argument other (List.mem_of_getElem? isArgument))
        (Nat.le_refl (width argument))
      have adapts : Ensures (KeepsTo ranges) (adaptValue hierarchy argument field.type) :=
        fun code isCode =>
          keepsTo_of_worksOnStack (worksOnStack_adaptValue hierarchy _ _ code isCode)
      exact adapts.bind fun adapted keeps =>
        ensures_ok (keepsTo_append.mpr ⟨loads, keeps⟩)
    · exact ensures_ok (keepsTo_cons.mpr ⟨.of_holds rfl hasReceiver ⟨rfl, Nat.le_refl 1⟩,
        keepsTo_cons.mpr ⟨.of_none rfl, keepsTo_nil⟩⟩)
  refine pushes.bind fun value keeps => ensures_ok ?_
  unfold parameterWidth at isRange
  unfold storeParameter
  split
  · rename_i isBoxed
    rw [if_pos isBoxed] at isRange
    have stores : Instruction.KeepsTo ranges (.store .reference slot) :=
      .of_holds rfl isRange ⟨rfl, Nat.le_refl 1⟩
    exact keepsTo_append.mpr ⟨keepsTo_newBox keeps _, keepsTo_cons.mpr ⟨stores, keepsTo_nil⟩⟩
  · rename_i isPlain
    rw [if_neg isPlain] at isRange
    exact keepsTo_append.mpr ⟨keeps, keepsTo_store isRange (Nat.le_refl _)⟩

theorem Suits.withSlots
    {piece : Piece}
    (suits : scope.Suits piece)
    (fields : List FieldRef) :
    (scope.withSlots fields).Suits piece :=
  ⟨suits.hasRoom, suits.provides⟩

/-- The receiver, the arguments, the parameters and the variables of the site have slots one after
another. -/
theorem ranges_withSlots
    (scope : ClosureScope)
    (fields : List FieldRef) :
    .receiver :: (scope.argumentRanges ++ (scope.withSlots fields).parameterRanges fields) ++
        (scope.withSlots fields).internalRanges =
      rangesFrom 0 (1 :: (scope.self.method.type.parameters.map width ++
        (fields.map scope.parameterWidth ++ scope.self.captures.internal.map internalWidth))) := by
  have arguments : scope.argumentRanges =
      rangesFrom 1 (scope.self.method.type.parameters.map width) := rangesOf_zip_slotsFrom _ _ _
  have parameters : (scope.withSlots fields).parameterRanges fields =
      rangesFrom (slotAfter 1 (scope.self.method.type.parameters.map width))
        (fields.map scope.parameterWidth) := rangesOf_zip_slotsFrom _ _ _
  have internal : (scope.withSlots fields).internalRanges =
      rangesFrom (slotAfter (slotAfter 1 (scope.self.method.type.parameters.map width))
        (fields.map scope.parameterWidth)) (scope.self.captures.internal.map internalWidth) :=
    internalRanges_eq rfl
  rw [← receiver_cons_rangesFrom, rangesFrom_append, rangesFrom_append, arguments, parameters,
    internal, List.cons_append, List.append_assoc]

theorem keepsApart_of_implementation
    {implemented : MethodDefinition}
    (made : implementation scope hierarchy before = .ok (implemented, after))
    (distinct : (scope.self.captures.internal.map Prod.fst).Nodup)
    (suits : ∀ piece ∈ piecesOf scope.lambdaSites (some scope.number) scope.self.site.body,
      scope.Suits piece)
    (fits : ∀ fields, boundFields scope.self.site = .ok fields → scope.usedSlots fields ≤ 65535) :
    ∃ fields body, boundFields scope.self.site = .ok fields ∧
      implemented =
        ⟨declares MethodFlags.accPublic scope.self.method.name scope.self.method.type, some body⟩ ∧
      (scope.withSlots fields).KeepsApart
        (scope.argumentRanges ++ (scope.withSlots fields).parameterRanges fields)
        body.instructions.toList := by
  obtain ⟨fields, body, prologue, adapted, replacements, areFields, isMethod, isImplementation⟩ :=
    implementation_eq_ok made
  have isRelocated : (scope.withSlots fields).Relocates := relocates rfl distinct
  have finds : (scope.withSlots fields).FindsIn
      (.receiver :: (scope.argumentRanges ++ (scope.withSlots fields).parameterRanges fields) ++
        (scope.withSlots fields).internalRanges) :=
    findsIn isRelocated fun field slot isSlot =>
      have isPlaced : (field, slot) ∈ fields.zip (scope.withSlots fields).parameterSlots :=
        mem_zip_of_parameterSlot? isSlot areFields
      List.mem_append_right _ (mem_rangesOf isPlaced)
  refine ⟨fields, body, areFields, isMethod, isRelocated, ?_, ?_⟩
  · have enough := fits fields areFields
    unfold usedSlots at enough
    rw [ranges_withSlots]
    refine pairwise_rangesFrom ?_
    rw [List.sum_cons, List.sum_append, List.sum_append]
    change 0 + _ ≤ _
    omega
  · rw [isImplementation.instructions]
    -- The prologue alone accesses the arguments; the code of the body cannot name their slots.
    have startsRight : Ensures (KeepsTo _)
        (parameterPrologue (scope.withSlots fields) hierarchy fields scope.arguments) :=
      keepsTo_parameterPrologue finds.receiver
        (fun argument slot member => List.mem_append_left _ (List.mem_cons_of_mem _
          (List.mem_append_left _ (mem_rangesOf member))))
        (fun field slot member => List.mem_append_left _ (List.mem_cons_of_mem _
          (List.mem_append_right _ (mem_rangesOf member))))
    have starts := startsRight _ isImplementation.prologueMade
    have moved := keepsTo_translate finds
      (fun piece isPiece => (suits piece isPiece).withSlots fields) isImplementation.translated
      (.ofReplacements scope.self.site.body.start prologue.length replacements)
    have adapts := worksOnStack_adapt hierarchy _ _ _ isImplementation.adaptedMade
    exact keepsTo_append.mpr ⟨keepsTo_append.mpr ⟨keepsTo_append.mpr ⟨starts, moved⟩,
      keepsTo_of_worksOnStack adapts⟩, keepsTo_cons.mpr ⟨.of_none rfl, keepsTo_nil⟩⟩

end Methods

end ClosureScope

/-! ## Planned sites -/

section Planned

variable {Memory : Type} {method : Method} {hierarchy : Hierarchy} {convention : Convention Memory}
  {place : Place} {before after : Memory}

/-- Every planned site keeps its variables in different slots, and these suit all its code. -/
theorem suits_of_planMethod_eq_ok
    {calls : List Nat}
    {firstId : Nat}
    {settings : Settings}
    {plan : MethodPlan}
    (planned : planMethod method calls firstId settings hierarchy convention place before =
      .ok plan after)
    {number : Nat}
    {self : SitePlan}
    (isSelf : plan.sites[number]? = some self)
    (classPlace : Place) :
    (self.captures.internal.map Prod.fst).Nodup ∧
      ∀ span ∈ self.site.code, ∀ piece ∈ piecesOf plan.lambdaSites (some number) span,
        (ClosureScope.ofSite method plan.sites number self classPlace).Suits piece := by
  obtain ⟨analysis, sites, captures, methods, names, between, _, detected, analyzed, resolved,
    named, rfl⟩ := planMethod_eq_ok.mp planned
  obtain ⟨sorted, isDetected⟩ := detectSites_isDetected detected
  have ordered := isDetected.parentsFirst
  have sameSites := lambdaSites_ofSteps (length_of_analyzeCaptures analyzed)
    (forall₂_of_mapM_eq_ok resolved).length_eq.symm (forall₂_of_mapM_eq_ok named).length_eq.symm
  obtain ⟨isSite, isOwn, _⟩ := getElem?_ofSteps isSelf
  obtain ⟨inOrder, hasRoom⟩ := hasRoom_of_analyzeCaptures ordered analyzed isSite isOwn
  refine ⟨inOrder.imp UInt16.ne_of_lt, fun span isCode piece isPiece => ?_⟩
  rw [sameSites] at isPiece
  refine ⟨?_, ?_⟩
  · cases piece with
    | instruction index => exact hasRoom span isCode _ isPiece
    | site nested inside =>
        intro settled isSettled
        rw [List.getElem?_map, Option.map_eq_some_iff] at isSettled
        obtain ⟨inner, isInner, rfl⟩ := isSettled
        exact hasRoom span isCode _ isPiece inner.captures (getElem?_ofSteps isInner).2.1
  · rintro nested inside inner rfl isInner capture isCapture
    exact provides_of_analyzeCaptures ordered analyzed isSite isCode isPiece isOwn
      (getElem?_ofSteps isInner).2.1 isCapture

/-- **Slots**: in the class of the closure of a planned site, no two values of a method share a
slot, and none is loaded or stored where there is too little room for it, as long as there are slots
enough. -/
theorem hasLayout_of_planMethod_eq_ok
    {calls : List Nat}
    {firstId : Nat}
    {settings : Settings}
    {plan : MethodPlan}
    (planned : planMethod method calls firstId settings hierarchy convention place before =
      .ok plan after)
    {number : Nat}
    {self : SitePlan}
    (isSelf : plan.sites[number]? = some self)
    {classHierarchy : Hierarchy}
    {version : Version}
    {classPlace : Place}
    {earlier later : BridgeTable}
    {definition : ClassDefinition}
    (made : closureClass method plan.sites number self classHierarchy version classPlace earlier =
      .ok (definition, later))
    (fits : ∀ fields, boundFields self.site = .ok fields →
      (ClosureScope.ofSite method plan.sites number self classPlace).usedSlots fields ≤ 65535) :
    ∃ super fields defaults implemented,
      definition.methods =
        (ClosureScope.ofSite method plan.sites number self classPlace).constructorMethod super ::
          defaults ++ [implemented] ∧
      (ClosureScope.ofSite method plan.sites number self classPlace).HasLayout fields defaults
        implemented := by
  obtain ⟨super, defaults, implemented, between, isClass⟩ := closureClass_eq_ok made
  obtain ⟨distinct, suits⟩ := suits_of_planMethod_eq_ok planned isSelf classPlace
  have isBody : self.site.body ∈ self.site.code :=
    List.mem_append_right _ (List.mem_singleton.mpr rfl)
  obtain ⟨fields, body, areFields, isMethod, apart⟩ :=
    ClosureScope.keepsApart_of_implementation isClass.implementedMade distinct (suits _ isBody) fits
  have enough := fits fields areFields
  unfold ClosureScope.usedSlots at enough
  refine ⟨super, fields, defaults, implemented, isClass.methods, areFields, ⟨body, isMethod, apart⟩,
    fun accessor isAccessor => ?_⟩
  obtain ⟨⟨parameter, position⟩, isDropped, _, _, isMade⟩ :=
    exists_mem_of_forall₂ (forall₂_of_thread_mapM_eq_ok isClass.defaultsMade) isAccessor
  have isParameter : parameter ∈ self.site.parameters :=
    List.mem_of_getElem? (List.mem_zipIdx_iff_getElem?.mp (List.mem_of_mem_drop isDropped))
  exact ClosureScope.keepsApart_of_defaultMethod rfl rfl distinct suits
    (Nat.le_trans (Nat.add_le_add_right (by omega) _) enough) isParameter isMade

end Planned

/-! ## A variable of two slots -/

namespace WideVariables

open GuardedClosures

/-- A method that makes a closure with a variable of its own, which keeps a long number:
`defer(1 + (int) (number = 7L))`. -/
def method : Method where
  instructions := #[
    .pushInt 1,
    .pushLong 7,
    .store .long 0,
    .load .long 0,
    .op (.convert .longToInt),
    .op (.arithmetic .add .int),
    .invoke .static factory,
    .op (.leave (some .reference))]
  owner := ⟨"wide/Demo", by decide⟩
  flags := MethodFlags.accStatic
  name := ⟨"shortened", by decide⟩
  type := ⟨[], some (.ref (.object supplier))⟩
  hasVariableTable := true
  maxLocals := 2

/-- The frames of the method. -/
def frames : FlowAnalysis where
  frames :=
    let assigned : List VType := [.long, .top]
    #[
      some ⟨[], []⟩,
      some ⟨[], [.int]⟩,
      some ⟨[], [.long, .int]⟩,
      some ⟨assigned, [.int]⟩,
      some ⟨assigned, [.long, .int]⟩,
      some ⟨assigned, [.int, .int]⟩,
      some ⟨assigned, [.int]⟩,
      some ⟨assigned, [.object (.object supplier)]⟩]
  maxStack := 3
  maxLocals := 2

/-- What the closure uses: a slot of its own, for a value of two slots. -/
def captures : SiteCaptures where
  internal := [(0, true)]

/-- The plan of the closure. -/
def self : SitePlan :=
  ⟨site 0 6 none, captures, outcome, ⟨"wide/Demo$Supplier$L0$0", by decide⟩⟩

/-- The plan of the method. -/
def plan : MethodPlan where
  sites := [self]
  boxes := []

/-- No bridges yet. -/
def bridges : BridgeTable :=
  ⟨method.owner, [], [], [], 0, []⟩

/-- The code of the closure. -/
def scope : ClosureScope :=
  .ofSite method plan.sites 0 self .unknown

theorem planMethod_eq_plan :
    planMethod method [6] 0 .standard hierarchy convention .unknown () = .ok plan () := by
  have resolved : abstractMethods [site 0 6 none] hierarchy .unknown = .ok [outcome] := by
    unfold abstractMethods
    rw [List.mapM_cons, abstractMethod_eq]
    rfl
  exact planMethod_eq_ok.mpr ⟨frames, [site 0 6 none], ⟨[captures], []⟩, [outcome],
    [self.className], (), by decide +kernel, by with_unfolding_all rfl,
    by with_unfolding_all rfl, resolved, by decide +kernel, rfl⟩

end WideVariables

open GuardedClosures (hierarchy convention) in
open WideVariables in
/-- The variable of a closure moves to the two slots after that of the receiver. -/
theorem wideVariable_hasLayout :
    planMethod method [6] 0 .standard hierarchy convention .unknown () = .ok plan () ∧
      ∃ definition later,
        closureClass method plan.sites 0 self hierarchy .java8 .unknown bridges =
          .ok (definition, later) ∧
        scope.usedSlots [] = 3 ∧
        ∃ super defaults implemented,
          definition.methods = scope.constructorMethod super :: defaults ++ [implemented] ∧
          scope.HasLayout [] defaults implemented ∧
          (scope.withSlots []).internalRanges = [⟨1, 2⟩] := by
  obtain ⟨definition, later, made⟩ : ∃ definition later,
      closureClass method plan.sites 0 self hierarchy .java8 .unknown bridges =
        .ok (definition, later) :=
    ⟨_, _, by with_unfolding_all rfl⟩
  have noFields : ∀ fields, boundFields self.site = .ok fields → fields = [] := by
    rintro fields ⟨⟩
    rfl
  obtain ⟨super, fields, defaults, implemented, methods, hasLayout⟩ :=
    hasLayout_of_planMethod_eq_ok planMethod_eq_plan rfl made
      fun fields bound => noFields fields bound ▸ (by decide)
  rw [noFields fields hasLayout.bound] at hasLayout
  exact ⟨planMethod_eq_plan, definition, later, made, by decide, super, defaults, implemented,
    methods, hasLayout, by decide⟩

end ClosureConversion
