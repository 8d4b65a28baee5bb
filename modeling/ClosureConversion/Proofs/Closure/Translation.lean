import ClosureConversion.Proofs.Capture.Coverage
import ClosureConversion.Proofs.Closure.Construction

/-!
Contract: translating the code of a site never fails because the analysis of captures missed
something.

Owns:
- the faults that only a gap between the analysis and the translation can cause;
- the code for every piece of a site avoids them if the analysis covers the code.

Does not own: the faults that a method itself is to blame for.
-/

namespace ClosureConversion

/-! ## Internal faults -/

/-- The analysis of captures was wrong. -/
def SiteFault.IsInternal : SiteFault → Prop
  | .untrackedCapture _ | .unclassifiedSlot _ | .unavailableParameter _ | .readOnlyParameter _
  | .thisReassignedInside | .unboundClosureParameter | .noDefault _ _ | .outermostParameter _ => True
  | _ => False

/-- The analysis of captures was wrong. -/
def Fault.IsInternal : Fault → Prop
  | .malformedSite fault => fault.IsInternal
  | _ => False

/-- The analysis of captures was wrong. -/
def ClosureError.IsInternal : ClosureError → Prop
  | .located _ fault => fault.IsInternal
  | .settings _ => False

section Faults

variable {α : Type}

theorem Fault.not_isInternal_ofBytecode
    (error : BytecodeError) :
    ¬(Fault.ofBytecode error).IsInternal := by
  unfold ofBytecode
  split <;> exact id

theorem Place.avoids_malformed
    {computation : Except SiteFault α}
    (place : Place)
    (avoids : Avoids SiteFault.IsInternal computation) :
    Avoids ClosureError.IsInternal (computation.mapError place.malformed) :=
  avoids.mapError fun _ => id

theorem Place.avoids_locate
    {computation : Except Fault α}
    (place : Place)
    (avoids : Avoids Fault.IsInternal computation) :
    Avoids ClosureError.IsInternal (place.locate computation) :=
  avoids.mapError fun _ => id

/-- Bytecode is never to blame for the analysis of captures. -/
theorem avoids_ofBytecode
    (computation : Except BytecodeError α) :
    Avoids Fault.IsInternal (computation.mapError Fault.ofBytecode) :=
  avoids_mapError Fault.not_isInternal_ofBytecode

theorem Place.avoids_locateBytecode
    (place : Place)
    (computation : Except BytecodeError α) :
    Avoids ClosureError.IsInternal (place.locateBytecode computation) :=
  avoids_mapError Fault.not_isInternal_ofBytecode

end Faults

/-! ## Adaptation -/

theorem avoids_adaptValue
    (hierarchy : Hierarchy)
    (source target : FieldType) :
    Avoids Fault.IsInternal
      (adaptValue hierarchy source target : Except Fault (List (Instruction Nat))) := by
  unfold adaptValue
  split
  · exact avoids_ok
  · split
    · exact avoids_ok
    · refine (avoids_ofBytecode _).bind fun assignable _ => ?_
      split
      · exact avoids_ok
      · exact avoids_error id
    · exact avoids_ok
    · unfold adaptReference
      split
      · exact avoids_ok
      · exact (avoids_ofBytecode _).bind fun assignable _ => avoids_ok
    · exact avoids_error id

theorem avoids_adapt
    (hierarchy : Hierarchy)
    (source target : Option FieldType) :
    Avoids Fault.IsInternal
      (adapt hierarchy source target : Except Fault (List (Instruction Nat))) := by
  unfold adapt
  split
  · exact avoids_ok
  · exact avoids_ok
  · exact avoids_ok
  · exact avoids_adaptValue hierarchy _ _

/-! ## Slots -/

/-- Every slot of a site gets a new one. -/
theorem exists_lookup_relocateSlots
    {internal : List (UInt16 × Bool)}
    {slot : UInt16}
    (member : slot ∈ internal.map Prod.fst)
    (first : UInt16) :
    ∃ moved, (relocateSlots internal first).lookup slot = some moved := by
  have keys : (relocateSlots internal first).map Prod.fst = internal.map Prod.fst := by
    unfold relocateSlots
    rw [List.map_fst_zip]
    simp [length_slotsFrom]
  rw [← keys, List.mem_map] at member
  obtain ⟨entry, isEntry, isSlot⟩ := member
  rw [← Option.isSome_iff_exists, List.lookup_isSome_iff]
  exact ⟨entry, isEntry, by simp [isSlot]⟩

/-! ## Scopes -/

/-- The variables that the closures of planned sites capture. -/
def capturedKeys (plans : List SitePlan) (number : Nat) : List VariableKey :=
  (plans[number]?.map fun plan => plan.captures.keys).getD []

/-- The code of a site has all around it that the analysis says it needs. -/
structure ClosureScope.IsReady (scope : ClosureScope) : Prop where
  self : scope.sites[scope.number]? = some scope.self
  covered : ∀ number plan, scope.sites[number]? = some plan →
    IsCovered scope.lambdaSites scope.method (capturedKeys scope.sites) plan.site number
      plan.captures
  fields : scope.fields.length = scope.self.captures.captures.length
  locals : ∀ slot ∈ scope.self.captures.internal.map Prod.fst,
    ∃ moved, scope.locals.lookup slot = some moved

namespace ClosureScope

variable {scope : ClosureScope}

theorem exists_captureField
    (ready : scope.IsReady)
    {key : VariableKey}
    (isKey : key ∈ scope.self.captures.keys) :
    ∃ push, ∃ capture ∈ scope.self.captures.captures, capture.key = key ∧
      scope.captureField key = .ok (push, capture) := by
  unfold captureField
  cases found : (scope.self.captures.captures.zip scope.fields).find? fun entry =>
      entry.1.key = key with
  | none =>
      obtain ⟨capture, isCapture, hasKey⟩ := List.mem_map.mp isKey
      obtain ⟨position, isAt⟩ := List.getElem?_of_mem isCapture
      have below := (List.getElem?_eq_some_iff.mp isAt).1
      rw [← ready.fields] at below
      have isEntry : (capture, scope.fields[position]) ∈
          scope.self.captures.captures.zip scope.fields :=
        List.mem_of_getElem? (List.getElem?_zip_eq_some.mpr
          ⟨isAt, List.getElem?_eq_getElem below⟩)
      exact absurd (decide_eq_true hasKey) (List.find?_eq_none.mp found _ isEntry)
  | some entry =>
      obtain ⟨capture, name⟩ := entry
      have isFound := List.find?_some found
      exact ⟨_, capture, (List.of_mem_zip (List.mem_of_find?_eq_some found)).1,
        of_decide_eq_true isFound, rfl⟩

theorem exists_localSlot
    (ready : scope.IsReady)
    {slot : UInt16}
    (isKept : slot ∈ scope.self.captures.internal.map Prod.fst) :
    ∃ moved, scope.localSlot slot = .ok moved := by
  obtain ⟨moved, isMoved⟩ := ready.locals slot isKept
  exact ⟨moved, by unfold localSlot; rw [isMoved]⟩

/-! ## Variables -/

theorem avoids_captureCode
    (ready : scope.IsReady)
    {key : VariableKey}
    (isKey : key ∈ scope.self.captures.keys)
    (instruction : Instruction Nat)
    (mode : AccessMode) :
    Avoids SiteFault.IsInternal (scope.captureCode key instruction mode) := by
  obtain ⟨push, capture, _, _, isField⟩ := exists_captureField ready isKey
  unfold captureCode
  rw [isField]
  refine avoids_ok.bind fun entry isEntry => ?_
  cases isEntry
  dsimp only
  split
  · exact avoids_ok
  · split
    · exact avoids_ok
    · exact avoids_error id

theorem avoids_internalCode
    (ready : scope.IsReady)
    {slot : UInt16}
    (isKept : slot ∈ scope.self.captures.internal.map Prod.fst)
    (instruction : Instruction Nat) :
    Avoids SiteFault.IsInternal (scope.internalCode instruction slot) := by
  obtain ⟨moved, isMoved⟩ := exists_localSlot ready isKept
  unfold internalCode
  rw [isMoved]
  exact avoids_ok.bind fun _ _ => avoids_ok

theorem avoids_localCode
    (ready : scope.IsReady)
    {index : Nat}
    {instruction : Instruction Nat}
    {access : LocalAccess}
    (isInstruction : scope.method.instructions[index]? = some instruction)
    (isAccess : instruction.localAccess? = some access)
    (meets : scope.self.captures.Meets (accessNeed scope.method scope.self.site index access)) :
    Avoids SiteFault.IsInternal (scope.localCode index instruction access) := by
  unfold localCode
  cases means : scope.method.variableUse access.slot index access.mode with
  | this =>
      simp only [accessNeed, means] at meets
      have isKey : .this ∈ scope.self.captures.keys := meets
      obtain ⟨push, capture, _, _, isField⟩ := exists_captureField ready isKey
      dsimp only
      rw [isField]
      split
      · rename_i isAssigned
        exact absurd ⟨instruction, access, isInstruction, isAccess, isAssigned, by rw [means]; rfl⟩
          ((ready.covered _ _ ready.self).readsThis isKey index)
      · exact avoids_ok.bind fun _ _ => avoids_ok
  | declared entry =>
      simp only [accessNeed, means] at meets
      dsimp only
      split
      · rw [if_pos ‹_›] at meets
        exact avoids_internalCode ready meets instruction
      · rw [if_neg ‹_›] at meets
        exact avoids_captureCode ready meets instruction access.mode
  | parameter slot =>
      simp only [accessNeed, means] at meets
      exact avoids_captureCode ready meets instruction access.mode
  | unknown =>
      simp only [accessNeed, means] at meets
      exact avoids_internalCode ready meets instruction

theorem avoids_parameterCode
    (ready : scope.IsReady)
    {binder : Nat}
    {field : FieldRef}
    {isWrite : Bool}
    (isBinder : binder? scope.lambdaSites scope.number field = some binder)
    (meets : ∀ need ∈ parameterNeeds scope.lambdaSites scope.number field isWrite,
      scope.self.captures.Meets need) :
    Avoids SiteFault.IsInternal (scope.parameterCode binder field isWrite) := by
  unfold parameterNeeds at meets
  rw [isBinder] at meets
  dsimp only at meets
  unfold parameterCode
  split
  · unfold ownParameterCode
    split
    · exact avoids_error id
    · split
      · exact avoids_ok
      · split <;> exact avoids_ok
  · rw [if_neg ‹_›] at meets
    have isKey : .parameter binder field ∈ scope.self.captures.keys :=
      meets (.capture (.parameter binder field)) List.mem_cons_self
    obtain ⟨push, capture, isCapture, hasKey, isField⟩ := exists_captureField ready isKey
    unfold outerParameterCode
    rw [isField]
    refine avoids_ok.bind fun entry isEntry => ?_
    cases isEntry
    dsimp only
    split
    · exact avoids_ok
    · rename_i immutable
      split
      · rename_i writes
        have isShared := meets (.write binder field)
          (List.mem_cons_of_mem _ (by simp [writes]))
        exact absurd (isShared capture isCapture hasKey) immutable
      · exact avoids_ok

/-! ## Code -/

theorem avoids_redirect
    (table : BridgeTable)
    (instruction : Instruction Nat) :
    Avoids SiteFault.IsInternal (table.redirect instruction) := by
  unfold BridgeTable.redirect
  refine Avoids.bind ?_ fun use _ => by split <;> exact avoids_ok
  unfold BridgeTable.privateUse
  split
  · exact avoids_ok
  · split
    · split
      · exact avoids_error id
      · exact avoids_ok
    · split
      · exact avoids_ok
      · exact avoids_error id
  · exact avoids_ok
  · exact avoids_ok

theorem avoids_otherCode
    (span : Span)
    (index : Nat)
    (instruction : Instruction Nat)
    (table : BridgeTable) :
    Avoids SiteFault.IsInternal (otherCode span index instruction table) := by
  unfold otherCode
  refine (avoids_redirect table instruction).bind fun answer _ => ?_
  split
  · exact avoids_ok
  · refine Avoids.bind ?_ fun _ _ => avoids_ok
    unfold plainCode
    split
    · exact avoids_error id
    · exact avoids_ok

theorem avoids_instructionCode
    (ready : scope.IsReady)
    {index : Nat}
    {instruction : Instruction Nat}
    (isInstruction : scope.method.instructions[index]? = some instruction)
    (meets : ∀ need ∈ instructionNeeds scope.lambdaSites scope.method scope.self.site scope.number
      index instruction, scope.self.captures.Meets need)
    (span : Span)
    (table : BridgeTable) :
    Avoids SiteFault.IsInternal (scope.instructionCode span index instruction table) := by
  unfold instructionNeeds at meets
  unfold instructionCode
  split
  · rename_i access isAccess
    refine Avoids.bind (avoids_localCode ready isInstruction isAccess ?_) fun _ _ => avoids_ok
    exact meets _ (List.mem_append_left _ (by simp [isAccess]))
  · split
    · rename_i field isWrite isField
      split
      · rename_i binder isBinder
        refine Avoids.bind (avoids_parameterCode ready isBinder ?_) fun _ _ => avoids_ok
        intro need member
        refine meets need (List.mem_append_right _ ?_)
        simpa only [fieldNeeds, isField] using member
      · exact avoids_otherCode span index instruction table
    · exact avoids_otherCode span index instruction table

/-- The parameters of the site have slots. -/
def HasParameters (scope : ClosureScope) : Prop :=
  scope.parameterSlots.length = scope.self.site.parameters.length

theorem exists_parameterSlot?
    (hasParameters : scope.HasParameters)
    {field : FieldRef}
    (isBound : (scope.self.site.binding? field).isSome = true) :
    ∃ slot, scope.parameterSlot? field = some slot := by
  obtain ⟨position, isPosition⟩ := Option.isSome_iff_exists.mp isBound
  have below : position < scope.parameterSlots.length := by
    rw [hasParameters]
    exact (List.findIdx?_eq_some_iff_getElem.mp isPosition).1
  unfold parameterSlot?
  rw [isPosition]
  exact ⟨_, List.getElem?_eq_getElem below⟩

theorem avoids_loadForNested
    (ready : scope.IsReady)
    (hasParameters : scope.HasParameters)
    {nested : Nat}
    {plan : SitePlan}
    (isNested : scope.sites[nested]? = some plan)
    (meets : ∀ need ∈ plan.captures.keys.filterMap (nestedNeed? scope.self.site scope.number),
      scope.self.captures.Meets need)
    {capture : Capture}
    (isCapture : capture ∈ plan.captures.captures) :
    Avoids SiteFault.IsInternal (scope.loadForNested capture) := by
  have isKey : capture.key ∈ plan.captures.keys := List.mem_map_of_mem isCapture
  have meetsNeed : ∀ need, nestedNeed? scope.self.site scope.number capture.key = some need →
      scope.self.captures.Meets need :=
    fun need isNeed => meets need (List.mem_filterMap.mpr ⟨capture.key, isKey, isNeed⟩)
  have pushes : capture.key ∈ scope.self.captures.keys →
      ∃ entry, scope.captureField capture.key = .ok entry := by
    intro isOwn
    obtain ⟨push, own, _, _, isField⟩ := exists_captureField ready isOwn
    exact ⟨_, isField⟩
  unfold loadForNested
  dsimp only
  cases hasKey : capture.key with
  | parameter binder field =>
      simp only [hasKey, nestedNeed?] at meetsNeed pushes isKey
      dsimp only
      split
      · rename_i isOwn
        subst isOwn
        obtain ⟨_, _, site, isSite, isBound⟩ :=
          (ready.covered nested plan isNested).bound _ field isKey
        have isSelf : scope.lambdaSites[scope.number]? = some scope.self.site := by
          rw [lambdaSites, List.getElem?_map, ready.self]
          rfl
        obtain rfl : site = scope.self.site := Option.some.inj (isSite.symm.trans isSelf)
        obtain ⟨slot, isSlot⟩ := exists_parameterSlot? hasParameters isBound
        rw [isSlot]
        exact avoids_ok
      · obtain ⟨entry, isField⟩ :=
          pushes (meetsNeed (.capture (.parameter binder field)) (by rw [if_neg ‹_›]))
        rw [isField]
        exact avoids_ok
  | «local» slot start =>
      simp only [hasKey, nestedNeed?] at meetsNeed pushes
      dsimp only
      split
      · obtain ⟨moved, isMoved⟩ :=
          exists_localSlot ready (meetsNeed (.keep slot) (by rw [if_pos ‹_›]))
        rw [isMoved]
        exact avoids_ok.bind fun _ _ => avoids_ok
      · obtain ⟨entry, isField⟩ :=
          pushes (meetsNeed (.capture (.local slot start)) (by rw [if_neg ‹_›]))
        rw [isField]
        exact avoids_ok
  | this =>
      simp only [hasKey, nestedNeed?] at meetsNeed pushes
      obtain ⟨entry, isField⟩ := pushes (meetsNeed (.capture .this) rfl)
      dsimp only
      rw [isField]
      exact avoids_ok

/-- The code for a piece has what it needs: where a site is inside, the parameters as well. -/
theorem avoids_pieceCode
    (ready : scope.IsReady)
    {piece : Piece}
    (hasParameters : ∀ nested inner, piece = .site nested inner → scope.HasParameters)
    (meets : ∀ need ∈ pieceNeeds scope.lambdaSites scope.method (capturedKeys scope.sites)
      scope.self.site scope.number piece, scope.self.captures.Meets need)
    (span : Span)
    (table : BridgeTable) :
    Avoids ClosureError.IsInternal (scope.pieceCode span piece table) := by
  unfold pieceCode
  cases piece with
  | site nested inner =>
      refine scope.place.avoids_malformed (Avoids.map ?_ _)
      unfold constructNested
      cases isNested : scope.sites[nested]? with
      | none => exact avoids_ok
      | some plan =>
          simp only [pieceNeeds, capturedKeys, isNested, Option.map_some, Option.getD_some] at meets
          refine Avoids.bind (avoids_mapM fun capture isCapture => ?_) fun _ _ => avoids_ok
          exact avoids_loadForNested ready (hasParameters nested inner rfl) isNested meets isCapture
  | instruction index =>
      dsimp only
      cases isInstruction : scope.method.instructions[index]? with
      | none => exact avoids_ok
      | some instruction =>
          simp only [pieceNeeds, isInstruction] at meets
          exact Place.avoids_malformed _
            (avoids_instructionCode ready isInstruction meets span table)

theorem avoids_translate
    (ready : scope.IsReady)
    {span : Span}
    (isCode : span ∈ scope.self.site.code)
    (hasParameters : ∀ nested inner,
      .site nested inner ∈ piecesOf scope.lambdaSites (some scope.number) span →
        scope.HasParameters)
    (table : BridgeTable) :
    Avoids ClosureError.IsInternal (scope.translate span table) := by
  unfold translate
  refine avoids_thread_mapM (fun piece isPiece before => ?_) table
  refine avoids_thread_bind (avoids_pieceCode ready ?_ ?_ span before) fun _ _ _ => avoids_ok
  · rintro nested inner rfl
    exact hasParameters nested inner isPiece
  · intro need member
    refine (ready.covered _ _ ready.self).meets need ?_
    exact List.mem_flatMap.mpr ⟨span, isCode, List.mem_flatMap.mpr ⟨piece, isPiece, member⟩⟩

end ClosureScope

end ClosureConversion
