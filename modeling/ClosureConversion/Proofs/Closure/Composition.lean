import ClosureConversion.Proofs.Closure.Construction

/-!
Contract: what the code of a closure is composed of.

Owns:
- code that works on the operand stack alone, and the instructions that are added to those of the
  source;
- the instructions of the source that the class of a closure takes over;
- a relation between code and what takes its place holds of all the code of a closure if it holds
  of single instructions.

Does not own: what such a relation says.
-/

namespace ClosureConversion

/-! ## Added code -/

/-- The instruction uses no member of a class, and holds no constant that may name one. -/
def Instruction.IsPlain : Instruction Nat → Prop
  | .pushLiteral _ | .field _ _ | .invoke _ _ | .invokeDynamic _ => False
  | _ => True

/-! ### Work on the operand stack -/

/-- The instruction works on the operand stack alone, or calls a method that puts a value into an
object or takes it out. -/
inductive Instruction.WorksOnStack : Instruction Nat → Prop where
  | plain {instruction : Instruction Nat} (isPlain : instruction.IsPlain)
      (noAccess : instruction.localAccess? = none) : WorksOnStack instruction
  | box (type : BaseType) : WorksOnStack (boxValue type)
  | unbox (type : BaseType) : WorksOnStack (unboxValue type)

/-- All instructions of the code work on the operand stack. -/
def WorksOnStack (code : List (Instruction Nat)) : Prop :=
  ∀ instruction ∈ code, instruction.WorksOnStack

theorem worksOnStack_nil :
    WorksOnStack [] := by
  simp [WorksOnStack]

theorem worksOnStack_cons
    {instruction : Instruction Nat}
    {code : List (Instruction Nat)} :
    WorksOnStack (instruction :: code) ↔ instruction.WorksOnStack ∧ WorksOnStack code := by
  simp [WorksOnStack]

theorem worksOnStack_append
    {first second : List (Instruction Nat)} :
    WorksOnStack (first ++ second) ↔ WorksOnStack first ∧ WorksOnStack second :=
  List.forall_mem_append

theorem worksOnStack_plain
    {code : List (Instruction Nat)}
    (isPlain : ∀ instruction ∈ code, instruction.IsPlain ∧ instruction.localAccess? = none) :
    WorksOnStack code :=
  fun instruction member => .plain (isPlain instruction member).1 (isPlain instruction member).2

theorem worksOnStack_adaptBase
    (source target : BaseType) :
    WorksOnStack (adaptBase source target) := by
  unfold adaptBase
  split
  · exact worksOnStack_nil
  · intro instruction member
    obtain ⟨conversion, _, rfl⟩ := List.mem_map.mp member
    exact .plain trivial rfl

theorem worksOnStack_adaptValue
    (hierarchy : Hierarchy)
    (source target : FieldType) :
    Ensures WorksOnStack (adaptValue hierarchy source target) := by
  unfold adaptValue
  split
  · exact ensures_ok worksOnStack_nil
  · split
    · exact ensures_ok (worksOnStack_adaptBase _ _)
    · unfold adaptToObject
      refine ensures_bind fun assignable => ?_
      split
      · exact ensures_ok (worksOnStack_append.mpr
          ⟨worksOnStack_adaptBase _ _, worksOnStack_cons.mpr ⟨.box _, worksOnStack_nil⟩⟩)
      · exact ensures_error
    · refine ensures_ok ?_
      unfold adaptFromObject
      split
      · exact worksOnStack_cons.mpr ⟨.unbox _, worksOnStack_adaptBase _ _⟩
      · exact worksOnStack_cons.mpr
          ⟨.plain trivial rfl, worksOnStack_cons.mpr ⟨.unbox _, worksOnStack_nil⟩⟩
    · unfold adaptReference
      split
      · exact ensures_ok worksOnStack_nil
      · refine ensures_bind fun assignable => ensures_ok ?_
        split
        · exact worksOnStack_nil
        · exact worksOnStack_cons.mpr ⟨.plain trivial rfl, worksOnStack_nil⟩
    · exact ensures_error

theorem worksOnStack_firstValue
    (type : FieldType) :
    WorksOnStack [firstValue type] := by
  unfold firstValue
  split <;> exact worksOnStack_cons.mpr ⟨.plain trivial rfl, worksOnStack_nil⟩

theorem worksOnStack_adapt
    (hierarchy : Hierarchy)
    (source target : Option FieldType) :
    Ensures WorksOnStack (adapt hierarchy source target) := by
  unfold adapt
  split
  · exact ensures_ok worksOnStack_nil
  · exact ensures_ok (worksOnStack_cons.mpr ⟨.plain trivial rfl, worksOnStack_nil⟩)
  · exact ensures_ok (worksOnStack_firstValue _)
  · exact worksOnStack_adaptValue hierarchy _ _

theorem worksOnStack_boxBody
    (type : FieldType)
    (operation : BoxOperation) :
    WorksOnStack (operation.body type) := by
  have pushesIndex : WorksOnStack (insertIndex type) := by
    unfold insertIndex
    split <;> exact worksOnStack_plain (by simp [Instruction.IsPlain, Instruction.localAccess?])
  unfold BoxOperation.body
  split
  · exact worksOnStack_plain (by simp [Instruction.IsPlain, Instruction.localAccess?])
  · exact worksOnStack_append.mpr
      ⟨pushesIndex, worksOnStack_plain (by simp [Instruction.IsPlain, Instruction.localAccess?])⟩
  · exact worksOnStack_plain (by simp [Instruction.IsPlain, Instruction.localAccess?])

/-- What stands before the value in the code that makes a box. -/
theorem worksOnStack_newArrayOf
    (type : FieldType) :
    WorksOnStack [.pushInt 1, newArrayOf type, .op (.stack .dup), .pushInt 0] := by
  unfold newArrayOf
  split <;> exact worksOnStack_plain (by simp [Instruction.IsPlain, Instruction.localAccess?])

/-! ### Instructions that are added -/

namespace SitePlan

/-- The fields that stand for the parameters for which the implemented method has no argument. -/
def defaultFields (plan : SitePlan) : List FieldRef :=
  (plan.site.parameters.drop plan.method.arity).filterMap SiteParameter.field

/-- The method of the class that computes the default value of a parameter. -/
def defaultAccessor (plan : SitePlan) (field : FieldRef) : MethodRef where
  owner := .object plan.className
  name := defaultName field
  type := ⟨[], some field.type⟩
  ofInterface := false

/-- The fields that stand for the parameters of a site, from the position on from which the
implemented method has no argument. -/
theorem mem_defaultFields
    {plan : SitePlan}
    {fields : List FieldRef}
    (areFields : boundFields plan.site = .ok fields)
    {field : FieldRef}
    {position : Nat}
    (isField : fields[position]? = some field)
    (noArgument : plan.method.arity ≤ position) :
    field ∈ plan.defaultFields := by
  obtain ⟨parameter, isParameter, isBound⟩ :=
    exists_related_of_getElem? (forall₂_of_boundFields areFields) isField
  refine List.mem_filterMap.mpr ⟨parameter, ?_, isBound⟩
  exact List.mem_of_getElem? (i := position - plan.method.arity)
    (by rw [List.getElem?_drop, Nat.add_sub_cancel' noArgument]; exact isParameter)

end SitePlan

/-- An instruction that is added in order to make closures, by the class of a closure or around
it. -/
inductive IsAdded (className : BinaryName) (sites : List SitePlan) : Instruction Nat → Prop where
  | plain {instruction : Instruction Nat} (isPlain : instruction.IsPlain) :
      IsAdded className sites instruction
  | field (access : FieldAccess) (name : UnqualifiedName) (type : FieldType) :
      IsAdded className sites (.field access ⟨className, name, type⟩)
  | default {plan : SitePlan} (isSite : plan ∈ sites) {field : FieldRef}
      (isDefault : field ∈ plan.defaultFields) :
      IsAdded className sites (.invoke .virtual (plan.defaultAccessor field))
  | box (type : BaseType) : IsAdded className sites (boxValue type)
  | unbox (type : BaseType) : IsAdded className sites (unboxValue type)
  | construct {plan : SitePlan} (isSite : plan ∈ sites) :
      IsAdded className sites (.invoke .special plan.constructor)

/-- All instructions of the code are added. -/
def Adds (className : BinaryName) (sites : List SitePlan) (code : List (Instruction Nat)) : Prop :=
  ∀ instruction ∈ code, IsAdded className sites instruction

section Adding

variable {className : BinaryName} {sites : List SitePlan}

@[simp]
theorem adds_nil :
    Adds className sites [] := by
  simp [Adds]

@[simp]
theorem adds_cons
    {instruction : Instruction Nat}
    {code : List (Instruction Nat)} :
    Adds className sites (instruction :: code) ↔
      IsAdded className sites instruction ∧ Adds className sites code := by
  simp [Adds]

@[simp]
theorem adds_append
    {first second : List (Instruction Nat)} :
    Adds className sites (first ++ second) ↔
      Adds className sites first ∧ Adds className sites second :=
  List.forall_mem_append

theorem adds_flatten
    {parts : List (List (Instruction Nat))}
    (each : ∀ part ∈ parts, Adds className sites part) :
    Adds className sites parts.flatten := by
  intro instruction member
  obtain ⟨part, isPart, isInstruction⟩ := List.mem_flatten.mp member
  exact each part isPart instruction isInstruction

theorem adds_plain
    {code : List (Instruction Nat)}
    (isPlain : ∀ instruction ∈ code, instruction.IsPlain) :
    Adds className sites code :=
  fun instruction member => .plain (isPlain instruction member)

/-! ### Values and boxes -/

theorem adds_of_worksOnStack
    {code : List (Instruction Nat)}
    (works : WorksOnStack code) :
    Adds className sites code := by
  intro instruction member
  cases works instruction member with
  | plain isPlain => exact .plain isPlain
  | box type => exact .box type
  | unbox type => exact .unbox type

theorem adds_adaptValue
    (hierarchy : Hierarchy)
    (source target : FieldType) :
    Ensures (Adds className sites) (adaptValue hierarchy source target) :=
  fun code isCode => adds_of_worksOnStack (worksOnStack_adaptValue hierarchy _ _ code isCode)

theorem adds_firstValue
    (type : FieldType) :
    Adds className sites [firstValue type] :=
  adds_of_worksOnStack (worksOnStack_firstValue type)

theorem adds_adapt
    (hierarchy : Hierarchy)
    (source target : Option FieldType) :
    Ensures (Adds className sites) (adapt hierarchy source target) :=
  fun code isCode => adds_of_worksOnStack (worksOnStack_adapt hierarchy _ _ code isCode)

theorem adds_boxCode
    {push : List (Instruction Nat)}
    (pushes : Adds className sites push)
    (type : FieldType)
    (operation : BoxOperation) :
    Adds className sites (operation.code push type) :=
  adds_append.mpr ⟨pushes, adds_of_worksOnStack (worksOnStack_boxBody type operation)⟩

theorem adds_newBox
    {value : List (Instruction Nat)}
    (pushes : Adds className sites value)
    (type : FieldType) :
    Adds className sites (newBox type value) :=
  adds_append.mpr
    ⟨adds_append.mpr ⟨adds_of_worksOnStack (worksOnStack_newArrayOf type), pushes⟩,
      adds_plain (by simp [Instruction.IsPlain])⟩

/-! ### Making closures -/

theorem adds_construct
    {ε : Type}
    {plan : SitePlan}
    (isSite : plan ∈ sites)
    {load : Capture → Except ε (List (Instruction Nat))}
    (loads : ∀ capture, Ensures (Adds className sites) (load capture)) :
    Ensures (Adds className sites) (plan.construct load) := by
  unfold SitePlan.construct
  refine (ensures_mapM fun capture _ => loads capture).bind fun loaded each => ensures_ok ?_
  exact adds_append.mpr ⟨adds_append.mpr ⟨adds_plain (by simp [Instruction.IsPlain]),
    adds_flatten each⟩, adds_cons.mpr ⟨.construct isSite, adds_nil⟩⟩

theorem adds_storeCaptures
    (slot : UInt16)
    (captures : List (Capture × UnqualifiedName)) :
    Adds className sites (storeCaptures className slot captures) := by
  induction captures generalizing slot with
  | nil => exact adds_nil
  | cons entry rest inductionHypothesis =>
      exact adds_append.mpr ⟨adds_cons.mpr ⟨.plain trivial, adds_cons.mpr ⟨.plain trivial,
        adds_cons.mpr ⟨.field _ _ _, adds_nil⟩⟩⟩, inductionHypothesis _⟩

end Adding

/-! ## The code of a site -/

/-- The instruction that a piece of a span is, if it is one. -/
def Method.pieceInstruction? (method : Method) : Piece → Option (Instruction Nat)
  | .instruction index => method.instructions[index]?
  | .site _ _ => none

/-- The instructions of a span that belong to a site itself, and to no site inside it. -/
def Method.siteCode (method : Method) (sites : List LambdaSite) (number : Nat) (span : Span) :
    List (Instruction Nat) :=
  (piecesOf sites (some number) span).filterMap method.pieceInstruction?

/-- The instruction accesses a field that stands for a parameter of a site or of one around it. -/
def IsParameterAccess (sites : List LambdaSite) (number : Nat) (instruction : Instruction Nat) :
    Prop :=
  ∃ field isWrite, staticField? instruction = some (field, isWrite) ∧
    (binder? sites number field).isSome = true

/-- The code that the class of the closure of a site takes over: the default values of the
parameters for which the implemented method has no argument, and the body. -/
def SitePlan.movedCode (method : Method) (sites : List LambdaSite) (number : Nat)
    (self : SitePlan) : List (Instruction Nat) :=
  ((self.site.parameters.drop self.method.arity).filterMap SiteParameter.default).flatMap
      (method.siteCode sites number) ++
    method.siteCode sites number self.site.body

namespace ClosureScope

section Accesses

variable {scope : ClosureScope}

/-! ### Captured variables -/

theorem adds_captureField
    (key : VariableKey) :
    Ensures (fun entry => Adds scope.self.className scope.sites entry.1)
      (scope.captureField key) := by
  unfold captureField
  split
  · exact ensures_error
  · exact ensures_ok
      (adds_cons.mpr ⟨.plain trivial, adds_cons.mpr ⟨.field _ _ _, adds_nil⟩⟩)

theorem adds_captureCode
    (key : VariableKey)
    (instruction : Instruction Nat)
    (mode : AccessMode) :
    Ensures (Adds scope.self.className scope.sites) (scope.captureCode key instruction mode) := by
  unfold captureCode
  refine (adds_captureField key).bind fun entry pushes => ?_
  dsimp only
  split
  · exact ensures_ok (adds_boxCode pushes _ _)
  · split
    · exact ensures_ok pushes
    · exact ensures_error

theorem adds_internalCode
    (instruction : Instruction Nat)
    (slot : UInt16) :
    Ensures (Adds scope.self.className scope.sites) (scope.internalCode instruction slot) := by
  unfold internalCode
  refine ensures_bind fun moved => ensures_ok ?_
  unfold Instruction.relocate?
  split <;> exact adds_plain (by simp [Instruction.IsPlain])

theorem adds_localCode
    (index : Nat)
    (instruction : Instruction Nat)
    (access : LocalAccess) :
    Ensures (Adds scope.self.className scope.sites)
      (scope.localCode index instruction access) := by
  unfold localCode
  split
  · dsimp only
    split
    · exact ensures_error
    · exact (adds_captureField .this).bind fun entry pushes => ensures_ok pushes
  · split
    · exact adds_internalCode _ _
    · exact adds_captureCode _ _ _
  · exact adds_captureCode _ _ _
  · exact adds_internalCode _ _

theorem adds_parameterCode
    (binder : Nat)
    (field : FieldRef)
    (isWrite : Bool) :
    Ensures (Adds scope.self.className scope.sites)
      (scope.parameterCode binder field isWrite) := by
  unfold parameterCode
  split
  · unfold ownParameterCode
    split
    · exact ensures_error
    · split
      · exact ensures_ok (adds_boxCode (adds_plain (by simp [Instruction.IsPlain])) _ _)
      · split <;> exact ensures_ok (adds_plain (by simp [Instruction.IsPlain]))
  · unfold outerParameterCode
    refine (adds_captureField _).bind fun entry pushes => ?_
    dsimp only
    split
    · exact ensures_ok (adds_boxCode pushes _ _)
    · split
      · exact ensures_error
      · exact ensures_ok pushes

theorem adds_loadForNested
    (capture : Capture) :
    Ensures (Adds scope.self.className scope.sites) (scope.loadForNested capture) := by
  have pushesField : Ensures (Adds scope.self.className scope.sites) (do
      let entry ← scope.captureField capture.key
      return entry.1) :=
    (adds_captureField _).bind fun entry pushes => ensures_ok pushes
  unfold loadForNested
  dsimp only
  split
  · split
    · split
      · exact ensures_ok (adds_plain (by simp [Instruction.IsPlain]))
      · exact ensures_error
    · exact pushesField
  · split
    · exact ensures_bind fun moved => ensures_ok (adds_plain (by simp [Instruction.IsPlain]))
    · exact pushesField
  · exact pushesField

theorem adds_constructNested
    (number : Nat) :
    Ensures (Adds scope.self.className scope.sites) (scope.constructNested number) := by
  unfold constructNested
  split
  · rename_i nested isNested
    exact adds_construct (List.mem_of_getElem? isNested) adds_loadForNested
  · exact ensures_ok adds_nil

theorem adds_parameterPrologue
    (isSelf : scope.self ∈ scope.sites)
    (hierarchy : Hierarchy)
    {fields : List FieldRef}
    (areFields : boundFields scope.self.site = .ok fields) :
    Ensures (Adds scope.self.className scope.sites)
      (parameterPrologue scope hierarchy fields scope.arguments) := by
  unfold parameterPrologue
  refine (ensures_mapM ?_).bind fun parts each => ensures_ok (adds_flatten each)
  rintro ⟨⟨field, slot⟩, position⟩ member
  have isField : fields[position]? = some field :=
    (List.getElem?_zip_eq_some.mp (List.mem_zipIdx_iff_getElem?.mp member)).1
  have pushes : Ensures (Adds scope.self.className scope.sites)
      (parameterValue scope hierarchy field scope.arguments[position]?) := by
    unfold parameterValue
    split
    · rename_i argument slot _
      have adapts : Ensures (Adds scope.self.className scope.sites)
          (adaptValue hierarchy argument field.type) := adds_adaptValue hierarchy _ _
      exact adapts.bind fun adapted adds =>
        ensures_ok (adds_cons.mpr ⟨.plain trivial, adds⟩)
    · rename_i noArgument
      have after := List.getElem?_eq_none_iff.mp noArgument
      rw [scope.length_arguments] at after
      exact ensures_ok (adds_cons.mpr ⟨.plain trivial,
        adds_cons.mpr ⟨.default isSelf (SitePlan.mem_defaultFields areFields isField after),
          adds_nil⟩⟩)
  refine pushes.bind fun value adds => ensures_ok ?_
  unfold storeParameter
  split
  · exact adds_append.mpr ⟨adds_newBox adds _, adds_plain (by simp [Instruction.IsPlain])⟩
  · exact adds_append.mpr ⟨adds, adds_plain (by simp [Instruction.IsPlain])⟩

end Accesses

end ClosureScope

/-! ## Composition -/

/-- A relation between code of a site and the code that takes its place, with the bridges before
and after, that holds of code that is put together if it holds of the parts. -/
structure IsCompositional (className : BinaryName) (sites : List SitePlan) (number : Nat)
    (Made : List (Instruction Nat) → List (Instruction Nat) → BridgeTable → BridgeTable → Prop) :
    Prop where
  append : ∀ {origin others code replaced before between after}, Made origin code before between →
    Made others replaced between after → Made (origin ++ others) (code ++ replaced) before after
  map : ∀ {origin code before after}, Made origin code before after →
    ∀ f, Made origin (code.map (Instruction.map f)) before after
  added : ∀ {code} table, Adds className sites code → Made [] code table table
  access : ∀ {instruction code} table, instruction.localAccess?.isSome = true ∨
      IsParameterAccess (sites.map SitePlan.site) number instruction →
    Adds className sites code → Made [instruction] code table table
  other : ∀ {span index instruction code before after},
    ClosureScope.otherCode span index instruction before = .ok (code, after) →
      Made [instruction] code before after

/-- The code of a method. -/
def MethodDefinition.code (definition : MethodDefinition) : List (Instruction Nat) :=
  (definition.body.map fun body => body.instructions.toList).getD []

/-- The code of all methods of a class. -/
def ClassDefinition.code (definition : ClassDefinition) : List (Instruction Nat) :=
  definition.methods.flatMap MethodDefinition.code

/-- The call of the constructor of the superclass. -/
def superCall (super : BinaryName) : Instruction Nat :=
  .invoke .special ⟨.object super, .init, plainType, false⟩

namespace IsCompositional

variable {scope : ClosureScope} {hierarchy : Hierarchy} {before after : BridgeTable}
  {Made : List (Instruction Nat) → List (Instruction Nat) → BridgeTable → BridgeTable → Prop}

theorem instructionCode
    (composes : IsCompositional scope.self.className scope.sites scope.number Made)
    {span : Span}
    {index : Nat}
    {instruction : Instruction Nat}
    {code : List (Instruction Nat)}
    (coded : scope.instructionCode span index instruction before = .ok (code, after)) :
    Made [instruction] code before after := by
  unfold ClosureScope.instructionCode at coded
  split at coded
  · rename_i access isAccess
    obtain ⟨replaced, isCode, equal⟩ := bind_eq_ok.mp coded
    cases equal
    exact composes.access before (.inl (by rw [isAccess]; rfl))
      (ClosureScope.adds_localCode index instruction access _ isCode)
  · split at coded
    · rename_i field isWrite isField
      split at coded
      · rename_i binder isBinder
        obtain ⟨replaced, isCode, equal⟩ := bind_eq_ok.mp coded
        cases equal
        refine composes.access before (.inr ⟨field, isWrite, isField, ?_⟩)
          (ClosureScope.adds_parameterCode binder field isWrite _ isCode)
        exact Option.isSome_iff_exists.mpr ⟨binder, isBinder⟩
      · exact composes.other coded
    · exact composes.other coded

/-- The code for a piece takes the place of the instruction that the piece is. -/
theorem pieceCode
    (composes : IsCompositional scope.self.className scope.sites scope.number Made)
    {span : Span}
    {piece : Piece}
    {code : List (Instruction Nat)}
    (coded : scope.pieceCode span piece before = .ok (code, after)) :
    Made (scope.method.pieceInstruction? piece).toList code before after := by
  unfold ClosureScope.pieceCode at coded
  cases piece with
  | site number inner =>
      obtain ⟨constructed, isCode, equal⟩ := map_eq_ok.mp (mapError_eq_ok.mp coded)
      cases equal
      exact composes.added before (ClosureScope.adds_constructNested number _ isCode)
  | instruction index =>
      unfold Method.pieceInstruction?
      dsimp only at coded ⊢
      cases isInstruction : scope.method.instructions[index]? with
      | none =>
          rw [isInstruction] at coded
          cases coded
          exact composes.added before adds_nil
      | some instruction =>
          rw [isInstruction] at coded
          exact composes.instructionCode (mapError_eq_ok.mp coded)

/-- The code for a span takes the place of the instructions of the span that belong to the site
itself. -/
theorem translate
    (composes : IsCompositional scope.self.className scope.sites scope.number Made)
    {span : Span}
    {replacements : List Replacement}
    (translated : scope.translate span before = .ok (replacements, after))
    (relocation : Relocation) :
    Made (scope.method.siteCode scope.lambdaSites scope.number span)
      (relocation.code replacements) before after := by
  have made : Made (scope.method.siteCode scope.lambdaSites scope.number span)
      (replacements.flatMap Replacement.code) before after := by
    unfold Method.siteCode
    refine thread_mapM_induction (fun pieces (replacements : List Replacement) before after =>
      Made (pieces.filterMap scope.method.pieceInstruction?)
        (replacements.flatMap Replacement.code) before after) ?_ ?_ translated
    · exact fun table => composes.added table adds_nil
    · intro piece rest replacement others earlier between later _ made rendered
      obtain ⟨code, _, isCode, equal⟩ := thread_bind_eq_ok.mp made
      cases thread_pure_eq_ok.mp equal
      have both := composes.append (composes.pieceCode isCode) rendered
      rw [List.filterMap_cons]
      cases piece : scope.method.pieceInstruction? piece <;> simpa [piece] using both
  have moved := composes.map made relocation.place
  rwa [List.map_flatMap] at moved

theorem defaultMethod
    (composes : IsCompositional scope.self.className scope.sites scope.number Made)
    {position : Nat}
    {parameter : SiteParameter}
    {definition : MethodDefinition}
    (made : ClosureConversion.defaultMethod scope position parameter before =
      .ok (definition, after)) :
    Made (parameter.default.toList.flatMap (scope.method.siteCode scope.lambdaSites scope.number))
      definition.code before after := by
  obtain ⟨field, span, replacements, body, isDefault⟩ := defaultMethod_eq_ok made
  have moved := composes.translate isDefault.translated (.ofReplacements span.start 0 replacements)
  have leaves : Made [] [.op (.leave (some (.ofType field.type)))] after after :=
    composes.added after (adds_plain (by simp [Instruction.IsPlain]))
  have isCode : definition.code = body.instructions.toList := by
    rw [isDefault.definition]
    rfl
  rw [isCode, isDefault.instructions, isDefault.default]
  simpa using composes.append moved leaves

theorem defaultMethods
    (composes : IsCompositional scope.self.className scope.sites scope.number Made)
    {definitions : List MethodDefinition}
    (made : ClosureConversion.defaultMethods scope before = .ok (definitions, after)) :
    Made (((scope.self.site.parameters.drop scope.self.method.arity).filterMap
        SiteParameter.default).flatMap (scope.method.siteCode scope.lambdaSites scope.number))
      (definitions.flatMap MethodDefinition.code) before after := by
  unfold ClosureConversion.defaultMethods at made
  have whole := thread_mapM_induction (fun entries (definitions : List MethodDefinition) earlier
      later => Made (((entries.map Prod.fst).filterMap SiteParameter.default).flatMap
        (scope.method.siteCode scope.lambdaSites scope.number))
          (definitions.flatMap MethodDefinition.code) earlier later)
    (fun table => composes.added table adds_nil) ?_ made
  · rwa [List.map_drop, List.zipIdx_map_fst] at whole
  · rintro ⟨parameter, position⟩ rest definition others earlier between later _ isMade rendered
    have both := composes.append (composes.defaultMethod isMade) rendered
    rw [List.map_cons, List.filterMap_cons]
    cases isDefault : parameter.default <;> simpa [isDefault] using both

theorem implementation
    (composes : IsCompositional scope.self.className scope.sites scope.number Made)
    (isSelf : scope.self ∈ scope.sites)
    {definition : MethodDefinition}
    (made : ClosureConversion.implementation scope hierarchy before = .ok (definition, after)) :
    Made (scope.method.siteCode scope.lambdaSites scope.number scope.self.site.body)
      definition.code before after := by
  obtain ⟨fields, body, prologue, adapted, replacements, areFields, rfl, isImplementation⟩ :=
    implementation_eq_ok made
  have composesSlots : IsCompositional (scope.withSlots fields).self.className
      (scope.withSlots fields).sites (scope.withSlots fields).number Made := composes
  have starts := composesSlots.added before
    ((scope.withSlots fields).adds_parameterPrologue isSelf hierarchy areFields _
      isImplementation.prologueMade)
  have moved := composesSlots.translate isImplementation.translated
    (.ofReplacements scope.self.site.body.start prologue.length replacements)
  have leaves : Adds scope.self.className scope.sites
      [.op (.leave (scope.self.method.type.result.map LocalKind.ofType))] :=
    adds_plain (by simp [Instruction.IsPlain])
  have ends := composes.added after (adds_append.mpr
    ⟨adds_adapt hierarchy _ _ _ isImplementation.adaptedMade, leaves⟩)
  have whole := composes.append (composes.append starts moved) ends
  rw [List.nil_append, List.append_nil, ← List.append_assoc] at whole
  have isCode : MethodDefinition.code ⟨declares MethodFlags.accPublic scope.self.method.name
      scope.self.method.type, some body⟩ = _ := isImplementation.instructions
  rw [isCode]
  exact whole

/-- All the code of the class of a closure is composed of what the closure takes over, of what is
added, and of the call of the constructor of the superclass. -/
theorem closureClass
    {method : Method}
    {sites : List SitePlan}
    {number : Nat}
    {self : SitePlan}
    {version : Version}
    {place : Place}
    (composes : IsCompositional self.className sites number Made)
    (isSelf : self ∈ sites)
    {definition : ClassDefinition}
    (made : ClosureConversion.closureClass method sites number self hierarchy version place before =
      .ok (definition, after))
    (callsSuper : ∀ target super, hierarchy.resolve self.site.target = .ok target →
      closureSuper target self.site.target = .ok super → Made [] [superCall super] before before) :
    Made (self.movedCode method (sites.map SitePlan.site) number) definition.code before after := by
  obtain ⟨super, defaults, implemented, between, isClass⟩ := closureClass_eq_ok made
  obtain ⟨target, resolved, superFound⟩ := isClass.superFound
  let scope := ClosureScope.ofSite method sites number self place
  have composesScope : IsCompositional scope.self.className scope.sites scope.number Made :=
    composes
  have loads : Made [] [.load .reference 0] before before :=
    composes.added before (adds_plain (by simp [Instruction.IsPlain]))
  have leaves : Adds self.className sites [.op (.leave none)] :=
    adds_plain (by simp [Instruction.IsPlain])
  have stores := composes.added before (adds_append.mpr
    ⟨adds_storeCaptures 1 (self.captures.captures.zip scope.fields), leaves⟩)
  have constructs := composes.append
    (composes.append loads (callsSuper target super resolved superFound)) stores
  have whole := composes.append
    (composes.append constructs (composesScope.defaultMethods isClass.defaultsMade))
    (composesScope.implementation isSelf isClass.implementedMade)
  unfold ClassDefinition.code
  rw [isClass.methods, List.cons_append, List.flatMap_cons, List.flatMap_append,
    List.flatMap_singleton, ← List.append_assoc]
  have isConstructor : (scope.constructorMethod super).code =
      [.load .reference 0] ++ [superCall super] ++
        (storeCaptures self.className 1 (self.captures.captures.zip scope.fields) ++
          [.op (.leave none)]) := by
    simp [MethodDefinition.code, ClosureScope.constructorMethod, constructorBody, superCall]
    rfl
  rw [isConstructor]
  exact whole

end IsCompositional

end ClosureConversion
