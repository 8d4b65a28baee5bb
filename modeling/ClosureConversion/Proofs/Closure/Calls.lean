import ClosureConversion.Closure.Rewriting
import ClosureConversion.Proofs.Closure.Bridges
import ClosureConversion.Proofs.Closure.Composition

/-!
Contract: which methods the code calls that is made for a class.

Owns:
- the calls by which closures are made and get default values;
- the methods that the class of a closure declares;
- a call in new code was there before, is one of these, converts a value, or calls a bridge;
- bridges stand for instructions of the methods that make closures.

Does not own: whether a class has the methods that are called.
-/

namespace ClosureConversion

/-! ## Calls -/

/-- The instruction calls a method. -/
def Instruction.IsCall : Instruction Nat → Prop
  | .invoke _ _ => True
  | _ => False

/-- Calls hold no positions. -/
theorem Instruction.IsCall.map_eq
    {instruction : Instruction Nat}
    {f : Nat → Nat}
    (isCall : (instruction.map f).IsCall) :
    instruction.map f = instruction := by
  cases instruction <;> first | rfl | exact isCall.elim

/-- A method of the class of the closure of a site is called where the closure is made, or by
the closure itself. -/
inductive SitePlan.Calls (plan : SitePlan) : CallKind → MethodRef → Prop where
  | construct : plan.Calls .special plan.constructor
  | default {field : FieldRef} (isDefault : field ∈ plan.defaultFields) :
      plan.Calls .virtual (plan.defaultAccessor field)

/-- A call that is inserted: it calls a method of the class of a closure, or converts between a
value and an object. -/
inductive IsInserted (sites : List SitePlan) : Instruction Nat → Prop where
  | calls {plan : SitePlan} (isSite : plan ∈ sites) {kind : CallKind} {method : MethodRef}
      (calls : plan.Calls kind method) : IsInserted sites (.invoke kind method)
  | box (type : BaseType) : IsInserted sites (boxValue type)
  | unbox (type : BaseType) : IsInserted sites (unboxValue type)

/-- Added code calls no other methods. -/
theorem IsAdded.isInserted
    {className : BinaryName}
    {sites : List SitePlan}
    {instruction : Instruction Nat}
    (isAdded : IsAdded className sites instruction)
    (isCall : instruction.IsCall) :
    IsInserted sites instruction := by
  cases isAdded with
  | plain isPlain => cases instruction <;> first | exact isPlain.elim | exact isCall.elim
  | field => exact isCall.elim
  | default isSite isDefault => exact .calls isSite (.default isDefault)
  | box type => exact .box type
  | unbox type => exact .unbox type
  | construct isSite => exact .calls isSite .construct

/-- Calls in the place of code were made by it, may be made, or call bridges of a class. -/
def CallsOnly (owner : BinaryName) (Allowed : Instruction Nat → Prop) (bridges : List Bridge)
    (origin code : List (Instruction Nat)) : Prop :=
  ∀ instruction ∈ code, instruction.IsCall →
    instruction ∈ origin ∨ Allowed instruction ∨ ∃ bridge ∈ bridges, instruction = bridge.call owner

section CallsOnly

variable {owner : BinaryName} {Allowed : Instruction Nat → Prop} {bridges : List Bridge}
  {origin code : List (Instruction Nat)}

theorem CallsOnly.imp
    {Wider : Instruction Nat → Prop}
    {more : List Bridge}
    {others : List (Instruction Nat)}
    (callsOnly : CallsOnly owner Allowed bridges origin code)
    (allows : ∀ instruction, Allowed instruction → Wider instruction)
    (moreBridges : bridges ⊆ more)
    (moreCode : origin ⊆ others) :
    CallsOnly owner Wider more others code := by
  intro instruction member isCall
  rcases callsOnly instruction member isCall with isOld | isAllowed | ⟨bridge, isBridge, isBridgeCall⟩
  · exact .inl (moreCode isOld)
  · exact .inr (.inl (allows instruction isAllowed))
  · exact .inr (.inr ⟨bridge, moreBridges isBridge, isBridgeCall⟩)

theorem CallsOnly.map
    (callsOnly : CallsOnly owner Allowed bridges origin code)
    (f : Nat → Nat) :
    CallsOnly owner Allowed bridges origin (code.map (Instruction.map f)) := by
  intro moved member isCall
  obtain ⟨instruction, isInstruction, rfl⟩ := List.mem_map.mp member
  have same : instruction.map f = instruction := isCall.map_eq
  rw [same] at isCall ⊢
  exact callsOnly instruction isInstruction isCall

theorem callsOnly_of_subset
    (subset : code ⊆ origin) :
    CallsOnly owner Allowed bridges origin code :=
  fun _ member _ => .inl (subset member)

theorem callsOnly_of_adds
    {className : BinaryName}
    {sites : List SitePlan}
    (allows : ∀ instruction, IsInserted sites instruction → Allowed instruction)
    (adds : Adds className sites code) :
    CallsOnly owner Allowed bridges origin code :=
  fun instruction member isCall =>
    .inr (.inl (allows instruction ((adds instruction member).isInserted isCall)))

end CallsOnly

/-! ## Bridges -/

namespace BridgeTable

variable {table after : BridgeTable}

theorem use_of_mem_bridgeFor
    {use : MemberUse}
    {bridge : Bridge}
    (member : bridge ∈ (table.bridgeFor use).2.bridges) :
    bridge ∈ table.bridges ∨ bridge.use = use := by
  unfold bridgeFor at member
  split at member
  · exact .inl member
  · rcases List.mem_append.mp member with isOld | isNew
    · exact .inl isOld
    · exact .inr (congrArg Bridge.use (List.mem_singleton.mp isNew))

/-- A bridge that is added for an instruction stands for it. -/
theorem instruction_of_mem_redirect
    {instruction : Instruction Nat}
    {call? : Option MethodRef}
    (redirected : table.redirect instruction = .ok (call?, after))
    {bridge : Bridge}
    (member : bridge ∈ after.bridges) :
    bridge ∈ table.bridges ∨ bridge.use.instruction = instruction := by
  unfold redirect at redirected
  obtain ⟨use?, isUse, redirected⟩ := bind_eq_ok.mp redirected
  cases use? with
  | none =>
      cases redirected
      exact .inl member
  | some use =>
      cases redirected
      refine (use_of_mem_bridgeFor member).imp_right fun isUsed => ?_
      rw [isUsed]
      exact instruction_of_privateUse isUse

end BridgeTable

/-- The body of a bridge calls the method that the bridge stands for, if any. -/
theorem Bridge.eq_use_of_mem_body
    {bridge : Bridge}
    {owner : BinaryName}
    {instruction : Instruction Nat}
    (member : instruction ∈ (bridge.body owner).instructions.toList)
    (isCall : instruction.IsCall) :
    instruction = bridge.use.instruction := by
  have loads : ∀ (types : List FieldType) (slot : UInt16),
      ∀ other ∈ (loadParameters slot types : List (Instruction Nat)), ¬other.IsCall := by
    intro types
    induction types with
    | nil => exact fun _ _ member => absurd member List.not_mem_nil
    | cons type types inductionHypothesis =>
        intro slot other member
        rcases List.mem_cons.mp member with rfl | isLater
        · exact id
        · exact inductionHypothesis _ other isLater
  unfold Bridge.body at member
  dsimp only at member
  rcases List.mem_append.mp member with isLoad | isLast
  · exact absurd isCall (loads _ _ instruction isLoad)
  · rcases List.mem_cons.mp isLast with isUse | isReturn
    · exact isUse
    · rw [List.mem_singleton.mp isReturn] at isCall
      exact isCall.elim

/-! ## The code of closures -/

/-- Code takes the place of other code, with the bridges of a class before and after that: new
bridges stand for instructions of the other code, and no calls are made but those that were
made, those that may be made and those of bridges. -/
structure CallsThrough (owner : ClassDeclaration) (Allowed : Instruction Nat → Prop)
    (origin code : List (Instruction Nat)) (before after : BridgeTable) : Prop where
  grows : BridgeTable.Grows owner before after
  uses : ∀ bridge ∈ after.bridges, bridge ∈ before.bridges ∨ bridge.use.instruction ∈ origin
  calls : before.IsOf owner → CallsOnly owner.name Allowed after.bridges origin code

theorem callsThrough_of_callsOnly
    {owner : ClassDeclaration}
    {Allowed : Instruction Nat → Prop}
    {origin code : List (Instruction Nat)}
    {table : BridgeTable}
    (callsOnly : CallsOnly owner.name Allowed table.bridges origin code) :
    CallsThrough owner Allowed origin code table table where
  grows := .refl
  uses _ member := .inl member
  calls _ := callsOnly

theorem callsThrough_otherCode
    (owner : ClassDeclaration)
    (Allowed : Instruction Nat → Prop)
    {span : Span}
    {index : Nat}
    {instruction : Instruction Nat}
    {code : List (Instruction Nat)}
    {before after : BridgeTable}
    (coded : ClosureScope.otherCode span index instruction before = .ok (code, after)) :
    CallsThrough owner Allowed [instruction] code before after := by
  unfold ClosureScope.otherCode at coded
  obtain ⟨⟨call?, table⟩, redirected, isCode⟩ := bind_eq_ok.mp coded
  have uses : ∀ bridge ∈ table.bridges,
      bridge ∈ before.bridges ∨ bridge.use.instruction ∈ [instruction] :=
    fun bridge member => (BridgeTable.instruction_of_mem_redirect redirected member).imp_right
      List.mem_singleton.mpr
  rcases BridgeTable.redirect_eq_ok owner redirected with
    ⟨_, rfl, rfl⟩ | ⟨bridge, isBridge, _, rfl, grows⟩
  · obtain ⟨kept, isKept, equal⟩ := bind_eq_ok.mp isCode
    cases equal
    refine ⟨.refl, uses, fun _ => callsOnly_of_subset fun other member => ?_⟩
    unfold ClosureScope.plainCode at isKept
    split at isKept <;> cases isKept
    exact member
  · cases isCode
    refine ⟨grows, uses, fun isOf other member _ => .inr (.inr ⟨bridge, isBridge, ?_⟩)⟩
    rw [List.mem_singleton.mp member, ← (grows isOf).1.ofOwner]
    rfl

/-- What all code of a closure is composed of makes no other calls than those that may be made. -/
theorem isCompositional_callsThrough
    (owner : ClassDeclaration)
    (className : BinaryName)
    (sites : List SitePlan)
    (number : Nat)
    (Allowed : Instruction Nat → Prop)
    (allows : ∀ instruction, IsInserted sites instruction → Allowed instruction) :
    IsCompositional className sites number (CallsThrough owner Allowed) where
  append := by
    intro origin others code replaced before between after first second
    refine ⟨first.grows.trans second.grows, fun bridge member => ?_, fun isOf => ?_⟩
    · rcases second.uses bridge member with isEarlier | isUsed
      · exact (first.uses bridge isEarlier).imp_right (List.mem_append_left _)
      · exact .inr (List.mem_append_right _ isUsed)
    · obtain ⟨isOfBetween, _⟩ := first.grows isOf
      obtain ⟨_, moreBridges⟩ := second.grows isOfBetween
      have firstCalls := (first.calls isOf).imp (fun _ => id) moreBridges
        (List.subset_append_left origin others)
      have secondCalls := (second.calls isOfBetween).imp (fun _ => id) (List.Subset.refl _)
        (List.subset_append_right origin others)
      intro instruction member isCall
      rcases List.mem_append.mp member with isFirst | isSecond
      · exact firstCalls instruction isFirst isCall
      · exact secondCalls instruction isSecond isCall
  map made f := ⟨made.grows, made.uses, fun isOf => (made.calls isOf).map f⟩
  added _ adds := callsThrough_of_callsOnly (callsOnly_of_adds allows adds)
  access _ _ adds := callsThrough_of_callsOnly (callsOnly_of_adds allows adds)
  other coded := callsThrough_otherCode owner Allowed coded

/-- The code that a closure takes over is the code of the method. -/
theorem movedCode_subset
    {method : Method}
    {sites : List LambdaSite}
    {number : Nat}
    {self : SitePlan} :
    self.movedCode method sites number ⊆ method.instructions.toList := by
  have each : ∀ span, method.siteCode sites number span ⊆ method.instructions.toList := by
    intro span instruction member
    obtain ⟨piece, _, isInstruction⟩ := List.mem_filterMap.mp member
    unfold Method.pieceInstruction? at isInstruction
    cases piece with
    | instruction index => exact Array.mem_toList_iff.mpr (Array.mem_of_getElem? isInstruction)
    | site number inner => cases isInstruction
  unfold SitePlan.movedCode
  refine List.append_subset.mpr ⟨fun instruction member => ?_, each _⟩
  obtain ⟨span, _, isInside⟩ := List.mem_flatMap.mp member
  exact each span isInside

/-! ## The methods of closures -/

/-- The declaration of the method that computes the default value of a parameter. -/
def defaultDeclaration (field : FieldRef) : MethodDeclaration :=
  declares defaultFlags (defaultName field) ⟨[], some field.type⟩

/-- The methods that the class of the closure declares. -/
def SitePlan.declaredMethods (plan : SitePlan) : List MethodDeclaration :=
  declares (.ofBits 0) .init plan.constructorType ::
    plan.defaultFields.map defaultDeclaration ++
      [declares MethodFlags.accPublic plan.method.name plan.method.type]

theorem declaration_of_defaultMethod_eq_ok
    {scope : ClosureScope}
    {position : Nat}
    {parameter : SiteParameter}
    {definition : MethodDefinition}
    {before after : BridgeTable}
    (made : defaultMethod scope position parameter before = .ok (definition, after)) :
    ∃ field, parameter.field = some field ∧ definition.declaration = defaultDeclaration field := by
  obtain ⟨field, _, _, _, isDefault⟩ := defaultMethod_eq_ok made
  exact ⟨field, isDefault.bound, by rw [isDefault.definition]; rfl⟩

theorem map_declaration_of_defaultMethods_eq_ok
    {scope : ClosureScope}
    {definitions : List MethodDefinition}
    {before after : BridgeTable}
    (made : defaultMethods scope before = .ok (definitions, after)) :
    definitions.map MethodDefinition.declaration =
      scope.self.defaultFields.map defaultDeclaration := by
  have each := forall₂_of_thread_mapM_eq_ok made
  clear made
  unfold SitePlan.defaultFields
  rw [← List.zipIdx_map_fst 0 scope.self.site.parameters, ← List.map_drop]
  generalize scope.self.site.parameters.zipIdx.drop scope.self.method.arity = entries at each ⊢
  induction each with
  | nil => rfl
  | @cons entry definition entries definitions isMade _ inductionHypothesis =>
      obtain ⟨_, _, isMade⟩ := isMade
      obtain ⟨field, isField, isDeclared⟩ := declaration_of_defaultMethod_eq_ok isMade
      rw [List.map_cons, List.map_cons, List.filterMap_cons_some isField, List.map_cons,
        isDeclared, inductionHypothesis]

theorem IsClosureClass.map_declaration
    {scope : ClosureScope}
    {hierarchy : Hierarchy}
    {super : BinaryName}
    {defaults : List MethodDefinition}
    {implemented : MethodDefinition}
    {before between after : BridgeTable}
    {definition : ClassDefinition}
    (isClass : IsClosureClass scope hierarchy super defaults implemented before between after
      definition) :
    definition.methods.map MethodDefinition.declaration = scope.self.declaredMethods := by
  obtain ⟨fields, body, _, _, _, _, rfl, _⟩ := implementation_eq_ok isClass.implementedMade
  rw [isClass.methods, List.map_append, List.map_cons,
    map_declaration_of_defaultMethods_eq_ok isClass.defaultsMade]
  rfl

/-! ## The classes of closures -/

theorem super_of_closureClass_eq_ok
    {method : Method}
    {sites : List SitePlan}
    {number : Nat}
    {self : SitePlan}
    {hierarchy : Hierarchy}
    {version : Version}
    {place : Place}
    {before after : BridgeTable}
    {definition : ClassDefinition}
    (made : closureClass method sites number self hierarchy version place before =
      .ok (definition, after)) :
    ∃ target, hierarchy.resolve self.site.target = .ok target ∧
      closureSuper target self.site.target = .ok definition.super := by
  unfold closureClass at made
  simp only [thread_bind_eq_ok, thread_lift_eq_ok, thread_pure_eq_ok] at made
  obtain ⟨target, _, ⟨targetFound, rfl⟩, super, _, ⟨superFound, rfl⟩, _, _, _, _, _, _, equal⟩ :=
    made
  cases equal
  exact ⟨target, mapError_eq_ok.mp targetFound, mapError_eq_ok.mp superFound⟩

/-- The class is that of the closure of a site: it is no interface, declares its methods, and its
code makes the calls alone that its method makes, inserted ones, those of bridges and that of the
constructor of its superclass. -/
structure PlannedSite.IsBuiltAs (owner : BinaryName) (bridges : List Bridge) (site : PlannedSite)
    (definition : ClassDefinition) : Prop where
  name : definition.name = site.self.className
  flags : definition.flags = closureFlags
  methods : definition.methods.map MethodDefinition.declaration = site.self.declaredMethods
  calls : CallsOnly owner (fun instruction => IsInserted site.planned.plan.sites instruction ∨
      instruction = superCall definition.super) bridges
    site.planned.method.instructions.toList definition.code

theorem PlannedSite.IsBuiltAs.mono
    {owner : BinaryName}
    {bridges more : List Bridge}
    (moreBridges : bridges ⊆ more)
    {site : PlannedSite}
    {definition : ClassDefinition}
    (isBuilt : site.IsBuiltAs owner bridges definition) :
    site.IsBuiltAs owner more definition where
  name := isBuilt.name
  flags := isBuilt.flags
  methods := isBuilt.methods
  calls := isBuilt.calls.imp (fun _ => id) moreBridges (List.Subset.refl _)

/-- **Step lemma**: one more class of a closure, with the bridges that it calls. -/
theorem isBuiltAs_of_addClass_eq_ok
    {owner : ClassDeclaration}
    {site : PlannedSite}
    {version : Version}
    {reached next : ClosureClasses}
    (isSite : site.self ∈ site.planned.plan.sites)
    (isOf : reached.bridges.IsOf owner)
    (added : site.addClass version reached = .ok next) :
    next.bridges.IsOf owner ∧ reached.bridges.bridges ⊆ next.bridges.bridges ∧
      (∀ bridge ∈ next.bridges.bridges, bridge ∈ reached.bridges.bridges ∨
        bridge.use.instruction ∈ site.planned.method.instructions.toList) ∧
      ∃ definition, next.classes = reached.classes ++ [definition] ∧
        site.IsBuiltAs owner.name next.bridges.bridges definition := by
  obtain ⟨⟨definition, bridges⟩, made, equal⟩ := bind_eq_ok.mp added
  cases equal
  obtain ⟨ownTarget, isOwnTarget, isSuper⟩ := super_of_closureClass_eq_ok made
  obtain ⟨super, defaults, implemented, between, isClass⟩ := closureClass_eq_ok made
  have composes := isCompositional_callsThrough owner site.self.className site.planned.plan.sites
    site.number (fun instruction => IsInserted site.planned.plan.sites instruction ∨
      instruction = superCall definition.super) fun _ => .inl
  have callsThrough := composes.closureClass isSite made fun target super isTarget isFound => by
    cases isTarget.symm.trans isOwnTarget
    cases isFound.symm.trans isSuper
    exact callsThrough_of_callsOnly fun instruction member _ =>
      .inr (.inl (.inr (List.mem_singleton.mp member)))
  obtain ⟨isOfNext, moreBridges⟩ := callsThrough.grows isOf
  refine ⟨isOfNext, moreBridges, fun bridge member => ?_, definition, rfl, isClass.name,
    isClass.flags, isClass.map_declaration, ?_⟩
  · exact (callsThrough.uses bridge member).imp_right fun isUsed => movedCode_subset isUsed
  · exact (callsThrough.calls isOf).imp (fun _ => id) (List.Subset.refl _) movedCode_subset

/-- There is a class for every site, and every bridge stands for an instruction of a method that
makes closures. -/
theorem isBuiltAs_of_ofPlans_eq_ok
    {hierarchy : Hierarchy}
    {owner : ClassDeclaration}
    {version : Version}
    {planned : List PlannedMethod}
    {made : ClosureClasses}
    (isMade : ClosureClasses.ofPlans hierarchy owner version planned = .ok made) :
    made.bridges.IsOf owner ∧
      (∀ bridge ∈ made.bridges.bridges, ∃ entry ∈ planned,
        bridge.use.instruction ∈ entry.method.instructions.toList) ∧
      List.Forall₂ (PlannedSite.IsBuiltAs owner.name made.bridges.bridges)
        (planned.flatMap PlannedMethod.sites) made.classes := by
  refine ofPlans_induction (fun sites (reached : ClosureClasses) =>
    reached.bridges.IsOf owner ∧
      (∀ bridge ∈ reached.bridges.bridges, ∃ entry ∈ planned,
        bridge.use.instruction ∈ entry.method.instructions.toList) ∧
      List.Forall₂ (PlannedSite.IsBuiltAs owner.name reached.bridges.bridges) sites
        reached.classes)
    ⟨BridgeTable.isOf_ofClass owner, fun _ member => absurd member List.not_mem_nil, .nil⟩ ?_
    isMade
  rintro done site reached next isPlanned isSite ⟨isOf, uses, each⟩ added
  obtain ⟨isOfNext, moreBridges, newUses, definition, classes, isBuilt⟩ :=
    isBuiltAs_of_addClass_eq_ok isSite isOf added
  refine ⟨isOfNext, fun bridge member => ?_, ?_⟩
  · rcases newUses bridge member with isOld | isUsed
    · exact uses bridge isOld
    · exact ⟨site.planned, isPlanned, isUsed⟩
  · rw [classes]
    exact List.rel_append (each.imp fun _ _ => .mono moreBridges) (.cons isBuilt .nil)

/-! ## The methods that make closures -/

namespace MethodPlan

theorem adds_makeBox
    (className : BinaryName)
    (sites : List SitePlan)
    (boxed : BoxedLocal) :
    Adds className sites (makeBox boxed) := by
  unfold makeBox
  refine adds_append.mpr ⟨adds_newBox ?_ _, adds_plain (by simp [Instruction.IsPlain])⟩
  split
  · exact adds_plain (by simp [Instruction.IsPlain])
  · exact adds_firstValue _

theorem adds_loadCapture
    (plan : MethodPlan)
    (className : BinaryName)
    (sites : List SitePlan)
    (capture : Capture) :
    Ensures (Adds className sites) (plan.loadCapture capture) := by
  unfold loadCapture
  split
  · exact ensures_ok (adds_plain (by simp [Instruction.IsPlain]))
  · split <;> exact ensures_ok (adds_plain (by simp [Instruction.IsPlain]))
  · exact ensures_error

/-- The code for a piece is added, or it is the instruction that the piece is. -/
theorem adds_pieceCode
    {plan : MethodPlan}
    {method : Method}
    (piece : Piece) :
    Ensures (fun code => Adds method.owner plan.sites code ∨ code ⊆ method.instructions.toList)
      (plan.pieceCode method piece) := by
  unfold pieceCode
  cases piece with
  | site number inner =>
      dsimp only
      split
      · rename_i site isSite
        have adds := adds_construct (List.mem_of_getElem? isSite)
          (adds_loadCapture plan method.owner plan.sites)
        exact fun code isCode => .inl (adds code isCode)
      · exact ensures_ok (.inl adds_nil)
  | instruction index =>
      dsimp only
      split
      · rename_i instruction isInstruction
        refine ensures_ok ?_
        unfold instructionCode
        split
        · rename_i boxed _
          have pushes : Adds method.owner plan.sites [.load .reference boxed.boxSlot] :=
            adds_plain (by simp [Instruction.IsPlain])
          exact .inl (adds_boxCode pushes _ _)
        · refine .inr fun other member => ?_
          rw [List.mem_singleton.mp member]
          exact Array.mem_toList_iff.mpr (Array.mem_of_getElem? isInstruction)
      · exact ensures_ok (.inl adds_nil)

end MethodPlan

/-- A method that makes closures makes the calls that it made before, and inserted ones. -/
theorem callsOnly_of_rewrite_eq_ok
    (owner : BinaryName)
    (bridges : List Bridge)
    {method rewritten : Method}
    {plan : MethodPlan}
    {place : Place}
    (isRewritten : method.rewrite plan place = .ok rewritten) :
    CallsOnly owner (IsInserted plan.sites) bridges method.instructions.toList
      rewritten.instructions.toList := by
  unfold Method.rewrite at isRewritten
  obtain ⟨replacements, areReplacements, isRewritten⟩ := bind_eq_ok.mp isRewritten
  replace areReplacements := mapError_eq_ok.mp areReplacements
  dsimp only at isRewritten
  split at isRewritten
  · cases isRewritten
  · cases isRewritten
    intro instruction member
    rcases List.mem_append.mp member with isPrologue | isReplaced
    · obtain ⟨boxed, _, isInside⟩ := List.mem_flatMap.mp isPrologue
      exact callsOnly_of_adds (fun _ => id)
        (MethodPlan.adds_makeBox method.owner plan.sites boxed) instruction isInside
    · obtain ⟨replacement, isReplacement, isInside⟩ := List.mem_flatMap.mp isReplaced
      obtain ⟨piece, _, computed⟩ :=
        exists_mem_of_forall₂ (forall₂_of_mapM_eq_ok areReplacements) isReplacement
      obtain ⟨code, isCode, equal⟩ := bind_eq_ok.mp computed
      cases equal
      have calls : CallsOnly owner (IsInserted plan.sites) bridges method.instructions.toList
          code := by
        rcases MethodPlan.adds_pieceCode piece code isCode with adds | isKept
        · exact callsOnly_of_adds (fun _ => id) adds
        · exact callsOnly_of_subset isKept
      exact calls.map _ instruction isInside

end ClosureConversion
