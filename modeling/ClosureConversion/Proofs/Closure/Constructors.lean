import ClosureConversion.Proofs.Closure.Calls

/-!
Contract: which constructors the code calls that makes closures.

Owns:
- a constructor that is called was called by the source, or it is that of the class of a closure,
  or that of the superclass of such a class;
- bridges call no constructor;
- the class of a closure declares the constructor that is called where the closure is made.

Does not own: the other methods that are called.
-/

namespace ClosureConversion

/-! ## Calls of constructors -/

/-- The instruction calls a constructor. -/
def Instruction.CallsInit : Instruction Nat → Prop
  | .invoke .special method => method.name = .init
  | _ => False

theorem Instruction.CallsInit.isCall
    {instruction : Instruction Nat}
    (calls : instruction.CallsInit) :
    instruction.IsCall := by
  cases instruction <;> first | exact trivial | exact calls.elim

/-- The instruction calls the constructor of the class of the closure of a site. -/
def MakesClosure (sites : List SitePlan) (instruction : Instruction Nat) : Prop :=
  ∃ plan ∈ sites, instruction = .invoke .special plan.constructor

/-- Inserted calls are calls of constructors only where they make closures. -/
theorem IsInserted.makesClosure
    {sites : List SitePlan}
    {instruction : Instruction Nat}
    (isInserted : IsInserted sites instruction)
    (calls : instruction.CallsInit) :
    MakesClosure sites instruction := by
  cases isInserted with
  | calls isSite isCalled =>
      cases isCalled with
      | construct => exact ⟨_, isSite, rfl⟩
      | default => exact calls.elim
  | box => exact calls.elim
  | unbox => exact calls.elim

/-- No bridge calls a constructor. -/
def BridgeTable.CallsNoInit (table : BridgeTable) : Prop :=
  ∀ bridge ∈ table.bridges, ¬(bridge.use.instruction : Instruction Nat).CallsInit

namespace BridgeTable

variable {table after : BridgeTable}

theorem not_callsInit_of_privateUse
    {instruction : Instruction Nat}
    {use : MemberUse}
    (isUse : table.privateUse instruction = .ok (some use)) :
    ¬(use.instruction : Instruction Nat).CallsInit := by
  rw [instruction_of_privateUse isUse]
  intro calls
  unfold privateUse at isUse
  split at isUse
  · exact calls
  · have isInit : MethodRef.isInit _ = true := decide_eq_true calls
    rw [if_pos isInit] at isUse
    split at isUse <;> cases isUse
  · rename_i kind method notSpecial
    cases kind with
    | special => exact notSpecial rfl
    | _ => exact calls
  · cases isUse

theorem CallsNoInit.bridgeFor
    (plain : table.CallsNoInit)
    {use : MemberUse}
    (isOther : ¬(use.instruction : Instruction Nat).CallsInit) :
    (table.bridgeFor use).2.CallsNoInit := by
  unfold BridgeTable.bridgeFor
  split
  · exact plain
  · intro bridge member
    rcases List.mem_append.mp member with isOld | isNew
    · exact plain bridge isOld
    · rw [List.mem_singleton.mp isNew]
      exact isOther

theorem CallsNoInit.redirect
    (plain : table.CallsNoInit)
    {instruction : Instruction Nat}
    {call? : Option MethodRef}
    (redirected : table.redirect instruction = .ok (call?, after)) :
    after.CallsNoInit := by
  unfold BridgeTable.redirect at redirected
  obtain ⟨use?, isUse, redirected⟩ := bind_eq_ok.mp redirected
  cases use? with
  | none =>
      cases redirected
      exact plain
  | some use =>
      have grown := plain.bridgeFor (not_callsInit_of_privateUse isUse)
      cases redirected
      exact grown

end BridgeTable

/-! ## The code of closures -/

/-- Constructors that are called in the place of code were called by it, or may be called. -/
def ConstructsOnly (Allowed : Instruction Nat → Prop) (origin code : List (Instruction Nat)) :
    Prop :=
  ∀ instruction ∈ code, instruction.CallsInit → instruction ∈ origin ∨ Allowed instruction

theorem CallsOnly.constructsOnly
    {owner : BinaryName}
    {Allowed Wider : Instruction Nat → Prop}
    {bridges : List Bridge}
    {origin code : List (Instruction Nat)}
    (callsOnly : CallsOnly owner Allowed bridges origin code)
    (allows : ∀ instruction, Allowed instruction → instruction.CallsInit → Wider instruction) :
    ConstructsOnly Wider origin code := by
  intro instruction member calls
  rcases callsOnly instruction member calls.isCall with isOld | isAllowed | ⟨bridge, _, rfl⟩
  · exact .inl isOld
  · exact .inr (allows instruction isAllowed calls)
  · exact calls.elim

/-- Making a class of a closure adds no bridges that call constructors. -/
theorem isCompositional_callsNoInit
    (className : BinaryName)
    (sites : List SitePlan)
    (number : Nat) :
    IsCompositional className sites number fun _ _ before after =>
      before.CallsNoInit → after.CallsNoInit where
  append first second := second ∘ first
  map made _ := made
  added _ _ := id
  access _ _ _ := id
  other := by
    intro span index instruction code before after coded plain
    unfold ClosureScope.otherCode at coded
    obtain ⟨⟨call?, table⟩, redirected, isCode⟩ := bind_eq_ok.mp coded
    have stillPlain := plain.redirect redirected
    cases call? with
    | some call =>
        cases isCode
        exact stillPlain
    | none =>
        obtain ⟨kept, _, equal⟩ := bind_eq_ok.mp isCode
        cases equal
        exact stillPlain

/-! ## The classes of closures -/

/-- The class is one of the closure of a site: it declares the constructor by which the closure is
made, and calls those alone that its method calls, those of closures and that of its superclass. -/
structure PlannedSite.IsConstructedBy (site : PlannedSite) (definition : ClassDefinition) :
    Prop where
  name : definition.name = site.self.className
  declares : definition.hasMethod .init site.self.constructorType = true
  calls : ConstructsOnly (fun instruction => MakesClosure site.planned.plan.sites instruction ∨
      instruction = superCall definition.super)
    site.planned.method.instructions.toList definition.code

theorem PlannedSite.IsBuiltAs.isConstructedBy
    {owner : BinaryName}
    {bridges : List Bridge}
    {site : PlannedSite}
    {definition : ClassDefinition}
    (isBuilt : site.IsBuiltAs owner bridges definition) :
    site.IsConstructedBy definition where
  name := isBuilt.name
  declares := by
    have member : declares (.ofBits 0) .init site.self.constructorType ∈
        definition.methods.map MethodDefinition.declaration :=
      isBuilt.methods ▸ List.mem_cons_self
    obtain ⟨method, isMethod, isDeclared⟩ := List.mem_map.mp member
    exact List.any_eq_true.mpr ⟨method, isMethod, by simp [isDeclared, ClosureConversion.declares]⟩
  calls := isBuilt.calls.constructsOnly fun _ isAllowed calls =>
    isAllowed.imp_left fun isInserted => isInserted.makesClosure calls

/-- No bridge of a class calls a constructor, and there is a class for every site that declares the
constructor by which its closure is made. -/
theorem isConstructedBy_of_ofPlans_eq_ok
    {hierarchy : Hierarchy}
    {owner : ClassDeclaration}
    {version : Version}
    {planned : List PlannedMethod}
    {made : ClosureClasses}
    (isMade : ClosureClasses.ofPlans hierarchy owner version planned = .ok made) :
    made.bridges.CallsNoInit ∧ List.Forall₂ PlannedSite.IsConstructedBy
      (planned.flatMap PlannedMethod.sites) made.classes := by
  obtain ⟨_, _, areBuilt⟩ := isBuiltAs_of_ofPlans_eq_ok isMade
  refine ⟨?_, areBuilt.imp fun _ _ isBuilt => isBuilt.isConstructedBy⟩
  refine ofPlans_induction (fun _ (reached : ClosureClasses) => reached.bridges.CallsNoInit)
    (fun _ member => absurd member List.not_mem_nil) ?_ isMade
  intro done site reached next _ isSite plain added
  obtain ⟨⟨definition, bridges⟩, isClass, equal⟩ := bind_eq_ok.mp added
  cases equal
  exact (isCompositional_callsNoInit site.self.className site.planned.plan.sites
    site.number).closureClass isSite isClass (fun _ _ _ _ => id) plain

/-! ## The methods that make closures -/

/-- A method that makes closures calls the constructors that it called before, and those of its
closures. -/
theorem constructsOnly_of_rewrite_eq_ok
    {method rewritten : Method}
    {plan : MethodPlan}
    {place : Place}
    (isRewritten : method.rewrite plan place = .ok rewritten) :
    ConstructsOnly (MakesClosure plan.sites) method.instructions.toList
      rewritten.instructions.toList :=
  (callsOnly_of_rewrite_eq_ok method.owner [] isRewritten).constructsOnly
    fun _ isInserted calls => isInserted.makesClosure calls

end ClosureConversion
