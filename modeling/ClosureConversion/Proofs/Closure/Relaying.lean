import ClosureConversion.Proofs.Closure.Bridges
import ClosureConversion.Proofs.Closure.Composition

/-!
Contract: the class of a closure takes over code without private members of the class around it.

Owns:
- the code that is added in order to make closures stays out of the class around them;
- the code that a closure takes over uses private members through bridges, and keeps its method
  handles as they are.

Does not own: the classes of all closures of a class.
-/

namespace ClosureConversion

/-! ## Code that stays out of a class -/

/-- The code neither uses a private member of the class nor holds a method handle. -/
def StaysOut (owner : ClassDeclaration) (code : List (Instruction Nat)) : Prop :=
  ∀ instruction ∈ code, ¬instruction.UsesPrivate owner ∧ instruction.handles = []

/-- The class is none of those that the code of every closure may use. -/
structure ClassDeclaration.IsOrdinary (owner : ClassDeclaration) : Prop where
  notRoot : owner.name ≠ .object
  notBox : BaseType.ofBoxClass? owner.name = none

section StayingOut

variable {owner : ClassDeclaration}

/-- Members of other classes are never private to the class. -/
theorem not_hidesField_of_ne
    {field : FieldRef}
    (isOther : field.owner ≠ owner.name) :
    ¬owner.HidesField field :=
  fun hides => isOther hides.1

theorem not_hidesMethod_of_ne
    {method : MethodRef}
    (isOther : method.owner ≠ .object owner.name) :
    ¬owner.HidesMethod method :=
  fun hides => isOther hides.1

theorem ClassDeclaration.IsOrdinary.boxClass_ne
    (isOrdinary : owner.IsOrdinary)
    (type : BaseType) :
    type.boxClass ≠ owner.name := by
  have noBox := List.find?_eq_none.mp isOrdinary.notBox type (by cases type <;> decide)
  simpa using noBox

/-- What is added uses members of the classes of closures and of boxes alone. -/
theorem staysOut_of_adds
    (isOrdinary : owner.IsOrdinary)
    {className : BinaryName}
    (isOther : className ≠ owner.name)
    {sites : List SitePlan}
    (areOther : ∀ plan ∈ sites, plan.className ≠ owner.name)
    {code : List (Instruction Nat)}
    (adds : Adds className sites code) :
    StaysOut owner code := by
  intro instruction member
  cases adds instruction member with
  | plain isPlain => cases instruction <;> first | exact isPlain.elim | exact ⟨id, rfl⟩
  | field => exact ⟨not_hidesField_of_ne isOther, rfl⟩
  | default isSite =>
      have isOtherSite := areOther _ isSite
      exact ⟨not_hidesMethod_of_ne (by simpa [SitePlan.defaultAccessor] using isOtherSite), rfl⟩
  | box type =>
      have isOtherBox := isOrdinary.boxClass_ne type
      exact ⟨not_hidesMethod_of_ne (by simpa [boxValue] using isOtherBox), rfl⟩
  | unbox type =>
      have isOtherBox := isOrdinary.boxClass_ne type
      exact ⟨not_hidesMethod_of_ne (by simpa [unboxValue] using isOtherBox), rfl⟩
  | construct isSite =>
      have isOtherSite := areOther _ isSite
      exact ⟨not_hidesMethod_of_ne (by simpa [SitePlan.constructor] using isOtherSite), rfl⟩

end StayingOut

/-! ## Code that takes the place of other code -/

/-- Code takes the place of other code: it uses no private member of a class itself, holds the
same method handles, and calls a bridge for every use of a private member, those uses apart that
are no longer there. -/
structure Relays (owner : ClassDeclaration) (isDropped : Instruction Nat → Prop)
    (bridges : List Bridge) (origin code : List (Instruction Nat)) : Prop where
  direct : ∀ instruction ∈ code, ¬instruction.UsesPrivate owner
  handles : code.flatMap Instruction.handles = origin.flatMap Instruction.handles
  bridged : ∀ instruction ∈ origin, instruction.UsesPrivate owner → ¬isDropped instruction →
    ∃ bridge ∈ bridges, bridge.use.instruction = instruction ∧ bridge.call owner.name ∈ code

namespace Relays

variable {owner : ClassDeclaration} {isDropped : Instruction Nat → Prop}
  {bridges : List Bridge} {origin code : List (Instruction Nat)}

theorem append
    {others replaced : List (Instruction Nat)}
    (first : Relays owner isDropped bridges origin code)
    (second : Relays owner isDropped bridges others replaced) :
    Relays owner isDropped bridges (origin ++ others) (code ++ replaced) where
  direct instruction member :=
    (List.mem_append.mp member).elim (first.direct instruction) (second.direct instruction)
  handles := by rw [List.flatMap_append, List.flatMap_append, first.handles, second.handles]
  bridged := by
    intro instruction member uses kept
    rcases List.mem_append.mp member with isFirst | isSecond
    · obtain ⟨bridge, isBridge, isUse, isCall⟩ := first.bridged instruction isFirst uses kept
      exact ⟨bridge, isBridge, isUse, List.mem_append_left _ isCall⟩
    · obtain ⟨bridge, isBridge, isUse, isCall⟩ := second.bridged instruction isSecond uses kept
      exact ⟨bridge, isBridge, isUse, List.mem_append_right _ isCall⟩

theorem mono
    {more : List Bridge}
    (subset : bridges ⊆ more)
    (relays : Relays owner isDropped bridges origin code) :
    Relays owner isDropped more origin code where
  direct := relays.direct
  handles := relays.handles
  bridged instruction member uses kept := by
    obtain ⟨bridge, isBridge, rest⟩ := relays.bridged instruction member uses kept
    exact ⟨bridge, subset isBridge, rest⟩

/-- Code that stays out of the class can take the place of code that has nothing to keep. -/
theorem of_staysOut
    (staysOut : StaysOut owner code)
    (noHandles : ∀ instruction ∈ origin, instruction.handles = [])
    (dropped : ∀ instruction ∈ origin, instruction.UsesPrivate owner → isDropped instruction) :
    Relays owner isDropped bridges origin code where
  direct instruction member := (staysOut instruction member).1
  handles := by
    rw [List.flatMap_eq_nil_iff.mpr fun instruction member => (staysOut instruction member).2,
      List.flatMap_eq_nil_iff.mpr noHandles]
  bridged instruction member uses kept := absurd (dropped instruction member uses) kept

/-- Code that only a closure has takes no place of other code. -/
theorem of_added
    (staysOut : StaysOut owner code) :
    Relays owner isDropped bridges [] code :=
  of_staysOut staysOut (by simp) (by simp)

/-- Where the jumps go does not matter. -/
theorem map
    (relays : Relays owner isDropped bridges origin code)
    (f : Nat → Nat) :
    Relays owner isDropped bridges origin (code.map (Instruction.map f)) where
  direct := by
    intro moved member
    obtain ⟨instruction, isInstruction, rfl⟩ := List.mem_map.mp member
    rw [Instruction.usesPrivate_map]
    exact relays.direct instruction isInstruction
  handles := by
    rw [List.flatMap_map, ← relays.handles]
    simp only [Instruction.handles_map]
  bridged instruction member uses kept := by
    obtain ⟨bridge, isBridge, isUse, isCall⟩ := relays.bridged instruction member uses kept
    exact ⟨bridge, isBridge, isUse, List.mem_map.mpr ⟨_, isCall, rfl⟩⟩

/-- Private members are only named by the handles that were there before. -/
theorem denotesPrivate_iff
    (relays : Relays owner isDropped bridges origin code) :
    (∃ instruction ∈ code, instruction.DenotesPrivate owner) ↔
      ∃ instruction ∈ origin, ∃ handle ∈ instruction.handles, handle.IsPrivate owner := by
  have sameHandles : ∀ handle, (∃ instruction ∈ code, handle ∈ instruction.handles) ↔
      ∃ instruction ∈ origin, handle ∈ instruction.handles := by
    intro handle
    rw [← List.mem_flatMap, ← List.mem_flatMap, relays.handles]
  constructor
  · rintro ⟨instruction, member, uses | ⟨handle, isHandle, isPrivate⟩⟩
    · exact absurd uses (relays.direct instruction member)
    · obtain ⟨original, isOriginal, same⟩ := (sameHandles handle).mp ⟨instruction, member, isHandle⟩
      exact ⟨original, isOriginal, handle, same, isPrivate⟩
  · rintro ⟨original, isOriginal, handle, isHandle, isPrivate⟩
    obtain ⟨instruction, member, same⟩ := (sameHandles handle).mpr ⟨original, isOriginal, isHandle⟩
    exact ⟨instruction, member, .inr ⟨handle, same, isPrivate⟩⟩

end Relays

/-- Making the code that takes the place of other code adds the bridges that it calls. -/
structure Renders (owner : ClassDeclaration) (isDropped : Instruction Nat → Prop)
    (origin code : List (Instruction Nat)) (before after : BridgeTable) : Prop where
  grows : BridgeTable.Grows owner before after
  relays : before.IsOf owner → Relays owner isDropped after.bridges origin code

namespace Renders

variable {owner : ClassDeclaration} {isDropped : Instruction Nat → Prop}
  {before between after : BridgeTable} {origin code : List (Instruction Nat)}

theorem append
    {others replaced : List (Instruction Nat)}
    (first : Renders owner isDropped origin code before between)
    (second : Renders owner isDropped others replaced between after) :
    Renders owner isDropped (origin ++ others) (code ++ replaced) before after where
  grows := first.grows.trans second.grows
  relays isOf := by
    obtain ⟨isOfBetween, _⟩ := first.grows isOf
    obtain ⟨_, subset⟩ := second.grows isOfBetween
    exact ((first.relays isOf).mono subset).append (second.relays isOfBetween)

/-- No bridges are needed for code that relays without them. -/
theorem of_relays
    (relays : ∀ bridges, Relays owner isDropped bridges origin code) :
    Renders owner isDropped origin code before before where
  grows := BridgeTable.Grows.refl
  relays _ := relays _

theorem map
    (renders : Renders owner isDropped origin code before after)
    (f : Nat → Nat) :
    Renders owner isDropped origin (code.map (Instruction.map f)) before after where
  grows := renders.grows
  relays isOf := (renders.relays isOf).map f

end Renders

/-! ## The code of a site -/

section Pieces

variable {owner : ClassDeclaration} {before after : BridgeTable}

theorem handles_of_localAccess?
    (owner : ClassDeclaration)
    {instruction : Instruction Nat}
    {access : LocalAccess}
    (isAccess : instruction.localAccess? = some access) :
    instruction.handles = [] ∧ ¬instruction.UsesPrivate owner := by
  cases instruction <;> simp_all [Instruction.localAccess?, Instruction.handles,
    Instruction.UsesPrivate]

theorem handles_of_staticField?
    {instruction : Instruction Nat}
    {access : FieldRef × Bool}
    (isAccess : staticField? instruction = some access) :
    instruction.handles = [] := by
  cases instruction <;> simp_all [staticField?, Instruction.handles]

theorem handles_of_memberUse
    (use : MemberUse) :
    (use.instruction : Instruction Nat).handles = [] := by
  cases use <;> rfl

/-- A use of a private member becomes the call of a bridge, any other instruction stays. -/
theorem renders_otherCode
    {isDropped : Instruction Nat → Prop}
    {span : Span}
    {index : Nat}
    {instruction : Instruction Nat}
    {code : List (Instruction Nat)}
    (coded : ClosureScope.otherCode span index instruction before = .ok (code, after)) :
    Renders owner isDropped [instruction] code before after := by
  unfold ClosureScope.otherCode at coded
  obtain ⟨⟨call?, table⟩, redirected, isCode⟩ := bind_eq_ok.mp coded
  clear coded
  obtain ⟨isUse, rfl, rfl⟩ | ⟨bridge, isBridge, ofUse, rfl, grows⟩ :=
    BridgeTable.redirect_eq_ok owner redirected
  · obtain ⟨kept, isKept, equal⟩ := bind_eq_ok.mp isCode
    cases equal
    have isSame : code = [instruction] := by
      unfold ClosureScope.plainCode at isKept
      split at isKept <;> cases isKept
      rfl
    subst isSame
    refine ⟨BridgeTable.Grows.refl, fun isOf => ?_⟩
    have unused := isOf.not_usesPrivate_of_privateUse isUse
    constructor
    · simpa using unused
    · rfl
    · intro other member uses
      rw [List.mem_singleton.mp member] at uses
      exact absurd uses unused
  · cases isCode
    refine ⟨grows, fun isOf => ?_⟩
    obtain ⟨isOfAfter, _⟩ := grows isOf
    have isCall : (.invoke .static (after.reference bridge) : Instruction Nat) =
        bridge.call owner.name := by
      unfold BridgeTable.reference Bridge.call
      rw [isOfAfter.ofOwner]
    rw [isCall]
    constructor
    · intro other member
      rw [List.mem_singleton.mp member]
      exact isOfAfter.not_usesPrivate_call isBridge
    · rw [← ofUse, List.flatMap_singleton, List.flatMap_singleton, handles_of_memberUse]
      rfl
    · intro other member _ _
      rw [List.mem_singleton.mp member]
      exact ⟨bridge, isBridge, ofUse, List.mem_singleton.mpr rfl⟩

/-- What all code of a closure is composed of uses private members through bridges. -/
theorem isCompositional_renders
    (isOrdinary : owner.IsOrdinary)
    {className : BinaryName}
    (isOther : className ≠ owner.name)
    {sites : List SitePlan}
    (areOther : ∀ plan ∈ sites, plan.className ≠ owner.name)
    (number : Nat) :
    IsCompositional className sites number
      (Renders owner (IsParameterAccess (sites.map SitePlan.site) number)) where
  append first second := first.append second
  map renders f := renders.map f
  added table adds := .of_relays fun bridges =>
    .of_added (staysOut_of_adds isOrdinary isOther areOther adds)
  access table isAccess adds := by
    have staysOut := staysOut_of_adds isOrdinary isOther areOther adds
    refine .of_relays fun bridges => .of_staysOut staysOut ?_ ?_
    · intro instruction member
      rw [List.mem_singleton.mp member]
      rcases isAccess with isLocal | ⟨field, isWrite, isField, _⟩
      · obtain ⟨access, isLocal⟩ := Option.isSome_iff_exists.mp isLocal
        exact (handles_of_localAccess? owner isLocal).1
      · exact handles_of_staticField? isField
    · intro instruction member uses
      rw [List.mem_singleton.mp member] at uses ⊢
      rcases isAccess with isLocal | isParameter
      · obtain ⟨access, isLocal⟩ := Option.isSome_iff_exists.mp isLocal
        exact absurd uses (handles_of_localAccess? owner isLocal).2
      · exact isParameter
  other coded := renders_otherCode coded

end Pieces

/-! ## Classes -/

/-- A hierarchy has declared a class, and no other class of its name before. -/
def Hierarchy.Declares (hierarchy : Hierarchy) (owner : ClassDeclaration) : Prop :=
  hierarchy.declared.find? (fun declaration => declaration.name = owner.name) = some owner

theorem Hierarchy.Declares.declare
    {hierarchy : Hierarchy}
    {owner : ClassDeclaration}
    (declares : hierarchy.Declares owner)
    (declaration : ClassDeclaration) :
    (hierarchy.declare declaration).Declares owner := by
  unfold Declares Hierarchy.declare at *
  rw [List.find?_append, declares, Option.some_or]

section Classes

variable {owner : ClassDeclaration} {hierarchy : Hierarchy} {before after : BridgeTable}

/-- The constructor that the constructor of a closure calls is not private. -/
theorem not_hidesMethod_of_closureSuper
    (isOrdinary : owner.IsOrdinary)
    (declares : hierarchy.Declares owner)
    {target : ClassDeclaration}
    {name super : BinaryName}
    (resolved : hierarchy.resolve name = .ok target)
    (superFound : closureSuper target name = .ok super) :
    ¬owner.HidesMethod ⟨.object super, .init, plainType, false⟩ := by
  rintro ⟨isOwner, declared, found, isPrivate⟩
  have isSame : super = owner.name := by simpa using isOwner
  unfold closureSuper at superFound
  split at superFound
  · cases superFound
    exact isOrdinary.notRoot isSame.symm
  · split at superFound
    · rename_i constructor isConstructor
      split at superFound
      · cases superFound
      · rename_i notPrivate
        cases superFound
        subst isSame
        have isTarget : target = owner := by
          unfold Hierarchy.resolve at resolved
          rw [declares] at resolved
          exact (Except.ok.inj resolved).symm
        rw [isTarget, found] at isConstructor
        exact notPrivate (Option.some.inj isConstructor ▸ isPrivate)
    · cases superFound

/-- The class of a closure names no private member of the class around it but by the handles that
its site holds. -/
theorem renders_closureClass
    (isOrdinary : owner.IsOrdinary)
    (declares : hierarchy.Declares owner)
    {method : Method}
    {sites : List SitePlan}
    {number : Nat}
    {self : SitePlan}
    {version : Version}
    {place : Place}
    (isSelf : self ∈ sites)
    (areOther : ∀ plan ∈ sites, plan.className ≠ owner.name)
    {definition : ClassDefinition}
    (made : closureClass method sites number self hierarchy version place before =
      .ok (definition, after)) :
    Renders owner (IsParameterAccess (sites.map SitePlan.site) number)
      (self.movedCode method (sites.map SitePlan.site) number) definition.code before after := by
  refine (isCompositional_renders isOrdinary (areOther self isSelf) areOther number).closureClass
    isSelf made fun target super resolved superFound => .of_relays fun bridges => .of_added ?_
  intro instruction member
  rw [List.mem_singleton.mp member]
  exact ⟨not_hidesMethod_of_closureSuper isOrdinary declares resolved superFound, rfl⟩

end Classes

end ClosureConversion
