import ClosureConversion.Closure.Bridge
import ClosureConversion.Proofs.Computation
import Mathlib

/-!
Contract: the bridges of a class reach its private members, and nothing else is in their way.

Owns:
- which members of a class are private to it, and which instructions name one;
- what the table of bridges of a class keeps while bridges are added;
- the names of bridges are free, so a bridge can be called from outside the class.

Does not own: the closures that call bridges.
-/

namespace ClosureConversion

/-! ## Private members -/

/-- The field is one that the class itself declares as private. -/
def ClassDeclaration.HidesField (owner : ClassDeclaration) (field : FieldRef) : Prop :=
  field.owner = owner.name ∧ ∃ declared ∈ owner.fields,
    declared.name = field.name ∧ declared.type = field.type ∧
      declared.flags.contains FieldFlags.accPrivate = true

/-- The method is one that the class itself declares as private. -/
def ClassDeclaration.HidesMethod (owner : ClassDeclaration) (method : MethodRef) : Prop :=
  method.owner = .object owner.name ∧ ∃ declared,
    owner.method? method.name method.type = some declared ∧
      declared.flags.contains MethodFlags.accPrivate = true

/-- The handle is one of a private member of the class. -/
def Handle.IsPrivate (owner : ClassDeclaration) : Handle → Prop
  | .field _ member => owner.HidesField member
  | .method _ member => owner.HidesMethod member

/-- The handle that a literal pushes. -/
def Literal.handle? : Literal → Option Handle
  | .methodHandle handle => some handle
  | _ => none

namespace Instruction

variable {Label Target : Type}

/-- The handles that an instruction holds. -/
def handles : Instruction Label → List Handle
  | .pushLiteral literal => literal.handle?.toList
  | .invokeDynamic call => call.bootstrap :: call.arguments.filterMap Literal.handle?
  | _ => []

/-- The instruction accesses a private field of the class or calls a private method of it. -/
def UsesPrivate (owner : ClassDeclaration) : Instruction Label → Prop
  | .field _ member => owner.HidesField member
  | .invoke _ method => owner.HidesMethod method
  | _ => False

/-- The instruction names a private member of the class, by itself or by a handle. -/
def DenotesPrivate (owner : ClassDeclaration) (instruction : Instruction Label) : Prop :=
  instruction.UsesPrivate owner ∨ ∃ handle ∈ instruction.handles, handle.IsPrivate owner

@[simp]
theorem handles_map
    (f : Label → Target)
    (instruction : Instruction Label) :
    (instruction.map f).handles = instruction.handles := by
  cases instruction <;> rfl

@[simp]
theorem usesPrivate_map
    {owner : ClassDeclaration}
    (f : Label → Target)
    (instruction : Instruction Label) :
    (instruction.map f).UsesPrivate owner ↔ instruction.UsesPrivate owner := by
  cases instruction <;> rfl

end Instruction

/-- The call of a bridge of a class. -/
def Bridge.call (owner : BinaryName) (bridge : Bridge) : Instruction Nat :=
  .invoke .static ⟨.object owner, bridge.name, bridge.use.type owner, false⟩

/-! ## Names -/

theorem bridgeName_injective {number other : Nat} (equal : bridgeName number = bridgeName other) :
    number = other := by
  have texts := congrArg UnqualifiedName.text equal
  exact Nat.repr_inj.mp ((String.append_right_inj _).mp texts)

/-- Of more different names than are taken, one is free. -/
theorem exists_mem_not_mem_of_length_lt
    {names taken : List UnqualifiedName}
    (distinct : names.Nodup)
    (fewer : taken.length < names.length) :
    ∃ name ∈ names, name ∉ taken := by
  by_contra allTaken
  push Not at allTaken
  exact Nat.not_le.mpr fewer (distinct.subperm allTaken).length_le

namespace BridgeTable

/-- Not all names from some number on are taken. -/
theorem bridgeName_freeNumber_not_mem
    (table : BridgeTable) :
    bridgeName table.freeNumber ∉ table.taken := by
  unfold freeNumber
  dsimp only
  cases found : (List.range' table.next (table.taken.length + 1)).find? fun number =>
      !table.taken.contains (bridgeName number) with
  | some number =>
      simpa using List.find?_some found
  | none =>
      exfalso
      have distinct : ((List.range' table.next (table.taken.length + 1)).map bridgeName).Nodup :=
        (List.nodup_range' 1).map fun _ _ => bridgeName_injective
      obtain ⟨name, member, isFree⟩ := exists_mem_not_mem_of_length_lt distinct
        (show table.taken.length < _ by simp)
      obtain ⟨number, inRange, rfl⟩ := List.mem_map.mp member
      exact isFree (by simpa using List.find?_eq_none.mp found number inRange)

/-! ## Tables -/

/-- The table has the private members of a class, and bridges with names that no method of the
class has, one for each use. -/
structure IsOf (table : BridgeTable) (owner : ClassDeclaration) : Prop where
  ofOwner : table.owner = owner.name
  fields : ∀ declared ∈ owner.fields, declared.flags.contains FieldFlags.accPrivate = true →
    declared.name ∈ table.privateFields
  methods : ∀ declared ∈ owner.methods, declared.flags.contains MethodFlags.accPrivate = true →
    (declared.name, declared.type) ∈ table.privateMethods
  taken : ∀ declared ∈ owner.methods, declared.name ∈ table.taken
  bridgesTaken : ∀ bridge ∈ table.bridges, bridge.name ∈ table.taken
  named : ∀ bridge ∈ table.bridges, ∃ number, bridge.name = bridgeName number
  free : ∀ bridge ∈ table.bridges, ∀ declared ∈ owner.methods, declared.name ≠ bridge.name
  distinct : (table.bridges.map Bridge.name).Nodup
  sole : (table.bridges.map Bridge.use).Nodup

/-- One table comes after another one of the same class, with all its bridges. -/
def Grows (owner : ClassDeclaration) (before after : BridgeTable) : Prop :=
  before.IsOf owner → after.IsOf owner ∧ before.bridges ⊆ after.bridges

section Tables

variable {owner : ClassDeclaration} {table before between after : BridgeTable}

theorem Grows.refl :
    Grows owner table table :=
  fun isOf => ⟨isOf, List.Subset.refl _⟩

theorem Grows.trans
    (first : Grows owner before between)
    (second : Grows owner between after) :
    Grows owner before after := by
  intro isOf
  obtain ⟨isOfBetween, firstSubset⟩ := first isOf
  obtain ⟨isOfAfter, secondSubset⟩ := second isOfBetween
  exact ⟨isOfAfter, List.Subset.trans firstSubset secondSubset⟩

theorem isOf_ofClass
    (owner : ClassDeclaration) :
    (ofClass owner).IsOf owner where
  ofOwner := rfl
  fields declared member isPrivate :=
    List.mem_map.mpr ⟨declared, List.mem_filter.mpr ⟨member, isPrivate⟩, rfl⟩
  methods declared member isPrivate :=
    List.mem_map.mpr ⟨declared, List.mem_filter.mpr ⟨member, isPrivate⟩, rfl⟩
  taken _ member := List.mem_map_of_mem member
  bridgesTaken := by simp [ofClass]
  named := by simp [ofClass]
  free := by simp [ofClass]
  distinct := List.nodup_nil
  sole := List.nodup_nil

theorem IsOf.add
    (isOf : table.IsOf owner)
    {use : MemberUse}
    (isNew : ∀ bridge ∈ table.bridges, bridge.use ≠ use) :
    (table.add use).2.IsOf owner := by
  have isFree := table.bridgeName_freeNumber_not_mem
  unfold BridgeTable.add
  constructor <;> dsimp only
  · exact isOf.ofOwner
  · exact isOf.fields
  · exact isOf.methods
  · exact fun declared member => List.mem_cons_of_mem _ (isOf.taken declared member)
  · intro bridge member
    rcases List.mem_append.mp member with isOld | isLast
    · exact List.mem_cons_of_mem _ (isOf.bridgesTaken bridge isOld)
    · rw [List.mem_singleton.mp isLast]
      exact List.mem_cons_self
  · intro bridge member
    rcases List.mem_append.mp member with isOld | isLast
    · exact isOf.named bridge isOld
    · exact ⟨_, congrArg Bridge.name (List.mem_singleton.mp isLast)⟩
  · intro bridge member declared isDeclared equal
    rcases List.mem_append.mp member with isOld | isLast
    · exact isOf.free bridge isOld declared isDeclared equal
    · rw [List.mem_singleton.mp isLast] at equal
      dsimp only at equal
      exact isFree (equal ▸ isOf.taken declared isDeclared)
  · rw [List.map_append, List.map_singleton]
    refine isOf.distinct.append (List.nodup_singleton _) ?_
    rw [List.disjoint_singleton]
    intro member
    obtain ⟨bridge, isOld, isSame⟩ := List.mem_map.mp member
    dsimp only at isSame
    exact isFree (isSame ▸ isOf.bridgesTaken bridge isOld)
  · rw [List.map_append, List.map_singleton]
    refine isOf.sole.append (List.nodup_singleton _) ?_
    rw [List.disjoint_singleton]
    intro member
    obtain ⟨bridge, isOld, isSame⟩ := List.mem_map.mp member
    exact isNew bridge isOld isSame

/-- The bridge for a use is in the table from then on. -/
theorem grows_bridgeFor
    (owner : ClassDeclaration)
    (table : BridgeTable)
    (use : MemberUse) :
    Grows owner table (table.bridgeFor use).2 ∧
      (table.bridgeFor use).1 ∈ (table.bridgeFor use).2.bridges ∧
      (table.bridgeFor use).1.use = use := by
  unfold bridgeFor
  cases found : table.bridges.find? fun bridge => decide (bridge.use = use) with
  | some bridge =>
      exact ⟨Grows.refl, List.mem_of_find?_eq_some found, by simpa using List.find?_some found⟩
  | none =>
      refine ⟨fun isOf => ⟨isOf.add fun bridge member => ?_, ?_⟩, ?_, rfl⟩
      · simpa using List.find?_eq_none.mp found bridge member
      · exact List.subset_append_left _ _
      · exact List.mem_append_right _ (List.mem_singleton.mpr rfl)

/-! ## Uses -/

theorem instruction_of_privateUse
    {instruction : Instruction Nat}
    {use : MemberUse}
    (isUse : table.privateUse instruction = .ok (some use)) :
    use.instruction = instruction := by
  unfold privateUse at isUse
  split at isUse
  · split at isUse <;> cases isUse
    rfl
  · split at isUse
    · split at isUse <;> cases isUse
    · split at isUse <;> cases isUse
      rfl
  · split at isUse <;> cases isUse
    rfl
  · cases isUse

/-- The table knows every private member of its class. -/
theorem IsOf.isPrivateField
    (isOf : table.IsOf owner)
    {field : FieldRef}
    (hides : owner.HidesField field) :
    table.isPrivateField field = true := by
  obtain ⟨isOwner, declared, member, isName, _, isPrivate⟩ := hides
  unfold BridgeTable.isPrivateField
  rw [Bool.and_eq_true]
  have known := isOf.fields declared member isPrivate
  exact ⟨by simp [isOwner, isOf.ofOwner], by simpa [isName] using known⟩

theorem IsOf.isPrivateMethod
    (isOf : table.IsOf owner)
    {method : MethodRef}
    (hides : owner.HidesMethod method) :
    table.isPrivateMethod method = true := by
  obtain ⟨isOwner, declared, found, isPrivate⟩ := hides
  have member : declared ∈ owner.methods := List.mem_of_find?_eq_some found
  have isSame : declared.name = method.name ∧ declared.type = method.type := by
    simpa using List.find?_some found
  have known := isOf.methods declared member isPrivate
  rw [isSame.1, isSame.2] at known
  unfold BridgeTable.isPrivateMethod
  rw [Bool.and_eq_true]
  exact ⟨by simp [isOwner, isOf.ofOwner], by simpa using known⟩

/-- No use of a private member goes unnoticed. -/
theorem IsOf.not_usesPrivate_of_privateUse
    (isOf : table.IsOf owner)
    {instruction : Instruction Nat}
    (isUse : table.privateUse instruction = .ok none) :
    ¬instruction.UsesPrivate owner := by
  intro uses
  unfold privateUse at isUse
  split at isUse
  · rw [if_pos (isOf.isPrivateField uses)] at isUse
    cases isUse
  · have isPrivate := isOf.isPrivateMethod uses
    rw [if_pos isPrivate, if_pos isPrivate] at isUse
    split at isUse <;> cases isUse
  · rw [if_pos (isOf.isPrivateMethod uses)] at isUse
    cases isUse
  · rename_i notField notSpecial notCall
    cases instruction
    case field => exact notField _ _ rfl
    case invoke => exact notCall _ _ rfl
    all_goals exact uses

/-- An instruction stays as it is if it uses no private member; otherwise there is a bridge for
its use. -/
theorem redirect_eq_ok
    (owner : ClassDeclaration)
    {instruction : Instruction Nat}
    {call? : Option MethodRef}
    (redirected : table.redirect instruction = .ok (call?, after)) :
    (table.privateUse instruction = .ok none ∧ call? = none ∧ after = table) ∨
      ∃ bridge ∈ after.bridges, bridge.use.instruction = instruction ∧
        call? = some (after.reference bridge) ∧ Grows owner table after := by
  unfold redirect at redirected
  obtain ⟨use?, isUse, redirected⟩ := bind_eq_ok.mp redirected
  cases use? with
  | none =>
      cases redirected
      exact .inl ⟨isUse, rfl, rfl⟩
  | some use =>
      obtain ⟨grows, isBridge, ofUse⟩ := grows_bridgeFor owner table use
      cases added : table.bridgeFor use with
      | mk bridge next =>
          dsimp only at redirected
          rw [added] at redirected grows isBridge ofUse
          cases redirected
          exact .inr ⟨bridge, isBridge, ofUse ▸ instruction_of_privateUse isUse, rfl, grows⟩

/-- Everyone may call a bridge. -/
theorem IsOf.not_usesPrivate_call
    (isOf : table.IsOf owner)
    {bridge : Bridge}
    (member : bridge ∈ table.bridges) :
    ¬(bridge.call owner.name).UsesPrivate owner := by
  rintro ⟨_, declared, found, _⟩
  have isName : declared.name = bridge.name := by
    have isSame := List.find?_some found
    rw [Bool.and_eq_true, decide_eq_true_eq] at isSame
    exact isSame.1
  exact isOf.free bridge member declared (List.mem_of_find?_eq_some found) isName

end Tables

end BridgeTable

end ClosureConversion
