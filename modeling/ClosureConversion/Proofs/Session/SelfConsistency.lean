import ClosureConversion.Proofs.Closure.Constructors
import ClosureConversion.Proofs.Session.Independence
import ClosureConversion.Proofs.Session.Interleaving

/-!
Contract: a converted class and the classes of its closures that come with it fit together.

Owns:
- the code that is made for a class, and which constructors it calls;
- what calls that run at the same time keep for a name: one of them has built it;
- a converted class comes with classes that declare the constructors that it calls, if the classes
  of closures that have one name have the same constructors;
- classes of which that is so: those that are the same, and those whose names are apart.

Does not own: the names of the classes of closures.
-/

namespace ClosureConversion

/-! ## Constructors of closures -/

namespace PreparedClass

/-- The instruction is in the code that is made for the class itself: in a method that makes
closures, or in a bridge. -/
inductive Runs (prepared : PreparedClass) (instruction : Instruction Nat) : Prop where
  | method {entry : PlannedMethod} {rewritten : Method} (isPlanned : entry ∈ prepared.planned)
      (isRewritten : entry.method.rewrite entry.plan entry.place = .ok rewritten)
      (member : instruction ∈ rewritten.instructions.toList)
  | bridge {bridge : Bridge} (isBridge : bridge ∈ prepared.bridges)
      (member : instruction ∈ (bridge.body prepared.name).instructions.toList)

/-- The instruction makes no closure: the methods of the class had it before, or it calls the
constructor of the superclass of the class of a closure. -/
def MakesNoClosure (prepared : PreparedClass) (instruction : Instruction Nat) : Prop :=
  (∃ entry ∈ prepared.planned, instruction ∈ entry.method.instructions.toList) ∨
    ∃ definition ∈ prepared.closures, instruction = superCall definition.super

end PreparedClass

/-- The call of a constructor. -/
def constructorCall (name : BinaryName) (type : MethodType) : Instruction Nat :=
  .invoke .special ⟨.object name, .init, type, false⟩

/-- A class may have classes of closures of another one in the place of those of its own that have
the same names: they have the same constructors, and make only closures that are closures of this
class too. -/
structure PreparedClass.ConstructsAlike (prepared other : PreparedClass) : Prop where
  constructors : ∀ definition ∈ prepared.closures, ∀ otherDefinition ∈ other.closures,
    definition.name = otherDefinition.name →
      ∀ type, definition.hasMethod .init type = otherDefinition.hasMethod .init type
  makes : ∀ definition ∈ prepared.closures, ∀ otherDefinition ∈ other.closures,
    definition.name = otherDefinition.name → ∀ target ∈ other.closures, ∀ type,
      constructorCall target.name type ∈ otherDefinition.code →
        target.name ∈ prepared.closures.map ClassDefinition.name

/-- A class constructs like itself. -/
theorem PreparedClass.constructsAlike_self
    {prepared : PreparedClass}
    (distinct : (prepared.closures.map ClassDefinition.name).Nodup) :
    prepared.ConstructsAlike prepared where
  constructors := by
    intro definition member other otherMember sameName type
    rw [List.inj_on_of_nodup_map distinct member otherMember sameName]
  makes := fun _ _ _ _ _ _ isClosure _ _ => List.mem_map_of_mem isClosure

theorem exists_constructorCall_of_makesClosure
    {planned : List PlannedMethod}
    {definitions : List ClassDefinition}
    (constructed : List.Forall₂ PlannedSite.IsConstructedBy
      (planned.flatMap PlannedMethod.sites) definitions)
    {entry : PlannedMethod}
    (isPlanned : entry ∈ planned)
    {instruction : Instruction Nat}
    (makes : MakesClosure entry.plan.sites instruction) :
    ∃ definition ∈ definitions, ∃ type,
      instruction = constructorCall definition.name type ∧
        definition.hasMethod .init type = true := by
  obtain ⟨self, isSite, rfl⟩ := makes
  have isSelf : self ∈ (planned.flatMap PlannedMethod.sites).map PlannedSite.self := by
    rw [map_self_sites]
    exact List.mem_flatMap.mpr ⟨entry, isPlanned, isSite⟩
  obtain ⟨site, member, rfl⟩ := List.mem_map.mp isSelf
  obtain ⟨definition, isDefinition, isConstructed⟩ :=
    exists_mem_of_forall₂ constructed.flip member
  exact ⟨definition, isDefinition, site.self.constructorType,
    by rw [isConstructed.name]; rfl, isConstructed.declares⟩

/-- A constructor that the code of a prepared class calls is declared by the class of a closure,
or the call makes no closure. -/
theorem constructs_of_prepareClass_eq_ok
    {Memory : Type}
    {settings : Settings}
    {hierarchy : Hierarchy}
    {convention : Convention Memory}
    {input : Bytes}
    {prepared : PreparedClass}
    {before after : Memory}
    (prepares : prepareClass settings hierarchy convention input before = .ok prepared after)
    {instruction : Instruction Nat}
    (runs : prepared.Runs instruction ∨
      ∃ definition ∈ prepared.closures, instruction ∈ definition.code)
    (calls : instruction.CallsInit) :
    prepared.MakesNoClosure instruction ∨ ∃ definition ∈ prepared.closures, ∃ type,
      instruction = constructorCall definition.name type ∧
        definition.hasMethod .init type = true := by
  have nothingRuns (isUnchanged : prepared.IsUnchanged) : ¬(prepared.Runs instruction ∨
      ∃ definition ∈ prepared.closures, instruction ∈ definition.code) := by
    rintro ((⟨isPlanned, _, _⟩ | ⟨isBridge, _⟩) | ⟨_, isClosure, _⟩)
    · exact absurd (isUnchanged.planned ▸ isPlanned) List.not_mem_nil
    · exact absurd (isUnchanged.bridges ▸ isBridge) List.not_mem_nil
    · exact absurd (isUnchanged.closures ▸ isClosure) List.not_mem_nil
  obtain ⟨file, _, _, ⟨_, isUnchanged⟩ | ⟨owner, _, _, isUnchanged | ⟨made, isMade, isMadeWith⟩⟩⟩ :=
    prepareClass_eq_ok prepares
  · exact absurd runs (nothingRuns isUnchanged)
  · exact absurd runs (nothingRuns isUnchanged)
  · obtain ⟨plain, constructed⟩ := isConstructedBy_of_ofPlans_eq_ok isMade
    rw [← isMadeWith.closures] at constructed
    rcases runs with (⟨isPlanned, isRewritten, member⟩ | ⟨isBridge, member⟩) |
      ⟨definition, isClosure, member⟩
    · rcases constructsOnly_of_rewrite_eq_ok isRewritten instruction member calls with
        isSource | makes
      · exact .inl (.inl ⟨_, isPlanned, isSource⟩)
      · exact .inr (exists_constructorCall_of_makesClosure constructed isPlanned makes)
    · rw [Bridge.eq_use_of_mem_body member calls.isCall] at calls
      exact absurd calls (plain _ (isMadeWith.bridges ▸ isBridge))
    · obtain ⟨site, isSite, isConstructed⟩ := exists_mem_of_forall₂ constructed isClosure
      obtain ⟨entry, isPlanned, isOfEntry⟩ := List.mem_flatMap.mp isSite
      obtain ⟨_, _, rfl⟩ := List.mem_map.mp isOfEntry
      rcases isConstructed.calls instruction member calls with isSource | makes | isSuper
      · exact .inl (.inl ⟨_, isPlanned, isSource⟩)
      · exact .inr (exists_constructorCall_of_makesClosure constructed isPlanned makes)
      · exact .inl (.inr ⟨definition, isClosure, isSuper⟩)

/-! ## What is kept -/

/-- The bytes are those of a class of a closure, as the call builds it. -/
def Call.Builds (call : Call) (name : BinaryName) (bytes : Bytes) : Prop :=
  ∃ prepared, call.prepared = .ok prepared ∧ ∃ definition ∈ prepared.closures,
    definition.name = name ∧ definition.toBytes prepared.hierarchy = .ok bytes

/-- The class that was found. -/
def Finding.entry : Finding → BinaryName × Bytes
  | .kept name bytes => (name, bytes)
  | .built name bytes => (name, bytes)

/-- The classes are those of the closures of a class, in order, and each of them was made. -/
def PreparedClass.Lists (prepared : PreparedClass) (Made : BinaryName × Bytes → Prop)
    (closures : List (BinaryName × Bytes)) (rest : List BinaryName) : Prop :=
  closures.map Prod.fst ++ rest = prepared.closures.map ClassDefinition.name ∧
    ∀ entry ∈ closures, Made entry

theorem PreparedClass.Lists.push
    {prepared : PreparedClass}
    {Made : BinaryName × Bytes → Prop}
    {closures : List (BinaryName × Bytes)}
    {rest : List BinaryName}
    {name : BinaryName}
    (lists : prepared.Lists Made closures (name :: rest))
    {bytes : Bytes}
    (made : Made (name, bytes)) :
    prepared.Lists Made (closures ++ [(name, bytes)]) rest := by
  refine ⟨?_, fun entry member => ?_⟩
  · rw [List.map_append, List.map_singleton, List.append_assoc]
    exact lists.1
  · rcases List.mem_append.mp member with isEarlier | isLast
    · exact lists.2 entry isEarlier
    · exact List.mem_singleton.mp isLast ▸ made

/-- Of a class that a call converts, all classes of closures are there that the call has got to, and
each of them was made. -/
def Stage.IsOf (call : Call) (Made : BinaryName × Bytes → Prop) : Stage → Prop
  | .looking prepared found rest => call.prepared = .ok prepared ∧ rest ⊆ prepared.closures ∧
      prepared.Lists Made (found.map Finding.entry) (rest.map ClassDefinition.name)
  | .keeping prepared closures rest => call.prepared = .ok prepared ∧
      prepared.Lists Made closures (rest.map fun finding => finding.entry.1) ∧
      ∀ finding ∈ rest, Made finding.entry
  | .ended (.ok converted) => ∃ prepared, call.prepared = .ok prepared ∧
      converted.name = prepared.name ∧ converted.bytes = prepared.bytes ∧
      prepared.Lists Made converted.closures []
  | .ended (.error _) => True

/-- All that a cache keeps was made. -/
def ClosureCache.Keeps (Made : BinaryName × Bytes → Prop) (cache : ClosureCache) : Prop :=
  ∀ name bytes, cache.get? name = some bytes → Made (name, bytes)

theorem ClosureCache.Keeps.insert
    {Made : BinaryName × Bytes → Prop}
    {cache : ClosureCache}
    (keeps : cache.Keeps Made)
    {name : BinaryName}
    {bytes : Bytes}
    (made : Made (name, bytes)) :
    (cache.insert name bytes).2.Keeps Made ∧ Made (name, (cache.insert name bytes).1) := by
  have isMade : Made (name, (cache.insert name bytes).1) := by
    rw [fst_insert]
    cases isKept : cache.get? name with
    | none => exact made
    | some kept => exact keeps name kept isKept
  refine ⟨fun other kept isKept => ?_, isMade⟩
  by_cases same : other = name
  · subst same
    rw [get?_insert_self] at isKept
    exact Option.some.inj isKept ▸ isMade
  · rw [get?_insert_of_ne same] at isKept
    exact keeps other kept isKept

theorem Call.isOf_start
    (call : Call)
    (Made : BinaryName × Bytes → Prop) :
    call.start.IsOf call Made := by
  unfold start
  split
  · rename_i prepared isPrepared
    exact ⟨isPrepared, List.Subset.refl _, rfl, fun _ member => absurd member List.not_mem_nil⟩
  · exact trivial

/-- A step of a call finds only what was made, and makes what it keeps. -/
theorem Stage.IsOf.step
    {call : Call}
    {Made : BinaryName × Bytes → Prop}
    (builds : ∀ name bytes, call.Builds name bytes → Made (name, bytes))
    {stage : Stage}
    {cache : ClosureCache}
    (isOf : stage.IsOf call Made)
    (keeps : cache.Keeps Made) :
    (stage.step cache).1.IsOf call Made ∧ (stage.step cache).2.Keeps Made := by
  match stage, isOf with
  | .looking prepared found [], ⟨isPrepared, _, lists⟩ =>
      refine ⟨⟨isPrepared, ?_, fun finding member => ?_⟩, keeps⟩
      · refine ⟨?_, fun _ member => absurd member List.not_mem_nil⟩
        rw [← lists.1, List.map_map]
        exact (List.append_nil _).symm
      · exact lists.2 _ (List.mem_map_of_mem member)
  | .looking prepared found (definition :: rest), ⟨isPrepared, areClosures, lists⟩ =>
      unfold Stage.step
      dsimp only
      split
      · rename_i bytes isKept
        refine ⟨⟨isPrepared, fun _ member => areClosures (List.mem_cons_of_mem _ member), ?_⟩,
          keeps⟩
        rw [List.map_append, List.map_singleton]
        exact lists.push (keeps definition.name bytes isKept)
      · split
        · rename_i bytes isBuilt
          refine ⟨⟨isPrepared, fun _ member => areClosures (List.mem_cons_of_mem _ member), ?_⟩,
            keeps⟩
          rw [List.map_append, List.map_singleton]
          exact lists.push (builds _ _ ⟨prepared, isPrepared, definition,
            areClosures List.mem_cons_self, rfl, mapError_eq_ok.mp (mapError_eq_ok.mp isBuilt)⟩)
        · exact ⟨trivial, keeps⟩
  | .keeping prepared closures [], ⟨isPrepared, lists, _⟩ =>
      exact ⟨⟨prepared, isPrepared, rfl, rfl, lists⟩, keeps⟩
  | .keeping prepared closures (.kept name bytes :: rest), ⟨isPrepared, lists, made⟩ =>
      exact ⟨⟨isPrepared, lists.push (made _ List.mem_cons_self),
        fun finding member => made finding (List.mem_cons_of_mem _ member)⟩, keeps⟩
  | .keeping prepared closures (.built name bytes :: rest), ⟨isPrepared, lists, made⟩ =>
      obtain ⟨stillKeeps, isMade⟩ := keeps.insert (made _ List.mem_cons_self)
      exact ⟨⟨isPrepared, lists.push isMade,
        fun finding member => made finding (List.mem_cons_of_mem _ member)⟩, stillKeeps⟩
  | .ended (.ok converted), isOf => exact ⟨isOf, keeps⟩
  | .ended (.error _), isOf => exact ⟨isOf, keeps⟩

/-- What calls find and keep was built by one of them. -/
theorem SharedCalls.isOf_run
    {ι : Type}
    [DecidableEq ι]
    (calls : ι → Call)
    {Made : BinaryName × Bytes → Prop}
    (builds : ∀ call name bytes, (calls call).Builds name bytes → Made (name, bytes))
    {state : SharedCalls ι}
    (areOf : ∀ call, (state.stages call).IsOf (calls call) Made)
    (keeps : state.cache.Keeps Made)
    (schedule : List ι) :
    (∀ call, ((state.run schedule).stages call).IsOf (calls call) Made) ∧
      (state.run schedule).cache.Keeps Made := by
  induction schedule generalizing state with
  | nil => exact ⟨areOf, keeps⟩
  | cons next schedule inductionHypothesis =>
      obtain ⟨isOf, stillKeeps⟩ := (areOf next).step (builds next) keeps
      refine inductionHypothesis (fun call => ?_) stillKeeps
      by_cases same : call = next
      · subst same
        rw [step_stages_self]
        exact isOf
      · rw [step_stages_of_ne state same]
        exact areOf call

/-! ## Consistency -/

theorem Call.exists_prepareClass_eq_ok
    {call : Call}
    {prepared : PreparedClass}
    (isPrepared : call.prepared = .ok prepared) :
    ∃ after, prepareClass call.settings call.hierarchy call.convention call.input call.memory =
      .ok prepared after := by
  unfold Call.prepared at isPrepared
  split at isPrepared
  · rename_i prepares
    cases isPrepared
    exact ⟨_, prepares⟩
  · cases isPrepared

/-- Calls that convert classes whose names are apart construct alike, as none of their closures have
a name in common. -/
theorem Call.constructsAlike_of_isApartFrom
    {call other : Call}
    {first second : PreparedClass}
    (isFirst : call.prepared = .ok first)
    (isSecond : other.prepared = .ok second)
    (apart : first.name.IsApartFrom second.name) :
    first.ConstructsAlike second := by
  have different : ∀ definition ∈ first.closures, ∀ otherDefinition ∈ second.closures,
      definition.name ≠ otherDefinition.name := by
    intro definition isClosure otherDefinition isOther
    obtain ⟨_, prepares⟩ := exists_prepareClass_eq_ok isFirst
    obtain ⟨_, preparesOther⟩ := exists_prepareClass_eq_ok isSecond
    obtain ⟨_, _, _, named⟩ := (nodup_name_of_prepareClass_eq_ok prepares).2 definition isClosure
    obtain ⟨_, _, _, otherNamed⟩ :=
      (nodup_name_of_prepareClass_eq_ok preparesOther).2 otherDefinition isOther
    exact apart.closureName_ne named otherNamed
  constructor
  · intro definition isClosure otherDefinition isOther sameName
    exact absurd sameName (different definition isClosure otherDefinition isOther)
  · intro definition isClosure otherDefinition isOther sameName
    exact absurd sameName (different definition isClosure otherDefinition isOther)

/-- A class of a closure as a call builds it. -/
structure BuiltClosure where
  /-- The class that the call converts. -/
  source : PreparedClass
  definition : ClassDefinition

/-- The entry lists the class of the closure with its bytes. -/
structure BuiltClosure.IsListedAs (built : BuiltClosure) (entry : BinaryName × Bytes) : Prop where
  isClosure : built.definition ∈ built.source.closures
  name : built.definition.name = entry.1
  bytes : built.definition.toBytes built.source.hierarchy = .ok entry.2

/-- The call of a constructor makes no closure, or the class whose constructor it calls is listed
and declares it. -/
def IsSupplied (listed : List BuiltClosure) (source : PreparedClass)
    (instruction : Instruction Nat) : Prop :=
  source.MakesNoClosure instruction ∨ ∃ built ∈ listed, ∃ type,
    instruction = constructorCall built.definition.name type ∧
      built.definition.hasMethod .init type = true

/-- A converted class comes with classes of all its closures, each of them once, and they declare
all constructors that the class and they themselves call to make closures. -/
structure ConvertedClass.IsConsistentWith (converted : ConvertedClass) (prepared : PreparedClass)
    (listed : List BuiltClosure) : Prop where
  name : converted.name = prepared.name
  bytes : converted.bytes = prepared.bytes
  names : converted.closures.map Prod.fst = prepared.closures.map ClassDefinition.name
  distinct : (converted.closures.map Prod.fst).Nodup
  closures : List.Forall₂ BuiltClosure.IsListedAs listed converted.closures
  suppliesClass : ∀ instruction, prepared.Runs instruction → instruction.CallsInit →
    IsSupplied listed prepared instruction
  suppliesClosures : ∀ built ∈ listed, ∀ instruction ∈ built.definition.code,
    instruction.CallsInit → IsSupplied listed built.source instruction

section Listed

variable {listed : List BuiltClosure} {closures : List (BinaryName × Bytes)}

theorem exists_isListedAs
    {ι : Type}
    {calls : ι → Call}
    (made : ∀ entry ∈ closures, ∃ call, (calls call).Builds entry.1 entry.2) :
    ∃ listed, List.Forall₂ BuiltClosure.IsListedAs listed closures ∧
      ∀ built ∈ listed, ∃ call, (calls call).prepared = .ok built.source := by
  have each : ∀ entry ∈ closures, ∃ built : BuiltClosure, built.IsListedAs entry ∧
      ∃ call, (calls call).prepared = .ok built.source := by
    intro entry member
    obtain ⟨call, source, isSource, definition, isClosure, isNamed, isBytes⟩ := made entry member
    exact ⟨⟨source, definition⟩, ⟨isClosure, isNamed, isBytes⟩, call, isSource⟩
  obtain ⟨listed, related⟩ := exists_forall₂_of_forall each
  refine ⟨listed, related.imp fun _ _ isListed => isListed.1, fun built member => ?_⟩
  obtain ⟨_, _, isListed⟩ := exists_mem_of_forall₂ related.flip member
  exact isListed.2

theorem map_name_of_isListedAs
    (areListed : List.Forall₂ BuiltClosure.IsListedAs listed closures) :
    listed.map (·.definition.name) = closures.map Prod.fst := by
  rw [← List.forall₂_eq_eq_eq]
  exact List.forall₂_map_left_iff.mpr (List.forall₂_map_right_iff.mpr
    (areListed.imp fun _ _ isListed => isListed.name))

/-- A constructor that a class of a closure declares is declared by the class that is listed for
its name. -/
theorem isSupplied_of_constructsAlike
    {source : PreparedClass}
    (areClosures : ∀ built ∈ listed, built.definition ∈ built.source.closures)
    (alike : ∀ built ∈ listed, built.source.ConstructsAlike source)
    {target : ClassDefinition}
    (isTarget : target ∈ source.closures)
    (isListed : target.name ∈ listed.map (·.definition.name))
    {type : MethodType}
    (declares : target.hasMethod .init type = true) :
    IsSupplied listed source (constructorCall target.name type) := by
  obtain ⟨built, member, sameName⟩ := List.mem_map.mp isListed
  have agrees := (alike built member).constructors built.definition (areClosures built member)
    target isTarget sameName type
  exact .inr ⟨built, member, type, by rw [sameName], agrees.trans declares⟩

end Listed

/-- **Consistency**: however the steps of several calls are interleaved, a converted class comes
with classes of closures that declare the constructors that it calls and that they call, if the
classes that are converted construct alike. -/
theorem interleavedCalls_areConsistent
    {ι : Type}
    [DecidableEq ι]
    (calls : ι → Call)
    (alike : ∀ call other first second, (calls call).prepared = .ok first →
      (calls other).prepared = .ok second → first.ConstructsAlike second)
    (schedule : List ι) :
    ∀ call converted,
      ((SharedCalls.start calls .empty).run schedule).stages call = .ended (.ok converted) →
        ∃ prepared listed, (calls call).prepared = .ok prepared ∧
          (∀ built ∈ listed, ∃ other, (calls other).prepared = .ok built.source) ∧
          converted.IsConsistentWith prepared listed := by
  intro call converted ended
  let Made (entry : BinaryName × Bytes) : Prop := ∃ other, (calls other).Builds entry.1 entry.2
  have nothingKept : ClosureCache.empty.Keeps Made := fun name bytes isKept => nomatch isKept
  have isOf :
      (((SharedCalls.start calls .empty).run schedule).stages call).IsOf (calls call) Made :=
    (SharedCalls.isOf_run calls (fun other name bytes builds => ⟨other, builds⟩)
      (fun other => (calls other).isOf_start Made) nothingKept schedule).1 call
  rw [ended] at isOf
  obtain ⟨prepared, isPrepared, sameName, sameBytes, names, made⟩ := isOf
  rw [List.append_nil] at names
  obtain ⟨after, prepares⟩ := Call.exists_prepareClass_eq_ok isPrepared
  obtain ⟨listed, areListed, areBuilt⟩ := exists_isListedAs made
  have listedNames := (map_name_of_isListedAs areListed).trans names
  have areClosures : ∀ built ∈ listed, built.definition ∈ built.source.closures := by
    intro built member
    obtain ⟨_, _, isListed⟩ := exists_mem_of_forall₂ areListed.flip member
    exact isListed.isClosure
  have supplied {source : PreparedClass} {other : ι}
      (isSource : (calls other).prepared = .ok source)
      {target : ClassDefinition} (isTarget : target ∈ source.closures) {type : MethodType}
      (hasName : target.name ∈ prepared.closures.map ClassDefinition.name)
      (declares : target.hasMethod .init type = true) :
      IsSupplied listed source (constructorCall target.name type) := by
    refine isSupplied_of_constructsAlike areClosures (fun built member => ?_) isTarget
      (listedNames ▸ hasName) declares
    obtain ⟨origin, isOrigin⟩ := areBuilt built member
    exact alike origin other built.source source isOrigin isSource
  refine ⟨prepared, listed, isPrepared, areBuilt, sameName, sameBytes, names,
    names ▸ (nodup_name_of_prepareClass_eq_ok prepares).1, areListed, ?_, ?_⟩
  · intro instruction runs isCall
    rcases constructs_of_prepareClass_eq_ok prepares (.inl runs) isCall with
      makesNone | ⟨target, isTarget, type, rfl, declares⟩
    · exact .inl makesNone
    · exact supplied isPrepared isTarget (List.mem_map_of_mem isTarget) declares
  · -- A class of a closure may have been built for another class, but makes closures of this one.
    intro built member instruction isCode isCall
    obtain ⟨other, isSource⟩ := areBuilt built member
    obtain ⟨_, preparesSource⟩ := Call.exists_prepareClass_eq_ok isSource
    rcases constructs_of_prepareClass_eq_ok preparesSource
      (.inr ⟨_, areClosures built member, isCode⟩) isCall with
      makesNone | ⟨target, isTarget, type, rfl, declares⟩
    · exact .inl makesNone
    · obtain ⟨own, isOwn, ownName⟩ : ∃ own ∈ prepared.closures,
          own.name = built.definition.name :=
        List.mem_map.mp (listedNames ▸ List.mem_map_of_mem member)
      have isMade := (alike call other prepared built.source isPrepared isSource).makes own isOwn
        built.definition (areClosures built member) ownName target isTarget type isCode
      exact supplied isSource isTarget isMade declares

namespace RebuiltFactory

open OwnFactory

/-- The class of a closure of the class with the factory. -/
def closure (fields : List FieldDeclaration) (constructor : MethodType)
    (constructorCode body : List (Instruction Nat)) : ClassDefinition where
  name := closureName
  super := .object
  flags := closureFlags
  interfaces := [supplier]
  fields := fields
  methods := [
    ⟨declares (.ofBits 0) .init constructor, some { instructions := constructorCode.toArray }⟩,
    ⟨declares MethodFlags.accPublic outcome.name outcome.type, some {
      instructions := body.toArray
      localVariables := #[thisVariable closureName body.length] }⟩]

/-- What is made of the class with the factory, given the class of its closure. -/
def made (definition : ClassDefinition) : ClosureClasses where
  hierarchy := (Hierarchy.core.declare makerClass).declare definition.declaration
  bridges := .ofClass makerClass
  classes := [definition]

/-- The class of the closure that captures nothing. -/
def firstClosure : ClassDefinition :=
  closure [] plainType [.load .reference 0, superCall .object, .op (.leave none)]
    [.pushInt 1, .op (.leave (some .int))]

/-- The method that makes the closure that captures nothing. -/
def firstRewritten : Method :=
  { runMethod maker with
    instructions := #[.new closureName, .op (.stack .dup), constructorCall closureName plainType,
      .op (.leave (some .reference))] }

theorem ofPlans_first :
    ClosureClasses.ofPlans (Hierarchy.core.declare makerClass) makerClass .java8
      [⟨1, runMethod maker, plan⟩] = .ok (made firstClosure) := by
  with_unfolding_all rfl

theorem rewrite_first :
    (runMethod maker).rewrite plan (Place.ofMethod (runMethod maker)) = .ok firstRewritten := by
  with_unfolding_all rfl

/-- The frames of the method that makes the closure. -/
def firstFrames : FlowAnalysis where
  frames := #[some ⟨[], []⟩, some ⟨[], [.uninitialized 0]⟩,
    some ⟨[], [.uninitialized 0, .uninitialized 0]⟩, some ⟨[], [.object (.object closureName)]⟩]
  maxStack := 2
  maxLocals := 0

/-- The frames of the later version of the method as it is read. -/
def laterFrames : FlowAnalysis where
  frames := #[some ⟨[], []⟩, some ⟨[], [.int]⟩, some ⟨[.int], []⟩, some ⟨[.int], [.int]⟩,
    some ⟨[.int], [.object (.object supplier)]⟩]
  maxStack := 1
  maxLocals := 1

/-- The frames of the later version of the method as it is rewritten. -/
def laterRewrittenFrames : FlowAnalysis where
  frames := #[some ⟨[], []⟩, some ⟨[], [.int]⟩, some ⟨[.int], []⟩,
    some ⟨[.int], [.uninitialized 2]⟩, some ⟨[.int], [.uninitialized 2, .uninitialized 2]⟩,
    some ⟨[.int], [.int, .uninitialized 2, .uninitialized 2]⟩,
    some ⟨[.int], [.object (.object closureName)]⟩]
  maxStack := 3
  maxLocals := 1

/-- The frames of a method of the class of the closure, given the receiver and the values on the
operand stack before each instruction. -/
def closureFrames (entries : List (VType × List VType)) : FlowAnalysis where
  frames := (entries.map fun (receiver, stack) => some ⟨[receiver], stack⟩).toArray
  maxStack := 1
  maxLocals := 1

theorem isPlain_firstClosure :
    firstClosure.IsPlain (made firstClosure).hierarchy 40 where
  fields := fun _ member => absurd member List.not_mem_nil
  methods := by
    let receiver : VType := .object (.object closureName)
    intro method member
    rcases List.mem_cons.mp member with rfl | isLast
    · exact ⟨rfl, _, closureFrames [(.uninitializedThis, []),
        (.uninitializedThis, [.uninitializedThis]), (receiver, [])], rfl, by decide,
        by decide⟩
    · cases List.mem_singleton.mp isLast
      exact ⟨rfl, _, closureFrames [(receiver, []), (receiver, [.int])], rfl, by decide,
        by decide⟩

theorem exists_toBytes_firstClosure :
    ∃ bytes, firstClosure.toBytes (made firstClosure).hierarchy = .ok bytes :=
  isPlain_firstClosure.exists_toBytes (by decide)

/-- The class of the closure that captures a variable. -/
def laterClosure : ClassDefinition :=
  let captured : FieldRef := ⟨closureName, ⟨"n", by decide⟩, .base .int⟩
  closure [⟨captured.name, captured.type, captureFlags, []⟩] ⟨[.base .int], none⟩
    [.load .reference 0, superCall .object, .load .reference 0, .load .int 1,
      .field .putField captured, .op (.leave none)]
    [.load .reference 0, .field .getField captured, .op (.leave (some .int))]

/-- The member that calls the factory in a later version of the class. -/
def laterRunMember : Member .method :=
  ⟨MethodFlags.accStatic, 12, 13,
    [⟨5, write (CodeAttribute.mk 1 1 [0x04, 0x3b, 0x1a, 0xb8, 0, 11, 0xb0] []
      [⟨16, write (VariableTable.mk [⟨2, 5, 17, 18, 0⟩])⟩])⟩]⟩

/-- A later version of the class with the factory. -/
def laterFile : ClassFile :=
  { makerFile with
    pool := .ofTable (.ofList 1 (constants maker ++
      [.utf8 "LocalVariableTable", .utf8 "n", .utf8 "I"])) []
    methods := [supplyMember, laterRunMember] }

/-- The method that calls the factory in the later version. -/
def laterRunMethod (instructions : Array (Instruction Nat)) : Method :=
  { runMethod maker with
    instructions := instructions
    localVariables := #[⟨2, instructions.size, ⟨"n", by decide⟩, .base .int, 0⟩]
    hasVariableTable := true
    maxLocals := 1 }

/-- The later version of the method as it is read. -/
def laterMethod : Method :=
  laterRunMethod #[.pushInt 1, .store .int 0, .load .int 0, .invoke .static factory,
    .op (.leave (some .reference))]

/-- The later version of the method as it is rewritten. -/
def laterRewritten : Method :=
  laterRunMethod #[.pushInt 1, .store .int 0, .new closureName, .op (.stack .dup), .load .int 0,
    constructorCall closureName ⟨[.base .int], none⟩, .op (.leave (some .reference))]

/-- The site of the closure in the later version. -/
def laterSite : LambdaSite :=
  { site with body := ⟨2, 3⟩, call := 3, stop := 4 }

/-- The plan of the later version of the method. -/
def laterPlan : MethodPlan where
  sites := [⟨laterSite,
    { captures := [⟨.local 0 2, ⟨"n", by decide⟩, .base .int, .outerLocal, false⟩] }, outcome,
    closureName⟩]
  boxes := []

theorem ofBytes_laterFile : ClassFile.ofBytes laterFile.toBytes = .ok laterFile := by
  with_unfolding_all rfl

theorem ofClassFile_laterFile : ClassDeclaration.ofClassFile laterFile = .ok makerClass := by
  with_unfolding_all rfl

theorem ofPlans_later :
    ClosureClasses.ofPlans (Hierarchy.core.declare makerClass) makerClass .java8
      [⟨1, laterMethod, laterPlan⟩] = .ok (made laterClosure) := by
  with_unfolding_all rfl

theorem rewrite_later :
    laterMethod.rewrite laterPlan (Place.ofMethod laterMethod) = .ok laterRewritten := by
  with_unfolding_all rfl

/-- Where its call is known to be one of a factory, the later version has a closure that captures
the variable. -/
theorem planMembers_laterFile :
    planMembers .standard (Hierarchy.core.declare makerClass) (.logging (script true)) laterFile 0 0
      laterFile.methods [] = .ok [⟨1, laterMethod, laterPlan⟩] [(question, .ok true)] := by
  let place := Place.ofMethod laterMethod
  have noSite : planMember .standard (Hierarchy.core.declare makerClass) (.logging (script true))
      laterFile 0 0 supplyMember [] = .ok none [] := by
    have isRead : Method.ofMember? laterFile supplyMember = .ok (some supplyMethod) := by
      with_unfolding_all rfl
    exact planMember_of_noCalls isRead rfl
  have isRead : Method.ofMember? laterFile laterRunMember = .ok (some laterMethod) := by
    with_unfolding_all rfl
  have called : factoryCalls laterMethod (Hierarchy.core.declare makerClass)
      (.logging (script true)) [] = .ok [3] [(question, .ok true)] := rfl
  have analyzed : laterMethod.analyze (Hierarchy.core.declare makerClass) = .ok laterFrames := by
    decide
  have detected : detectSites laterMethod laterFrames [3] 0 (Hierarchy.core.declare makerClass)
      (.logging (script true)) place [(question, .ok true)] =
        .ok [laterSite] [(question, .ok true)] := by
    with_unfolding_all rfl
  have captured : analyzeCaptures laterMethod [laterSite] (Hierarchy.core.declare makerClass)
      (.logging (script true)) place [(question, .ok true)] =
        .ok ⟨laterPlan.sites.map SitePlan.captures, []⟩ [(question, .ok true)] := by
    with_unfolding_all rfl
  have resolved : abstractMethods [laterSite] (Hierarchy.core.declare makerClass) place =
      .ok [outcome] := by
    have found : laterSite.abstractMethod (Hierarchy.core.declare makerClass) = .ok outcome :=
      abstractMethod_site
    unfold abstractMethods
    rw [List.mapM_cons, found]
    rfl
  have named : classNames [laterSite] .standard maker = .ok [closureName] := by
    with_unfolding_all rfl
  have isPlanned : planMember .standard (Hierarchy.core.declare makerClass)
      (.logging (script true)) laterFile 1 0 laterRunMember [] =
        .ok (some ⟨1, laterMethod, laterPlan⟩) [(question, .ok true)] :=
    planMember_eq_ok.mpr ⟨rfl, isRead, [3], _, called, rfl, planMethod_eq_ok.mpr
      ⟨laterFrames, [laterSite], _, [outcome], [closureName], _, analyzed, detected, captured,
        resolved, named, rfl⟩⟩
  exact run_bind_eq_ok.mpr ⟨none, _, noSite,
    run_bind_eq_ok.mpr ⟨_, _, isPlanned, run_bind_eq_ok.mpr ⟨[], _, rfl, rfl⟩⟩⟩

/-- The call that a session makes to convert its first class. -/
def call (input : Bytes) : Call :=
  (Session.start .standard .core).call input

/-- A call knows that the class it converts declares the factory. -/
theorem prepared_of_scripted
    {file : ClassFile}
    (isRead : ClassFile.ofBytes file.toBytes = .ok file)
    (isOwner : ClassDeclaration.ofClassFile file = .ok makerClass)
    {prepared : PreparedClass}
    (prepares : prepareClass .standard .core (.logging (script true)) file.toBytes [] =
      .ok prepared [(question, .ok true)]) :
    (call file.toBytes).prepared = .ok prepared := by
  have isDeclared : ClassDeclaration.ofBytes file.toBytes = .ok makerClass :=
    bind_eq_ok.mpr ⟨file, isRead, isOwner⟩
  have agree : ∀ entry ∈ [(question, Except.ok true)],
      (Session.start .standard .core).decisions.reply .standard
        (Hierarchy.core.withClass file.toBytes) entry.1 = entry.2 := by
    intro entry member
    cases List.mem_singleton.mp member
    rw [Hierarchy.withClass, isDeclared]
    exact decide_withMaker
  obtain ⟨after, isPrepared⟩ :=
    (isDialogue_prepareClass .standard .core file.toBytes).convention_congr prepares agree
  replace isPrepared : prepareClass (call file.toBytes).settings (call file.toBytes).hierarchy
    (call file.toBytes).convention (call file.toBytes).input (call file.toBytes).memory =
      .ok prepared after := isPrepared
  unfold Call.prepared
  rw [isPrepared]

/-- The class with the factory, prepared, given the method that makes the closure. -/
def preparedWith (method : Method) (plan : MethodPlan) (definition : ClassDefinition)
    (bytes : Bytes) : PreparedClass where
  name := maker
  bytes := bytes
  planned := [⟨1, method, plan⟩]
  bridges := []
  closures := [definition]
  hierarchy := (made definition).hierarchy

/-- A class with the method that calls the factory is prepared if it declares what the class with
the factory declares. -/
theorem exists_prepareClass_runMember
    {settings : Settings}
    {input : Bytes}
    {file : ClassFile}
    {other : Member .method}
    (isRead : ClassFile.ofBytes input = .ok file)
    (isOwner : ClassDeclaration.ofClassFile file = .ok makerClass)
    (accepted : settings.filter.accepts maker = true)
    (methods : file.methods = [other, runMember])
    (noSite : planMember settings (Hierarchy.core.declare makerClass) (.logging (script true))
      file 0 0 other [] = .ok none [])
    (readsRun : Method.ofMember? file runMember = .ok (some (runMethod maker)))
    (named : classNames [site] settings maker = .ok [closureName])
    (version : settings.versionFor file.version = .java8)
    (enough : file.pool.constants.endOffset + 62 ≤ ConstantPool.positionLimit) :
    ∃ bytes, prepareClass settings .core (.logging (script true)) input [] =
      .ok (preparedWith (runMethod maker) plan firstClosure bytes) [(question, .ok true)] := by
  have staysPlain : ∀ entry ∈ [PlannedMethod.mk 1 (runMethod maker) plan], ∃ rewritten analysis,
      entry.method.rewrite entry.plan entry.place = .ok rewritten ∧
        rewritten.IsPlain (made firstClosure).hierarchy analysis ∧ rewritten.room ≤ 60 := by
    intro entry member
    cases List.mem_singleton.mp member
    exact ⟨_, firstFrames, rewrite_first, by decide, by decide⟩
  exact exists_prepareClass_eq_ok isRead isOwner accepted
    (planMembers_runMember methods noSite readsRun named) rfl (version ▸ ofPlans_first) staysPlain
    (fun _ member => nomatch member) enough

theorem exists_prepareClass_makerFile :
    ∃ bytes, prepareClass .standard .core (.logging (script true)) makerFile.toBytes [] =
      .ok (preparedWith (runMethod maker) plan firstClosure bytes) [(question, .ok true)] :=
  exists_prepareClass_runMember ofBytes_makerFile ofClassFile_makerFile rfl rfl
    (planMember_supplyMember _ true) (by with_unfolding_all rfl) (by with_unfolding_all rfl) rfl
    (by decide)

theorem exists_prepared_makerFile :
    ∃ bytes, (call makerFile.toBytes).prepared =
      .ok (preparedWith (runMethod maker) plan firstClosure bytes) := by
  obtain ⟨bytes, prepares⟩ := exists_prepareClass_makerFile
  exact ⟨bytes, prepared_of_scripted ofBytes_makerFile ofClassFile_makerFile prepares⟩

theorem exists_prepared_laterFile :
    ∃ bytes, (call laterFile.toBytes).prepared =
      .ok (preparedWith laterMethod laterPlan laterClosure bytes) := by
  have staysPlain : ∀ entry ∈ [PlannedMethod.mk 1 laterMethod laterPlan], ∃ rewritten analysis,
      entry.method.rewrite entry.plan entry.place = .ok rewritten ∧
        rewritten.IsPlain (made laterClosure).hierarchy analysis ∧ rewritten.room ≤ 60 := by
    intro entry member
    cases List.mem_singleton.mp member
    exact ⟨_, laterRewrittenFrames, rewrite_later, by decide, by decide⟩
  obtain ⟨bytes, prepares⟩ := exists_prepareClass_eq_ok ofBytes_laterFile ofClassFile_laterFile rfl
    planMembers_laterFile rfl ofPlans_later staysPlain (fun _ member => nomatch member) (by decide)
  exact ⟨bytes, prepared_of_scripted ofBytes_laterFile ofClassFile_laterFile prepares⟩

/-- A class with one closure ends with what is kept for that, or else with what is built. -/
theorem finish_eq_ok
    {prepared : PreparedClass}
    {definition : ClassDefinition}
    (closures : prepared.closures = [definition])
    {cache : ClosureCache}
    {bytes : Bytes}
    (has : cache.get? definition.name = some bytes ∨
      cache.get? definition.name = none ∧ definition.toBytes prepared.hierarchy = .ok bytes) :
    prepared.finish cache = .ok (⟨prepared.name, prepared.bytes, [(definition.name, bytes)]⟩,
      (cache.insert definition.name bytes).2) := by
  have entry : prepared.closureEntry cache definition = .ok (definition.name, bytes) := by
    unfold PreparedClass.closureEntry PreparedClass.build
    rcases has with isKept | ⟨isFree, isBuilt⟩
    · rw [isKept]
    · rw [isFree, isBuilt]
      rfl
  have kept : (cache.insert definition.name bytes).1 = bytes := by
    rw [ClosureCache.fst_insert]
    rcases has with isKept | ⟨isFree, _⟩
    · rw [isKept, Option.getD_some]
    · rw [isFree, Option.getD_none]
  unfold PreparedClass.finish PreparedClass.complete
  rw [closures, List.mapM_cons, entry]
  change Except.ok ((⟨prepared.name, prepared.bytes,
    [(definition.name, (cache.insert definition.name bytes).1)]⟩ : ConvertedClass), _) = _
  rw [kept]
  rfl

/-- A class is converted if it is prepared with one closure, whose class can be built. -/
theorem exists_convertClass_of_prepares
    {Memory : Type}
    {settings : Settings}
    {hierarchy : Hierarchy}
    {convention : Convention Memory}
    {input : Bytes}
    {prepared : PreparedClass}
    {before after : Memory}
    (prepares : prepareClass settings hierarchy convention input before = .ok prepared after)
    {definition : ClassDefinition}
    (closures : prepared.closures = [definition])
    (isBuilt : ∃ bytes, definition.toBytes prepared.hierarchy = .ok bytes) :
    ∃ converted, convertClass settings hierarchy convention .empty input before =
        .ok converted after ∧
      converted.closures ≠ [] := by
  obtain ⟨kept, isBuilt⟩ := isBuilt
  have free : ClosureCache.empty.get? definition.name = none := rfl
  have finishes := finish_eq_ok closures (.inr ⟨free, isBuilt⟩)
  obtain ⟨converted, completes, _⟩ := bind_eq_ok.mp finishes
  refine ⟨converted, ?_, fun noClosures => ?_⟩
  · rw [convertClass_eq]
    exact run_bind_eq_ok.mpr ⟨_, _, prepares, run_ofExcept_eq_ok.mpr ⟨completes, rfl⟩⟩
  · obtain ⟨entries, areEntries, equal⟩ := bind_eq_ok.mp completes
    cases equal
    have count := (forall₂_of_mapM_eq_ok areEntries).length_eq
    rw [closures, show entries = [] from noClosures] at count
    cases count

/-- The class with the factory and then another version of it. -/
def versions (later : ClassFile) : Bool → Call
  | false => call makerFile.toBytes
  | true => call later.toBytes

/-- A version of the class comes with the class of the closure of the first one if its closure has
that name. -/
theorem exists_run_versions
    {later : ClassFile}
    {method : Method}
    {laterPlan : MethodPlan}
    {definition : ClassDefinition}
    {bytes : Bytes}
    (isPrepared : (call later.toBytes).prepared =
      .ok (preparedWith method laterPlan definition bytes))
    (sameName : definition.name = closureName) :
    ∃ schedule first second kept,
      ((SharedCalls.start (versions later) .empty).run schedule).stages false =
          .ended (.ok first) ∧
        ((SharedCalls.start (versions later) .empty).run schedule).stages true =
          .ended (.ok second) ∧
        firstClosure.toBytes (made firstClosure).hierarchy = .ok kept ∧
        second.closures = [(closureName, kept)] := by
  obtain ⟨firstBytes, isFirst⟩ := exists_prepared_makerFile
  obtain ⟨kept, isBuilt⟩ := exists_toBytes_firstClosure
  have free : ClosureCache.empty.get? firstClosure.name = none := rfl
  let first := preparedWith (runMethod maker) plan firstClosure firstBytes
  let second := preparedWith method laterPlan definition bytes
  let between := (ClosureCache.empty.insert closureName kept).2
  have closures : first.closures = [firstClosure] := rfl
  have finishes := finish_eq_ok closures (.inr ⟨free, isBuilt⟩)
  have isKept : between.get? definition.name = some kept := by
    rw [sameName]
    exact ClosureCache.get?_insert_self .empty closureName kept
  have finishesNext : second.finish between =
      .ok (⟨maker, bytes, [(definition.name, kept)]⟩, (between.insert definition.name kept).2) :=
    finish_eq_ok rfl (.inl isKept)
  obtain ⟨schedule, ended, endedNext⟩ := SharedCalls.exists_run_of_finish_eq_ok
    (versions later) Bool.false_ne_true isFirst isPrepared finishes finishesNext
  refine ⟨schedule, _, _, kept, ended, endedNext, isBuilt, ?_⟩
  rw [sameName]

theorem laterRuns_constructorCall
    (bytes : Bytes) :
    (preparedWith laterMethod laterPlan laterClosure bytes).Runs
      (constructorCall closureName ⟨[.base .int], none⟩) :=
  .method (List.mem_singleton_self _) rewrite_later (by decide)

theorem not_laterMakesNoClosure_constructorCall
    (bytes : Bytes) :
    ¬(preparedWith laterMethod laterPlan laterClosure bytes).MakesNoClosure
      (constructorCall closureName ⟨[.base .int], none⟩) := by
  rintro (⟨entry, isPlanned, isSource⟩ | ⟨definition, isClosure, isSuper⟩)
  · cases List.mem_singleton.mp isPlanned
    revert isSource
    decide
  · cases List.mem_singleton.mp isClosure
    revert isSuper
    decide

end RebuiltFactory

open RebuiltFactory OwnFactory in
/-- A class that is converted a second time comes with a class of its closure that has the
constructor that it calls. -/
theorem rebuiltFactory_isConsistent :
    (∀ call other first second, (versions makerFile call).prepared = .ok first →
        (versions makerFile other).prepared = .ok second → first.ConstructsAlike second) ∧
      ∃ schedule, ∀ call, ∃ converted prepared listed,
        ((SharedCalls.start (versions makerFile) .empty).run schedule).stages call =
            .ended (.ok converted) ∧
          (versions makerFile call).prepared = .ok prepared ∧
          (∀ built ∈ listed, built.definition = firstClosure) ∧
          converted.IsConsistentWith prepared listed := by
  obtain ⟨bytes, isPrepared⟩ := exists_prepared_makerFile
  have areSame : ∀ call, (versions makerFile call).prepared =
      .ok (preparedWith (runMethod maker) plan firstClosure bytes) := by
    intro call
    cases call <;> exact isPrepared
  have alike : ∀ call other first second, (versions makerFile call).prepared = .ok first →
      (versions makerFile other).prepared = .ok second → first.ConstructsAlike second := by
    intro call other first second isFirst isSecond
    cases (areSame call).symm.trans isFirst
    cases (areSame other).symm.trans isSecond
    exact PreparedClass.constructsAlike_self (List.nodup_singleton _)
  obtain ⟨schedule, first, second, _, ended, endedAgain, _⟩ := exists_run_versions isPrepared rfl
  have allEnd : ∀ call, ∃ converted,
      ((SharedCalls.start (versions makerFile) .empty).run schedule).stages call =
        .ended (.ok converted) := by
    intro call
    cases call
    · exact ⟨first, ended⟩
    · exact ⟨second, endedAgain⟩
  refine ⟨alike, schedule, fun call => ?_⟩
  obtain ⟨converted, ends⟩ := allEnd call
  obtain ⟨prepared, listed, isSame, areBuilt, isConsistent⟩ :=
    interleavedCalls_areConsistent (versions makerFile) alike schedule call converted ends
  refine ⟨converted, prepared, listed, ends, isSame, fun built member => ?_, isConsistent⟩
  obtain ⟨other, isSource⟩ := areBuilt built member
  obtain ⟨entry, _, isListed⟩ := exists_mem_of_forall₂ isConsistent.closures.flip member
  have isClosure := isListed.isClosure
  rw [← Except.ok.inj ((areSame other).symm.trans isSource)] at isClosure
  exact List.mem_singleton.mp isClosure

open RebuiltFactory OwnFactory in
/-- A later version of a class comes with the class of the closure of the version before, which has
no constructor of the type that the later version calls. -/
theorem rebuiltFactory_isInconsistent :
    ∃ schedule converted prepared kept,
      ((SharedCalls.start (versions laterFile) .empty).run schedule).stages true =
          .ended (.ok converted) ∧
        (versions laterFile true).prepared = .ok prepared ∧
        prepared.Runs (constructorCall closureName ⟨[.base .int], none⟩) ∧
        ¬prepared.MakesNoClosure (constructorCall closureName ⟨[.base .int], none⟩) ∧
        converted.closures = [(closureName, kept)] ∧
        firstClosure.toBytes (made firstClosure).hierarchy = .ok kept ∧
        firstClosure.hasMethod .init ⟨[.base .int], none⟩ = false := by
  obtain ⟨bytes, isPrepared⟩ := exists_prepared_laterFile
  obtain ⟨schedule, _, second, kept, _, ended, isBuilt, closures⟩ :=
    exists_run_versions isPrepared rfl
  exact ⟨schedule, second, _, kept, ended, isPrepared, laterRuns_constructorCall bytes,
    not_laterMakesNoClosure_constructorCall bytes, closures, isBuilt, by with_unfolding_all rfl⟩

end ClosureConversion
