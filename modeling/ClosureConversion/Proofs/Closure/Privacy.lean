import ClosureConversion.Proofs.Closure.Relaying

/-!
Contract: which private members of a class the classes of its closures name.

Owns:
- the classes of all closures of a class, with the bridges that they share;
- what is known of the methods of a class that are planned;
- when the classes of the closures name no private member.

Does not own: what the bridges do.
-/

namespace ClosureConversion

/-! ## All classes of closures of a class -/

namespace PlannedSite

/-- The code that the class of the closure takes over from the method. -/
def movedCode (site : PlannedSite) : List (Instruction Nat) :=
  site.self.movedCode site.planned.method site.planned.plan.lambdaSites site.number

/-- Whether an instruction accesses a parameter of the closure or of one around it. -/
def IsParameterAccess (site : PlannedSite) (instruction : Instruction Nat) : Prop :=
  ClosureConversion.IsParameterAccess site.planned.plan.lambdaSites site.number instruction

/-- The class of the closure uses the private members of the class around it through bridges. -/
def IsRelayedBy (owner : ClassDeclaration) (bridges : List Bridge) (site : PlannedSite)
    (definition : ClassDefinition) : Prop :=
  Relays owner site.IsParameterAccess bridges site.movedCode definition.code

end PlannedSite

/-- Classes were made for sites, one for each, and the bridges that they call were added. -/
structure Extends (owner : ClassDeclaration) (made : ClosureClasses) (sites : List PlannedSite)
    (reached : ClosureClasses) : Prop where
  declares : reached.hierarchy.Declares owner
  isOf : reached.bridges.IsOf owner
  bridges : made.bridges.bridges ⊆ reached.bridges.bridges
  classes : ∃ definitions, reached.classes = made.classes ++ definitions ∧
    List.Forall₂ (PlannedSite.IsRelayedBy owner reached.bridges.bridges) sites definitions

section Steps

variable {owner : ClassDeclaration} {made between reached : ClosureClasses}

theorem Extends.refl
    (declares : made.hierarchy.Declares owner)
    (isOf : made.bridges.IsOf owner) :
    Extends owner made [] made :=
  ⟨declares, isOf, List.Subset.refl _, [], by simp, .nil⟩

theorem Extends.trans
    {sites others : List PlannedSite}
    (first : Extends owner made sites between)
    (second : Extends owner between others reached) :
    Extends owner made (sites ++ others) reached := by
  obtain ⟨definitions, classes, each⟩ := first.classes
  obtain ⟨more, moreClasses, eachMore⟩ := second.classes
  refine ⟨second.declares, second.isOf, List.Subset.trans first.bridges second.bridges,
    definitions ++ more, by rw [moreClasses, classes, List.append_assoc], ?_⟩
  refine List.rel_append (each.imp fun site definition relays => ?_) eachMore
  exact Relays.mono second.bridges relays

/-- One more class. -/
theorem Extends.addSite
    (isOrdinary : owner.IsOrdinary)
    (declares : made.hierarchy.Declares owner)
    (isOf : made.bridges.IsOf owner)
    {site : PlannedSite}
    (areOther : ∀ plan ∈ site.planned.plan.sites, plan.className ≠ owner.name)
    {version : Version}
    (isSite : site.self ∈ site.planned.plan.sites)
    (added : site.addClass version made = .ok reached) :
    Extends owner made [site] reached := by
  obtain ⟨⟨definition, bridges⟩, isMade, equal⟩ := bind_eq_ok.mp added
  cases equal
  have renders := renders_closureClass isOrdinary declares isSite areOther isMade
  obtain ⟨isOfAfter, subset⟩ := renders.grows isOf
  exact ⟨declares.declare _, isOfAfter, subset, [definition], rfl,
    .cons (renders.relays isOf) .nil⟩

/-- All classes that are made for planned methods. -/
theorem Extends.ofPlans
    (isOrdinary : owner.IsOrdinary)
    {hierarchy : Hierarchy}
    (declares : hierarchy.Declares owner)
    {planned : List PlannedMethod}
    (areOther : ∀ entry ∈ planned, ∀ plan ∈ entry.plan.sites, plan.className ≠ owner.name)
    {version : Version}
    (isMade : ClosureClasses.ofPlans hierarchy owner version planned = .ok reached) :
    Extends owner ⟨hierarchy, .ofClass owner, []⟩ (planned.flatMap PlannedMethod.sites)
      reached := by
  refine ofPlans_induction (fun sites reached => Extends owner ⟨hierarchy, .ofClass owner, []⟩
    sites reached) (Extends.refl declares (BridgeTable.isOf_ofClass owner)) ?_ isMade
  intro done site reached next isPlanned isSite holds added
  exact holds.trans (Extends.addSite isOrdinary holds.declares holds.isOf
    (areOther site.planned isPlanned) isSite added)

end Steps

/-! ## Planned methods -/

/-- The class of a closure never has the name of the class around it. -/
theorem closureName_ne
    {settings : Settings}
    {owner target name : BinaryName}
    {line : Option UInt16}
    {number : Nat}
    (named : settings.closureName owner target line number = .ok name) :
    name ≠ owner := by
  unfold Settings.closureName BinaryName.ofString at named
  have isName := mapError_eq_ok.mp named
  split at isName
  · cases isName
    intro equal
    have lengths := congrArg (fun name => name.text.length) equal
    simp only [String.length_append, toString] at lengths
    have dollar : "$".length = 1 := rfl
    omega
  · cases isName

theorem className_ne_of_planMethod_eq_ok
    {Memory : Type}
    {method : Method}
    {calls : List Nat}
    {firstId : Nat}
    {settings : Settings}
    {hierarchy : Hierarchy}
    {convention : Convention Memory}
    {place : Place}
    {before after : Memory}
    {plan : MethodPlan}
    (planned : planMethod method calls firstId settings hierarchy convention place before =
      .ok plan after) :
    ∀ site ∈ plan.sites, site.className ≠ method.owner := by
  obtain ⟨_, sites, captures, methods, names, _, _, _, _, _, areNames, rfl⟩ :=
    planMethod_eq_ok.mp planned
  intro entry member
  obtain ⟨⟨site, capture, implemented, name⟩, isZipped, rfl⟩ := List.mem_map.mp member
  have isName : name ∈ names :=
    (List.of_mem_zip (List.of_mem_zip (List.of_mem_zip isZipped).2).2).2
  obtain ⟨_, _, named⟩ := exists_mem_of_forall₂ (forall₂_of_mapM_eq_ok areNames) isName
  exact closureName_ne named

/-- A class declares the name that its class file has. -/
theorem thisName_of_ofClassFile_eq_ok
    {file : ClassFile}
    {owner : ClassDeclaration}
    (isOwner : ClassDeclaration.ofClassFile file = .ok owner) :
    file.thisName = .ok owner.name := by
  unfold ClassDeclaration.ofClassFile at isOwner
  obtain ⟨fields, _, isOwner⟩ := bind_eq_ok.mp isOwner
  obtain ⟨methods, _, isOwner⟩ := bind_eq_ok.mp isOwner
  obtain ⟨name, isName, isOwner⟩ := bind_eq_ok.mp isOwner
  obtain ⟨super, _, isOwner⟩ := bind_eq_ok.mp isOwner
  obtain ⟨interfaces, _, isOwner⟩ := bind_eq_ok.mp isOwner
  obtain ⟨annotations, _, isOwner⟩ := bind_eq_ok.mp isOwner
  cases isOwner
  exact isName

/-- A method of a class file has the name of its class. -/
theorem owner_of_ofMember?_eq_ok
    {file : ClassFile}
    {owner : ClassDeclaration}
    (isOwner : ClassDeclaration.ofClassFile file = .ok owner)
    {member : Member .method}
    {method : Method}
    (read : Method.ofMember? file member = .ok (some method)) :
    method.owner = owner.name := by
  unfold Method.ofMember? at read
  obtain ⟨code?, _, read⟩ := bind_eq_ok.mp read
  cases code? with
  | none => cases read
  | some code =>
      obtain ⟨⟨name, type⟩, _, read⟩ := bind_eq_ok.mp read
      obtain ⟨this, isThis, read⟩ := bind_eq_ok.mp read
      obtain ⟨⟨body, hasVariableTable⟩, _, read⟩ := bind_eq_ok.mp read
      cases read
      exact Except.ok.inj (isThis.symm.trans (thisName_of_ofClassFile_eq_ok isOwner))

section Members

variable {Memory : Type} {settings : Settings} {hierarchy : Hierarchy}
  {convention : Convention Memory} {file : ClassFile} {before after : Memory}

/-- Only errors have places. -/
theorem withinPlace_eq_ok
    {α : Type}
    {place : Place}
    {action : Deciding Memory α}
    {value : α} :
    withinPlace place action before = .ok value after ↔ action before = .ok value after := by
  unfold withinPlace
  cases action before <;> simp

/-- A planned member is a method of the class that calls factories, with the plan for it. -/
theorem planMember_eq_ok
    {index firstId : Nat}
    {member : Member .method}
    {planned : PlannedMethod} :
    planMember settings hierarchy convention file index firstId member before =
        .ok (some planned) after ↔
      planned.index = index ∧ Method.ofMember? file member = .ok (some planned.method) ∧
        ∃ calls between,
          factoryCalls planned.method hierarchy convention before = .ok calls between ∧
          calls.isEmpty = false ∧
          planMethod planned.method calls firstId settings hierarchy convention
            (Place.ofMethod planned.method) between = .ok planned.plan after := by
  unfold planMember Place.locateBytecode
  rw [run_bind_eq_ok]
  constructor
  · rintro ⟨method?, _, read, isPlanned⟩
    obtain ⟨isRead, rfl⟩ := run_ofExcept_eq_ok.mp read
    cases method? with
    | none =>
        cases run_pure_eq_ok.mp isPlanned
        contradiction
    | some method =>
        obtain ⟨calls, between, areCalls, isResult⟩ :=
          run_bind_eq_ok.mp (withinPlace_eq_ok.mp isPlanned)
        split at isResult
        · cases run_pure_eq_ok.mp isResult
          contradiction
        · rename_i isNonempty
          obtain ⟨plan, _, isPlan, equal⟩ := run_bind_eq_ok.mp isResult
          obtain ⟨equal, rfl⟩ := run_pure_eq_ok.mp equal
          cases equal
          exact ⟨rfl, mapError_eq_ok.mp isRead, calls, between, areCalls,
            Bool.not_eq_true _ ▸ isNonempty, isPlan⟩
  · rintro ⟨rfl, isRead, calls, between, areCalls, isNonempty, isPlan⟩
    refine ⟨some planned.method, before,
      run_ofExcept_eq_ok.mpr ⟨mapError_eq_ok.mpr isRead, rfl⟩, ?_⟩
    refine withinPlace_eq_ok.mpr (run_bind_eq_ok.mpr ⟨calls, between, areCalls, ?_⟩)
    rw [if_neg (ne_true_of_eq_false isNonempty)]
    exact run_bind_eq_ok.mpr ⟨planned.plan, after, isPlan, rfl⟩

/-- A member that calls no factory is not planned. -/
theorem planMember_of_noCalls
    {index firstId : Nat}
    {member : Member .method}
    {method : Method}
    (isRead : Method.ofMember? file member = .ok (some method))
    (noCalls : factoryCalls method hierarchy convention before = .ok [] after) :
    planMember settings hierarchy convention file index firstId member before = .ok none after := by
  unfold planMember
  refine run_bind_eq_ok.mpr ⟨some method, before,
    run_ofExcept_eq_ok.mpr ⟨mapError_eq_ok.mpr isRead, rfl⟩, ?_⟩
  exact withinPlace_eq_ok.mpr (run_bind_eq_ok.mpr ⟨[], after, noCalls, rfl⟩)

theorem forall_of_planMembers_eq_ok
    {members : List (Member .method)}
    {index firstId : Nat}
    {planned : List PlannedMethod}
    (arePlanned : planMembers settings hierarchy convention file index firstId members before =
      .ok planned after) :
    ∀ entry ∈ planned, (∃ member, Method.ofMember? file member = .ok (some entry.method)) ∧
      ∃ calls firstId earlier later, planMethod entry.method calls firstId settings hierarchy
        convention (Place.ofMethod entry.method) earlier = .ok entry.plan later := by
  induction members generalizing index firstId planned before with
  | nil =>
      obtain ⟨rfl, _⟩ := run_pure_eq_ok.mp arePlanned
      simp
  | cons member members inductionHypothesis =>
      unfold planMembers at arePlanned
      obtain ⟨planned?, between, isPlanned, arePlanned⟩ := run_bind_eq_ok.mp arePlanned
      cases planned? with
      | none => exact inductionHypothesis arePlanned
      | some first =>
          obtain ⟨rest, _, areRest, equal⟩ := run_bind_eq_ok.mp arePlanned
          obtain ⟨rfl, rfl⟩ := run_pure_eq_ok.mp equal
          intro entry isEntry
          rcases List.mem_cons.mp isEntry with rfl | isLater
          · obtain ⟨_, isRead, calls, earlier, _, _, isPlan⟩ := planMember_eq_ok.mp isPlanned
            exact ⟨⟨member, isRead⟩, calls, _, earlier, _, isPlan⟩
          · exact inductionHypothesis areRest entry isLater

end Members

/-! ## Privacy -/

/-- **Privacy**: the classes of the closures of a class name its private members by the method
handles alone that the code of the closures holds. Every other use of a private member, and none
of a parameter, goes through a bridge with a name that no method of the class has. -/
theorem usesBridges_of_ofPlans_eq_ok
    {Memory : Type}
    {settings : Settings}
    {hierarchy : Hierarchy}
    {convention : Convention Memory}
    {file : ClassFile}
    {owner : ClassDeclaration}
    {version : Version}
    {planned : List PlannedMethod}
    {made : ClosureClasses}
    {before after : Memory}
    (isOwner : ClassDeclaration.ofClassFile file = .ok owner)
    (isOrdinary : owner.IsOrdinary)
    (declares : (hierarchy.declare owner).Declares owner)
    (arePlanned : planMembers settings (hierarchy.declare owner) convention file 0 0 file.methods
      before = .ok planned after)
    (isMade : ClosureClasses.ofPlans (hierarchy.declare owner) owner version planned = .ok made) :
    made.bridges.IsOf owner ∧
      List.Forall₂ (fun (site : PlannedSite) definition =>
        site.IsRelayedBy owner made.bridges.bridges definition ∧
          ((∃ instruction ∈ definition.code, instruction.DenotesPrivate owner) ↔
            ∃ instruction ∈ site.movedCode, ∃ handle ∈ instruction.handles,
              handle.IsPrivate owner))
        (planned.flatMap PlannedMethod.sites) made.classes := by
  have areOther : ∀ entry ∈ planned, ∀ plan ∈ entry.plan.sites, plan.className ≠ owner.name := by
    intro entry member
    obtain ⟨⟨_, isRead⟩, _, _, _, _, isPlan⟩ := forall_of_planMembers_eq_ok arePlanned entry member
    rw [← owner_of_ofMember?_eq_ok isOwner isRead]
    exact className_ne_of_planMethod_eq_ok isPlan
  have extended := Extends.ofPlans isOrdinary declares areOther isMade
  obtain ⟨definitions, classes, each⟩ := extended.classes
  rw [classes]
  exact ⟨extended.isOf, each.imp fun site definition relays => ⟨relays, relays.denotesPrivate_iff⟩⟩

namespace LentSecrets

/-- The class with a private method. -/
def vault : BinaryName := ⟨"vault/Vault", by decide⟩

/-- The type of the closures. -/
def supplier : BinaryName := ⟨"vault/Supplier", by decide⟩

/-- What the private method and the closures give. -/
def object : FieldType := .ref (.object .object)

/-- The method that the closures implement. -/
def outcome : AbstractMethod := ⟨supplier, ⟨"fetch", by decide⟩, ⟨[], some object⟩, true⟩

/-- The private method. -/
def secret : MethodRef := ⟨.object vault, ⟨"secret", by decide⟩, ⟨[], some object⟩, false⟩

/-- A factory that takes the code of a closure. -/
def factory : MethodRef where
  owner := .object ⟨"vault/Factories", by decide⟩
  name := ⟨"keep", by decide⟩
  type := ⟨[object], some (.ref (.object supplier))⟩
  ofInterface := false

/-- The convention that takes every method but those of the class for a factory. -/
def convention : Convention Unit :=
  ⟨fun _ owner _ _ => pure (owner ≠ vault), fun _ _ _ => pure false⟩

/-- The body of a closure that calls the private method. -/
def call : Instruction Nat := .invoke .static secret

/-- The body of a closure that gives a handle of the private method away. -/
def lend : Instruction Nat := .pushLiteral (.methodHandle (.method .invokeStatic secret))

/-- The private method with its code. -/
def secretMethod : Method where
  instructions := #[.op .pushNull, .op (.leave (some .reference))]
  owner := vault
  flags := MethodFlags.accPrivate.union MethodFlags.accStatic
  name := secret.name
  type := secret.type
  hasVariableTable := false
  maxLocals := 0

/-- The method that makes a closure with a body. -/
def method (body : Instruction Nat) : Method where
  instructions := #[body, .invoke .static factory, .op (.leave (some .reference))]
  owner := vault
  flags := MethodFlags.accStatic
  name := ⟨"open", by decide⟩
  type := ⟨[], some (.ref (.object supplier))⟩
  hasVariableTable := false
  maxLocals := 0

/-- What the class declares. -/
def owner : ClassDeclaration where
  name := vault
  super := some .object
  interfaces := []
  flags := ClassFlags.accPublic
  fields := []
  methods := [⟨secretMethod.name, secretMethod.type, secretMethod.flags, []⟩,
    ⟨(method call).name, (method call).type, (method call).flags, []⟩]
  annotations := []

/-- The constants of the class. -/
def constants : List Constant :=
  [.utf8 "vault/Vault", .classInfo 1, .utf8 "java/lang/Object", .classInfo 3, .utf8 "Code",
    .utf8 "secret", .utf8 "()Ljava/lang/Object;", .nameAndType 6 7, .methodRef 2 8 false,
    .methodHandle (.method .invokeStatic) 9, .utf8 "vault/Factories", .classInfo 11,
    .utf8 "keep", .utf8 "(Ljava/lang/Object;)Lvault/Supplier;", .nameAndType 13 14,
    .methodRef 12 15 false, .utf8 "open", .utf8 "()Lvault/Supplier;"]

/-- A method of the class file. -/
def member (flags : MethodFlags) (name descriptor : PoolIndex) (code : Bytes) : Member .method :=
  ⟨flags, name, descriptor, [⟨5, write (CodeAttribute.mk 1 0 code [] [])⟩]⟩

/-- The private method in the class file. -/
def secretMember : Member .method := member secretMethod.flags 6 7 [0x01, 0xb0]

/-- The method that makes a closure in the class file, given the bytes of the body. -/
def openMember (body : Bytes) : Member .method :=
  member MethodFlags.accStatic 17 18 (body ++ [0xb8, 0, 16, 0xb0])

/-- The class file. -/
def file (body : Bytes) : ClassFile where
  version := .java8
  pool := .ofTable (.ofList 1 constants) []
  flags := ClassFlags.accPublic
  this := 2
  super := 4
  interfaces := []
  fields := []
  methods := [secretMember, openMember body]
  attributes := []

/-- The bytes of the call. -/
def callBytes : Bytes := [0xb8, 0, 9]

/-- The bytes of the handle. -/
def lendBytes : Bytes := [0x12, 10]

/-- The classes of the platform, and the type of the closures. -/
def hierarchy : Hierarchy where
  declared := [CoreClass.functional supplier outcome.name outcome.type.parameters
    outcome.type.result]
  loaded := []

/-- The frames of the method, for a body with a value of a class. -/
def frames (type : BinaryName) : FlowAnalysis where
  frames := #[some ⟨[], []⟩, some ⟨[], [.object (.object type)]⟩,
    some ⟨[], [.object (.object supplier)]⟩]
  maxStack := 1
  maxLocals := 0

/-- The site of the closure. -/
def site : LambdaSite where
  id := 0
  line := none
  factory := factory
  target := supplier
  parameters := []
  body := ⟨0, 1⟩
  call := 1
  stop := 2
  parent := none

/-- The plan of the method. -/
def plan : MethodPlan where
  sites := [⟨site, {}, outcome, ⟨"vault/Vault$Supplier$L0$0", by decide⟩⟩]
  boxes := []

/-- The only bridge that a closure needs. -/
def bridge : Bridge := ⟨.method .static secret, bridgeName 0⟩

theorem isOrdinary : owner.IsOrdinary :=
  ⟨by decide, by decide⟩

theorem abstractMethod_eq :
    site.abstractMethod (hierarchy.declare owner) = .ok outcome := by
  have found : (hierarchy.declare owner).resolve supplier =
      .ok (CoreClass.functional supplier outcome.name outcome.type.parameters
        outcome.type.result) := by
    decide +kernel
  have isSole : (hierarchy.declare owner).soleCandidate supplier 0
      (CoreClass.functional supplier outcome.name outcome.type.parameters outcome.type.result) =
        .ok (some outcome) := by
    decide +kernel
  exact LambdaSite.abstractMethod_eq_ok found isSole

theorem planMembers_eq
    (bytes : Bytes)
    (body : Instruction Nat)
    (type : BinaryName)
    (readSecret : Method.ofMember? (file bytes) secretMember = .ok (some secretMethod))
    (readOpen : Method.ofMember? (file bytes) (openMember bytes) = .ok (some (method body)))
    (called : factoryCalls (method body) (hierarchy.declare owner) convention () = .ok [1] ())
    (analyzed : (method body).analyze (hierarchy.declare owner) = .ok (frames type))
    (detected : detectSites (method body) (frames type) [1] 0 (hierarchy.declare owner) convention
      (Place.ofMethod (method body)) () = .ok [site] ())
    (captured : analyzeCaptures (method body) [site] (hierarchy.declare owner) convention
      (Place.ofMethod (method body)) () = .ok ⟨[{}], []⟩ ()) :
    planMembers .standard (hierarchy.declare owner) convention (file bytes) 0 0 (file bytes).methods
      () = .ok [⟨1, method body, plan⟩] () := by
  have resolved : abstractMethods [site] (hierarchy.declare owner) (Place.ofMethod (method body)) =
      .ok [outcome] := by
    unfold abstractMethods
    rw [List.mapM_cons, abstractMethod_eq]
    rfl
  have named : classNames [site] .standard vault =
      .ok [⟨"vault/Vault$Supplier$L0$0", by decide⟩] := by
    decide +kernel
  have first : planMember .standard (hierarchy.declare owner) convention (file bytes) 0 0
      secretMember () = .ok none () := by
    unfold planMember
    rw [readSecret]
    with_unfolding_all rfl
  have second : planMember .standard (hierarchy.declare owner) convention (file bytes) 1 0
      (openMember bytes) () = .ok (some ⟨1, method body, plan⟩) () :=
    planMember_eq_ok.mpr ⟨rfl, readOpen, [1], (), called, rfl, planMethod_eq_ok.mpr
      ⟨frames type, [site], ⟨[{}], []⟩, [outcome], _, (), analyzed, detected, captured, resolved,
        named, rfl⟩⟩
  exact run_bind_eq_ok.mpr ⟨_, _, first, run_bind_eq_ok.mpr
    ⟨_, _, second, run_bind_eq_ok.mpr ⟨_, _, rfl, rfl⟩⟩⟩

end LentSecrets

open LentSecrets in
/-- The call of a private method in the body of a closure becomes the call of a bridge. -/
theorem secretCall_usesBridge :
    ClassDeclaration.ofClassFile (file callBytes) = .ok owner ∧
      (hierarchy.declare owner).Declares owner ∧
      planMembers .standard (hierarchy.declare owner) convention (file callBytes) 0 0
        (file callBytes).methods () = .ok [⟨1, method call, plan⟩] () ∧
      ∃ made definition,
        ClosureClasses.ofPlans (hierarchy.declare owner) owner .java8 [⟨1, method call, plan⟩] =
          .ok made ∧
        made.classes = [definition] ∧ made.bridges.IsOf owner ∧ made.bridges.bridges = [bridge] ∧
        bridge.call vault ∈ definition.code ∧
        ¬∃ instruction ∈ definition.code, instruction.DenotesPrivate owner := by
  have isOwner : ClassDeclaration.ofClassFile (file callBytes) = .ok owner := by decide +kernel
  have declares : (hierarchy.declare owner).Declares owner := by
    unfold Hierarchy.Declares
    decide +kernel
  have arePlanned := planMembers_eq callBytes call .object
    (by decide +kernel) (by decide +kernel) (by with_unfolding_all rfl) (by decide +kernel)
    (by with_unfolding_all rfl) (by with_unfolding_all rfl)
  obtain ⟨made, isMade, areBridges⟩ : ∃ made,
      ClosureClasses.ofPlans (hierarchy.declare owner) owner .java8 [⟨1, method call, plan⟩] =
        .ok made ∧ made.bridges.bridges = [bridge] :=
    ⟨_, by with_unfolding_all rfl, by with_unfolding_all rfl⟩
  obtain ⟨isOf, each⟩ := usesBridges_of_ofPlans_eq_ok isOwner isOrdinary declares arePlanned isMade
  obtain ⟨definition, classes⟩ : ∃ definition, made.classes = [definition] :=
    List.length_eq_one_iff.mp each.length_eq.symm
  rw [classes] at each
  obtain ⟨relays, denotes⟩ := (List.forall₂_cons.mp each).1
  have moved : PlannedSite.movedCode ⟨⟨1, method call, plan⟩, plan.sites[0], 0⟩ = [call] := by
    with_unfolding_all rfl
  obtain ⟨used, isBridge, _, isCall⟩ := relays.bridged call (moved ▸ List.mem_singleton.mpr rfl)
    ⟨rfl, _, rfl, rfl⟩ (by rintro ⟨_, _, isField, _⟩; cases isField)
  refine ⟨isOwner, declares, arePlanned, made, definition, isMade, classes, isOf, areBridges,
    ?_, ?_⟩
  · rw [areBridges, List.mem_singleton] at isBridge
    exact isBridge ▸ isCall
  · rw [denotes]
    rintro ⟨instruction, member, handle, isHandle, _⟩
    cases List.mem_singleton.mp (moved ▸ member)
    cases isHandle

open LentSecrets in
/-- A handle of a private method in the body of a closure stays as it is: the class of the closure
names the private method, and there is no bridge for it. -/
theorem secretHandle_isLent :
    ClassDeclaration.ofClassFile (file lendBytes) = .ok owner ∧
      planMembers .standard (hierarchy.declare owner) convention (file lendBytes) 0 0
        (file lendBytes).methods () = .ok [⟨1, method lend, plan⟩] () ∧
      ∃ made definition rewritten,
        ClosureClasses.ofPlans (hierarchy.declare owner) owner .java8 [⟨1, method lend, plan⟩] =
          .ok made ∧
        (method lend).rewrite plan (Place.ofMethod (method lend)) = .ok rewritten ∧
        made.classes = [definition] ∧ made.bridges.bridges = [] ∧
        ∃ instruction ∈ definition.code, instruction.DenotesPrivate owner := by
  have arePlanned := planMembers_eq lendBytes lend .methodHandle
    (by decide +kernel) (by decide +kernel) (by with_unfolding_all rfl) (by decide +kernel)
    (by with_unfolding_all rfl) (by with_unfolding_all rfl)
  obtain ⟨made, isMade, noBridges, codes⟩ : ∃ made,
      ClosureClasses.ofPlans (hierarchy.declare owner) owner .java8 [⟨1, method lend, plan⟩] =
        .ok made ∧ made.bridges.bridges = [] ∧
      made.classes.map ClassDefinition.code = [[.load .reference 0,
        .invoke .special ⟨.object .object, .init, plainType, false⟩, .op (.leave none), lend,
        .op (.leave (some .reference))]] :=
    ⟨_, by with_unfolding_all rfl, by with_unfolding_all rfl, by with_unfolding_all rfl⟩
  obtain ⟨definition, classes, code⟩ := List.map_eq_singleton_iff.mp codes
  refine ⟨by decide +kernel, arePlanned, made, definition, _, isMade, by with_unfolding_all rfl,
    classes, noBridges, lend, by simp [code], ?_⟩
  exact .inr ⟨_, List.mem_singleton.mpr rfl, rfl, _, rfl, rfl⟩

end ClosureConversion
