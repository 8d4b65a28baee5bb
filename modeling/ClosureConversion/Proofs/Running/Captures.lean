import ClosureConversion.Proofs.Capture.Providing
import ClosureConversion.Proofs.Closure.Consistency
import ClosureConversion.Proofs.Code.Fitting
import ClosureConversion.Proofs.Running.Construction

/-!
Contract: captured values arrive where they are read.

Owns:
- where the code of a site keeps what a site inside it captures;
- the code that makes a closure inside another one hands on what that one keeps;
- every planned site has captures of different variables, so that what was just said holds of all
  closures that a method makes.

Does not own: the code that reads and writes captured variables.
-/

namespace ClosureConversion

/-! ## Making a closure -/

namespace SitePlan

/-- Whatever code pushes the values of the captures, the code that makes the closure leaves one that
holds these values, and the captures of different variables are in different fields. -/
structure KeepsCaptures (plan : SitePlan) : Prop where
  holds : ∀ runtime super, plan.IsLinked runtime super →
    ∀ (ε : Type) (load : Capture → Except ε (List (Instruction Nat))) slots heap values,
      List.Forall₂ (fun capture value => Value.Fits value capture.storedType ∧
          ∃ code, load capture = .ok code ∧
            Activation.Pushes runtime slots (heap.addObject plan.className) code value)
        plan.captures.captures values →
      ∃ code later, plan.construct load = .ok code ∧
        (∀ stack, Activation.run runtime ⟨stack, slots, heap⟩ code =
          some ⟨.object heap.objects.length :: stack, slots, later⟩) ∧
        plan.Holds later heap.objects.length values
  distinct : ∀ scope : ClosureScope, scope.self = plan →
    scope.fields = fieldNames plan.captures.captures →
    ∀ first ∈ plan.captures.captures, ∀ second ∈ plan.captures.captures, first.key ≠ second.key →
      ∃ field other,
        scope.captureField first.key =
          .ok ([.load .reference 0, .field .getField field], first) ∧
        scope.captureField second.key =
          .ok ([.load .reference 0, .field .getField other], second) ∧
        field.name ≠ other.name

variable {self : SitePlan}

theorem keepsCaptures_of_nodup
    (apart : self.captures.keys.Nodup) :
    self.KeepsCaptures where
  holds := fun _ _ linked _ _ _ _ _ pushed => linked.run_construct apart pushed
  distinct := by
    intro scope isSelf areFields first isFirst second isSecond different
    rw [← fst_entries, List.mem_map] at isFirst isSecond
    obtain ⟨entry, isEntry, rfl⟩ := isFirst
    obtain ⟨other, isOther, rfl⟩ := isSecond
    refine ⟨_, _, captureField_eq_ok apart isSelf areFields isEntry,
      captureField_eq_ok apart isSelf areFields isOther, fun sameName => different ?_⟩
    rw [captureRef_injective isEntry isOther sameName]

end SitePlan

/-! ## Closures inside a closure -/

namespace ClosureScope

/-- The code of a site keeps a value, or the box of one, for a variable that a site inside it
captures: in the slot of a parameter, in the slot of a variable of its own, or in a field of the
closure that runs, which is in the first slot. -/
inductive Keeps (scope : ClosureScope) (slots : Nat → Option Value) (heap : Heap)
    (capture : Capture) (value : Value) : Prop where
  | ownParameter (field : FieldRef) (slot : UInt16)
      (isKey : capture.key = .parameter scope.number field)
      (isSlot : scope.parameterSlot? field = some slot)
      (inSlot : slots slot.toNat = some value)
      (fits : value.Fits (scope.parameterType field))
  | ownVariable (slot : UInt16) (start : Nat) (moved : UInt16)
      (isKey : capture.key = .local slot start)
      (declares : scope.self.site.declares start = true)
      (isMoved : scope.locals.lookup slot = some moved)
      (inSlot : slots moved.toNat = some value)
      (fits : value.Fits capture.type)
  | captured (number : Nat) (values : List Value) (own : Capture)
      (notOwn : scope.self.site.owns scope.number capture.key = false)
      (isReceiver : slots 0 = some (.object number))
      (holds : scope.self.Holds heap number values)
      (isHeld : (own, value) ∈ scope.self.captures.captures.zip values)
      (sameKey : own.key = capture.key)
      (fits : value.Fits { capture with mutable := own.mutable }.storedType)

variable {scope : ClosureScope} {runtime : Runtime} {slots : Nat → Option Value} {heap : Heap}
  {capture : Capture} {value : Value}

/-- What is in a slot is pushed. -/
theorem pushes_load
    {slot : UInt16}
    {type : FieldType}
    (inSlot : slots slot.toNat = some value)
    (fits : value.Fits type) :
    Activation.Pushes runtime slots heap [.load (.ofType type) slot] value := by
  intro stack
  have loaded : Activation.step runtime ⟨stack, slots, heap⟩ (.load (.ofType type) slot) =
      some ⟨value :: stack, slots, heap⟩ := Activation.step_load inSlot fits.kind
  rw [Activation.run_cons, loaded]
  rfl

/-- Variables that are not those of the site itself are in fields. -/
theorem loadForNested_of_not_owns
    (notOwn : scope.self.site.owns scope.number capture.key = false) :
    scope.loadForNested capture = (scope.captureField capture.key).map Prod.fst := by
  unfold loadForNested
  cases isKey : capture.key with
  | this => rfl
  | «local» slot start =>
      rw [isKey] at notOwn
      exact if_neg (ne_true_of_eq_false notOwn)
  | parameter binder field =>
      rw [isKey] at notOwn
      exact if_neg (of_decide_eq_false notOwn)

/-- What a site inside captures is kept just as that site takes it. -/
theorem Keeps.fits_storedType
    (keeps : scope.Keeps slots heap capture value)
    (apart : scope.self.captures.keys.Nodup)
    (provides : scope.self.captures.Provides scope.self.site scope.number capture) :
    value.Fits capture.storedType := by
  cases keeps with
  | ownParameter field slot isKey isSlot inSlot fits =>
      obtain ⟨sameType, isBoxed⟩ := provides.ownParameter field isKey
      have stored : capture.storedType = scope.parameterType field := by
        rw [Capture.storedType, isBoxed, sameType]
        rfl
      exact stored ▸ fits
  | ownVariable slot start moved isKey declares isMoved inSlot fits =>
      rw [Capture.storedType, provides.ownVariable slot start isKey declares]
      exact fits
  | captured number values own notOwn isReceiver holds isHeld sameKey fits =>
      obtain ⟨other, isOther, otherKey, sameBox⟩ := provides.shared notOwn
      have isSame : other = own := List.inj_on_of_nodup_map apart isOther
        (List.of_mem_zip isHeld).1 (otherKey.trans sameKey.symm)
      rw [isSame] at sameBox
      rw [sameBox] at fits
      exact fits

/-- What a site inside captures is pushed. -/
theorem Keeps.exists_loadForNested
    (runtime : Runtime)
    (keeps : scope.Keeps slots heap capture value)
    (areFields : scope.fields = fieldNames scope.self.captures.captures)
    (fits : value.Fits capture.storedType)
    (className : BinaryName) :
    ∃ code, scope.loadForNested capture = .ok code ∧
      Activation.Pushes runtime slots (heap.addObject className) code value := by
  cases keeps with
  | ownParameter field slot isKey isSlot inSlot _ =>
      refine ⟨[.load (.ofType capture.storedType) slot], ?_, pushes_load inSlot fits⟩
      unfold loadForNested
      rw [isKey]
      dsimp only
      rw [if_pos rfl, isSlot]
  | ownVariable slot start moved isKey declares isMoved inSlot fits =>
      refine ⟨[.load (.ofType capture.type) moved], ?_, pushes_load inSlot fits⟩
      unfold loadForNested localSlot
      rw [isKey]
      dsimp only
      rw [if_pos declares, isMoved]
      rfl
  | captured number values own notOwn isReceiver holds isHeld sameKey _ =>
      obtain ⟨object, isObject, _, inFields⟩ := holds
      obtain ⟨field, found, inField⟩ := List.forall₂_zip (inFields scope rfl areFields) isHeld
      refine ⟨[.load .reference 0, .field .getField field], ?_, fun stack => ?_⟩
      · rw [loadForNested_of_not_owns notOwn, ← sameKey, found]
        rfl
      · have isThere : (heap.addObject className).objects[number]? = some object := by
          rw [Heap.addObject, List.getElem?_append_left (List.getElem?_eq_some_iff.mp isObject).1]
          exact isObject
        rw [Activation.run_loadField isReceiver isThere, inField]

end ClosureScope

/-- The code of a site, with the fields of its class around it. -/
structure MethodPlan.IsScope (plan : MethodPlan) (scope : ClosureScope) : Prop where
  sites : scope.sites = plan.sites
  self : plan.sites[scope.number]? = some scope.self
  fields : scope.fields = fieldNames scope.self.captures.captures

/-- The captures of the sites of a method arrive where they are read. A closure that captures
different variables keeps them all, whichever they are, and all sites of the method are like that;
and inside a closure, the code that makes another one leaves one that holds what the closure around
it keeps for each of the captures. -/
structure MethodPlan.WiresCaptures (plan : MethodPlan) : Prop where
  keeps : ∀ self : SitePlan, self.captures.keys.Nodup → self.KeepsCaptures
  apart : ∀ self ∈ plan.sites, self.captures.keys.Nodup
  nested : ∀ scope, plan.IsScope scope →
    ∀ (position : Nat) (inner : SitePlan), plan.sites[position]? = some inner →
      inner.site.parent = some scope.number →
    ∀ runtime super, inner.IsLinked runtime super →
    ∀ slots heap values,
      List.Forall₂ (scope.Keeps slots heap) inner.captures.captures values →
      ∃ code later, scope.constructNested position = .ok code ∧
        (∀ stack, Activation.run runtime ⟨stack, slots, heap⟩ code =
          some ⟨.object heap.objects.length :: stack, slots, later⟩) ∧
        inner.Holds later heap.objects.length values

section Planned

variable {Memory : Type} {method : Method} {hierarchy : Hierarchy} {convention : Convention Memory}
  {place : Place} {before after : Memory}

/-- What a planned site captures is there in the site around it. -/
theorem provides_of_planMethod_eq_ok
    {calls : List Nat}
    {firstId : Nat}
    {settings : Settings}
    {plan : MethodPlan}
    (planned : planMethod method calls firstId settings hierarchy convention place before =
      .ok plan after) :
    (∀ self ∈ plan.sites, self.captures.keys.Nodup) ∧
      ∀ (number nested : Nat) (self inner : SitePlan), plan.sites[number]? = some self →
        plan.sites[nested]? = some inner → inner.site.parent = some number →
        ∀ capture ∈ inner.captures.captures, self.captures.Provides self.site number capture := by
  obtain ⟨analysis, sites, captures, methods, names, between, _, detected, analyzed, _, _, rfl⟩ :=
    planMethod_eq_ok.mp planned
  obtain ⟨sorted, isDetected⟩ := detectSites_isDetected detected
  have ordered := isDetected.parentsFirst
  refine ⟨fun self member => ?_, ?_⟩
  · obtain ⟨number, isSelf⟩ := List.getElem?_of_mem member
    obtain ⟨_, isOwn, _⟩ := getElem?_ofSteps isSelf
    exact nodup_keys_of_analyzeCaptures ordered analyzed (List.mem_of_getElem? isOwn)
  · intro number nested self inner isSelf isInner isParent capture isCapture
    obtain ⟨isSite, isOwn, _⟩ := getElem?_ofSteps isSelf
    obtain ⟨isNested, isNestedOwn, _⟩ := getElem?_ofSteps isInner
    exact provides_of_analyzeCaptures ordered analyzed isSite
      (List.mem_append_right _ (List.mem_singleton.mpr rfl))
      (isDetected.mem_piecesOf_body isSite isNested isParent) isOwn isNestedOwn isCapture

/-- **Wiring**: what is pushed for a capture of a planned site is what its closure reads for the
variable, and closures inside it capture just that. -/
theorem wiresCaptures_of_planMethod_eq_ok
    {calls : List Nat}
    {firstId : Nat}
    {settings : Settings}
    {plan : MethodPlan}
    (planned : planMethod method calls firstId settings hierarchy convention place before =
      .ok plan after) :
    plan.WiresCaptures := by
  obtain ⟨apart, provides⟩ := provides_of_planMethod_eq_ok planned
  refine ⟨fun self => SitePlan.keepsCaptures_of_nodup, apart, ?_⟩
  intro scope isScope position inner isInner isParent runtime super linked slots heap values keeps
  have apartOuter := apart scope.self (List.mem_of_getElem? isScope.self)
  have apartInner := apart inner (List.mem_of_getElem? isInner)
  have pushed := ((List.forall₂_and_left _ _).mpr ⟨fun _ member => member, keeps⟩).imp
    fun capture value ⟨isCapture, isKept⟩ =>
      have fits := isKept.fits_storedType apartOuter
        (provides scope.number position scope.self inner isScope.self isInner isParent capture
          isCapture)
      And.intro fits (isKept.exists_loadForNested runtime isScope.fields fits inner.className)
  obtain ⟨code, later, constructed, ran, holds⟩ := linked.run_construct apartInner pushed
  refine ⟨code, later, ?_, ran, holds⟩
  unfold ClosureScope.constructNested
  rw [isScope.sites, isInner]
  exact constructed

end Planned

/-! ## A closure that captures a parameter of another one -/

namespace CurriedClosures

/-- The names that the classes of the closures get. -/
def closureNames : List BinaryName :=
  [⟨"curry/Demo$Function$L0$0", by decide⟩, ⟨"curry/Demo$Supplier$L0$1", by decide⟩]

/-- The plan of the method. -/
def plan : MethodPlan := .ofSteps sites captures [constant, current] closureNames

/-- The plan of the outer closure. -/
def outer : SitePlan := plan.sites.get ⟨0, by decide⟩

/-- The plan of the inner closure. -/
def inner : SitePlan := plan.sites.get ⟨1, by decide⟩

theorem planMethod_eq_plan :
    planMethod method [2, 3] 0 .standard hierarchy Settings.standard.convention .unknown {} =
      .ok plan decisions :=
  planMethod_eq_ok.mpr ⟨frames, sites, captures, [constant, current], closureNames, decisions,
    by decide +kernel, by cbv, by with_unfolding_all rfl, abstractMethods_eq, by decide +kernel,
    rfl⟩

/-- The frames of the constructor of the inner closure. -/
def constructorFrames : FlowAnalysis where
  frames :=
    let made : VType := .object (.object inner.className)
    #[
      some ⟨[.uninitializedThis, .int], []⟩,
      some ⟨[.uninitializedThis, .int], [.uninitializedThis]⟩,
      some ⟨[made, .int], []⟩,
      some ⟨[made, .int], [made]⟩,
      some ⟨[made, .int], [.int, made]⟩,
      some ⟨[made, .int], []⟩]
  maxStack := 2
  maxLocals := 2

theorem isLinked_inner :
    inner.IsLinked (inner.constructing .object) .object := by
  have isPlain : (inner.constructorMethod .object).IsPlain .core constructorFrames := by
    decide +kernel
  obtain ⟨code, after, written, _⟩ :=
    isPlain.fitsIn_assemble .java8 ConstantPool.empty (by decide +kernel)
  exact SitePlan.isLinked_constructing (by decide) ⟨_, _, _, code, after, written⟩

/-- The code of the outer closure, whose parameter is in the slot after its argument. -/
def scope : ClosureScope :=
  (ClosureScope.ofSite method plan.sites 0 outer .unknown).withSlots [parameter]

/-- The slots when the outer closure is called with seven. -/
def slots (slot : Nat) : Option Value :=
  match slot with
  | 0 => some (.object 0)
  | 1 | 2 => some (.int 7)
  | _ => none

end CurriedClosures

open CurriedClosures in
/-- The inner closure that the outer one makes for its parameter holds the value of that. -/
theorem curriedClosures_wiresCaptures :
    planMethod method [2, 3] 0 .standard hierarchy Settings.standard.convention .unknown {} =
        .ok plan decisions ∧
      plan.WiresCaptures ∧
      ∃ code later, scope.constructNested 1 = .ok code ∧
        Activation.run (inner.constructing .object)
            ⟨[], slots, Heap.empty.addObject outer.className⟩ code =
          some ⟨[.object 1], slots, later⟩ ∧
        inner.Holds later 1 [.int 7] := by
  have wired : plan.WiresCaptures := wiresCaptures_of_planMethod_eq_ok planMethod_eq_plan
  have keeps : scope.Keeps slots (Heap.empty.addObject outer.className)
      (boundCapture 0 parameter) (.int 7) :=
    .ownParameter parameter 2 rfl rfl rfl (by decide)
  obtain ⟨code, later, constructed, ran, holds⟩ :=
    wired.nested scope ⟨rfl, rfl, rfl⟩ 1 inner rfl rfl _ .object isLinked_inner slots _ [.int 7]
      (.cons keeps .nil)
  exact ⟨planMethod_eq_plan, wired, code, later, constructed, ran [], holds⟩

end ClosureConversion
