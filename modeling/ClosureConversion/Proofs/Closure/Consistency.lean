import ClosureConversion.Proofs.Closure.Translation
import Mathlib

/-!
Contract: making the closures of a method never finds a gap in the analysis of captures.

Owns:
- every step of making a class, and of rewriting a method, avoids the faults of such a gap;
- what a site captures is provided by the site around it;
- the analysis covers the code of every method that is planned.

Does not own: the code that replaces the instructions of a site.
-/

namespace ClosureConversion

/-! ## Classes -/

/-- What is known of a planned site: no site nests in its default values, and the parameters for
which the implemented method has no argument have them. -/
structure SitePlan.HasDefaults (sites : List LambdaSite) (number : Nat) (plan : SitePlan) : Prop where
  flat : ∀ parameter ∈ plan.site.parameters, ∀ span, parameter.default = some span →
    ∀ nested inner, .site nested inner ∉ piecesOf sites (some number) span
  enough : ∀ parameter ∈ plan.site.parameters.drop plan.method.arity,
    parameter.default.isSome = true

section Classes

variable {scope : ClosureScope} {hierarchy : Hierarchy}

theorem avoids_closureSuper
    (target : ClassDeclaration)
    (name : BinaryName) :
    Avoids SiteFault.IsInternal (closureSuper target name) := by
  unfold closureSuper
  split
  · exact avoids_ok
  · split
    · split
      · exact avoids_error id
      · exact avoids_ok
    · exact avoids_error id

theorem avoids_defaultMethods
    (ready : scope.IsReady)
    (hasDefaults : scope.self.HasDefaults scope.lambdaSites scope.number)
    (table : BridgeTable) :
    Avoids ClosureError.IsInternal (defaultMethods scope table) := by
  unfold defaultMethods
  refine avoids_thread_mapM ?_ table
  rintro ⟨parameter, position⟩ member before
  have isDropped : parameter ∈ scope.self.site.parameters.drop scope.self.method.arity := by
    have isFirst := List.mem_map_of_mem (f := Prod.fst) member
    rwa [List.map_drop, List.zipIdx_map_fst] at isFirst
  have isParameter := List.mem_of_mem_drop isDropped
  obtain ⟨field, isField⟩ := Option.isSome_iff_exists.mp
    ((ready.covered _ _ ready.self).binds parameter isParameter)
  obtain ⟨span, isDefault⟩ := Option.isSome_iff_exists.mp
    (hasDefaults.enough parameter isDropped)
  unfold defaultMethod
  dsimp only
  rw [isField, isDefault]
  refine avoids_thread_bind ?_ fun _ _ _ => avoids_ok
  unfold defaultBody
  refine avoids_thread_bind (scope.avoids_translate ready ?_ ?_ before) fun _ _ _ => avoids_ok
  · exact List.mem_append_left _ (List.mem_filterMap.mpr ⟨parameter, isParameter, isDefault⟩)
  · intro nested inner isPiece
    exact absurd isPiece (hasDefaults.flat parameter isParameter span isDefault nested inner)

theorem avoids_parameterPrologue
    (fields : List FieldRef)
    (arguments : List (FieldType × UInt16)) :
    Avoids Fault.IsInternal (parameterPrologue scope hierarchy fields arguments) := by
  unfold parameterPrologue
  refine Avoids.bind (avoids_mapM ?_) fun _ _ => avoids_ok
  rintro ⟨⟨field, slot⟩, position⟩ _
  refine Avoids.bind ?_ fun _ _ => avoids_ok
  unfold parameterValue
  split
  · exact (avoids_adaptValue hierarchy _ _).bind fun _ _ => avoids_ok
  · exact avoids_ok

theorem avoids_implementation
    (ready : scope.IsReady)
    (table : BridgeTable) :
    Avoids ClosureError.IsInternal (implementation scope hierarchy table) := by
  unfold implementation
  refine avoids_thread_bind (avoids_thread_lift (scope.place.avoids_malformed ?_)) ?_
  · refine avoids_mapM fun parameter isParameter => ?_
    obtain ⟨field, isField⟩ := Option.isSome_iff_exists.mp
      ((ready.covered _ _ ready.self).binds parameter isParameter)
    rw [isField]
    exact avoids_ok
  · intro fields between isFields
    obtain ⟨areFields, _⟩ := thread_lift_eq_ok.mp isFields
    have sameLength := (forall₂_of_mapM_eq_ok (mapError_eq_ok.mp areFields)).length_eq
    have readySlots : (scope.withSlots fields).IsReady := {
      self := ready.self
      covered := ready.covered
      fields := ready.fields
      locals := fun slot isKept => exists_lookup_relocateSlots isKept _ }
    have hasParameters : (scope.withSlots fields).HasParameters := by
      unfold ClosureScope.HasParameters ClosureScope.withSlots
      rw [length_slotsFrom, List.length_map]
      exact sameLength.symm
    refine avoids_thread_bind (α := CodeBody Nat) ?_ fun _ _ _ => avoids_ok
    change Avoids _ (implementationBody (scope.withSlots fields) hierarchy fields _ between)
    unfold implementationBody
    refine avoids_thread_bind (avoids_thread_lift
      (Place.avoids_locate _ (avoids_parameterPrologue fields _))) fun _ _ _ => ?_
    refine avoids_thread_bind ((scope.withSlots fields).avoids_translate readySlots
      (List.mem_append_right _ (List.mem_singleton.mpr rfl)) (fun _ _ _ => hasParameters) _)
      fun _ _ _ => ?_
    refine avoids_thread_bind (avoids_thread_lift
      (Place.avoids_locate _ (avoids_adapt hierarchy _ _))) fun _ _ _ => ?_
    exact avoids_ok

theorem avoids_closureClass
    {method : Method}
    {sites : List SitePlan}
    {number : Nat}
    {self : SitePlan}
    (isSelf : sites[number]? = some self)
    (covered : ∀ position plan, sites[position]? = some plan →
      IsCovered (sites.map SitePlan.site) method (capturedKeys sites) plan.site position
        plan.captures)
    (hasDefaults : self.HasDefaults (sites.map SitePlan.site) number)
    (version : Version)
    (place : Place)
    (table : BridgeTable) :
    Avoids ClosureError.IsInternal
      (closureClass method sites number self hierarchy version place table) := by
  have ready : (ClosureScope.ofSite method sites number self place).IsReady := {
    self := isSelf
    covered := covered
    fields := length_fieldNamesAfter [] self.captures.captures
    locals := fun slot isKept => exists_lookup_relocateSlots isKept 1 }
  unfold closureClass
  refine avoids_thread_bind (avoids_thread_lift (Place.avoids_locateBytecode _ _)) fun _ _ _ => ?_
  refine avoids_thread_bind (avoids_thread_lift
    (Place.avoids_malformed _ (avoids_closureSuper _ _))) fun _ _ _ => ?_
  refine avoids_thread_bind (avoids_defaultMethods ready hasDefaults _) fun _ _ _ => ?_
  refine avoids_thread_bind (avoids_implementation ready _) fun _ _ _ => ?_
  exact avoids_ok

end Classes

/-! ## The method -/

/-- Rewriting a method makes the closures of sites that nest in no other one, which capture no
parameters. -/
theorem avoids_rewrite
    {method : Method}
    {plan : MethodPlan}
    (bare : ∀ sitePlan ∈ plan.sites, sitePlan.site.parent = none →
      ∀ binder field, .parameter binder field ∉ sitePlan.captures.keys)
    (place : Place) :
    Avoids ClosureError.IsInternal (method.rewrite plan place) := by
  unfold Method.rewrite
  refine Avoids.bind (place.avoids_malformed ?_) fun replacements _ => ?_
  · refine avoids_mapM fun piece isPiece => Avoids.bind ?_ fun _ _ => avoids_ok
    unfold MethodPlan.pieceCode
    cases piece with
    | instruction index =>
        dsimp only
        split <;> exact avoids_ok
    | site number span =>
        dsimp only
        cases isPlan : plan.sites[number]? with
        | none => exact avoids_ok
        | some sitePlan =>
            obtain ⟨site, isSite, isOuter, _, _⟩ := exists_site_of_mem_piecesFrom isPiece
            rw [MethodPlan.lambdaSites, List.getElem?_map, isPlan] at isSite
            cases isSite
            refine Avoids.bind (avoids_mapM fun capture isCapture => ?_) fun _ _ => avoids_ok
            unfold MethodPlan.loadCapture
            cases hasKey : capture.key with
            | this => exact avoids_ok
            | «local» slot start =>
                dsimp only
                split <;> exact avoids_ok
            | parameter binder field =>
                exact absurd (List.mem_map.mpr ⟨capture, isCapture, hasKey⟩)
                  (bare sitePlan (List.mem_of_getElem? isPlan) isOuter binder field)
  · dsimp only
    split
    · exact avoids_error id
    · exact avoids_ok

/-! ## What sites provide -/

/-- A site that another one nests in, if any, provides what that captures: a parameter that it
binds, a variable that it declares, or a capture of its own, which is kept in a box or not alike.
No parameters are captured where there is no site around. -/
def ProvidesCapture (sites : List SitePlan) : Option Nat → Capture → Prop
  | none, capture => ∀ binder field, capture.key ≠ .parameter binder field
  | some parent, capture => ∃ outer, sites[parent]? = some outer ∧
      ((∃ field, capture.key = .parameter parent field ∧
          (outer.site.binding? field).isSome = true) ∨
        (∃ slot start, capture.key = .local slot start ∧ outer.site.declares start = true ∧
          slot ∈ outer.captures.internal.map Prod.fst) ∨
        ∃ own ∈ outer.captures.captures, own.key = capture.key ∧ own.mutable = capture.mutable)

/-- The plan of a method agrees with itself: whatever a class is made with, neither making the
class of a closure nor rewriting the method finds a gap in the analysis of captures, and what a
closure captures is provided around it. -/
structure IsConsistent (method : Method) (plan : MethodPlan) : Prop where
  closures : ∀ (number : Nat) (self : SitePlan), plan.sites[number]? = some self →
    ∀ hierarchy version place table,
      Avoids ClosureError.IsInternal
        (closureClass method plan.sites number self hierarchy version place table)
  rewriting : ∀ place, Avoids ClosureError.IsInternal (method.rewrite plan place)
  provided : ∀ self ∈ plan.sites, ∀ capture ∈ self.captures.captures,
    ProvidesCapture plan.sites self.site.parent capture

section Planned

variable {Memory : Type} {method : Method} {hierarchy : Hierarchy}
  {convention : Convention Memory} {place : Place} {before between after : Memory}
  {sites : List LambdaSite} {captures : MethodCaptures} {methods : List AbstractMethod}
  {names : List BinaryName}

/-- The plan of a site is made of what was found out about it. -/
theorem getElem?_ofSteps
    {number : Nat}
    {self : SitePlan}
    (isSelf : (MethodPlan.ofSteps sites captures methods names).sites[number]? = some self) :
    sites[number]? = some self.site ∧ captures.sites[number]? = some self.captures ∧
      methods[number]? = some self.method := by
  unfold MethodPlan.ofSteps at isSelf
  rw [List.getElem?_map, Option.map_eq_some_iff] at isSelf
  obtain ⟨⟨site, own, implemented, name⟩, isZipped, rfl⟩ := isSelf
  obtain ⟨isSite, isRest⟩ := List.getElem?_zip_eq_some.mp isZipped
  obtain ⟨isOwn, isRest⟩ := List.getElem?_zip_eq_some.mp isRest
  exact ⟨isSite, isOwn, (List.getElem?_zip_eq_some.mp isRest).1⟩

/-- No site nests in an argument for a parameter. -/
theorem IsDetected.notMem_piecesOf
    {firstId : Nat}
    {sorted : List LambdaSite}
    (detected : IsDetected firstId sorted sites)
    {number : Nat}
    {site : LambdaSite}
    (isSite : sites[number]? = some site)
    {parameter : SiteParameter}
    (isParameter : parameter ∈ site.parameters)
    {span : Span}
    (within : span.isWithin parameter.span = true)
    (nested : Nat)
    (inner : Span) :
    .site nested inner ∉ piecesOf sites (some number) span := by
  intro isPiece
  obtain ⟨nestedSite, isNested, isParent, starts, stops⟩ := exists_site_of_mem_piecesFrom isPiece
  have inBody := Span.isWithin_iff.mp (detected.within_body_of_parent isNested isParent isSite)
  have tiled := detected.isTiled (List.mem_of_getElem? isSite)
  have beforeBody := tiled.stop_le_body isParameter
  rw [Span.isWithin_iff] at within
  simp only [LambdaSite.span] at inBody
  omega

/-- A site is one of the pieces of the body that it nests in. -/
theorem IsDetected.mem_piecesOf_body
    {firstId : Nat}
    {sorted : List LambdaSite}
    (detected : IsDetected firstId sorted sites)
    {number nested : Nat}
    {site inner : LambdaSite}
    (isSite : sites[number]? = some site)
    (isNested : sites[nested]? = some inner)
    (isParent : inner.parent = some number) :
    .site nested inner.span ∈ piecesOf sites (some number) site.body := by
  have apart := detected.areApart (some number)
  have inBody := Span.isWithin_iff.mp (detected.within_body_of_parent isNested isParent isSite)
  have nonempty := (detected.isTiled (List.mem_of_getElem? isNested)).start_lt_stop
  simp only [LambdaSite.span] at inBody
  have isUncut : IsUncut sites (some number) site.body.start := by
    intro other member isChild
    obtain ⟨position, isOther⟩ := List.getElem?_of_mem member
    have otherInBody :=
      Span.isWithin_iff.mp (detected.within_body_of_parent isOther isChild isSite)
    simp only [LambdaSite.span] at otherInBody
    rw [LambdaSite.isCutAt_eq_false_iff]
    omega
  rw [← pieceAt_start apart isNested isParent]
  exact pieceAt_mem_piecesFrom apart isUncut (isUncut_start apart isNested isParent) inBody.1
    (by omega)

/-- The analysis of a method covers the code of each planned site. -/
theorem isCovered_ofSteps
    {Knows : Memory → BinaryName → UnqualifiedName → Prop}
    (remembers : convention.Remembers hierarchy Knows)
    (ordered : ParentsFirst sites)
    (areKnown : AreKnown Knows sites before)
    (analyzed : analyzeCaptures method sites hierarchy convention place before =
      .ok captures after)
    {number : Nat}
    {self : SitePlan}
    (isSelf : (MethodPlan.ofSteps sites captures methods names).sites[number]? = some self) :
    IsCovered sites method (capturedKeys (MethodPlan.ofSteps sites captures methods names).sites)
      self.site number self.captures := by
  obtain ⟨isSite, isOwn, _⟩ := getElem?_ofSteps isSelf
  have covered := isCovered_of_analyzeCaptures remembers ordered areKnown analyzed isSite isOwn
  refine ⟨fun need member => covered.meets need (mem_siteNeeds_of_subset ?_ member),
    covered.bound, covered.binds, covered.readsThis⟩
  intro nested key isKey
  cases isNested : (MethodPlan.ofSteps sites captures methods names).sites[nested]? with
  | none => simp [capturedKeys, isNested] at isKey
  | some plan =>
      simpa [capturedKeys, isNested, MethodCaptures.keysOf, (getElem?_ofSteps isNested).2.1] using
        isKey

/-- What a covered site captures is provided around it. -/
theorem providesCapture_of_isCovered
    {plans : List SitePlan}
    {firstId : Nat}
    {sorted : List LambdaSite}
    (detected : IsDetected firstId sorted (plans.map SitePlan.site))
    (covered : ∀ number plan, plans[number]? = some plan →
      IsCovered (plans.map SitePlan.site) method (capturedKeys plans) plan.site number plan.captures)
    (alike : ∀ self ∈ plans, ∀ other ∈ plans, ∀ capture ∈ self.captures.captures,
      ∀ own ∈ other.captures.captures, own.key = capture.key → own.mutable = capture.mutable)
    {number : Nat}
    {self : SitePlan}
    (isSelf : plans[number]? = some self)
    {capture : Capture}
    (isCapture : capture ∈ self.captures.captures) :
    ProvidesCapture plans self.site.parent capture := by
  have siteAt : ∀ (position : Nat) (plan : SitePlan), plans[position]? = some plan →
      (plans.map SitePlan.site)[position]? = some plan.site := by
    intro position plan isPlan
    rw [List.getElem?_map, isPlan]
    rfl
  have isKey : capture.key ∈ self.captures.keys := List.mem_map_of_mem isCapture
  cases isParent : self.site.parent with
  | none =>
      intro binder field hasKey
      obtain ⟨different, binds⟩ := (covered number self isSelf).bound binder field (hasKey ▸ isKey)
      exact different (binds.eq_of_outermost (siteAt number self isSelf) isParent)
  | some parent =>
      have below : parent < plans.length := by
        have isBefore := detected.parentsFirst number self.site parent (siteAt number self isSelf)
          isParent
        exact Nat.lt_trans isBefore (List.getElem?_eq_some_iff.mp isSelf).1
      have isOuter : plans[parent]? = some plans[parent] := List.getElem?_eq_getElem below
      refine ⟨plans[parent], isOuter, ?_⟩
      have isPiece := detected.mem_piecesOf_body (siteAt parent _ isOuter)
        (siteAt number self isSelf) isParent
      -- The site around needs whatever this one captures, but for its own parameters.
      have meets : ∀ need, nestedNeed? plans[parent].site parent capture.key = some need →
          plans[parent].captures.Meets need := by
        intro need isNeed
        refine (covered parent _ isOuter).meets need (List.mem_flatMap.mpr
          ⟨_, List.mem_append_right _ List.mem_cons_self, List.mem_flatMap.mpr ⟨_, isPiece, ?_⟩⟩)
        simp only [pieceNeeds, capturedKeys, isSelf, Option.map_some, Option.getD_some]
        exact List.mem_filterMap.mpr ⟨capture.key, isKey, isNeed⟩
      have shares : plans[parent].captures.Meets (.capture capture.key) →
          ∃ own ∈ plans[parent].captures.captures,
            own.key = capture.key ∧ own.mutable = capture.mutable := by
        intro isMet
        obtain ⟨own, isOwn, sameKey⟩ := List.mem_map.mp isMet
        exact ⟨own, isOwn, sameKey, alike self (List.mem_of_getElem? isSelf) _
          (List.mem_of_getElem? isOuter) capture isCapture own isOwn sameKey⟩
      cases hasKey : capture.key with
      | this => exact .inr (.inr (hasKey ▸ shares (meets _ (by rw [hasKey]; rfl))))
      | «local» slot start =>
          rw [hasKey] at meets shares
          simp only [nestedNeed?] at meets
          by_cases declares : plans[parent].site.declares start = true
          · rw [if_pos declares] at meets
            exact .inr (.inl ⟨slot, start, rfl, declares, meets _ rfl⟩)
          · rw [if_neg declares] at meets
            exact .inr (.inr (shares (meets _ rfl)))
      | parameter binder field =>
          rw [hasKey] at meets shares
          simp only [nestedNeed?] at meets
          by_cases isBinder : binder = parent
          · subst isBinder
            obtain ⟨_, _, site, isSite, isBound⟩ :=
              (covered number self isSelf).bound _ field (hasKey ▸ isKey)
            obtain rfl : site = plans[binder].site :=
              Option.some.inj (isSite.symm.trans (siteAt binder _ isOuter))
            exact .inl ⟨field, rfl, isBound⟩
          · rw [if_neg isBinder] at meets
            exact .inr (.inr (shares (meets _ rfl)))

/-- If the sites of a method are detected, their captures analyzed and the methods found that they
implement, then the plan that this makes agrees with itself, under every convention that always
gives a question the same answer, as the one that goes by annotations does. -/
theorem ofSteps_isConsistent
    (steady : convention.IsSteady hierarchy)
    {analysis : FlowAnalysis}
    {calls : List Nat}
    {firstId : Nat}
    (detected : detectSites method analysis calls firstId hierarchy convention place before =
      .ok sites between)
    (analyzed : analyzeCaptures method sites hierarchy convention place between =
      .ok captures after)
    (resolved : abstractMethods sites hierarchy place = .ok methods)
    (sameLength : names.length = sites.length) :
    IsConsistent method (MethodPlan.ofSteps sites captures methods names) := by
  obtain ⟨Knows, remembers⟩ := steady
  obtain ⟨sorted, isDetected⟩ := detectSites_isDetected detected
  have areKnown : AreKnown Knows sites between := isKnown_of_detectSites remembers detected
  have eachResolved := forall₂_of_mapM_eq_ok resolved
  have sameSites : (MethodPlan.ofSteps sites captures methods names).sites.map SitePlan.site =
      sites :=
    lambdaSites_ofSteps (length_of_analyzeCaptures analyzed) eachResolved.length_eq.symm sameLength
  have covered : ∀ number self,
      (MethodPlan.ofSteps sites captures methods names).sites[number]? = some self →
        IsCovered ((MethodPlan.ofSteps sites captures methods names).sites.map SitePlan.site) method
          (capturedKeys (MethodPlan.ofSteps sites captures methods names).sites) self.site number
          self.captures := by
    intro number self isSelf
    rw [sameSites]
    exact isCovered_ofSteps remembers isDetected.parentsFirst areKnown analyzed isSelf
  obtain ⟨written, _, marked⟩ := exists_mutable_of_analyzeCaptures analyzed
  have isOwn : ∀ self ∈ (MethodPlan.ofSteps sites captures methods names).sites,
      self.captures ∈ captures.sites := by
    intro self member
    obtain ⟨number, isSelf⟩ := List.getElem?_of_mem member
    exact List.mem_of_getElem? (getElem?_ofSteps isSelf).2.1
  have provided : ∀ self ∈ (MethodPlan.ofSteps sites captures methods names).sites,
      ∀ capture ∈ self.captures.captures,
        ProvidesCapture (MethodPlan.ofSteps sites captures methods names).sites self.site.parent
          capture := by
    intro self member capture isCapture
    obtain ⟨number, isSelf⟩ := List.getElem?_of_mem member
    refine providesCapture_of_isCovered (sameSites.symm ▸ isDetected) covered ?_
      isSelf isCapture
    intro first isFirst second isSecond capture isCapture own isShared sameKey
    rw [marked _ (isOwn second isSecond) own isShared, marked _ (isOwn first isFirst) capture isCapture,
      sameKey]
  refine ⟨?_, fun place => avoids_rewrite ?_ place, provided⟩
  · intro number self isSelf otherHierarchy version otherPlace table
    obtain ⟨isSite, _, isMethod⟩ := getElem?_ofSteps isSelf
    refine avoids_closureClass isSelf covered ⟨?_, ?_⟩ version otherPlace table
    · rw [sameSites]
      intro parameter isParameter span isDefault
      exact isDetected.notMem_piecesOf isSite isParameter
        ((areKnown _ (List.mem_of_getElem? isSite) parameter isParameter).default span isDefault)
    · intro parameter isDropped
      exact LambdaSite.isSome_default_of_mem_drop
        (mapError_eq_ok.mp (related_of_getElem? eachResolved isSite isMethod)) isDropped
  · intro self member isOuter binder field isKey
    obtain ⟨capture, isCapture, hasKey⟩ := List.mem_map.mp isKey
    have bare := provided self member capture isCapture
    rw [isOuter] at bare
    exact bare binder field hasKey

end Planned

/-! ## A closure that captures a parameter of another one -/

namespace CurriedClosures

/-- The type of the inner closure. -/
def supplier : BinaryName := ⟨"curry/Supplier", by decide⟩

/-- The type of the outer closure. -/
def function : BinaryName := ⟨"curry/Function", by decide⟩

/-- The method that the inner closure implements. -/
def current : AbstractMethod := ⟨supplier, ⟨"current", by decide⟩, ⟨[], some (.base .int)⟩, true⟩

/-- The method that the outer closure implements. -/
def constant : AbstractMethod :=
  ⟨function, ⟨"constant", by decide⟩, ⟨[.base .int], some (.ref (.object supplier))⟩, true⟩

/-- The type of closures that implement a method. -/
def typeOf (method : AbstractMethod) : ClassDeclaration :=
  CoreClass.functional method.owner method.name method.type.parameters method.type.result

/-- The field that stands for the parameter. -/
def parameter : FieldRef := ⟨⟨"curry/Factories", by decide⟩, ⟨"captured", by decide⟩, .base .int⟩

/-- The class of the field. -/
def factories : ClassDeclaration where
  name := parameter.owner
  super := some .object
  interfaces := []
  flags := ClassFlags.accPublic
  fields := [⟨parameter.name, parameter.type, FieldFlags.accStatic,
    [Settings.standard.parameterMark]⟩]
  methods := []
  annotations := []

/-- The classes of the platform, the types of the closures and the class of the field. -/
def hierarchy : Hierarchy where
  declared := [factories, typeOf current, typeOf constant]
  loaded := []

/-- A factory that makes a closure of a type. -/
def factory (parameters : List FieldType) (made : BinaryName) : MethodRef where
  owner := .object factories.name
  name := ⟨"make", by decide⟩
  type := ⟨parameters, some (.ref (.object made))⟩
  ofInterface := false

/-- The factory of the inner closure. -/
def supply : MethodRef := factory [.base .int] supplier

/-- The factory of the outer closure. -/
def curry : MethodRef := factory [.base .int, .ref (.object supplier)] function

/-- A method that makes a function whose values are closures that return its argument:
`curry(captured, supply(captured))`. -/
def method : Method where
  instructions := #[
    .field .getStatic parameter,
    .field .getStatic parameter,
    .invoke .static supply,
    .invoke .static curry,
    .op (.leave (some .reference))]
  owner := ⟨"curry/Demo", by decide⟩
  flags := MethodFlags.accStatic
  name := ⟨"constants", by decide⟩
  type := ⟨[], some (.ref (.object function))⟩
  hasVariableTable := false
  maxLocals := 0

/-- The frames of the method. -/
def frames : FlowAnalysis where
  frames := #[
    some ⟨[], []⟩,
    some ⟨[], [.int]⟩,
    some ⟨[], [.int, .int]⟩,
    some ⟨[], [.object (.object supplier), .int]⟩,
    some ⟨[], [.object (.object function)]⟩]
  maxStack := 2
  maxLocals := 0

/-- The sites of the method. -/
def sites : List LambdaSite := [
  { id := 0, line := none, factory := curry, target := function
    parameters := [⟨some parameter, ⟨0, 1⟩, none⟩]
    body := ⟨1, 3⟩, call := 3, stop := 4, parent := none },
  { id := 1, line := none, factory := supply, target := supplier, parameters := []
    body := ⟨1, 2⟩, call := 2, stop := 3, parent := some 0 }]

/-- What the closures capture: the inner one the parameter of the outer one. -/
def captures : MethodCaptures where
  sites := [{}, { captures := [boundCapture 0 parameter] }]
  boxes := []

/-- What is decided along the way. -/
def decisions : Decisions where
  parameters := [((parameter.owner, parameter.name), true)]

/-- The classes of the closures. -/
def names : List BinaryName := [⟨"curry/Demo$0", by decide⟩, ⟨"curry/Demo$1", by decide⟩]

theorem abstractMethods_eq :
    abstractMethods sites hierarchy .unknown = .ok [constant, current] := by
  have functionFound : hierarchy.resolve function = .ok (typeOf constant) := by decide +kernel
  have supplierFound : hierarchy.resolve supplier = .ok (typeOf current) := by decide +kernel
  refine mapM_eq_ok_of_forall₂ (.cons ?_ (.cons ?_ .nil))
  · exact mapError_eq_ok.mpr (LambdaSite.abstractMethod_eq_ok functionFound (by decide +kernel))
  · exact mapError_eq_ok.mpr (LambdaSite.abstractMethod_eq_ok supplierFound (by decide +kernel))

end CurriedClosures

open CurriedClosures in
/-- The parameter that the inner closure captures is one that the outer one binds. -/
theorem curriedClosures_isConsistent :
    method.analyze hierarchy = .ok frames ∧
      detectSites method frames [2, 3] 0 hierarchy Settings.standard.convention .unknown {} =
        .ok sites decisions ∧
      analyzeCaptures method sites hierarchy Settings.standard.convention .unknown decisions =
        .ok captures decisions ∧
      abstractMethods sites hierarchy .unknown = .ok [constant, current] ∧
      IsConsistent method (.ofSteps sites captures [constant, current] names) := by
  have detected : detectSites method frames [2, 3] 0 hierarchy Settings.standard.convention
      .unknown {} = .ok sites decisions := by
    cbv
  have analyzed : analyzeCaptures method sites hierarchy Settings.standard.convention .unknown
      decisions = .ok captures decisions := by
    with_unfolding_all rfl
  exact ⟨by decide +kernel, detected, analyzed, abstractMethods_eq,
    ofSteps_isConsistent Settings.standard.isSteady_convention detected analyzed abstractMethods_eq
      rfl⟩

end ClosureConversion
