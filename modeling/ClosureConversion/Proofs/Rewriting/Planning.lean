import ClosureConversion.Proofs.Capture.Mutability
import ClosureConversion.Proofs.Rewriting.Layout
import ClosureConversion.Proofs.Site.AbstractMethods

/-!
Contract: what the steps of planning a method amount to.

Owns:
- a plan has the detected sites, each with what was found out about it, and the boxes of the
  variables that they capture;
- where the sites and the boxes of a planned method can be.

Does not own: how sites are detected, or which variables are captured.
-/

namespace ClosureConversion

variable {Memory : Type} {method : Method} {hierarchy : Hierarchy}
  {convention : Convention Memory} {place : Place}

/-- Planning a method succeeds if all its steps do. -/
theorem planMethod_eq_ok
    {calls : List Nat}
    {firstId : Nat}
    {settings : Settings}
    {before after : Memory}
    {plan : MethodPlan} :
    planMethod method calls firstId settings hierarchy convention place before = .ok plan after ↔
      ∃ analysis sites captures methods names between,
        method.analyze hierarchy = .ok analysis ∧
        detectSites method analysis calls firstId hierarchy convention place before =
          .ok sites between ∧
        analyzeCaptures method sites hierarchy convention place between = .ok captures after ∧
        abstractMethods sites hierarchy place = .ok methods ∧
        classNames sites settings method.owner = .ok names ∧
        MethodPlan.ofSteps sites captures methods names = plan := by
  unfold planMethod Place.locateBytecode
  constructor
  · intro planned
    obtain ⟨analysis, _, analyzed, planned⟩ := run_bind_eq_ok.mp planned
    obtain ⟨sites, between, detected, planned⟩ := run_bind_eq_ok.mp planned
    obtain ⟨captures, _, captured, planned⟩ := run_bind_eq_ok.mp planned
    obtain ⟨methods, _, resolved, planned⟩ := run_bind_eq_ok.mp planned
    obtain ⟨names, _, named, planned⟩ := run_bind_eq_ok.mp planned
    obtain ⟨isAnalysis, rfl⟩ := run_ofExcept_eq_ok.mp analyzed
    obtain ⟨areMethods, rfl⟩ := run_ofExcept_eq_ok.mp resolved
    obtain ⟨areNames, rfl⟩ := run_ofExcept_eq_ok.mp named
    obtain ⟨equal, rfl⟩ := run_pure_eq_ok.mp planned
    exact ⟨analysis, sites, captures, methods, names, between, mapError_eq_ok.mp isAnalysis,
      detected, captured, areMethods, areNames, equal⟩
  · rintro ⟨analysis, sites, captures, methods, names, between, analyzed, detected, captured,
      resolved, named, equal⟩
    refine run_bind_eq_ok.mpr
      ⟨analysis, before, run_ofExcept_eq_ok.mpr ⟨mapError_eq_ok.mpr analyzed, rfl⟩, ?_⟩
    refine run_bind_eq_ok.mpr ⟨sites, between, detected, ?_⟩
    refine run_bind_eq_ok.mpr ⟨captures, after, captured, ?_⟩
    refine run_bind_eq_ok.mpr ⟨methods, after, run_ofExcept_eq_ok.mpr ⟨resolved, rfl⟩, ?_⟩
    refine run_bind_eq_ok.mpr ⟨names, after, run_ofExcept_eq_ok.mpr ⟨named, rfl⟩, ?_⟩
    exact run_pure_eq_ok.mpr ⟨equal, rfl⟩

/-- What is found out about sites is as long as the list of sites. -/
theorem size_usesOfSites
    {sites : List LambdaSite}
    {before after : Memory}
    {uses : Array SiteUse}
    (found : usesOfSites method sites hierarchy convention place before = .ok uses after) :
    uses.size = sites.length := by
  refine run_foldlM_preserves (fun _ (known : Array SiteUse) => known.size = sites.length) ?_
    Array.size_replicate found
  rintro done ⟨site, number⟩ known next earlier later sameSize stepped
  obtain ⟨use, _, _, stepped⟩ := run_bind_eq_ok.mp stepped
  obtain ⟨rfl, _⟩ := run_pure_eq_ok.mp stepped
  rw [Array.size_setIfInBounds, sameSize]

/-- Captures are found for every site. -/
theorem length_of_analyzeCaptures
    {sites : List LambdaSite}
    {before after : Memory}
    {captures : MethodCaptures}
    (analyzed : analyzeCaptures method sites hierarchy convention place before =
      .ok captures after) :
    captures.sites.length = sites.length := by
  unfold analyzeCaptures at analyzed
  split at analyzed
  · obtain ⟨rfl, _⟩ := run_pure_eq_ok.mp analyzed
    rfl
  · dsimp only at analyzed
    split at analyzed
    · cases analyzed
    · obtain ⟨uses, _, found, analyzed⟩ := run_bind_eq_ok.mp analyzed
      obtain ⟨settled, _, settledAll, analyzed⟩ := run_bind_eq_ok.mp analyzed
      obtain ⟨boxes, _, _, analyzed⟩ := run_bind_eq_ok.mp analyzed
      obtain ⟨rfl, _⟩ := run_pure_eq_ok.mp analyzed
      have sameSize := size_usesOfSites found
      rw [← (forall₂_of_run_mapM_eq_ok settledAll).length_eq]
      simp [sameSize]

/-- The sites of a plan are the detected ones, if something was found out about each. -/
theorem lambdaSites_ofSteps
    {sites : List LambdaSite}
    {captures : MethodCaptures}
    {methods : List AbstractMethod}
    {names : List BinaryName}
    (capturesLength : captures.sites.length = sites.length)
    (methodsLength : methods.length = sites.length)
    (namesLength : names.length = sites.length) :
    (MethodPlan.ofSteps sites captures methods names).lambdaSites = sites := by
  have fst : (MethodPlan.ofSteps sites captures methods names).lambdaSites =
      (sites.zip (captures.sites.zip (methods.zip names))).map Prod.fst := by
    unfold MethodPlan.lambdaSites MethodPlan.ofSteps
    rw [List.map_map]
    rfl
  rw [fst, List.map_fst_zip]
  simp [capturesLength, methodsLength, namesLength]

/-- The sites of a plan are those that were detected, and what was found out about each of them
is kept in its plan. -/
theorem exists_detectSites_of_planMethod_eq_ok
    {calls : List Nat}
    {firstId : Nat}
    {settings : Settings}
    {before after : Memory}
    {plan : MethodPlan}
    (planned : planMethod method calls firstId settings hierarchy convention place before =
      .ok plan after) :
    ∃ analysis between, method.analyze hierarchy = .ok analysis ∧
      detectSites method analysis calls firstId hierarchy convention place before =
        .ok plan.lambdaSites between := by
  obtain ⟨analysis, sites, captures, methods, names, between, analyzed, detected, captured, resolved,
    named, rfl⟩ := planMethod_eq_ok.mp planned
  have sameSites := lambdaSites_ofSteps (length_of_analyzeCaptures captured)
    (forall₂_of_mapM_eq_ok resolved).length_eq.symm (forall₂_of_mapM_eq_ok named).length_eq.symm
  exact ⟨analysis, between, analyzed, by rw [sameSites]; exact detected⟩

/-- What is known of a plan: its sites are apart, its boxes are for variables in slots that the
method accesses, and so is whatever its sites capture of the method. -/
structure IsPlanned (method : Method) (plan : MethodPlan) : Prop where
  apart : AreApart plan.lambdaSites none
  boxes : AreBoxes method plan.boxes
  boxAccessed : ∀ boxed ∈ plan.boxes, method.HasAccess boxed.slot
  captureAccessed : ∀ sitePlan ∈ plan.sites, ∀ capture ∈ sitePlan.captures.captures,
    ∀ slot start, capture.key = .local slot start → method.HasAccess slot

theorem isPlanned_of_planMethod_eq_ok
    {calls : List Nat}
    {firstId : Nat}
    {settings : Settings}
    {before after : Memory}
    {plan : MethodPlan}
    (planned : planMethod method calls firstId settings hierarchy convention place before =
      .ok plan after) :
    IsPlanned method plan := by
  obtain ⟨analysis, sites, captures, methods, names, between, _, detected, captured, resolved,
    named, rfl⟩ := planMethod_eq_ok.mp planned
  have methodsLength := (forall₂_of_mapM_eq_ok resolved).length_eq.symm
  have namesLength := (forall₂_of_mapM_eq_ok named).length_eq.symm
  have sameSites :=
    lambdaSites_ofSteps (length_of_analyzeCaptures captured) methodsLength namesLength
  obtain ⟨written, boxesFound, _⟩ := exists_mutable_of_analyzeCaptures captured
  have boxesOf := boxesOf_boxesFor boxesFound
  obtain ⟨sorted, isDetected⟩ := detectSites_isDetected detected
  refine ⟨by rw [sameSites]; exact isDetected.areApart none, boxesOf.areBoxes, ?_, ?_⟩
  · intro boxed member
    obtain ⟨capture, isCaptured, _, sameKey, _⟩ := boxesOf.captured boxed member
    obtain ⟨site, isSite, isCapture⟩ := List.mem_flatMap.mp isCaptured
    obtain ⟨start, isLocal, _⟩ := boxesOf.areBoxes.isLocal boxed member
    exact hasAccess_of_analyzeCaptures captured isSite isCapture (sameKey.trans isLocal)
  · intro sitePlan member capture isCapture slot start isLocal
    obtain ⟨⟨site, siteCaptures, method, className⟩, isZipped, rfl⟩ := List.mem_map.mp member
    have isSite := (List.of_mem_zip (List.of_mem_zip isZipped).2).1
    exact hasAccess_of_analyzeCaptures captured isSite isCapture isLocal

end ClosureConversion
