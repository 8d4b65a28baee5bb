import ClosureConversion.Proofs.Closure.Privacy

/-!
Contract: the names of the classes of closures.

Owns:
- a name begins with that of the class around the closure, and ends in the number of the closure;
- the closures of a class are numbered through, so that no two of their classes have the same name;
- the classes of closures of different classes have different names if the names of those classes
  are apart.

Does not own: what else is in a name.
-/

namespace ClosureConversion

/-! ## Texts -/

theorem text_of_closureName_eq_ok
    {settings : Settings}
    {owner target name : BinaryName}
    {line : Option UInt16}
    {number : Nat}
    (named : settings.closureName owner target line number = .ok name) :
    ∃ middle, name.text.toList =
      owner.text.toList ++ '$' :: (middle ++ '$' :: number.repr.toList) := by
  unfold Settings.closureName BinaryName.ofString at named
  have isName := mapError_eq_ok.mp named
  split at isName
  · cases isName
    refine ⟨(target.simpleName ++ "$" ++ toString settings.lineMarker ++
      Settings.lineDigits line).toList, ?_⟩
    simp [toString]
  · cases isName

theorem dollar_not_mem_repr
    (number : Nat) :
    '$' ∉ number.repr.toList := by
  intro member
  rw [Nat.repr, String.toList_ofList] at member
  exact absurd (Nat.isDigit_of_mem_toDigits (by decide) (by decide) member) (by decide)

/-- What follows the last dollar sign of a text is determined by the text. -/
theorem eq_of_append_dollar
    {front other back last : List Char}
    (equal : front ++ '$' :: back = other ++ '$' :: last)
    (backPlain : '$' ∉ back)
    (lastPlain : '$' ∉ last) :
    back = last := by
  rcases List.append_eq_append_iff.mp equal with ⟨between, _, rest⟩ | ⟨between, _, rest⟩
  · cases between with
    | nil => exact (List.cons.inj rest).2
    | cons first between =>
        exact absurd ((List.cons.inj rest).2 ▸ List.mem_append_right _ List.mem_cons_self) backPlain
  · cases between with
    | nil => exact (List.cons.inj rest).2.symm
    | cons first between =>
        exact absurd ((List.cons.inj rest).2 ▸ List.mem_append_right _ List.mem_cons_self) lastPlain

/-- Two classes of closures with one name have one number. -/
theorem number_eq_of_closureName_eq_ok
    {settings : Settings}
    {owner otherOwner target otherTarget name : BinaryName}
    {line otherLine : Option UInt16}
    {number other : Nat}
    (named : settings.closureName owner target line number = .ok name)
    (otherNamed : settings.closureName otherOwner otherTarget otherLine other = .ok name) :
    number = other := by
  obtain ⟨middle, text⟩ := text_of_closureName_eq_ok named
  obtain ⟨otherMiddle, otherText⟩ := text_of_closureName_eq_ok otherNamed
  have equal : (owner.text.toList ++ '$' :: middle) ++ '$' :: number.repr.toList =
      (otherOwner.text.toList ++ '$' :: otherMiddle) ++ '$' :: other.repr.toList := by
    rw [List.append_assoc, List.append_assoc, List.cons_append, List.cons_append, ← text,
      ← otherText]
  exact Nat.repr_injective (String.toList_injective
    (eq_of_append_dollar equal (dollar_not_mem_repr number) (dollar_not_mem_repr other)))

/-- Neither class can be taken for one that nests in the other one. -/
def BinaryName.IsApartFrom (name other : BinaryName) : Prop :=
  ¬ name.text.toList ++ ['$'] <+: other.text.toList ++ ['$'] ∧
    ¬ other.text.toList ++ ['$'] <+: name.text.toList ++ ['$']

instance (name other : BinaryName) : Decidable (name.IsApartFrom other) :=
  inferInstanceAs (Decidable (_ ∧ _))

/-- Classes that are apart have no name of a class of a closure in common. -/
theorem BinaryName.IsApartFrom.closureName_ne
    {settings otherSettings : Settings}
    {owner other target otherTarget name otherName : BinaryName}
    {line otherLine : Option UInt16}
    {number otherNumber : Nat}
    (apart : owner.IsApartFrom other)
    (named : settings.closureName owner target line number = .ok name)
    (otherNamed : otherSettings.closureName other otherTarget otherLine otherNumber =
      .ok otherName) :
    name ≠ otherName := by
  rintro rfl
  obtain ⟨middle, text⟩ := text_of_closureName_eq_ok named
  obtain ⟨otherMiddle, otherText⟩ := text_of_closureName_eq_ok otherNamed
  have begins : owner.text.toList ++ ['$'] <+: name.text.toList :=
    ⟨_, by rw [text, List.append_assoc, List.singleton_append]⟩
  have otherBegins : other.text.toList ++ ['$'] <+: name.text.toList :=
    ⟨_, by rw [otherText, List.append_assoc, List.singleton_append]⟩
  exact (List.prefix_or_prefix_of_prefix begins otherBegins).elim apart.1 apart.2

/-! ## Numbers -/

section Numbers

variable {Memory : Type} {method : Method} {settings : Settings} {hierarchy : Hierarchy}
  {convention : Convention Memory} {place : Place} {before after : Memory}

/-- The sites of a method are numbered through. -/
theorem map_id_of_detectSites_eq_ok
    {analysis : FlowAnalysis}
    {calls : List Nat}
    {firstId : Nat}
    {sites : List LambdaSite}
    (detected : detectSites method analysis calls firstId hierarchy convention place before =
      .ok sites after) :
    sites.map LambdaSite.id = List.range' firstId sites.length := by
  obtain ⟨sorted, isDetected⟩ := detectSites_isDetected detected
  refine List.ext_getElem (by simp) fun position below _ => ?_
  rw [List.length_map] at below
  obtain ⟨_, _, filled, _⟩ :=
    isDetected.filled position sites[position] (List.getElem?_eq_getElem below)
  rw [List.getElem_map, List.getElem_range', Nat.one_mul, filled]

/-- The class of a site has the name that belongs to the number of the site. -/
theorem closureName_of_planMethod_eq_ok
    {calls : List Nat}
    {firstId : Nat}
    {plan : MethodPlan}
    (planned : planMethod method calls firstId settings hierarchy convention place before =
      .ok plan after) :
    ∀ entry ∈ plan.sites, settings.closureName method.owner entry.site.target entry.site.line
      entry.site.id = .ok entry.className := by
  obtain ⟨_, sites, captures, methods, names, _, _, _, _, _, areNames, rfl⟩ :=
    planMethod_eq_ok.mp planned
  intro entry member
  obtain ⟨number, isEntry⟩ := List.mem_iff_getElem?.mp member
  unfold MethodPlan.ofSteps at isEntry
  rw [List.getElem?_map, Option.map_eq_some_iff] at isEntry
  obtain ⟨⟨site, own, implemented, name⟩, isZipped, rfl⟩ := isEntry
  obtain ⟨isSite, isRest⟩ := List.getElem?_zip_eq_some.mp isZipped
  obtain ⟨_, isRest⟩ := List.getElem?_zip_eq_some.mp isRest
  exact related_of_getElem? (forall₂_of_mapM_eq_ok areNames) isSite
    (List.getElem?_zip_eq_some.mp isRest).2

/-- The plans of all sites of several methods. -/
def sitePlans (planned : List PlannedMethod) : List SitePlan :=
  planned.flatMap fun entry => entry.plan.sites

/-- The sites of the methods of a class are numbered through. -/
theorem map_id_of_planMembers_eq_ok
    {file : ClassFile}
    {members : List (Member .method)}
    {index firstId : Nat}
    {planned : List PlannedMethod}
    (arePlanned : planMembers settings hierarchy convention file index firstId members before =
      .ok planned after) :
    (sitePlans planned).map (fun entry => entry.site.id) =
      List.range' firstId (sitePlans planned).length := by
  induction members generalizing index firstId planned before with
  | nil =>
      obtain ⟨rfl, _⟩ := run_pure_eq_ok.mp arePlanned
      rfl
  | cons member members inductionHypothesis =>
      unfold planMembers at arePlanned
      obtain ⟨planned?, between, isPlanned, arePlanned⟩ := run_bind_eq_ok.mp arePlanned
      cases planned? with
      | none => exact inductionHypothesis arePlanned
      | some first =>
          obtain ⟨rest, _, areRest, equal⟩ := run_bind_eq_ok.mp arePlanned
          obtain ⟨rfl, rfl⟩ := run_pure_eq_ok.mp equal
          obtain ⟨_, _, calls, earlier, _, _, isPlan⟩ := planMember_eq_ok.mp isPlanned
          obtain ⟨_, _, _, detected⟩ := exists_detectSites_of_planMethod_eq_ok isPlan
          have firstIds := map_id_of_detectSites_eq_ok detected
          unfold MethodPlan.lambdaSites at firstIds
          rw [List.map_map, List.length_map] at firstIds
          unfold sitePlans
          rw [List.flatMap_cons, List.map_append, List.length_append, ← List.range'_append_1]
          exact congrArg₂ (· ++ ·) firstIds (inductionHypothesis areRest)

/-- No two sites of a class have classes of one name, and all these names are made of that of the
class. -/
theorem nodup_className_of_planMembers_eq_ok
    {file : ClassFile}
    {owner : ClassDeclaration}
    (isOwner : ClassDeclaration.ofClassFile file = .ok owner)
    {planned : List PlannedMethod}
    (arePlanned : planMembers settings hierarchy convention file 0 0 file.methods before =
      .ok planned after) :
    ((sitePlans planned).map SitePlan.className).Nodup ∧
      ∀ entry ∈ sitePlans planned, settings.closureName owner.name entry.site.target
        entry.site.line entry.site.id = .ok entry.className := by
  have named : ∀ entry ∈ sitePlans planned, settings.closureName owner.name entry.site.target
      entry.site.line entry.site.id = .ok entry.className := by
    intro entry member
    obtain ⟨plannedMethod, isPlanned, isSite⟩ := List.mem_flatMap.mp member
    obtain ⟨⟨_, isRead⟩, _, _, _, _, isPlan⟩ :=
      forall_of_planMembers_eq_ok arePlanned plannedMethod isPlanned
    rw [← owner_of_ofMember?_eq_ok isOwner isRead]
    exact closureName_of_planMethod_eq_ok isPlan entry isSite
  have numbered : ((sitePlans planned).map fun entry => entry.site.id).Nodup := by
    rw [map_id_of_planMembers_eq_ok arePlanned]
    exact List.nodup_range'
  refine ⟨List.pairwise_map.mpr ?_, named⟩
  refine (List.pairwise_map.mp numbered).imp_of_mem fun {first second} isFirst isSecond differ => ?_
  intro equal
  exact differ (number_eq_of_closureName_eq_ok (named first isFirst)
    (equal ▸ named second isSecond))

end Numbers

/-! ## Classes -/

theorem map_self_sites
    (planned : List PlannedMethod) :
    (planned.flatMap PlannedMethod.sites).map PlannedSite.self = sitePlans planned := by
  unfold sitePlans PlannedMethod.sites
  rw [List.map_flatMap]
  congr 1
  funext entry
  rw [List.map_map]
  exact List.zipIdx_map_fst 0 entry.plan.sites

/-- The classes that are made have the names that were planned for them. -/
theorem map_name_of_ofPlans_eq_ok
    {hierarchy : Hierarchy}
    {owner : ClassDeclaration}
    {version : Version}
    {planned : List PlannedMethod}
    {made : ClosureClasses}
    (isMade : ClosureClasses.ofPlans hierarchy owner version planned = .ok made) :
    made.classes.map ClassDefinition.name = (sitePlans planned).map SitePlan.className := by
  have names : made.classes.map ClassDefinition.name =
      (planned.flatMap PlannedMethod.sites).map fun site => site.self.className := by
    refine ofPlans_induction (fun sites (reached : ClosureClasses) =>
      reached.classes.map ClassDefinition.name = sites.map fun site => site.self.className) rfl ?_
      isMade
    intro done site reached next _ _ holds added
    obtain ⟨⟨definition, bridges⟩, isClass, equal⟩ := bind_eq_ok.mp added
    cases equal
    obtain ⟨_, _, _, _, isMade⟩ := closureClass_eq_ok isClass
    rw [List.map_append, List.map_append, holds, List.map_singleton, List.map_singleton,
      isMade.name]
    rfl
  rw [names, ← map_self_sites, List.map_map]
  rfl

end ClosureConversion
