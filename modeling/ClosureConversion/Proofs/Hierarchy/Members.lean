import ClosureConversion.Proofs.Hierarchy.Regular

/-!
Contract: a member of a class is that of the nearest superclass that declares it, or else one of an
interface.

Owns:
- the superclasses of a class by how far they are above it, which may go round;
- the search for a member comes to all superclasses before it comes to any interface;
- methods and fields are found where a superclass declares them, the nearest one first, then
  wherever interfaces lead, and are not found exactly if nothing above the class declares them.

Does not own: which of several interfaces comes first.
-/

namespace ClosureConversion

namespace Hierarchy

/-- The class that is so many superclasses above a class. -/
def superAt (hierarchy : Hierarchy) : Nat → BinaryName → Option BinaryName
  | 0, name => some name
  | count + 1, name =>
      match hierarchy.resolve name with
      | .ok declaration => declaration.super.bind (hierarchy.superAt count)
      | .error _ => none

/-- What a search for a member of a class looks for: the member, with the class that declares it. -/
def memberAnswer {α : Type} (member? : ClassDeclaration → Option α) (_ : BinaryName)
    (declaration : ClassDeclaration) : Option (ClassDeclaration × α) :=
  (member? declaration).map (declaration, ·)

/-- A class declares a member, and the class that it belongs to is so many superclasses above
another one, where no class in between declares such a member, nor does the other one. -/
inductive Inherited {α : Type} (hierarchy : Hierarchy) (member? : ClassDeclaration → Option α) :
    Nat → BinaryName → ClassDeclaration × α → Prop where
  | own {name : BinaryName} {declaration : ClassDeclaration} {value : α} :
      hierarchy.resolve name = .ok declaration → member? declaration = some value →
      Inherited hierarchy member? 0 name (declaration, value)
  | above {count : Nat} {name super : BinaryName} {declaration : ClassDeclaration}
      {found : ClassDeclaration × α} :
      hierarchy.resolve name = .ok declaration → member? declaration = none →
      declaration.super = some super → Inherited hierarchy member? count super found →
      Inherited hierarchy member? (count + 1) name found

variable {hierarchy : Hierarchy}
  {α : Type}
  {member? : ClassDeclaration → Option α}

/-! ## Superclasses -/

theorem superAt_succ
    {name : BinaryName}
    {declaration : ClassDeclaration}
    (found : hierarchy.resolve name = .ok declaration)
    (count : Nat) :
    hierarchy.superAt (count + 1) name = declaration.super.bind (hierarchy.superAt count) := by
  rw [superAt, found]

/-- The classes that superclasses lead to are those that are some number of superclasses above. -/
theorem leads_superParents_iff_superAt
    {name other : BinaryName} :
    Relation.ReflTransGen (hierarchy.Leads superParents) name other ↔
      ∃ count, hierarchy.superAt count name = some other := by
  constructor
  · intro leads
    induction leads using Relation.ReflTransGen.head_induction_on with
    | refl => exact ⟨0, rfl⟩
    | head isFirst _ inductionHypothesis =>
        obtain ⟨declaration, found, isSuper⟩ := isFirst
        obtain ⟨count, isOther⟩ := inductionHypothesis
        refine ⟨count + 1, ?_⟩
        rw [superAt_succ found, Option.mem_toList.mp isSuper]
        exact isOther
  · rintro ⟨count, isOther⟩
    induction count generalizing name with
    | zero =>
        obtain rfl := Option.some.inj isOther
        exact .refl
    | succ count inductionHypothesis =>
        cases found : hierarchy.resolve name with
        | error error =>
            rw [superAt, found] at isOther
            cases isOther
        | ok declaration =>
            rw [superAt_succ found] at isOther
            obtain ⟨super, hasSuper, isAbove⟩ := Option.bind_eq_some_iff.mp isOther
            exact .head ⟨declaration, found, Option.mem_toList.mpr hasSuper⟩
              (inductionHypothesis isAbove)

/-- Beyond the superclasses of a class there is what their interfaces lead to. -/
theorem leads_superParents_or_interfaces
    {owner name : BinaryName}
    (leads : Relation.ReflTransGen (hierarchy.Leads parents) owner name) :
    Relation.ReflTransGen (hierarchy.Leads superParents) owner name ∨
      ∃ below listed, Relation.ReflTransGen (hierarchy.Leads superParents) owner below ∧
        hierarchy.Leads ClassDeclaration.interfaces below listed ∧
        Relation.ReflTransGen (hierarchy.Leads parents) listed name := by
  induction leads with
  | refl => exact .inl .refl
  | @tail middle last _ isLast inductionHypothesis =>
      rcases inductionHypothesis with isSuper | ⟨below, listed, isBelow, isListed, leads⟩
      · obtain ⟨declaration, found, isParent⟩ := isLast
        rcases List.mem_append.mp isParent with isNext | isNext
        · exact .inl (isSuper.tail ⟨declaration, found, isNext⟩)
        · exact .inr ⟨middle, last, isSuper, ⟨declaration, found, isNext⟩, .refl⟩
      · exact .inr ⟨below, listed, isBelow, isListed, leads.tail isLast⟩

/-! ## Inheritance -/

namespace Inherited

/-- A class inherits a member from one place only. -/
theorem unique
    {first second : Nat}
    {name : BinaryName}
    {found other : ClassDeclaration × α}
    (isFirst : Inherited hierarchy member? first name found)
    (isSecond : Inherited hierarchy member? second name other) :
    first = second := by
  induction isFirst generalizing second with
  | own resolved declares =>
      cases isSecond with
      | own => rfl
      | above same silent _ _ =>
          cases resolved.symm.trans same
          cases declares.symm.trans silent
  | above resolved silent hasSuper _ inductionHypothesis =>
      cases isSecond with
      | own same declares =>
          cases resolved.symm.trans same
          cases silent.symm.trans declares
      | above same _ otherSuper isAbove =>
          cases resolved.symm.trans same
          cases hasSuper.symm.trans otherSuper
          rw [inductionHypothesis isAbove]

/-- The nearest superclass that declares a member is the one that it is inherited from. -/
theorem of_superAt
    {count : Nat}
    {owner name : BinaryName}
    {declaration : ClassDeclaration}
    {value : α}
    (isAbove : hierarchy.superAt count owner = some name)
    (resolved : hierarchy.resolve name = .ok declaration)
    (declares : member? declaration = some value)
    (noneNearer : ∀ fewer < count, ∀ other between, hierarchy.superAt fewer owner = some other →
      hierarchy.resolve other = .ok between → member? between = none) :
    Inherited hierarchy member? count owner (declaration, value) := by
  induction count generalizing owner with
  | zero =>
      obtain rfl := Option.some.inj isAbove
      exact .own resolved declares
  | succ count inductionHypothesis =>
      cases found : hierarchy.resolve owner with
      | error error =>
          rw [superAt, found] at isAbove
          cases isAbove
      | ok lowest =>
          rw [superAt_succ found] at isAbove
          obtain ⟨super, hasSuper, isAbove⟩ := Option.bind_eq_some_iff.mp isAbove
          have silent : member? lowest = none :=
            noneNearer 0 (Nat.succ_pos count) owner lowest rfl found
          refine .above found silent hasSuper (inductionHypothesis isAbove ?_)
          intro fewer isFewer other between isOther
          refine noneNearer (fewer + 1) (Nat.succ_lt_succ isFewer) other between ?_
          rw [superAt_succ found, hasSuper]
          exact isOther

end Inherited

/-- A search for a member that comes to a class which inherits one ends there, if it visited none of
the superclasses in between. Those that it did visit inherit the member from farther away. -/
theorem search_eq_of_inherited
    {count : Nat}
    {owner : BinaryName}
    {found : ClassDeclaration × α}
    (inherited : Inherited hierarchy member? count owner found)
    {rest visited : List BinaryName}
    (farther : ∀ name ∈ visited, ∀ fewer ≤ count, ∀ other,
      ¬Inherited hierarchy member? fewer name other) :
    hierarchy.search (memberAnswer member?) parents (owner :: rest) visited = .ok (some found) := by
  have fresh : visited.contains owner = false := by
    rw [Bool.eq_false_iff]
    intro isVisited
    exact farther owner (by simpa using isVisited) count (Nat.le_refl count) found inherited
  induction inherited generalizing rest visited with
  | own resolved declares =>
      exact search_cons_of_some fresh resolved (by simp [memberAnswer, declares])
  | @above count name super declaration found resolved silent hasSuper isAbove
      inductionHypothesis =>
      rw [search_cons_of_none fresh resolved (by simp [memberAnswer, silent]), parents, hasSuper]
      have fartherAbove : ∀ other ∈ name :: visited, ∀ fewer ≤ count, ∀ value,
          ¬Inherited hierarchy member? fewer other value := by
        intro other member fewer isFewer value isInherited
        rcases List.mem_cons.mp member with rfl | isVisited
        · have same := isInherited.unique (.above resolved silent hasSuper isAbove)
          omega
        · exact farther other isVisited fewer (Nat.le_succ_of_le isFewer) value isInherited
      refine inductionHypothesis fartherAbove ?_
      rw [Bool.eq_false_iff]
      intro isVisited
      exact fartherAbove super (by simpa using isVisited) count (Nat.le_refl count) found isAbove

/-! ## Members -/

/-- What is found for a member of a class. If superclasses declare it, it is that of the nearest
one. If none does, it is that of a type to which the interfaces of the superclasses lead. Nothing is
found exactly if no class or interface declares it that the class leads to. -/
structure FindsMember (hierarchy : Hierarchy) (member? : ClassDeclaration → Option α)
    (owner : BinaryName) (found? : Option (ClassDeclaration × α)) : Prop where
  nearest : ∀ {count name declaration value}, hierarchy.superAt count owner = some name →
    hierarchy.resolve name = .ok declaration → member? declaration = some value →
    (∀ fewer < count, ∀ other between, hierarchy.superAt fewer owner = some other →
      hierarchy.resolve other = .ok between → member? between = none) →
    found? = some (declaration, value)
  interfaces : ∀ {declaration value}, found? = some (declaration, value) →
    (∀ count name between, hierarchy.superAt count owner = some name →
      hierarchy.resolve name = .ok between → member? between = none) →
    ∃ below listed name, Relation.ReflTransGen (hierarchy.Leads superParents) owner below ∧
      hierarchy.Leads ClassDeclaration.interfaces below listed ∧
      Relation.ReflTransGen (hierarchy.Leads parents) listed name ∧
      hierarchy.resolve name = .ok declaration ∧ member? declaration = some value
  missing : found? = none ↔ ∀ name declaration,
    Relation.ReflTransGen (hierarchy.Leads parents) owner name →
      hierarchy.resolve name = .ok declaration → member? declaration = none

/-- The search for a member ends where all classes are found that a class leads to, and finds it. -/
theorem exists_search_findsMember
    {owner : BinaryName}
    (found : ∀ name, Relation.ReflTransGen (hierarchy.Leads parents) owner name →
      ∃ declaration, hierarchy.resolve name = .ok declaration) :
    ∃ found?, hierarchy.search (memberAnswer member?) parents [owner] [] = .ok found? ∧
      hierarchy.FindsMember member? owner found? := by
  cases searched : hierarchy.search (memberAnswer member?) parents [owner] [] with
  | error error =>
      obtain ⟨first, member, name, leads, failed⟩ := exists_leads_of_search_eq_error searched
      rw [List.mem_singleton.mp member] at leads
      obtain ⟨declaration, resolved⟩ := found name leads
      cases failed.symm.trans resolved
  | ok found? =>
      -- Whatever was found is declared by a class that the owner leads to.
      have declared : ∀ {declaration value}, found? = some (declaration, value) →
          ∃ name, Relation.ReflTransGen (hierarchy.Leads parents) owner name ∧
            hierarchy.resolve name = .ok declaration ∧ member? declaration = some value := by
        rintro declaration value rfl
        obtain ⟨first, member, name, answering, leads, resolved, answers⟩ :=
          exists_answer_of_search_eq_ok searched
        rw [List.mem_singleton.mp member] at leads
        obtain ⟨same, declares, isFound⟩ := Option.map_eq_some_iff.mp answers
        cases isFound
        exact ⟨name, leads, resolved, declares⟩
      refine ⟨found?, rfl, ?nearest, ?interfaces, ?missing⟩
      case nearest =>
        intro count name declaration value isAbove resolved declares noneNearer
        have inherited := Inherited.of_superAt isAbove resolved declares noneNearer
        exact Except.ok.inj (searched.symm.trans (search_eq_of_inherited inherited nofun))
      case interfaces =>
        intro declaration value isFound noneAbove
        obtain ⟨name, leads, resolved, declares⟩ := declared isFound
        rcases leads_superParents_or_interfaces leads with
          isSuper | ⟨below, listed, isBelow, isListed, leads⟩
        · obtain ⟨count, isAbove⟩ := leads_superParents_iff_superAt.mp isSuper
          cases declares.symm.trans (noneAbove count name declaration isAbove resolved)
        · exact ⟨below, listed, name, isBelow, isListed, leads, resolved, declares⟩
      case missing =>
        constructor
        · rintro rfl name declaration leads resolved
          obtain ⟨same, isSame, silent⟩ := isSilent_of_search_eq_none searched (by simp) (by simp)
            (.inl List.mem_cons_self) leads
          cases resolved.symm.trans isSame
          exact Option.map_eq_none_iff.mp silent
        · intro noneDeclares
          cases found? with
          | none => rfl
          | some result =>
              obtain ⟨declaration, value⟩ := result
              obtain ⟨name, leads, resolved, declares⟩ := declared rfl
              cases declares.symm.trans (noneDeclares name declaration leads resolved)

/-- Methods and fields of a class are found as those of the nearest superclass that declares them,
or else as those of what interfaces lead to, if all classes are found that the class leads to. -/
theorem findsMembers_of_found
    {owner : BinaryName}
    (found : ∀ name, Relation.ReflTransGen (hierarchy.Leads parents) owner name →
      ∃ declaration, hierarchy.resolve name = .ok declaration) :
    (∀ name type, ∃ method?, hierarchy.findMethod? owner name type = .ok method? ∧
        hierarchy.FindsMember (·.method? name type) owner method?) ∧
      ∀ name, ∃ field?, hierarchy.findField? owner name = .ok field? ∧
        hierarchy.FindsMember (·.field? name) owner field? :=
  ⟨fun _ _ => exists_search_findsMember found, fun _ => exists_search_findsMember found⟩

/-- The method that compares two boxes is that of the root class, two superclasses above, as neither
the box nor the class of numbers has one of their own. A box has no field. -/
theorem core_findsMembers :
    (∀ name, Relation.ReflTransGen (core.Leads parents) .integer name →
        ∃ declaration, core.resolve name = .ok declaration) ∧
      core.superAt 2 .integer = some .object ∧
      core.findMethod? .integer CoreClass.equals ⟨[CoreClass.object], some .boolean⟩ =
        .ok (some (CoreClass.root,
          CoreClass.method CoreClass.equals [CoreClass.object] (some .boolean))) ∧
      core.findField? .integer CoreClass.length = .ok none := by
  have isInteger : core.resolve .integer = .ok (CoreClass.numberBox .int .intValue) := by
    decide +kernel
  have isRoot : core.resolve .object = .ok CoreClass.root := by decide +kernel
  have found : ∀ name, Relation.ReflTransGen (core.Leads parents) .integer name →
      ∃ declaration, core.resolve name = .ok declaration :=
    fun name leads => core_isRegular.found_of_leads isInteger leads
  have onTop : core.superAt 2 .integer = some .object := by decide +kernel
  have declares : CoreClass.root.method? CoreClass.equals ⟨[CoreClass.object], some .boolean⟩ =
      some (CoreClass.method CoreClass.equals [CoreClass.object] (some .boolean)) := by
    decide +kernel
  have notOverridden : core.allDeclared fun name declaration =>
      !(name = .integer || name = .number) ||
        declaration.method? CoreClass.equals ⟨[CoreClass.object], some .boolean⟩ = none := by
    decide +kernel
  have noFields : core.allDeclared fun _ declaration =>
      declaration.field? CoreClass.length = none := by decide +kernel
  obtain ⟨methods, fields⟩ := findsMembers_of_found found
  obtain ⟨method?, isMethod, findsMethod⟩ :=
    methods CoreClass.equals ⟨[CoreClass.object], some .boolean⟩
  obtain ⟨field?, isField, findsField⟩ := fields CoreClass.length
  refine ⟨found, onTop, ?_, ?_⟩
  · rw [isMethod]
    refine congrArg _ (findsMethod.nearest onTop isRoot declares ?_)
    intro fewer isFewer other between isOther resolved
    have isBelow : other = .integer ∨ other = .number := by
      match fewer, isFewer with
      | 0, _ => exact .inl (Option.some.inj isOther).symm
      | 1, _ =>
          have isNumber : core.superAt 1 .integer = some .number := by decide +kernel
          exact .inr (Option.some.inj (isOther.symm.trans isNumber))
    have tried := of_allDeclared notOverridden resolved
    rcases isBelow with rfl | rfl <;> simpa using tried
  · rw [isField]
    refine congrArg _ (findsField.missing.mpr ?_)
    intro name declaration _ resolved
    exact of_decide_eq_true (of_allDeclared noFields resolved)

end Hierarchy

end ClosureConversion
