import ClosureConversion.Hierarchy.Subtyping
import ClosureConversion.Proofs.Hierarchy.Unbounded

/-!
Contract: one class is tested for being below another as the declarations say.

Owns:
- hierarchies whose declarations lead up, those whose declarations are what the language makes of
  them, and tests for both;
- on the way to a class that is no interface there are superclasses alone;
- the search for a class finds it exactly where the declarations lead there, whether or not it
  leaves out interfaces.

Does not own: arrays.
-/

namespace ClosureConversion

namespace Hierarchy

/-- Declarations that lead up: no class is above itself, the superclasses and interfaces of every
class are found, and the superclass of an interface is the root class. -/
structure IsOrderly (hierarchy : Hierarchy) : Prop where
  acyclic : ∀ name, ¬Relation.TransGen (hierarchy.Leads parents) name name
  resolvable : ∀ {name parent}, hierarchy.Leads parents name parent →
    ∃ declaration, hierarchy.resolve parent = .ok declaration
  interfaceSuper : ∀ {name declaration}, hierarchy.resolve name = .ok declaration →
    declaration.isInterface = true → declaration.super = some .object

/-- Declarations as the language makes them: they lead up, only the root class has no superclass, no
superclass is an interface, only interfaces are listed as such, and the interfaces of arrays are
below nothing but the root class. -/
structure IsRegular (hierarchy : Hierarchy) : Prop extends hierarchy.IsOrderly where
  rooted : ∀ {name declaration}, hierarchy.resolve name = .ok declaration →
    (declaration.super = none ↔ name = .object)
  classSuper : ∀ {name declaration super target}, hierarchy.resolve name = .ok declaration →
    declaration.super = some super → hierarchy.resolve super = .ok target →
    target.isInterface = false
  interfaces : ∀ {name declaration listed target}, hierarchy.resolve name = .ok declaration →
    listed ∈ declaration.interfaces → hierarchy.resolve listed = .ok target →
    target.isInterface = true
  arrayInterfaces : ∀ {name parent}, name = .cloneable ∨ name = .serializable →
    hierarchy.Leads parents name parent → parent = .object

/-- A class is below the root class, and below what the declarations lead to. -/
def Inherits (hierarchy : Hierarchy) (sub super : BinaryName) : Prop :=
  super = .object ∨ Relation.ReflTransGen (hierarchy.Leads parents) sub super

variable {hierarchy : Hierarchy}
  {next : ClassDeclaration → List BinaryName}

/-! ## Declarations -/

/-- Whatever a class that is found leads to is found. -/
theorem IsOrderly.found_of_leads
    (orderly : hierarchy.IsOrderly)
    {name other : BinaryName}
    {declaration : ClassDeclaration}
    (found : hierarchy.resolve name = .ok declaration)
    (leads : Relation.ReflTransGen (hierarchy.Leads parents) name other) :
    ∃ target, hierarchy.resolve other = .ok target := by
  cases leads with
  | refl => exact ⟨declaration, found⟩
  | tail _ isLast => exact orderly.resolvable isLast

namespace IsRegular

/-- There is nothing above the root class: an interface of it would be below it. -/
theorem not_leads_object
    (regular : hierarchy.IsRegular)
    {parent : BinaryName} :
    ¬hierarchy.Leads parents .object parent := by
  rintro ⟨root, found, isParent⟩
  rcases List.mem_append.mp isParent with isSuper | isListed
  · rw [(regular.rooted found).mpr rfl] at isSuper
    cases isSuper
  · have leads : hierarchy.Leads parents .object parent := ⟨root, found, isParent⟩
    obtain ⟨target, isFound⟩ := regular.resolvable leads
    have isSuper : target.super = some .object :=
      regular.interfaceSuper isFound (regular.interfaces found isListed isFound)
    have leadsBack : hierarchy.Leads parents parent .object :=
      ⟨target, isFound, by simp [parents, isSuper]⟩
    exact regular.acyclic .object (.head leads (.single leadsBack))

theorem eq_object_of_leads
    (regular : hierarchy.IsRegular)
    {other : BinaryName}
    (leads : Relation.ReflTransGen (hierarchy.Leads parents) .object other) :
    other = .object := by
  cases leads using Relation.ReflTransGen.head_induction_on with
  | refl => rfl
  | head isNext _ _ => exact absurd isNext regular.not_leads_object

/-- An interface leads to nothing but interfaces and the root class. -/
theorem eq_object_or_isInterface_of_leads
    (regular : hierarchy.IsRegular)
    {name other : BinaryName}
    {declaration : ClassDeclaration}
    (found : hierarchy.resolve name = .ok declaration)
    (isInterface : declaration.isInterface = true)
    (leads : Relation.ReflTransGen (hierarchy.Leads parents) name other) :
    other = .object ∨
      ∃ target, hierarchy.resolve other = .ok target ∧ target.isInterface = true := by
  induction leads with
  | refl => exact .inr ⟨declaration, found, isInterface⟩
  | @tail middle last _ isLast inductionHypothesis =>
      rcases inductionHypothesis with rfl | ⟨between, isFound, isBetween⟩
      · exact absurd isLast regular.not_leads_object
      · obtain ⟨target, isTarget⟩ := regular.resolvable isLast
        obtain ⟨same, isSame, isParent⟩ := isLast
        cases isFound.symm.trans isSame
        rcases List.mem_append.mp isParent with isSuper | isListed
        · rw [regular.interfaceSuper isFound isBetween] at isSuper
          simp only [Option.toList_some, List.mem_singleton] at isSuper
          exact .inl isSuper
        · exact .inr ⟨target, isTarget, regular.interfaces isFound isListed isTarget⟩

/-- On the way to a class that is no interface there are superclasses alone. -/
theorem leads_superParents
    (regular : hierarchy.IsRegular)
    {sub super : BinaryName}
    {target : ClassDeclaration}
    (leads : Relation.ReflTransGen (hierarchy.Leads parents) sub super)
    (found : hierarchy.resolve super = .ok target)
    (isClass : target.isInterface = false)
    (isBelow : super ≠ .object) :
    Relation.ReflTransGen (hierarchy.Leads superParents) sub super := by
  induction leads using Relation.ReflTransGen.head_induction_on with
  | refl => exact .refl
  | @head name parent isNext leads inductionHypothesis =>
      obtain ⟨nearest, isNearest⟩ := regular.resolvable isNext
      obtain ⟨declaration, isFound, isParent⟩ := isNext
      rcases List.mem_append.mp isParent with isSuper | isListed
      · exact .head ⟨declaration, isFound, isSuper⟩ inductionHypothesis
      · have isInterface := regular.interfaces isFound isListed isNearest
        rcases regular.eq_object_or_isInterface_of_leads isNearest isInterface leads with
          isRoot | ⟨same, isSame, isTargetInterface⟩
        · exact absurd isRoot isBelow
        · cases found.symm.trans isSame
          cases isClass.symm.trans isTargetInterface

end IsRegular

/-- No class is above itself where every parent has a lower rank. -/
theorem acyclic_of_rank
    (rank : BinaryName → Nat)
    (lower : ∀ {name parent}, hierarchy.Leads next name parent → rank parent < rank name)
    (name : BinaryName) :
    ¬Relation.TransGen (hierarchy.Leads next) name name := by
  have isLower : ∀ {other}, Relation.TransGen (hierarchy.Leads next) name other →
      rank other < rank name := by
    intro other leads
    induction leads with
    | single isFirst => exact lower isFirst
    | tail _ isLast inductionHypothesis => exact Nat.lt_trans (lower isLast) inductionHypothesis
  exact fun aboveItself => Nat.lt_irrefl _ (isLower aboveItself)

/-! ## Testing -/

/-- How many classes there are at most on a way up from a class, as far as that is tried. -/
def depth (hierarchy : Hierarchy) : Nat → BinaryName → Nat
  | 0, _ => 0
  | fuel + 1, name =>
      match hierarchy.resolve name with
      | .error _ => 0
      | .ok declaration =>
          ((parents declaration).map fun parent => hierarchy.depth fuel parent + 1).foldr max 0

/-- Whether a class that is found under a name has parents that are, and less far up. -/
def isOrderlyDeclared (hierarchy : Hierarchy) (name : BinaryName)
    (declaration : ClassDeclaration) : Bool :=
  (!declaration.isInterface || declaration.super = some .object) &&
    (parents declaration).all fun parent => (hierarchy.resolve parent).isOk &&
      hierarchy.depth hierarchy.names.length parent < hierarchy.depth hierarchy.names.length name

/-- Whether a class is an interface or not, if it is found. -/
def isFoundAs (hierarchy : Hierarchy) (isInterface : Bool) (name : BinaryName) : Bool :=
  match hierarchy.resolve name with
  | .ok declaration => declaration.isInterface = isInterface
  | .error _ => true

/-- Whether a class that is found under a name is as the language makes it. -/
def isRegularlyDeclared (hierarchy : Hierarchy) (name : BinaryName)
    (declaration : ClassDeclaration) : Bool :=
  hierarchy.isOrderlyDeclared name declaration &&
    declaration.super.isNone = (decide (name = .object)) &&
    declaration.super.toList.all (hierarchy.isFoundAs false) &&
    declaration.interfaces.all (hierarchy.isFoundAs true) &&
    (parents declaration).all fun parent =>
      parent = .object || (name ≠ .cloneable && name ≠ .serializable)

/-- Whether all classes that may be found are as they should be. -/
def allDeclared (hierarchy : Hierarchy)
    (test : BinaryName → ClassDeclaration → Bool) : Bool :=
  hierarchy.names.all fun name =>
    match hierarchy.resolve name with
    | .ok declaration => test name declaration
    | .error _ => true

theorem of_allDeclared
    {test : BinaryName → ClassDeclaration → Bool}
    (tried : hierarchy.allDeclared test = true)
    {name : BinaryName}
    {declaration : ClassDeclaration}
    (found : hierarchy.resolve name = .ok declaration) :
    test name declaration = true := by
  have isTried := List.all_eq_true.mp tried name (mem_names_of_resolve found)
  rw [found] at isTried
  exact isTried

theorem isInterface_of_isFoundAs
    {isInterface : Bool}
    {name : BinaryName}
    {declaration : ClassDeclaration}
    (isFound : hierarchy.isFoundAs isInterface name = true)
    (found : hierarchy.resolve name = .ok declaration) :
    declaration.isInterface = isInterface := by
  rw [isFoundAs, found] at isFound
  exact of_decide_eq_true isFound

/-- Declarations lead up if that is so wherever it is tried. -/
theorem isOrderly_of_declared
    (declared : ∀ {name declaration}, hierarchy.resolve name = .ok declaration →
      hierarchy.isOrderlyDeclared name declaration = true) :
    hierarchy.IsOrderly := by
  simp only [isOrderlyDeclared, Bool.and_eq_true, decide_eq_true_eq, List.all_eq_true] at declared
  constructor
  case acyclic =>
    refine acyclic_of_rank (hierarchy.depth hierarchy.names.length) ?_
    rintro name parent ⟨declaration, found, isParent⟩
    exact ((declared found).2 parent isParent).2
  case resolvable =>
    rintro name parent ⟨declaration, found, isParent⟩
    have isFound := ((declared found).2 parent isParent).1
    cases resolved : hierarchy.resolve parent with
    | error error =>
        rw [resolved] at isFound
        cases isFound
    | ok target => exact ⟨target, rfl⟩
  case interfaceSuper =>
    intro name declaration found isInterface
    have isSuper := (declared found).1
    simpa [isInterface] using isSuper

/-- Declarations that are tried on all classes are as the language makes them. -/
theorem isRegular_of_allDeclared
    (tried : hierarchy.allDeclared hierarchy.isRegularlyDeclared = true) :
    hierarchy.IsRegular := by
  have declared : ∀ {name declaration}, hierarchy.resolve name = .ok declaration →
      hierarchy.isRegularlyDeclared name declaration = true := of_allDeclared tried
  simp only [isRegularlyDeclared, Bool.and_eq_true, decide_eq_true_eq, List.all_eq_true,
    and_assoc] at declared
  refine ⟨isOrderly_of_declared fun found => (declared found).1, ?rooted, ?classSuper, ?interfaces,
    ?arrayInterfaces⟩
  case rooted =>
    intro name declaration found
    have isRoot := (declared found).2.1
    rw [← Option.isNone_iff_eq_none, isRoot, decide_eq_true_eq]
  case classSuper =>
    intro name declaration super target found hasSuper isTarget
    exact isInterface_of_isFoundAs ((declared found).2.2.1 super (by simp [hasSuper])) isTarget
  case interfaces =>
    intro name declaration listed target found isListed isTarget
    exact isInterface_of_isFoundAs ((declared found).2.2.2.1 listed isListed) isTarget
  case arrayInterfaces =>
    rintro name parent isArrayInterface ⟨declaration, found, isParent⟩
    have onlyRoot := (declared found).2.2.2.2 parent isParent
    rcases isArrayInterface with rfl | rfl <;> simpa using onlyRoot

/-- The classes of the platform are as the language makes them. -/
theorem core_isRegular : core.IsRegular :=
  isRegular_of_allDeclared (by decide +kernel)

/-! ## Order -/

namespace Inherits

theorem trans
    (regular : hierarchy.IsRegular)
    {first second third : BinaryName}
    (lower : hierarchy.Inherits first second)
    (upper : hierarchy.Inherits second third) :
    hierarchy.Inherits first third := by
  rcases upper with isRoot | upperSteps
  · exact .inl isRoot
  · rcases lower with rfl | lowerSteps
    · exact .inl (regular.eq_object_of_leads upperSteps)
    · exact .inr (lowerSteps.trans upperSteps)

/-- What is above something that every array is below is so too. -/
theorem isArrayRoot
    (regular : hierarchy.IsRegular)
    {name other : BinaryName}
    (inherits : hierarchy.Inherits name other)
    (isRoot : isArrayRoot name = true) :
    isArrayRoot other = true := by
  rcases inherits with rfl | steps
  · rfl
  · cases steps using Relation.ReflTransGen.head_induction_on with
    | refl => exact isRoot
    | @head _ parent isNext leads _ =>
        have isParent : parent = .object := by
          simp only [Hierarchy.isArrayRoot, Bool.or_eq_true, decide_eq_true_eq] at isRoot
          rcases isRoot with (rfl | isCloneable) | isSerializable
          · exact absurd isNext regular.not_leads_object
          · exact regular.arrayInterfaces (.inl isCloneable) isNext
          · exact regular.arrayInterfaces (.inr isSerializable) isNext
        rw [isParent] at leads
        rw [regular.eq_object_of_leads leads]
        rfl

end Inherits

/-! ## Search -/

/-- The search for a class ends, and finds it where the classes on the way are found exactly if they
lead there. -/
theorem exists_search_eq_ok
    {sub : BinaryName}
    (super : BinaryName)
    (found : ∀ name, Relation.ReflTransGen (hierarchy.Leads next) sub name →
      ∃ declaration, hierarchy.resolve name = .ok declaration) :
    ∃ found?, hierarchy.search (fun name _ => if name = super then some () else none) next [sub] [] =
        .ok found? ∧
      (found?.isSome = true ↔ Relation.ReflTransGen (hierarchy.Leads next) sub super) := by
  cases searched : hierarchy.search (fun name _ => if name = super then some () else none) next
      [sub] [] with
  | error error =>
      obtain ⟨first, member, name, leads, failed⟩ := exists_leads_of_search_eq_error searched
      rw [List.mem_singleton.mp member] at leads
      obtain ⟨declaration, isFound⟩ := found name leads
      cases failed.symm.trans isFound
  | ok found? =>
      refine ⟨found?, rfl, ?_⟩
      cases found? with
      | some value =>
          obtain ⟨first, member, name, _, leads, _, answers⟩ :=
            exists_answer_of_search_eq_ok searched
          rw [List.mem_singleton.mp member] at leads
          have isSuper : name = super := by
            by_contra different
            simp [different] at answers
          exact ⟨fun _ => isSuper ▸ leads, fun _ => rfl⟩
      | none =>
          refine ⟨fun isSome => absurd isSome (by simp), fun leads => ?_⟩
          obtain ⟨_, _, silent⟩ := isSilent_of_search_eq_none searched (by simp) (by simp)
            (.inl List.mem_cons_self) leads
          simp at silent

/-- The test whether one class is below another, on the way that `next` takes towards the other
class. -/
def isSubclassAlong (hierarchy : Hierarchy)
    (next : ClassDeclaration → ClassDeclaration → List BinaryName) (sub super : BinaryName) :
    Except BytecodeError Bool := do
  if super = .object then return true
  let target ← hierarchy.resolve super
  let found? ← hierarchy.search (fun name _ => if name = super then some () else none)
    (next target) [sub] []
  return found?.isSome

/-- The test that takes the interfaces of every class on the way, whatever the other class is. -/
def isSubclassUnpruned (hierarchy : Hierarchy) : BinaryName → BinaryName → Except BytecodeError Bool :=
  hierarchy.isSubclassAlong fun _ declaration =>
    declaration.interfaces.reverse ++ declaration.super.toList

theorem isSubclassAlong_parentsTowards
    (sub super : BinaryName) :
    hierarchy.isSubclassAlong parentsTowards sub super = hierarchy.isSubclass sub super := rfl

theorem leads_congr
    {other : ClassDeclaration → List BinaryName}
    (same : ∀ declaration name, name ∈ next declaration ↔ name ∈ other declaration) :
    hierarchy.Leads next = hierarchy.Leads other := by
  funext name parent
  exact propext (exists_congr fun declaration => and_congr_right fun _ => same declaration parent)

/-- The order in which interfaces and the superclass are visited is none of the declarations. -/
theorem leads_reverse :
    hierarchy.Leads
        (fun declaration => declaration.interfaces.reverse ++ declaration.super.toList) =
      hierarchy.Leads parents :=
  leads_congr fun declaration name => by
    rw [parents, List.mem_append, List.mem_append, List.mem_reverse, or_comm]

/-- The search towards a class goes along parents, if not along all. -/
theorem leads_of_leads_parentsTowards
    {target : ClassDeclaration}
    {sub super : BinaryName}
    (leads : hierarchy.Leads (parentsTowards target) sub super) :
    hierarchy.Leads parents sub super := by
  obtain ⟨declaration, found, isParent⟩ := leads
  unfold parentsTowards at isParent
  split at isParent
  · rw [← leads_reverse]
    exact ⟨declaration, found, isParent⟩
  · exact ⟨declaration, found, List.mem_append_left _ isParent⟩

/-- The search towards a class leaves out nothing that leads there. -/
theorem IsRegular.leads_parentsTowards
    (regular : hierarchy.IsRegular)
    {sub super : BinaryName}
    {target : ClassDeclaration}
    (found : hierarchy.resolve super = .ok target)
    (isBelow : super ≠ .object)
    (leads : Relation.ReflTransGen (hierarchy.Leads parents) sub super) :
    Relation.ReflTransGen (hierarchy.Leads (parentsTowards target)) sub super := by
  cases isInterface : target.isInterface with
  | true =>
      have towards : parentsTowards target =
          fun declaration => declaration.interfaces.reverse ++ declaration.super.toList := by
        funext declaration
        exact if_pos isInterface
      rw [towards, leads_reverse]
      exact leads
  | false =>
      have towards : parentsTowards target = superParents := by
        funext declaration
        exact if_neg (by simp [isInterface])
      rw [towards]
      exact regular.leads_superParents leads found isInterface isBelow

/-- A test that goes along parents, and to whatever is above, says where both classes are found
whether one is below the other. -/
theorem IsOrderly.exists_isSubclassAlong_eq_ok
    (orderly : hierarchy.IsOrderly)
    {next : ClassDeclaration → ClassDeclaration → List BinaryName}
    {sub super : BinaryName}
    {declaration target : ClassDeclaration}
    (subFound : hierarchy.resolve sub = .ok declaration)
    (superFound : hierarchy.resolve super = .ok target)
    (along : ∀ name parent, hierarchy.Leads (next target) name parent →
      hierarchy.Leads parents name parent)
    (complete : super ≠ .object → Relation.ReflTransGen (hierarchy.Leads parents) sub super →
      Relation.ReflTransGen (hierarchy.Leads (next target)) sub super) :
    ∃ answer, hierarchy.isSubclassAlong next sub super = .ok answer ∧
      (answer = true ↔ hierarchy.Inherits sub super) := by
  have isSound : ∀ name, Relation.ReflTransGen (hierarchy.Leads (next target)) sub name →
      Relation.ReflTransGen (hierarchy.Leads parents) sub name :=
    fun name leads => Relation.ReflTransGen.mono along _ _ leads
  unfold isSubclassAlong
  split
  · rename_i isRoot
    exact ⟨true, rfl, fun _ => .inl isRoot, fun _ => rfl⟩
  · rename_i isBelow
    obtain ⟨found?, searched, finds⟩ := exists_search_eq_ok super
      fun name leads => orderly.found_of_leads subFound (isSound name leads)
    refine ⟨found?.isSome, ?_, ?_⟩
    · exact bind_eq_ok.mpr ⟨target, superFound, bind_eq_ok.mpr ⟨found?, searched, rfl⟩⟩
    · rw [finds, Inherits, or_iff_right isBelow]
      exact ⟨isSound super, complete isBelow⟩

/-- The library's test, where both classes are found. -/
theorem IsRegular.exists_isSubclass_eq_ok
    (regular : hierarchy.IsRegular)
    {sub super : BinaryName}
    {declaration target : ClassDeclaration}
    (subFound : hierarchy.resolve sub = .ok declaration)
    (superFound : hierarchy.resolve super = .ok target) :
    ∃ answer, hierarchy.isSubclass sub super = .ok answer ∧
      (answer = true ↔ hierarchy.Inherits sub super) := by
  rw [← isSubclassAlong_parentsTowards]
  exact regular.exists_isSubclassAlong_eq_ok subFound superFound
    (fun _ _ => leads_of_leads_parentsTowards) (regular.leads_parentsTowards superFound)

/-- Leaving out interfaces on the way to a class never changes the answer. -/
theorem IsRegular.isSubclassUnpruned_eq
    (regular : hierarchy.IsRegular)
    (sub super : BinaryName) :
    hierarchy.isSubclassUnpruned sub super = hierarchy.isSubclass sub super := by
  cases superFound : hierarchy.resolve super with
  | error error =>
      unfold isSubclassUnpruned isSubclass isSubclassAlong
      rw [superFound]
      rfl
  | ok target =>
      cases subFound : hierarchy.resolve sub with
      | error error =>
          unfold isSubclassUnpruned isSubclass isSubclassAlong
          rw [superFound]
          simp only [search_cons_of_error List.contains_nil subFound]
      | ok declaration =>
          obtain ⟨first, isFirst, firstInherits⟩ : ∃ answer,
              hierarchy.isSubclassUnpruned sub super = .ok answer ∧
                (answer = true ↔ hierarchy.Inherits sub super) := by
            refine regular.exists_isSubclassAlong_eq_ok subFound superFound ?_ ?_
            · exact fun name parent leads => leads_reverse ▸ leads
            · intro _ leads
              rw [leads_reverse]
              exact leads
          obtain ⟨second, isSecond, secondInherits⟩ :=
            regular.exists_isSubclass_eq_ok subFound superFound
          rw [isFirst, isSecond, Bool.eq_iff_iff.mpr (firstInherits.trans secondInherits.symm)]

/-- Both classes are found where one was tested for being below the other, unless that is the root
class. -/
theorem found_of_isSubclass_eq_ok
    {sub super : BinaryName}
    {answer : Bool}
    (isBelow : super ≠ .object)
    (tested : hierarchy.isSubclass sub super = .ok answer) :
    (∃ declaration, hierarchy.resolve sub = .ok declaration) ∧
      ∃ target, hierarchy.resolve super = .ok target := by
  unfold isSubclass at tested
  rw [if_neg isBelow] at tested
  obtain ⟨target, superFound, tested⟩ := bind_eq_ok.mp tested
  obtain ⟨found?, searched, _⟩ := bind_eq_ok.mp tested
  cases subFound : hierarchy.resolve sub with
  | error error =>
      rw [search_cons_of_error List.contains_nil subFound] at searched
      cases searched
  | ok declaration => exact ⟨⟨declaration, rfl⟩, target, superFound⟩

/-- A class is tested for being below another one and is, exactly where the declarations say so. -/
theorem IsRegular.isSubclass_eq_true_iff
    (regular : hierarchy.IsRegular)
    {sub super : BinaryName}
    (different : sub ≠ super) :
    hierarchy.isSubclass sub super = .ok true ↔ hierarchy.Inherits sub super := by
  constructor
  · intro tested
    by_cases isRoot : super = .object
    · exact .inl isRoot
    · obtain ⟨⟨declaration, subFound⟩, target, superFound⟩ :=
        found_of_isSubclass_eq_ok isRoot tested
      obtain ⟨answer, isAnswer, inherits⟩ := regular.exists_isSubclass_eq_ok subFound superFound
      exact inherits.mp (Except.ok.inj (isAnswer.symm.trans tested))
  · rintro (rfl | leads)
    · rfl
    · have subFound : ∃ declaration, hierarchy.resolve sub = .ok declaration := by
        cases leads using Relation.ReflTransGen.head_induction_on with
        | refl => exact absurd rfl different
        | head isNext _ _ =>
            obtain ⟨declaration, found, _⟩ := isNext
            exact ⟨declaration, found⟩
      obtain ⟨declaration, subFound⟩ := subFound
      obtain ⟨target, superFound⟩ := regular.found_of_leads subFound leads
      obtain ⟨answer, isAnswer, inherits⟩ := regular.exists_isSubclass_eq_ok subFound superFound
      rw [isAnswer, inherits.mpr (.inr leads)]

end Hierarchy

end ClosureConversion
