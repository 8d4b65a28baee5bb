import ClosureConversion.Closure.AbstractMethod
import ClosureConversion.Hierarchy.Subtyping
import ClosureConversion.Proofs.Hierarchy.Unbounded

/-!
Contract: which questions about classes are answered, whatever the classes are above each other.

Owns:
- members of classes and assignability are decided in any hierarchy;
- superclasses, common superclasses and abstract methods are looked for without end at classes that
  are above themselves, and are decided where there are none.

Does not own: what the answers are.
-/

namespace ClosureConversion

/-- A fault that stands for a computation without an end. -/
def Fault.IsEndless : Fault → Prop
  | .bytecode error => error.IsEndless
  | _ => False

theorem Fault.isEndless_ofBytecode
    {error : BytecodeError} :
    (Fault.ofBytecode error).IsEndless ↔ error.IsEndless := by
  cases error <;> exact Iff.rfl

namespace Hierarchy

variable {hierarchy : Hierarchy}
  {next : ClassDeclaration → List BinaryName}

/-! ## Questions -/

theorem returns_findMethod?
    (lookups : ∀ name, Returns (hierarchy.resolve name))
    (owner : BinaryName)
    (name : UnqualifiedName)
    (type : MethodType) :
    Returns (hierarchy.findMethod? owner name type) :=
  returns_search lookups _ _

theorem returns_findField?
    (lookups : ∀ name, Returns (hierarchy.resolve name))
    (owner : BinaryName)
    (name : UnqualifiedName) :
    Returns (hierarchy.findField? owner name) :=
  returns_search lookups _ _

theorem returns_isSubclass
    (lookups : ∀ name, Returns (hierarchy.resolve name))
    (sub super : BinaryName) :
    Returns (hierarchy.isSubclass sub super) := by
  unfold isSubclass
  split
  · exact avoids_ok
  · exact (lookups super).bind fun target _ => (returns_search lookups _ _).bind fun _ _ => avoids_ok

theorem returns_isAssignable
    (lookups : ∀ name, Returns (hierarchy.resolve name))
    (sub super : RefType) :
    Returns (hierarchy.isAssignable sub super) := by
  unfold isAssignable
  split
  · exact avoids_ok
  · split
    · exact returns_isSubclass lookups _ _
    · exact avoids_ok
    · split
      · exact returns_isSubclass lookups _ _
      · exact avoids_ok
    · exact avoids_ok
    · exact avoids_ok
    · exact avoids_ok

/-- The nearest common class of two different classes is found, or not, unless the superclasses of
the first one run in a circle, or it is no interface and those of the second one do. -/
theorem returns_commonSuperclass_iff
    (lookups : ∀ name, Returns (hierarchy.resolve name))
    {first second : BinaryName} :
    Returns (hierarchy.commonSuperclass first second) ↔
      first = second ∨ (¬hierarchy.Circles superParents first ∧
        ∀ nearest others, hierarchy.superclasses first = .ok (nearest :: others) →
          nearest.isInterface = false → ¬hierarchy.Circles superParents second) := by
  unfold commonSuperclass
  split
  · rename_i same
    exact ⟨fun _ => .inl same, fun _ => avoids_ok⟩
  · rename_i different
    rw [returns_bind_iff, returns_superclasses_iff lookups, or_iff_right different]
    refine and_congr_right fun _ => ⟨?_, ?_⟩
    · intro returns nearest others isChain isClass
      have returnsHere := returns _ isChain
      simp only [isClass, Bool.false_eq_true, if_false] at returnsHere
      exact (returns_superclasses_iff lookups).mp (returns_bind_iff.mp returnsHere).1
    · intro endsAbove chain isChain
      cases chain with
      | nil => exact avoids_ok
      | cons nearest others =>
          dsimp only
          split
          · exact avoids_ok
          · rename_i isClass
            exact ((returns_superclasses_iff lookups).mpr
              (endsAbove nearest others isChain (by simpa using isClass))).bind fun _ _ => avoids_ok

/-- The nearest common type of two types is found, or not, if it is for the classes that the types
are made of in the same way. -/
theorem returns_commonSupertype_iff
    {first second : RefType} :
    Returns (hierarchy.commonSupertype first second) ↔
      ∀ firstClass secondClass,
        (first = .object firstClass ∧ second = .object secondClass ∨
          ∃ nesting, first = .objectArray nesting firstClass ∧
            second = .objectArray nesting secondClass) →
        Returns (hierarchy.commonSuperclass firstClass secondClass) := by
  unfold commonSupertype
  split
  · rename_i same
    subst same
    refine ⟨?_, fun _ => avoids_ok⟩
    rintro - firstClass secondClass (⟨rfl, isSecond⟩ | ⟨nesting, rfl, isSecond⟩) <;>
    · cases isSecond
      unfold commonSuperclass
      simp only [if_true]
      exact avoids_ok
  · split
    · rw [returns_map_iff]
      simp
    · split
      · rename_i sameNesting
        subst sameNesting
        rw [returns_map_iff]
        simp
      · rename_i differentNesting
        refine ⟨?_, fun _ => avoids_ok⟩
        rintro - firstClass secondClass (⟨isObject, _⟩ | ⟨nesting, isFirst, isSecond⟩)
        · cases isObject
        · cases isFirst
          cases isSecond
          exact absurd rfl differentNesting
    · rename_i notObjects notArrays
      refine ⟨?_, fun _ => avoids_ok⟩
      rintro - firstClass secondClass (⟨rfl, rfl⟩ | ⟨nesting, rfl, rfl⟩)
      · exact absurd rfl (notObjects _ _ rfl)
      · exact absurd rfl (notArrays _ _ _ _ rfl)

/-! ## Abstract methods -/

theorem circles_mono
    {other : ClassDeclaration → List BinaryName}
    (fewer : ∀ declaration, next declaration ⊆ other declaration)
    {name : BinaryName}
    (circles : hierarchy.Circles next name) :
    hierarchy.Circles other name := by
  have leads : hierarchy.Leads next ≤ hierarchy.Leads other := by
    rintro sub super ⟨declaration, found, isNext⟩
    exact ⟨declaration, found, fewer declaration isNext⟩
  obtain ⟨last, below, aboveItself⟩ := circles
  exact ⟨last, Relation.ReflTransGen.mono leads _ _ below,
    Relation.TransGen.mono leads _ _ aboveItself⟩

theorem superParents_subset_abstractParents
    (declaration : ClassDeclaration) :
    superParents declaration ⊆ abstractParents declaration :=
  fun _ isSuper => List.mem_append_right _ isSuper

theorem returns_isCandidate
    (lookups : ∀ name, Returns (hierarchy.resolve name))
    {target : BinaryName}
    (endsAbove : ¬hierarchy.Circles superParents target)
    (arity : Nat)
    (method : MethodDeclaration) :
    Returns (hierarchy.isCandidate target arity method) := by
  have isRootMethod : Returns (hierarchy.isRootMethod method) := by
    refine (lookups .object).bind fun root _ => ?_
    split <;> exact avoids_ok
  have isImplemented : Returns (hierarchy.isImplemented target method) :=
    ((returns_superclasses_iff lookups).mpr endsAbove).bind fun _ _ => avoids_ok
  unfold isCandidate
  split
  · refine isRootMethod.bind fun inherited _ => ?_
    cases inherited with
    | true => exact avoids_ok
    | false => exact isImplemented.bind fun _ _ => avoids_ok
  · exact avoids_ok

theorem avoids_soleCandidate
    (lookups : ∀ name, Returns (hierarchy.resolve name))
    {target : BinaryName}
    (endsAbove : ¬hierarchy.Circles superParents target)
    (arity : Nat)
    (declaration : ClassDeclaration) :
    Avoids Fault.IsEndless (hierarchy.soleCandidate target arity declaration) := by
  refine Avoids.bind ((avoids_filterM fun method _ =>
    returns_isCandidate lookups endsAbove arity method).mapError
      fun _ => Fault.isEndless_ofBytecode.mp) fun candidates _ => ?_
  split
  · exact avoids_ok
  · exact avoids_ok
  · exact avoids_error id

/-- The search for an abstract method ends if no type that the target inherits from is above
itself. -/
theorem avoids_findAbstract
    (lookups : ∀ name, Returns (hierarchy.resolve name))
    {target : BinaryName}
    (endsAbove : ¬hierarchy.Circles abstractParents target)
    (arity : Nat) :
    Avoids Fault.IsEndless (hierarchy.findAbstract target arity) := by
  have descends : Returns
      (hierarchy.descend (hierarchy.abstractAnswer target arity) abstractParents [target] []) :=
    returns_descend lookups (by simp) (by simpa using endsAbove)
  refine Avoids.bind (descends.mapError fun _ => Fault.isEndless_ofBytecode.mp) fun found isFound => ?_
  cases found with
  | none => exact avoids_ok
  | some result =>
      -- The answer is that of a type that is asked for its methods.
      obtain ⟨_, _, name, declaration, _, _, answers⟩ :=
        exists_answer_of_descend_eq_ok (mapError_eq_ok.mp isFound)
      have sole := avoids_soleCandidate lookups
        (fun circles => endsAbove (circles_mono superParents_subset_abstractParents circles))
        arity declaration
      unfold abstractAnswer at answers
      split at answers
      · cases answers
      · cases answers
        exact avoids_ok
      · rename_i fault isFault
        cases answers
        exact avoids_error (sole fault isFault)

/-! ## All questions -/

/-- Which questions about the classes of a hierarchy have an end. -/
structure Answers (hierarchy : Hierarchy) : Prop where
  /-- The search knows where it was. -/
  search : ∀ {α : Type} (answer : BinaryName → ClassDeclaration → Option α) next toVisit visited,
    ∃ result, hierarchy.roam answer next toVisit visited = .some result ∧ Returns result ∧
      hierarchy.search answer next toVisit visited = result
  findMethod : ∀ owner name type, Returns (hierarchy.findMethod? owner name type)
  findField : ∀ owner name, Returns (hierarchy.findField? owner name)
  isAssignable : ∀ sub super, Returns (hierarchy.isAssignable sub super)
  /-- The climb does not, and has an end exactly below classes that are not above themselves. -/
  climb : ∀ name, (hierarchy.climb name = .none ↔ hierarchy.Circles superParents name) ∧
    ∀ result, hierarchy.climb name = .some result ↔
      hierarchy.superclasses name = result ∧ Returns result
  superclasses : ∀ name,
    Returns (hierarchy.superclasses name) ↔ ¬hierarchy.Circles superParents name
  commonSuperclass : ∀ first second, Returns (hierarchy.commonSuperclass first second) ↔
    first = second ∨ (¬hierarchy.Circles superParents first ∧
      ∀ nearest others, hierarchy.superclasses first = .ok (nearest :: others) →
        nearest.isInterface = false → ¬hierarchy.Circles superParents second)
  commonSupertype : ∀ first second, Returns (hierarchy.commonSupertype first second) ↔
    ∀ firstClass secondClass,
      (first = .object firstClass ∧ second = .object secondClass ∨
        ∃ nesting, first = .objectArray nesting firstClass ∧
          second = .objectArray nesting secondClass) →
      Returns (hierarchy.commonSuperclass firstClass secondClass)
  /-- Nor does the descent. -/
  descend : ∀ {α : Type} (answer : BinaryName → ClassDeclaration → Option α) next toVisit result,
    hierarchy.wander answer next toVisit = .some result ↔
      hierarchy.descend answer next toVisit [] = result ∧ Returns result
  findAbstract : ∀ target arity, ¬hierarchy.Circles abstractParents target →
    Avoids Fault.IsEndless (hierarchy.findAbstract target arity)

/-- Whatever the classes are above each other, members and assignability are decided. Superclasses,
common superclasses and abstract methods are decided where no class that is asked for is above
itself. -/
theorem answers_of_lookups
    (lookups : ∀ name, Returns (hierarchy.resolve name)) :
    hierarchy.Answers where
  search answer next toVisit visited :=
    ⟨_, roam_eq_some_search toVisit visited, returns_search lookups _ _, rfl⟩
  findMethod := returns_findMethod? lookups
  findField := returns_findField? lookups
  isAssignable := returns_isAssignable lookups
  climb name := by
    refine ⟨⟨fun endless => ?_, climb_eq_none_of_circles⟩, fun result => climb_eq_some_iff lookups⟩
    by_contra endsAbove
    have climbed := climb_eq_some_of_chainFrom ((returns_superclasses_iff lookups).mpr endsAbove)
    rw [endless] at climbed
    exact Part.none_ne_some _ climbed
  superclasses _ := returns_superclasses_iff lookups
  commonSuperclass _ _ := returns_commonSuperclass_iff lookups
  commonSupertype _ _ := returns_commonSupertype_iff
  descend _ _ _ _ := wander_eq_some_iff lookups
  findAbstract _ arity endsAbove := avoids_findAbstract lookups endsAbove arity

/-- Every lookup has an end where all class files were read. -/
theorem returns_resolve
    (areRead : ∀ entry ∈ hierarchy.loaded, Returns entry.2)
    (name : BinaryName) :
    Returns (hierarchy.resolve name) := by
  unfold resolve
  split
  · exact avoids_ok
  · unfold resolveLoaded
    split
    · rename_i entry isLoaded
      exact areRead _ (List.mem_of_find?_eq_some isLoaded)
    · split
      · exact avoids_ok
      · exact avoids_error id

end Hierarchy

/-! ## Circles -/

namespace Rings

/-- A class that is its own superclass. -/
def ownSuper : BinaryName := ⟨"t/A", by decide⟩

/-- An interface that is its own superinterface. -/
def ownInterface : BinaryName := ⟨"t/T", by decide⟩

def classAboveItself : ClassDeclaration :=
  { CoreClass.publicClass ownSuper [] [] with super := some ownSuper }

def interfaceAboveItself : ClassDeclaration :=
  CoreClass.interface ownInterface [ownInterface] []

/-- Both of them, and the classes of the platform. -/
def hierarchy : Hierarchy where
  declared := [classAboveItself, interfaceAboveItself]
  loaded := []

theorem lookups (name : BinaryName) : Returns (hierarchy.resolve name) :=
  Hierarchy.returns_resolve (by simp [hierarchy]) name

theorem circles_ownSuper : hierarchy.Circles Hierarchy.superParents ownSuper :=
  ⟨ownSuper, .refl, .single ⟨_, rfl, by decide⟩⟩

end Rings

/-- Questions have an end although classes are above themselves, unless they are asked of such
classes. -/
theorem rings_answers :
    Rings.hierarchy.Answers :=
  Hierarchy.answers_of_lookups Rings.lookups

open Rings in
/-- The superclasses of a class that is above itself, and the abstract method of such an interface,
are looked for without end. Members and assignability are decided. -/
theorem rings_endless :
    hierarchy.climb ownSuper = .none ∧
      hierarchy.wander (hierarchy.abstractAnswer ownInterface 1) Hierarchy.abstractParents
        [ownInterface] = .none ∧
      hierarchy.findAbstract ownInterface 1 = .error (.bytecode (.circularHierarchy "t/T")) ∧
      hierarchy.commonSuperclass ownSuper .object = .error (.circularHierarchy "t/A") ∧
      hierarchy.findMethod? ownSuper CoreClass.apply ⟨[], none⟩ = .ok none ∧
      hierarchy.isAssignable (.object ownSuper) (.object ownInterface) = .ok false := by
  have isClass : hierarchy.resolve ownSuper = .ok classAboveItself := by with_unfolding_all rfl
  have isInterface : hierarchy.resolve ownInterface = .ok interfaceAboveItself := by
    with_unfolding_all rfl
  have isEndless : hierarchy.descend (hierarchy.abstractAnswer ownInterface 1)
      Hierarchy.abstractParents [ownInterface] [] = .error (.circularHierarchy "t/T") := by
    have isAgain : hierarchy.descend (hierarchy.abstractAnswer ownInterface 1)
        Hierarchy.abstractParents [ownInterface, .object] [ownInterface] =
          .error (.circularHierarchy "t/T") :=
      Hierarchy.descend_cons_of_contains (by decide)
    have something : hierarchy.descend (hierarchy.abstractAnswer ownInterface 1)
        Hierarchy.abstractParents [ownInterface, .object] [ownInterface] ≠ .ok none := by
      rw [isAgain]
      exact fun isOk => by cases isOk
    exact (Hierarchy.descend_cons_of_ne rfl isInterface (by with_unfolding_all rfl)
      something).trans isAgain
  refine ⟨Hierarchy.climb_eq_none_of_circles circles_ownSuper, ?_, ?_, by decide +kernel, ?_, ?_⟩
  · rw [Part.eq_none_iff]
    intro result wandered
    obtain ⟨rfl, returns⟩ :=
      (Hierarchy.wander_eq_some_iff lookups).mp (Part.eq_some_iff.mpr wandered)
    exact returns _ isEndless trivial
  · unfold Hierarchy.findAbstract
    rw [isEndless]
    rfl
  · unfold Hierarchy.findMethod?
    rw [Hierarchy.search_cons_of_none rfl isClass (by with_unfolding_all rfl)]
    change hierarchy.search _ _ [ownSuper] [ownSuper] = _
    rw [Hierarchy.search_cons_of_contains (by decide), Hierarchy.search]
  · change hierarchy.isSubclass ownSuper ownInterface = _
    unfold Hierarchy.isSubclass
    rw [if_neg (by decide), isInterface]
    change (hierarchy.search _ (Hierarchy.parentsTowards interfaceAboveItself) [ownSuper] [] >>=
      _) = _
    rw [Hierarchy.search_cons_of_none rfl isClass (by decide)]
    change (hierarchy.search _ _ [ownSuper] [ownSuper] >>= _) = _
    rw [Hierarchy.search_cons_of_contains (by decide), Hierarchy.search]
    rfl

end ClosureConversion
