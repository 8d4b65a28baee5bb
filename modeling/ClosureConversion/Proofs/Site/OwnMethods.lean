import ClosureConversion.Proofs.Site.Unimplemented

/-!
Contract: abstract methods that a target declares itself.

Owns:
- the methods of a type that it leaves open, those of the root class apart;
- the only one of them that takes all parameters of a site is what the closure implements, exactly
  if no class from the target on has a body for a method of its name and type;
- a class that leaves a method of its superclass open again, which is passed over.

Does not own: methods that a target inherits.
-/

namespace ClosureConversion

namespace ClassDeclaration

/-- Whether the class has a public method of the same name and type. -/
def hasPublic (declaration : ClassDeclaration) (method : MethodDeclaration) : Bool :=
  (declaration.method? method.name method.type).any fun found =>
    found.flags.contains MethodFlags.accPublic

/-- Whether the class declares a method of the same name and type that has a body. -/
def hasBody (declaration : ClassDeclaration) (method : MethodDeclaration) : Bool :=
  (declaration.method? method.name method.type).any fun found => !found.isAbstract

/-- The abstract methods with so many parameters that a type declares itself, but for those that
the root class has in public. -/
def openMethods (declaration root : ClassDeclaration) (arity : Nat) : List MethodDeclaration :=
  declaration.methods.filter fun method =>
    method.isAbstract && !method.isStatic && method.type.parameters.length = arity &&
      !root.hasPublic method

end ClassDeclaration

section Own

variable {hierarchy : Hierarchy} {target : BinaryName} {arity : Nat}
  {root declaration : ClassDeclaration} {chain : List ClassDeclaration} {method : MethodDeclaration}

theorem Hierarchy.isImplemented_eq_ok
    (isChain : hierarchy.superclasses target = .ok chain) :
    hierarchy.isImplemented target method = .ok (chain.any fun other => other.hasBody method) := by
  unfold isImplemented
  rw [isChain]
  refine congrArg Except.ok (congrArg chain.any (funext fun other => ?_))
  unfold ClassDeclaration.hasBody
  cases other.method? method.name method.type <;> rfl

/-- Where all that is asked for is found, it is decided of every method whether it is a
candidate. -/
theorem Hierarchy.isCandidate_eq_ok
    (isRoot : hierarchy.resolve .object = .ok root)
    (isChain : hierarchy.superclasses target = .ok chain) :
    hierarchy.isCandidate target arity method =
      .ok ((method.isAbstract && !method.isStatic && method.type.parameters.length = arity &&
        !root.hasPublic method) && !chain.any fun other => other.hasBody method) := by
  have ofRoot : hierarchy.isRootMethod method = .ok (root.hasPublic method) := by
    refine bind_eq_ok.mpr ⟨root, isRoot, ?_⟩
    unfold ClassDeclaration.hasPublic
    cases root.method? method.name method.type <;> rfl
  unfold isCandidate
  rw [ofRoot, isImplemented_eq_ok isChain]
  split
  · rename_i fits
    rw [fits, Bool.true_and]
    cases root.hasPublic method <;> rfl
  · rename_i unfit
    rw [Bool.eq_false_iff.mpr unfit]
    rfl

/-- The candidates among the methods of a type are those left open without a body in the chain. -/
theorem Hierarchy.filterM_isCandidate_eq_ok
    (isRoot : hierarchy.resolve .object = .ok root)
    (isChain : hierarchy.superclasses target = .ok chain) :
    declaration.methods.filterM (hierarchy.isCandidate target arity) =
      .ok ((declaration.openMethods root arity).filter fun method =>
        !chain.any fun other => other.hasBody method) := by
  rw [ClassDeclaration.openMethods, List.filter_filter]
  refine filterM_eq_ok_of_forall fun method _ => ?_
  rw [isCandidate_eq_ok isRoot isChain, Bool.and_comm]

/-- No class has a body for the method that a closure implements. -/
theorem LambdaSite.hasBody_eq_false_of_abstractMethod
    {site : LambdaSite}
    (isRoot : hierarchy.resolve .object = .ok root)
    (isChain : hierarchy.superclasses site.target = .ok chain)
    (found : site.abstractMethod hierarchy = .ok (.ofDeclaration declaration method)) :
    ∀ other ∈ chain, other.hasBody method = false := by
  obtain ⟨arity, _, isFound⟩ := site.exists_findAbstract_of_abstractMethod found
  obtain ⟨_, owner, _, _, isSole⟩ := exists_soleCandidate_of_findAbstract isFound
  obtain ⟨chosen, _, isCandidate, isChosen⟩ := exists_isCandidate_of_soleCandidate isSole
  have sameName : method.name = chosen.name := congrArg AbstractMethod.name isChosen
  have sameType : method.type = chosen.type := congrArg AbstractMethod.type isChosen
  rw [Hierarchy.isCandidate_eq_ok isRoot isChain] at isCandidate
  have noBody := (Bool.and_eq_true_iff.mp (Except.ok.inj isCandidate)).2
  rw [Bool.not_eq_true', List.any_eq_false] at noBody
  intro other member
  have notHere := noBody other member
  unfold ClassDeclaration.hasBody at notHere ⊢
  rw [sameName, sameType]
  exact Bool.eq_false_iff.mpr notHere

/-- **Own methods**: if a target leaves a single method open that takes all parameters of a site,
the closure implements that method exactly if neither the target nor a superclass of it has a body
for a method of its name and type. It does not matter how near the superclass is. -/
theorem LambdaSite.abstractMethod_eq_ok_iff_of_openMethods
    {site : LambdaSite}
    (isRoot : hierarchy.resolve .object = .ok root)
    (isTarget : hierarchy.resolve site.target = .ok declaration)
    (isChain : hierarchy.superclasses site.target = .ok chain)
    (isOnly : declaration.openMethods root site.parameters.length = [method]) :
    site.abstractMethod hierarchy = .ok (.ofDeclaration declaration method) ↔
      ∀ other ∈ chain, other.hasBody method = false := by
  refine ⟨hasBody_eq_false_of_abstractMethod isRoot isChain, fun noBody => ?_⟩
  have noneHasBody : (chain.any fun other => other.hasBody method) = false :=
    List.any_eq_false.mpr fun other member => Bool.eq_false_iff.mp (noBody other member)
  refine abstractMethod_eq_ok isTarget ?_
  unfold Hierarchy.soleCandidate
  rw [Hierarchy.filterM_isCandidate_eq_ok isRoot isChain, isOnly, List.filter_cons_of_pos
    (by rw [noneHasBody]; rfl)]
  rfl

end Own

namespace Reopening

open InheritedDefaults (site)

/-- The only method of the classes. -/
def applied : MethodDeclaration :=
  CoreClass.abstractMethod CoreClass.apply [.int] (some .int)

/-- A class with a body for the method. -/
def base : BinaryName := ⟨"types/Parent", by decide⟩

/-- A class below it, which leaves the method open again. -/
def reopened : BinaryName := ⟨"types/Reopening", by decide⟩

/-- A class below the root class alone that leaves the method open. -/
def fresh : BinaryName := ⟨"types/Fresh", by decide⟩

/-- An abstract class with the method. -/
def openClass (name super : BinaryName) : ClassDeclaration :=
  { CoreClass.class_ 0x0421 name [] [applied] with super := some super }

/-- The class with a body for the method. -/
def baseClass : ClassDeclaration :=
  CoreClass.publicClass base [] [CoreClass.method CoreClass.apply [.int] (some .int)]

/-- The class that every class is below. -/
def rootClass : ClassDeclaration :=
  (CoreClass.all.find? fun declaration => declaration.name = .object).getD baseClass

/-- All these classes. -/
def hierarchy : Hierarchy where
  declared := [baseClass, openClass reopened base, openClass fresh .object]
  loaded := []

theorem resolve_object : hierarchy.resolve .object = .ok rootClass := by
  with_unfolding_all rfl

end Reopening

open Reopening in
open InheritedDefaults (site) in
/-- A class below the root class alone that leaves a method open is a target for it. -/
theorem freshMethod_isFound :
    hierarchy.resolve .object = .ok rootClass ∧
      (openClass fresh .object).openMethods rootClass 1 = [applied] ∧
      (site fresh).abstractMethod hierarchy =
        .ok (.ofDeclaration (openClass fresh .object) applied) := by
  have isTarget : hierarchy.resolve fresh = .ok (openClass fresh .object) := by
    with_unfolding_all rfl
  have isChain : hierarchy.superclasses fresh =
      .ok [openClass fresh .object, rootClass] := by
    with_unfolding_all rfl
  have isOnly : (openClass fresh .object).openMethods rootClass 1 = [applied] := by
    with_unfolding_all rfl
  exact ⟨resolve_object, isOnly,
    (LambdaSite.abstractMethod_eq_ok_iff_of_openMethods resolve_object isTarget isChain
      isOnly).mpr (by decide)⟩

open Reopening in
open InheritedDefaults (site) in
/-- A class that leaves a method of its superclass open again is no target for it, although it
declares no other method. -/
theorem reopenedMethod_isPassedOver :
    hierarchy.WellFormed ∧ hierarchy.resolve .object = .ok rootClass ∧
      hierarchy.superclasses reopened =
        .ok [openClass reopened base, baseClass, rootClass] ∧
      (openClass reopened base).openMethods rootClass 1 = [applied] ∧
      (site reopened).abstractMethod hierarchy =
        .error (.unresolvedTarget reopened (.noCandidate 1 1)) := by
  have isReopened : hierarchy.resolve reopened = .ok (openClass reopened base) := by
    with_unfolding_all rfl
  have isBase : hierarchy.resolve base = .ok baseClass := by with_unfolding_all rfl
  have noneInReopened :
      hierarchy.soleCandidate reopened 1 (openClass reopened base) = .ok none := by
    with_unfolding_all rfl
  have noneInBase : hierarchy.soleCandidate reopened 1 baseClass = .ok none := by
    with_unfolding_all rfl
  have noneInRoot : hierarchy.soleCandidate reopened 1 rootClass = .ok none := by
    with_unfolding_all rfl
  have notInRoot : hierarchy.descend (hierarchy.abstractAnswer reopened 1)
      Hierarchy.abstractParents [.object] [base, reopened] = .ok none := by
    rw [Hierarchy.descend_cons_of_none (by decide) resolve_object
      (abstractAnswer_eq_none noneInRoot), Hierarchy.descend]
    rw [show Hierarchy.abstractParents rootClass = [] by with_unfolding_all rfl,
      Hierarchy.descend]
  have notInBase : hierarchy.descend (hierarchy.abstractAnswer reopened 1)
      Hierarchy.abstractParents [base] [reopened] = .ok none := by
    rw [Hierarchy.descend_cons_of_none (by decide) isBase (abstractAnswer_eq_none noneInBase)
      notInRoot, Hierarchy.descend]
  have notFound : hierarchy.findAbstract reopened 1 = .ok none := by
    unfold Hierarchy.findAbstract
    rw [Hierarchy.descend_cons_of_none rfl isReopened (abstractAnswer_eq_none noneInReopened)
      notInBase, Hierarchy.descend]
    rfl
  refine ⟨Hierarchy.wellFormed_of_isWellFormed (by with_unfolding_all rfl), resolve_object,
    by with_unfolding_all rfl, by with_unfolding_all rfl, ?_⟩
  unfold LambdaSite.abstractMethod
  change (abstractMethodAmong hierarchy reopened [1] >>= _) = _
  rw [abstractMethodAmong, notFound]
  rfl

end ClosureConversion
