import ClosureConversion.Proofs.Hierarchy.Joins
import ClosureConversion.Proofs.Site.AbstractMethods

/-!
Contract: the method that a closure implements is one that its target leaves to its subclasses.

Owns:
- which types a type inherits methods from, and which of them give a method a body;
- no superclass of a target has a body for the method that is chosen; whether an interface has
  one is what remains to be asked, and an interface with such a body.

Does not own: in which order types are asked for their abstract methods.
-/

namespace ClosureConversion

namespace MethodDeclaration

/-- Whether the method has a body that instances of other classes can inherit. -/
def isConcrete (method : MethodDeclaration) : Bool :=
  !method.isAbstract && !method.isStatic

end MethodDeclaration

namespace ClassDeclaration

/-- A class has a body for a method, which may be declared elsewhere. -/
def Implements (declaration : ClassDeclaration) (method : AbstractMethod) : Prop :=
  ∃ found, declaration.method? method.name method.type = some found ∧ found.isConcrete = true

/-- A class declares a method, and leaves the body to others. -/
def LeavesOpen (declaration : ClassDeclaration) (method : AbstractMethod) : Prop :=
  ∃ found ∈ declaration.methods, AbstractMethod.ofDeclaration declaration found = method ∧
    found.isAbstract = true ∧ found.isStatic = false

end ClassDeclaration

namespace Hierarchy

/-- Every type is below itself and below what it inherits from. -/
def IsSubtype (hierarchy : Hierarchy) (sub super : BinaryName) : Prop :=
  Relation.ReflTransGen (hierarchy.Leads abstractParents) sub super

/-- A type is strictly below all that it inherits from. -/
def IsStrictSubtype (hierarchy : Hierarchy) (sub super : BinaryName) : Prop :=
  Relation.TransGen (hierarchy.Leads abstractParents) sub super

/-- A type is an interface below the one that declares a method, and has a body for it. -/
def HasDefault (hierarchy : Hierarchy) (name : BinaryName) (method : AbstractMethod) : Prop :=
  hierarchy.IsSubtype name method.owner ∧ ∃ declaration, hierarchy.resolve name = .ok declaration ∧
    declaration.isInterface = true ∧ declaration.Implements method

/-- A method has no body in a target: neither in the target, nor in a superclass of it, nor in a
superinterface of it below the type that declares the method. -/
structure IsUnimplemented (hierarchy : Hierarchy) (target : BinaryName) (method : AbstractMethod) :
    Prop where
  inSuperclasses : ∃ chain, hierarchy.IsChain target chain ∧
    ∀ declaration ∈ chain, ¬declaration.Implements method
  inInterfaces : ∀ name, hierarchy.IsSubtype target name → ¬hierarchy.HasDefault name method

end Hierarchy

/-! ## Candidates -/

section Candidates

variable {hierarchy : Hierarchy}

/-- What a closure may implement is an abstract method without a body in the superclasses of the
target. -/
theorem exists_isChain_of_isCandidate
    {target : BinaryName}
    {arity : Nat}
    (declaration : ClassDeclaration)
    {method : MethodDeclaration}
    (isCandidate : hierarchy.isCandidate target arity method = .ok true) :
    (method.isAbstract = true ∧ method.isStatic = false) ∧
      ∃ chain, hierarchy.IsChain target chain ∧
        ∀ other ∈ chain, ¬other.Implements (.ofDeclaration declaration method) := by
  unfold Hierarchy.isCandidate at isCandidate
  split at isCandidate
  · rename_i fits
    simp only [Bool.and_eq_true, Bool.not_eq_true', decide_eq_true_eq] at fits
    obtain ⟨ofRoot, _, isCandidate⟩ := bind_eq_ok.mp isCandidate
    split at isCandidate
    · cases isCandidate
    · obtain ⟨implemented, isImplemented, equal⟩ := bind_eq_ok.mp isCandidate
      obtain ⟨chain, isChain, searched⟩ := bind_eq_ok.mp isImplemented
      refine ⟨fits.1, chain, Hierarchy.isChain_of_superclasses_eq_ok isChain, ?_⟩
      rintro other member ⟨found, isFound, isConcrete⟩
      have tested : implemented = true := by
        cases searched
        refine List.any_eq_true.mpr ⟨other, member, ?_⟩
        rw [show other.method? method.name method.type = some found from isFound]
        exact (Bool.and_eq_true_iff.mp isConcrete).1
      subst tested
      cases equal
  · cases isCandidate

/-- Neither the target nor a superclass of it has a body for the method that a closure implements,
which a type that the target inherits from leaves open. -/
theorem exists_leavesOpen_of_abstractMethod
    {site : LambdaSite}
    {method : AbstractMethod}
    (found : site.abstractMethod hierarchy = .ok method) :
    (∃ name declaration, hierarchy.IsSubtype site.target name ∧
        hierarchy.resolve name = .ok declaration ∧ declaration.LeavesOpen method) ∧
      ∃ chain, hierarchy.IsChain site.target chain ∧
        ∀ declaration ∈ chain, ¬declaration.Implements method := by
  obtain ⟨arity, _, isFound⟩ := site.exists_findAbstract_of_abstractMethod found
  obtain ⟨name, declaration, leads, resolved, isSole⟩ :=
    exists_soleCandidate_of_findAbstract isFound
  obtain ⟨member, isMember, isCandidate, rfl⟩ := exists_isCandidate_of_soleCandidate isSole
  obtain ⟨⟨isAbstract, isInstance⟩, chain, isChain, none⟩ :=
    exists_isChain_of_isCandidate declaration isCandidate
  exact ⟨⟨name, declaration, leads, resolved, member, isMember, rfl, isAbstract, isInstance⟩,
    chain, isChain, none⟩

/-- **Unimplemented**: the method that a closure implements is left open by a type that the target
inherits from, and the target has no body for it exactly if none of the interfaces strictly above
the target has one. -/
theorem isUnimplemented_iff_of_abstractMethod_eq_ok
    {site : LambdaSite}
    {method : AbstractMethod}
    (found : site.abstractMethod hierarchy = .ok method) :
    (∃ name declaration, hierarchy.IsSubtype site.target name ∧
        hierarchy.resolve name = .ok declaration ∧ declaration.LeavesOpen method) ∧
      (hierarchy.IsUnimplemented site.target method ↔
        ∀ name, hierarchy.IsStrictSubtype site.target name →
          ¬hierarchy.HasDefault name method) := by
  obtain ⟨isOpen, chain, isChain, inSuperclasses⟩ := exists_leavesOpen_of_abstractMethod found
  refine ⟨isOpen,
    fun unimplemented name above => unimplemented.inInterfaces name above.to_reflTransGen,
    fun inStrictlyAbove => ⟨⟨chain, isChain, inSuperclasses⟩, ?_⟩⟩
  intro name above hasDefault
  rcases Relation.reflTransGen_iff_eq_or_transGen.mp above with rfl | strictlyAbove
  · obtain ⟨_, declaration, resolved, _, implements⟩ := hasDefault
    obtain ⟨first, others, isFirst, rfl⟩ := isChain.resolves
    cases resolved.symm.trans isFirst
    exact inSuperclasses declaration List.mem_cons_self implements
  · exact inStrictlyAbove name strictlyAbove hasDefault

/-- Whatever is above a type belongs to every list of names that the type belongs to and that
nothing leads out of. -/
theorem Hierarchy.mem_of_isSubtype
    {names : List BinaryName}
    (closed : ∀ name ∈ names, ∀ declaration, hierarchy.resolve name = .ok declaration →
      ∀ other ∈ abstractParents declaration, other ∈ names)
    {sub super : BinaryName}
    (isSubtype : hierarchy.IsSubtype sub super)
    (member : sub ∈ names) :
    super ∈ names := by
  induction isSubtype with
  | refl => exact member
  | tail _ leads inductionHypothesis =>
      obtain ⟨declaration, resolved, isParent⟩ := leads
      exact closed _ inductionHypothesis declaration resolved _ isParent

end Candidates

namespace InheritedDefaults

/-- An interface that leaves a method open. -/
def base : BinaryName := ⟨"types/Base", by decide⟩

/-- An interface below it, with a default for the method. -/
def defaulted : BinaryName := ⟨"types/Defaulted", by decide⟩

/-- An interface below that one, which leaves the method open again. -/
def reopened : BinaryName := ⟨"types/Reopened", by decide⟩

/-- An interface that leaves another method open. -/
def other : BinaryName := ⟨"types/Other", by decide⟩

/-- An interface below both the one with the default and the one with the other method. -/
def both : BinaryName := ⟨"types/Both", by decide⟩

/-- The method of the first interfaces, as an interface declares it. -/
def applied (owner : BinaryName) : AbstractMethod :=
  ⟨owner, CoreClass.apply, ⟨[.int], some .int⟩, true⟩

/-- The interface with the default. -/
def defaultedInterface : ClassDeclaration :=
  CoreClass.interface defaulted [base] [CoreClass.method CoreClass.apply [.int] (some .int)]

/-- The interface that leaves the method open again. -/
def reopenedInterface : ClassDeclaration :=
  CoreClass.interface reopened [defaulted]
    [CoreClass.abstractMethod CoreClass.apply [.int] (some .int)]

/-- All these interfaces. -/
def hierarchy : Hierarchy where
  declared := [CoreClass.functional base CoreClass.apply [.int] (some .int), defaultedInterface,
    reopenedInterface, CoreClass.functional other CoreClass.test [.int] (some .int),
    CoreClass.interface both [defaulted, other] []]
  loaded := []

theorem isUnqualified_make : IsUnqualified "make".toList := by
  decide

/-- The site of a closure with one parameter. -/
def site (target : BinaryName) : LambdaSite where
  id := 0
  line := none
  factory := ⟨.object ⟨"types/Factories", by decide⟩, ⟨"make", isUnqualified_make⟩,
    ⟨[.int, .int], none⟩, false⟩
  target := target
  parameters := [⟨none, ⟨0, 1⟩, none⟩]
  body := ⟨1, 2⟩
  call := 2
  stop := 3
  parent := none

end InheritedDefaults

open InheritedDefaults in
/-- A method with a default that an interface leaves open again is implemented, as that interface
has it. -/
theorem reopenedMethod_isUnimplemented :
    (site reopened).abstractMethod hierarchy = .ok (applied reopened) ∧
      hierarchy.HasDefault defaulted (applied base) ∧
      hierarchy.IsUnimplemented reopened (applied reopened) := by
  have resolved : hierarchy.resolve reopened = .ok reopenedInterface := by decide +kernel
  have isSole : hierarchy.soleCandidate reopened 1 reopenedInterface =
      .ok (some (applied reopened)) := by
    decide +kernel
  have found : (site reopened).abstractMethod hierarchy = .ok (applied reopened) :=
    LambdaSite.abstractMethod_eq_ok resolved isSole
  have isDefaulted : hierarchy.resolve defaulted = .ok defaultedInterface := by decide +kernel
  refine ⟨found, ⟨.single ⟨_, isDefaulted, by decide⟩, _, isDefaulted, by decide,
    _, rfl, by decide⟩, (isUnimplemented_iff_of_abstractMethod_eq_ok found).2.mpr ?_⟩
  -- No interface above the target leads back to it.
  have closed : ∀ name ∈ [defaulted, base, .object], ∀ declaration,
      hierarchy.resolve name = .ok declaration →
        ∀ parent ∈ Hierarchy.abstractParents declaration, parent ∈ [defaulted, base, .object] := by
    intro name member declaration isResolved
    have tried : ∀ name ∈ [defaulted, base, .object],
        (hierarchy.resolve name).toOption.all (fun declaration =>
          (Hierarchy.abstractParents declaration).all
            fun parent => [defaulted, base, .object].contains parent) = true := by
      decide +kernel
    have each := tried name member
    rw [isResolved] at each
    intro parent isParent
    simpa using List.all_eq_true.mp each parent isParent
  rintro name above ⟨isBelow, _⟩
  obtain ⟨parent, ⟨declaration, isResolved, isParent⟩, others⟩ :=
    Relation.TransGen.head'_iff.mp above
  cases resolved.symm.trans isResolved
  have isFirst : parent ∈ [defaulted, base, .object] := by
    revert isParent
    exact (by decide : ∀ parent ∈ Hierarchy.abstractParents reopenedInterface,
      parent ∈ [defaulted, base, .object]) parent
  have isLast : reopened ∈ [defaulted, base, .object] :=
    Hierarchy.mem_of_isSubtype closed (others.trans isBelow) isFirst
  exact absurd isLast (by decide)

open InheritedDefaults in
/-- A default in an interface above the target is passed over: the method is chosen although it
has a body, before another one that has none. -/
theorem defaultedMethod_isChosen :
    (site both).abstractMethod hierarchy = .ok (applied base) ∧
      hierarchy.isImplemented defaulted (CoreClass.abstractMethod CoreClass.apply [.int] (some .int)) =
        .ok true ∧
      ¬hierarchy.IsUnimplemented both (applied base) := by
  have isBoth : hierarchy.resolve both = .ok (CoreClass.interface both [defaulted, other] []) := by
    decide +kernel
  have isDefaulted : hierarchy.resolve defaulted = .ok defaultedInterface := by decide +kernel
  have isBase : hierarchy.resolve base =
      .ok (CoreClass.functional base CoreClass.apply [.int] (some .int)) := by
    decide +kernel
  have noneInBoth :
      hierarchy.soleCandidate both 1 (CoreClass.interface both [defaulted, other] []) =
        .ok none := by
    decide +kernel
  have noneInDefaulted : hierarchy.soleCandidate both 1 defaultedInterface = .ok none := by
    decide +kernel
  have isSole : hierarchy.soleCandidate both 1
      (CoreClass.functional base CoreClass.apply [.int] (some .int)) =
        .ok (some (applied base)) := by
    decide +kernel
  have inBase : hierarchy.descend (hierarchy.abstractAnswer both 1)
      Hierarchy.abstractParents [base, .object] [defaulted, both] =
        .ok (some (.ok (applied base))) :=
    Hierarchy.descend_cons_of_some (by decide) isBase (abstractAnswer_eq_some_ok.mpr isSole)
  have inDefaulted : hierarchy.descend (hierarchy.abstractAnswer both 1)
      Hierarchy.abstractParents [defaulted, other, .object] [both] =
        .ok (some (.ok (applied base))) :=
    Hierarchy.descend_cons_of_eq_some (by decide) isDefaulted
      (abstractAnswer_eq_none noneInDefaulted) inBase
  have found : hierarchy.findAbstract both 1 = .ok (some (applied base)) := by
    unfold Hierarchy.findAbstract
    rw [Hierarchy.descend_cons_of_eq_some rfl isBoth (abstractAnswer_eq_none noneInBoth)
      inDefaulted]
    rfl
  refine ⟨?_, by decide +kernel, fun unimplemented => ?_⟩
  · unfold LambdaSite.abstractMethod
    change (abstractMethodAmong hierarchy both [1] >>= _) = _
    rw [abstractMethodAmong, found]
    rfl
  · refine unimplemented.inInterfaces defaulted (.single ⟨_, isBoth, by decide⟩)
      ⟨.single ⟨_, isDefaulted, by decide⟩, _, isDefaulted, by decide, _, rfl, by decide⟩

end ClosureConversion
