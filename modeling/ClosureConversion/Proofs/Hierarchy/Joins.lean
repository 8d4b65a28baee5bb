import Mathlib.Logic.Relation
import ClosureConversion.Hierarchy.Subtyping
import ClosureConversion.Proofs.Computation

/-!
Contract: the nearest common supertype of two types is above both, and it is the greater
one of them if one is above the other.

Owns:
- hierarchies in which superclasses behave as the platform promises;
- the order of classes and of reference types by superclasses;
- the chains of superclasses as a relation, without the search that computes them.

Does not own: interfaces, which are only below the root class here.
-/

namespace ClosureConversion

namespace Hierarchy

/-- A class is known if all its superclasses are found, and they do not run in a circle. -/
def Knows (hierarchy : Hierarchy) (name : BinaryName) : Prop :=
  ∃ chain, hierarchy.superclasses name = .ok chain

/-- Superclasses as the platform promises them: a class is found under its own name, the
superclasses of every class are found and do not run in a circle, none of them is an
interface, and the root class has none. -/
structure WellFormed (hierarchy : Hierarchy) : Prop where
  named : ∀ {name declaration}, hierarchy.resolve name = .ok declaration →
    declaration.name = name
  acyclic : ∀ {name declaration}, hierarchy.resolve name = .ok declaration →
    hierarchy.Knows name
  concrete : ∀ {name declaration super target}, hierarchy.resolve name = .ok declaration →
    declaration.super = some super → hierarchy.resolve super = .ok target →
    target.isInterface = false
  rooted : ∃ declaration, hierarchy.resolve .object = .ok declaration ∧ declaration.super = none

/-- Whether the superclasses of a class are found, and do not run in a circle. -/
def isKnown (hierarchy : Hierarchy) (name : BinaryName) : Bool :=
  (hierarchy.superclasses name).isOk

/-- Whether a class that is found under a name is as the platform promises. -/
def isWellDeclared (hierarchy : Hierarchy) (name : BinaryName)
    (declaration : ClassDeclaration) : Bool :=
  declaration.name = name && hierarchy.isKnown name &&
    match declaration.super with
    | none => true
    | some super =>
        match hierarchy.resolve super with
        | .ok target => !target.isInterface
        | .error _ => true

/-- Whether superclasses are as the platform promises, tried on all classes that may be
found. -/
def isWellFormed (hierarchy : Hierarchy) : Bool :=
  (hierarchy.names.all fun name =>
    match hierarchy.resolve name with
    | .ok declaration => hierarchy.isWellDeclared name declaration
    | .error _ => true) &&
  match hierarchy.resolve .object with
  | .ok declaration => declaration.super.isNone
  | .error _ => false

/-- A class, which is no interface, has the other class as its superclass. -/
def Extends (hierarchy : Hierarchy) (sub super : BinaryName) : Prop :=
  ∃ declaration, hierarchy.resolve sub = .ok declaration ∧ declaration.isInterface = false ∧
    declaration.super = some super

/-- Every class is below the root class, and below its superclasses. -/
def IsBelow (hierarchy : Hierarchy) (sub super : BinaryName) : Prop :=
  super = .object ∨ Relation.ReflTransGen hierarchy.Extends sub super

/-- The declarations of a class and of its superclasses, nearest first. -/
inductive IsChain (hierarchy : Hierarchy) : BinaryName → List ClassDeclaration → Prop where
  | root {name : BinaryName} {declaration : ClassDeclaration} :
      hierarchy.resolve name = .ok declaration → declaration.super = none →
      IsChain hierarchy name [declaration]
  | above {name super : BinaryName} {declaration : ClassDeclaration}
      {chain : List ClassDeclaration} :
      hierarchy.resolve name = .ok declaration → declaration.super = some super →
      IsChain hierarchy super chain → IsChain hierarchy name (declaration :: chain)

variable {hierarchy : Hierarchy}

/-! ## Testing -/

theorem knows_iff_isKnown
    {name : BinaryName} :
    hierarchy.Knows name ↔ hierarchy.isKnown name = true := by
  unfold Knows isKnown
  cases hierarchy.superclasses name with
  | error failure => simp [Except.toBool]
  | ok chain => simp [Except.toBool]

instance (name : BinaryName) : Decidable (hierarchy.Knows name) :=
  decidable_of_iff _ knows_iff_isKnown.symm

/-- Superclasses that are tried on all classes are as the platform promises. -/
theorem wellFormed_of_isWellFormed
    (tried : hierarchy.isWellFormed = true) :
    hierarchy.WellFormed := by
  unfold isWellFormed at tried
  obtain ⟨wellDeclared, rooted⟩ := Bool.and_eq_true_iff.mp tried
  have declared : ∀ {name declaration}, hierarchy.resolve name = .ok declaration →
      hierarchy.isWellDeclared name declaration = true := by
    intro name declaration resolved
    have isTried := List.all_eq_true.mp wellDeclared name (mem_names_of_resolve resolved)
    rw [resolved] at isTried
    exact isTried
  constructor
  · intro name declaration resolved
    have isDeclared := declared resolved
    simp only [isWellDeclared, Bool.and_eq_true, decide_eq_true_eq] at isDeclared
    exact isDeclared.1.1
  · intro name declaration resolved
    have isDeclared := declared resolved
    simp only [isWellDeclared, Bool.and_eq_true, decide_eq_true_eq] at isDeclared
    exact knows_iff_isKnown.mpr isDeclared.1.2
  · intro name declaration super target resolved hasSuper superResolved
    have isDeclared := declared resolved
    simp only [isWellDeclared, Bool.and_eq_true, hasSuper, superResolved] at isDeclared
    simpa using isDeclared.2
  · split at rooted
    · rename_i root resolved
      exact ⟨root, resolved, Option.isNone_iff_eq_none.mp rooted⟩
    · cases rooted

/-- The superclasses of the classes of the platform are as it promises. -/
theorem core_wellFormed : core.WellFormed :=
  wellFormed_of_isWellFormed (by decide +kernel)

/-! ## Chains -/

/-- What the search for superclasses finds. -/
theorem isChain_of_chainFrom_eq_ok
    {name : BinaryName}
    {visited : List BinaryName}
    {chain : List ClassDeclaration}
    (found : hierarchy.chainFrom name visited = .ok chain) :
    hierarchy.IsChain name chain := by
  fun_induction chainFrom hierarchy name visited generalizing chain with
  | case1 => cases found
  | case2 => cases found
  | case3 name visited fresh declaration resolved isRoot =>
      cases found
      exact .root resolved isRoot
  | case4 name visited fresh declaration resolved super hasSuper others foundOthers
      inductionHypothesis =>
      cases found
      exact .above resolved hasSuper (inductionHypothesis foundOthers)
  | case5 => cases found

theorem isChain_of_superclasses_eq_ok
    {name : BinaryName}
    {chain : List ClassDeclaration}
    (found : hierarchy.superclasses name = .ok chain) :
    hierarchy.IsChain name chain :=
  isChain_of_chainFrom_eq_ok found

namespace IsChain

/-- A class has only one chain of superclasses. -/
theorem unique
    {name : BinaryName}
    {first second : List ClassDeclaration}
    (isFirst : hierarchy.IsChain name first)
    (isSecond : hierarchy.IsChain name second) :
    first = second := by
  induction isFirst generalizing second with
  | @root name declaration resolved isRoot =>
      cases isSecond with
      | root otherResolved _ =>
          cases resolved.symm.trans otherResolved
          rfl
      | above otherResolved hasSuper _ =>
          cases resolved.symm.trans otherResolved
          rw [isRoot] at hasSuper
          cases hasSuper
  | @above name super declaration chain resolved hasSuper _ inductionHypothesis =>
      cases isSecond with
      | root otherResolved isRoot =>
          cases resolved.symm.trans otherResolved
          rw [isRoot] at hasSuper
          cases hasSuper
      | above otherResolved otherSuper otherChain =>
          cases resolved.symm.trans otherResolved
          cases hasSuper.symm.trans otherSuper
          rw [inductionHypothesis otherChain]

theorem resolves
    {name : BinaryName}
    {chain : List ClassDeclaration}
    (isChain : hierarchy.IsChain name chain) :
    ∃ declaration others, hierarchy.resolve name = .ok declaration ∧
      chain = declaration :: others := by
  cases isChain with
  | root resolved _ => exact ⟨_, _, resolved, rfl⟩
  | above resolved _ _ => exact ⟨_, _, resolved, rfl⟩

/-- The rest of a chain from a class on is the chain of that class. -/
theorem suffix_of_mem
    (wellFormed : hierarchy.WellFormed)
    {name : BinaryName}
    {chain : List ClassDeclaration}
    (isChain : hierarchy.IsChain name chain)
    {declaration : ClassDeclaration}
    (member : declaration ∈ chain) :
    ∃ suffix, hierarchy.IsChain declaration.name suffix ∧ suffix.length ≤ chain.length := by
  induction isChain with
  | @root name root resolved isRoot =>
      obtain rfl := List.mem_singleton.mp member
      rw [wellFormed.named resolved]
      exact ⟨_, .root resolved isRoot, Nat.le_refl _⟩
  | @above name super nearest chain resolved hasSuper isChain inductionHypothesis =>
      rcases List.mem_cons.mp member with rfl | isAbove
      · rw [wellFormed.named resolved]
        exact ⟨_, .above resolved hasSuper isChain, Nat.le_refl _⟩
      · obtain ⟨suffix, isSuffix, shorter⟩ := inductionHypothesis isAbove
        exact ⟨suffix, isSuffix, Nat.le_succ_of_le shorter⟩

/-- The class of a chain that begins with no interface is below all classes of it. -/
theorem isBelow_of_mem
    (wellFormed : hierarchy.WellFormed)
    {name : BinaryName}
    {chain : List ClassDeclaration}
    (isChain : hierarchy.IsChain name chain)
    (noInterface : ∀ declaration, hierarchy.resolve name = .ok declaration →
      declaration.isInterface = false)
    {declaration : ClassDeclaration}
    (member : declaration ∈ chain) :
    Relation.ReflTransGen hierarchy.Extends name declaration.name := by
  induction isChain with
  | @root name root resolved isRoot =>
      obtain rfl := List.mem_singleton.mp member
      rw [wellFormed.named resolved]
  | @above name super nearest chain resolved hasSuper isChain inductionHypothesis =>
      rcases List.mem_cons.mp member with rfl | isAbove
      · rw [wellFormed.named resolved]
      · have superNoInterface : ∀ target, hierarchy.resolve super = .ok target →
            target.isInterface = false := fun target => wellFormed.concrete resolved hasSuper
        exact .head ⟨nearest, resolved, noInterface nearest resolved, hasSuper⟩
          (inductionHypothesis superNoInterface isAbove)

/-- A superclass of a class with a chain has a chain. -/
theorem of_isBelow
    {sub super : BinaryName}
    {subChain : List ClassDeclaration}
    (below : Relation.ReflTransGen hierarchy.Extends sub super)
    (isSubChain : hierarchy.IsChain sub subChain) :
    ∃ superChain, hierarchy.IsChain super superChain := by
  induction below using Relation.ReflTransGen.head_induction_on generalizing subChain with
  | refl => exact ⟨subChain, isSubChain⟩
  | @head name next isNext _ inductionHypothesis =>
      obtain ⟨declaration, resolved, _, hasSuper⟩ := isNext
      cases isSubChain with
      | root otherResolved isRoot =>
          cases resolved.symm.trans otherResolved
          rw [hasSuper] at isRoot
          cases isRoot
      | above otherResolved otherSuper isChain =>
          cases resolved.symm.trans otherResolved
          cases hasSuper.symm.trans otherSuper
          exact inductionHypothesis isChain

/-- The chain of a superclass is no longer. -/
theorem length_le_of_isBelow
    {sub super : BinaryName}
    {subChain superChain : List ClassDeclaration}
    (below : Relation.ReflTransGen hierarchy.Extends sub super)
    (isSubChain : hierarchy.IsChain sub subChain)
    (isSuperChain : hierarchy.IsChain super superChain) :
    superChain.length ≤ subChain.length := by
  induction below using Relation.ReflTransGen.head_induction_on generalizing subChain with
  | refl => exact Nat.le_of_eq (congrArg List.length (isSuperChain.unique isSubChain))
  | @head name next isNext _ inductionHypothesis =>
      obtain ⟨declaration, resolved, _, hasSuper⟩ := isNext
      cases isSubChain with
      | root otherResolved isRoot =>
          cases resolved.symm.trans otherResolved
          rw [hasSuper] at isRoot
          cases isRoot
      | above otherResolved otherSuper isChain =>
          cases resolved.symm.trans otherResolved
          cases hasSuper.symm.trans otherSuper
          exact Nat.le_succ_of_le (inductionHypothesis isChain)

end IsChain

/-! ## Order -/

namespace IsBelow

theorem refl
    (name : BinaryName) :
    hierarchy.IsBelow name name :=
  .inr .refl

/-- Nothing but the root class is above the root class. -/
theorem eq_object
    (wellFormed : hierarchy.WellFormed)
    {super : BinaryName}
    (below : hierarchy.IsBelow .object super) :
    super = .object := by
  rcases below with isRoot | steps
  · exact isRoot
  · obtain ⟨root, resolved, isRoot⟩ := wellFormed.rooted
    cases steps using Relation.ReflTransGen.head_induction_on with
    | refl => rfl
    | head isNext _ _ =>
        obtain ⟨declaration, otherResolved, _, hasSuper⟩ := isNext
        cases resolved.symm.trans otherResolved
        rw [isRoot] at hasSuper
        cases hasSuper

theorem trans
    (wellFormed : hierarchy.WellFormed)
    {first second third : BinaryName}
    (firstBelow : hierarchy.IsBelow first second)
    (secondBelow : hierarchy.IsBelow second third) :
    hierarchy.IsBelow first third := by
  rcases firstBelow with rfl | firstSteps
  · exact .inl (secondBelow.eq_object wellFormed)
  · rcases secondBelow with isRoot | secondSteps
    · exact .inl isRoot
    · exact .inr (firstSteps.trans secondSteps)

end IsBelow

/-- A class is below the class that it shares with another chain. -/
theorem IsChain.isBelow_firstShared
    (wellFormed : hierarchy.WellFormed)
    {name : BinaryName}
    {chain : List ClassDeclaration}
    (others : List ClassDeclaration)
    (isChain : hierarchy.IsChain name chain) :
    firstShared others chain = .object ∨
      (Relation.ReflTransGen hierarchy.Extends name (firstShared others chain) ∧
        ∃ declaration ∈ others, declaration.name = firstShared others chain) := by
  induction isChain with
  | @root name root resolved isRoot =>
      unfold firstShared
      split
      · exact .inl rfl
      · split
        · rename_i isShared
          rw [wellFormed.named resolved] at isShared ⊢
          obtain ⟨declaration, member, sameName⟩ := List.any_eq_true.mp isShared
          exact .inr ⟨.refl, declaration, member, of_decide_eq_true sameName⟩
        · exact .inl rfl
  | @above name super nearest chain resolved hasSuper isChain inductionHypothesis =>
      unfold firstShared
      split
      · exact .inl rfl
      · rename_i noInterface
        split
        · rename_i isShared
          rw [wellFormed.named resolved] at isShared ⊢
          obtain ⟨declaration, member, sameName⟩ := List.any_eq_true.mp isShared
          exact .inr ⟨.refl, declaration, member, of_decide_eq_true sameName⟩
        · have extends_super : hierarchy.Extends name super :=
            ⟨nearest, resolved, by simpa using noInterface, hasSuper⟩
          rcases inductionHypothesis with isRoot | ⟨below, shared⟩
          · exact .inl isRoot
          · exact .inr ⟨.head extends_super below, shared⟩

/-- The nearest class of a chain that is shared with the chain of a superclass is that
superclass. -/
theorem IsChain.firstShared_eq_of_isBelow
    (wellFormed : hierarchy.WellFormed)
    {sub super : BinaryName}
    {subChain superChain : List ClassDeclaration}
    (below : Relation.ReflTransGen hierarchy.Extends sub super)
    (isSubChain : hierarchy.IsChain sub subChain)
    (isSuperChain : hierarchy.IsChain super superChain)
    (noInterface : ∀ declaration, hierarchy.resolve super = .ok declaration →
      declaration.isInterface = false) :
    firstShared superChain subChain = super := by
  induction below using Relation.ReflTransGen.head_induction_on generalizing subChain with
  | refl =>
      obtain rfl := isSubChain.unique isSuperChain
      obtain ⟨declaration, others, resolved, rfl⟩ := isSubChain.resolves
      unfold firstShared
      simp [noInterface declaration resolved, wellFormed.named resolved]
  | @head name next isNext below inductionHypothesis =>
      obtain ⟨declaration, resolved, isClass, hasSuper⟩ := isNext
      cases isSubChain with
      | root otherResolved isRoot =>
          cases resolved.symm.trans otherResolved
          rw [hasSuper] at isRoot
          cases isRoot
      | @above _ _ _ chain otherResolved otherSuper isChain =>
          cases resolved.symm.trans otherResolved
          cases hasSuper.symm.trans otherSuper
          -- The class itself is not in the chain of its superclass, which is shorter.
          have notShared : ∀ other ∈ superChain, other.name ≠ declaration.name := by
            intro other member sameName
            obtain ⟨suffix, isSuffix, shorter⟩ := isSuperChain.suffix_of_mem wellFormed member
            rw [sameName, wellFormed.named resolved] at isSuffix
            obtain rfl := isSuffix.unique (.above resolved hasSuper isChain)
            have noLonger := IsChain.length_le_of_isBelow below isChain isSuperChain
            simp only [List.length_cons] at shorter
            omega
          have notAny : (superChain.any fun other => other.name = declaration.name) = false := by
            simpa using notShared
          unfold firstShared
          rw [isClass, notAny]
          exact inductionHypothesis isChain

/-- Both classes are below the nearest class that they have in common. -/
theorem isBelow_commonSuperclass
    (wellFormed : hierarchy.WellFormed)
    {first second shared : BinaryName}
    (computed : hierarchy.commonSuperclass first second = .ok shared) :
    hierarchy.IsBelow first shared ∧ hierarchy.IsBelow second shared := by
  unfold commonSuperclass at computed
  split at computed
  · rename_i same
    cases computed
    exact ⟨.refl _, same ▸ .refl _⟩
  · obtain ⟨firstChain, foundFirst, computed⟩ := bind_eq_ok.mp computed
    have isFirst := isChain_of_superclasses_eq_ok foundFirst
    obtain ⟨nearest, others, resolved, rfl⟩ := isFirst.resolves
    dsimp only at computed
    split at computed
    · cases computed
      exact ⟨.inl rfl, .inl rfl⟩
    · rename_i noInterface
      obtain ⟨secondChain, foundSecond, computed⟩ := bind_eq_ok.mp computed
      cases computed
      rcases (isChain_of_superclasses_eq_ok foundSecond).isBelow_firstShared wellFormed _ with
        isRoot | ⟨below, declaration, member, sameName⟩
      · exact ⟨.inl isRoot, .inl isRoot⟩
      · refine ⟨.inr ?_, .inr below⟩
        rw [← sameName]
        refine isFirst.isBelow_of_mem wellFormed ?_ member
        intro other otherResolved
        cases resolved.symm.trans otherResolved
        simpa using noInterface

/-- A class and one above it have the latter in common. -/
theorem commonSuperclass_eq_of_isBelow
    (wellFormed : hierarchy.WellFormed)
    {sub super : BinaryName}
    (known : hierarchy.Knows sub)
    (below : hierarchy.IsBelow sub super) :
    hierarchy.commonSuperclass super sub = .ok super := by
  unfold commonSuperclass
  split
  · rfl
  · rename_i different
    obtain ⟨subChain, foundSub⟩ := known
    have isSubChain := isChain_of_superclasses_eq_ok foundSub
    rcases below with rfl | below
    · obtain ⟨root, resolved, isRoot⟩ := wellFormed.rooted
      obtain ⟨rootChain, foundRoot⟩ := wellFormed.acyclic resolved
      obtain rfl := (isChain_of_superclasses_eq_ok foundRoot).unique (.root resolved isRoot)
      rw [foundRoot, foundSub]
      refine bind_eq_ok.mpr ⟨_, rfl, ?_⟩
      dsimp only
      split
      · rfl
      · refine bind_eq_ok.mpr ⟨_, rfl, congrArg Except.ok ?_⟩
        rcases isSubChain.isBelow_firstShared wellFormed [root] with
          isObject | ⟨_, declaration, member, sameName⟩
        · exact isObject
        · rw [← sameName, List.mem_singleton.mp member, wellFormed.named resolved]
    · have noInterface : ∀ declaration, hierarchy.resolve super = .ok declaration →
          declaration.isInterface = false := by
        intro declaration resolved
        cases below with
        | refl => exact absurd rfl different
        | tail _ isLast =>
            obtain ⟨last, lastResolved, _, hasSuper⟩ := isLast
            exact wellFormed.concrete lastResolved hasSuper resolved
      obtain ⟨superChain, isSuperChain⟩ := IsChain.of_isBelow below isSubChain
      obtain ⟨nearest, others, resolved, rfl⟩ := isSuperChain.resolves
      obtain ⟨foundChain, foundSuper⟩ := wellFormed.acyclic resolved
      obtain rfl := (isChain_of_superclasses_eq_ok foundSuper).unique isSuperChain
      rw [foundSuper, foundSub]
      refine bind_eq_ok.mpr ⟨_, rfl, ?_⟩
      dsimp only
      rw [noInterface nearest resolved]
      exact bind_eq_ok.mpr ⟨_, rfl, congrArg Except.ok
        (IsChain.firstShared_eq_of_isBelow wellFormed below isSubChain isSuperChain noInterface)⟩

end Hierarchy

/-! ## Reference types -/

namespace RefType

/-- The order of reference types: classes by superclasses, arrays by the classes of
their elements, and everything below the root class. -/
inductive IsBelow (hierarchy : Hierarchy) : RefType → RefType → Prop where
  | refl (type : RefType) : IsBelow hierarchy type type
  | root (type : RefType) : IsBelow hierarchy type (.object .object)
  | object {sub super : BinaryName} :
      hierarchy.IsBelow sub super → IsBelow hierarchy (.object sub) (.object super)
  | objectArray (nesting : Nat) {sub super : BinaryName} :
      hierarchy.IsBelow sub super →
      IsBelow hierarchy (.objectArray nesting sub) (.objectArray nesting super)

/-- The superclasses of the class that the type names are found. -/
def IsKnown (hierarchy : Hierarchy) : RefType → Prop
  | .object name => hierarchy.Knows name
  | .objectArray _ name => hierarchy.Knows name
  | .primitiveArray _ _ => True

instance (hierarchy : Hierarchy) (type : RefType) : Decidable (type.IsKnown hierarchy) :=
  match type with
  | .object name => inferInstanceAs (Decidable (hierarchy.Knows name))
  | .objectArray _ name => inferInstanceAs (Decidable (hierarchy.Knows name))
  | .primitiveArray _ _ => isTrue trivial

variable {hierarchy : Hierarchy}

theorem IsBelow.trans
    (wellFormed : hierarchy.WellFormed)
    {first second third : RefType}
    (firstBelow : IsBelow hierarchy first second)
    (secondBelow : IsBelow hierarchy second third) :
    IsBelow hierarchy first third := by
  cases secondBelow with
  | refl => exact firstBelow
  | root => exact .root first
  | @object middle super secondSteps =>
      cases firstBelow with
      | refl => exact .object secondSteps
      | root =>
          rw [secondSteps.eq_object wellFormed]
          exact .root first
      | object firstSteps => exact .object (firstSteps.trans wellFormed secondSteps)
  | objectArray nesting secondSteps =>
      cases firstBelow with
      | refl => exact .objectArray nesting secondSteps
      | objectArray _ firstSteps =>
          exact .objectArray nesting (firstSteps.trans wellFormed secondSteps)

end RefType

namespace Hierarchy

variable {hierarchy : Hierarchy}

/-- Both types are below the nearest type that they have in common. -/
theorem isBelow_commonSupertype
    (wellFormed : hierarchy.WellFormed)
    {first second shared : RefType}
    (computed : hierarchy.commonSupertype first second = .ok shared) :
    first.IsBelow hierarchy shared ∧ second.IsBelow hierarchy shared := by
  unfold commonSupertype at computed
  split at computed
  · rename_i same
    cases computed
    exact ⟨.refl _, same ▸ .refl _⟩
  · split at computed
    · obtain ⟨name, found, rfl⟩ := map_eq_ok.mp computed
      obtain ⟨firstBelow, secondBelow⟩ := isBelow_commonSuperclass wellFormed found
      exact ⟨.object firstBelow, .object secondBelow⟩
    · split at computed
      · rename_i sameNesting
        subst sameNesting
        obtain ⟨name, found, rfl⟩ := map_eq_ok.mp computed
        obtain ⟨firstBelow, secondBelow⟩ := isBelow_commonSuperclass wellFormed found
        exact ⟨.objectArray _ firstBelow, .objectArray _ secondBelow⟩
      · cases computed
        exact ⟨.root _, .root _⟩
    · cases computed
      exact ⟨.root _, .root _⟩

/-- A type and one above it have the latter in common. -/
theorem commonSupertype_eq_of_isBelow
    (wellFormed : hierarchy.WellFormed)
    {sub super : RefType}
    (known : sub.IsKnown hierarchy)
    (below : sub.IsBelow hierarchy super) :
    hierarchy.commonSupertype super sub = .ok super := by
  unfold commonSupertype
  split
  · rfl
  · rename_i different
    cases below with
    | refl => exact absurd rfl different
    | root =>
        cases sub with
        | object name =>
            exact map_eq_ok.mpr ⟨_, commonSuperclass_eq_of_isBelow wellFormed known (.inl rfl), rfl⟩
        | objectArray nesting name => rfl
        | primitiveArray nesting type => rfl
    | object steps =>
        exact map_eq_ok.mpr ⟨_, commonSuperclass_eq_of_isBelow wellFormed known steps, rfl⟩
    | objectArray nesting steps =>
        simp only [if_true]
        exact map_eq_ok.mpr ⟨_, commonSuperclass_eq_of_isBelow wellFormed known steps, rfl⟩

end Hierarchy

end ClosureConversion
