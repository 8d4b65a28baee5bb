import ClosureConversion.Proofs.Hierarchy.Joins
import ClosureConversion.Proofs.Hierarchy.Regular

/-!
Contract: the nearest common supertype of two types is their join.

Owns:
- joins, and how they compose;
- hierarchies with a root, whose declarations lead up to it, in which classes may have interfaces as
  superclasses;
- the order of classes by superclasses that are no interfaces, and that of types made of them;
- in that order, nearest common superclasses and supertypes are found and are joins.

Does not own: types whose superclasses are not found.
-/

namespace ClosureConversion

/-- What is above two things, and below everything else that is. -/
structure IsJoin {α : Type} (Under : α → α → Prop) (first second join : α) : Prop where
  left : Under first join
  right : Under second join
  least : ∀ bound, Under first bound → Under second bound → Under join bound

namespace IsJoin

variable {α : Type}
  {Under : α → α → Prop}
  {first second third join : α}

theorem symm
    (isJoin : IsJoin Under first second join) :
    IsJoin Under second first join :=
  ⟨isJoin.right, isJoin.left, fun bound below above => isJoin.least bound above below⟩

theorem of_under
    (refl : ∀ value, Under value value)
    (under : Under second first) :
    IsJoin Under first second first :=
  ⟨refl first, under, fun _ below _ => below⟩

/-- The join of the first two with the third is that of the first with the join of the others. -/
theorem assoc
    (trans : ∀ {lower middle upper}, Under lower middle → Under middle upper → Under lower upper)
    {left right : α}
    (isLeft : IsJoin Under first second left)
    (isJoin : IsJoin Under left third join)
    (isRight : IsJoin Under second third right) :
    IsJoin Under first right join where
  left := trans isLeft.left isJoin.left
  right := isRight.least join (trans isLeft.right isJoin.left) isJoin.right
  least := by
    intro bound firstBelow rightBelow
    exact isJoin.least bound
      (isLeft.least bound firstBelow (trans isRight.left rightBelow))
      (trans isRight.right rightBelow)

end IsJoin

namespace Hierarchy

/-- Declarations that lead up to a root class, and that are found under their own names. -/
structure IsRooted (hierarchy : Hierarchy) : Prop extends hierarchy.IsOrderly where
  named : ∀ {name declaration}, hierarchy.resolve name = .ok declaration → declaration.name = name
  rooted : ∃ root, hierarchy.resolve .object = .ok root ∧ root.super = none

/-- A class is found and is no interface. -/
def IsClass (hierarchy : Hierarchy) (name : BinaryName) : Prop :=
  ∃ declaration, hierarchy.resolve name = .ok declaration ∧ declaration.isInterface = false

/-- A class has the other class as its superclass, and neither is an interface. -/
def Rises (hierarchy : Hierarchy) (sub super : BinaryName) : Prop :=
  hierarchy.IsClass sub ∧ hierarchy.Leads superParents sub super ∧ hierarchy.IsClass super

/-- Everything is under the root class, and a class is under those superclasses to which no
interface leads. -/
def IsUnder (hierarchy : Hierarchy) (sub super : BinaryName) : Prop :=
  super = .object ∨ Relation.ReflTransGen hierarchy.Rises sub super

variable {hierarchy : Hierarchy}

/-! ## Declarations -/

theorem leads_superParents_iff
    {name super : BinaryName} :
    hierarchy.Leads superParents name super ↔
      ∃ declaration, hierarchy.resolve name = .ok declaration ∧ declaration.super = some super := by
  unfold Leads superParents
  simp only [Option.mem_toList]

/-- What leads to superclasses leads to parents. -/
theorem leads_parents_of_superParents
    {name super : BinaryName}
    (leads : hierarchy.Leads superParents name super) :
    hierarchy.Leads parents name super := by
  obtain ⟨declaration, found, isSuper⟩ := leads
  exact ⟨declaration, found, List.mem_append_left _ isSuper⟩

theorem not_isInterface
    {name : BinaryName}
    {declaration : ClassDeclaration}
    (isClass : hierarchy.IsClass name)
    (found : hierarchy.resolve name = .ok declaration) :
    declaration.isInterface = false := by
  obtain ⟨same, isSame, isClass⟩ := isClass
  cases found.symm.trans isSame
  exact isClass

/-- The superclasses of a class that is found are found. -/
theorem IsOrderly.exists_chainFrom_eq_ok
    (orderly : hierarchy.IsOrderly)
    {name : BinaryName}
    {visited : List BinaryName}
    (isFound : ∃ declaration, hierarchy.resolve name = .ok declaration)
    (areBelow : ∀ other ∈ visited, Relation.TransGen (hierarchy.Leads parents) other name) :
    ∃ chain, hierarchy.chainFrom name visited = .ok chain := by
  fun_induction chainFrom hierarchy name visited with
  | case1 name visited isVisited =>
      exact absurd (areBelow name (by simpa using isVisited)) (orderly.acyclic name)
  | case2 name visited _ error failed =>
      obtain ⟨declaration, found⟩ := isFound
      cases failed.symm.trans found
  | case3 name visited _ declaration => exact ⟨[declaration], rfl⟩
  | case4 name visited _ declaration _ _ _ chain => exact ⟨declaration :: chain, rfl⟩
  | case5 name visited _ declaration found super hasSuper error failed inductionHypothesis =>
      have leads : hierarchy.Leads parents name super :=
        leads_parents_of_superParents (leads_superParents_iff.mpr ⟨declaration, found, hasSuper⟩)
      obtain ⟨chain, isChain⟩ := inductionHypothesis (orderly.resolvable leads) (by
        intro other member
        rcases List.mem_cons.mp member with rfl | isVisited
        · exact .single leads
        · exact (areBelow other isVisited).tail leads)
      cases failed.symm.trans isChain

theorem IsOrderly.knows
    (orderly : hierarchy.IsOrderly)
    {name : BinaryName}
    {declaration : ClassDeclaration}
    (found : hierarchy.resolve name = .ok declaration) :
    hierarchy.Knows name :=
  orderly.exists_chainFrom_eq_ok ⟨declaration, found⟩ nofun

namespace IsRooted

/-- Nothing leads from the root class. -/
theorem not_leads_object
    (rooted : hierarchy.IsRooted)
    {super : BinaryName} :
    ¬hierarchy.Leads superParents .object super := by
  intro leads
  obtain ⟨root, isRoot, noSuper⟩ := rooted.rooted
  obtain ⟨declaration, found, hasSuper⟩ := leads_superParents_iff.mp leads
  cases found.symm.trans isRoot
  cases noSuper.symm.trans hasSuper

end IsRooted

/-! ## Order -/

/-- Classes rise to nothing but themselves and classes that are no interfaces. -/
theorem eq_or_target_isClass
    {sub super : BinaryName}
    (rises : Relation.ReflTransGen hierarchy.Rises sub super) :
    sub = super ∨ hierarchy.IsClass super := by
  cases rises with
  | refl => exact .inl rfl
  | tail _ isLast => exact .inr isLast.2.2

/-- Nothing but a class that is no interface rises to anything but itself. -/
theorem eq_or_source_isClass
    {sub super : BinaryName}
    (rises : Relation.ReflTransGen hierarchy.Rises sub super) :
    sub = super ∨ hierarchy.IsClass sub := by
  cases rises using Relation.ReflTransGen.head_induction_on with
  | refl => exact .inl rfl
  | head isFirst _ _ => exact .inr isFirst.1

namespace IsUnder

theorem refl
    (name : BinaryName) :
    hierarchy.IsUnder name name :=
  .inr .refl

theorem eq_object
    (rooted : hierarchy.IsRooted)
    {super : BinaryName}
    (under : hierarchy.IsUnder .object super) :
    super = .object := by
  rcases under with isRoot | rises
  · exact isRoot
  · cases rises using Relation.ReflTransGen.head_induction_on with
    | refl => rfl
    | head isFirst _ _ => exact absurd isFirst.2.1 rooted.not_leads_object

theorem trans
    (rooted : hierarchy.IsRooted)
    {first second third : BinaryName}
    (lower : hierarchy.IsUnder first second)
    (upper : hierarchy.IsUnder second third) :
    hierarchy.IsUnder first third := by
  rcases lower with rfl | lowerRises
  · exact .inl (upper.eq_object rooted)
  · rcases upper with isRoot | upperRises
    · exact .inl isRoot
    · exact .inr (lowerRises.trans upperRises)

theorem antisymm
    (rooted : hierarchy.IsRooted)
    {first second : BinaryName}
    (lower : hierarchy.IsUnder first second)
    (upper : hierarchy.IsUnder second first) :
    first = second := by
  rcases lower with rfl | lowerRises
  · exact upper.eq_object rooted
  · rcases upper with rfl | upperRises
    · exact (IsUnder.eq_object rooted (.inr lowerRises)).symm
    · rcases Relation.reflTransGen_iff_eq_or_transGen.mp lowerRises with same | isAbove
      · exact same.symm
      · have aboveItself : Relation.TransGen (hierarchy.Leads parents) first first :=
          Relation.TransGen.mono (fun _ _ step => leads_parents_of_superParents step.2.1) _ _
            (isAbove.trans_left upperRises)
        exact absurd aboveItself (rooted.acyclic first)

/-- What is above a class whose superclasses are found is such a class. -/
theorem knows
    (rooted : hierarchy.IsRooted)
    {sub super : BinaryName}
    (under : hierarchy.IsUnder sub super)
    (known : hierarchy.Knows sub) :
    hierarchy.Knows super := by
  rcases under with rfl | rises
  · obtain ⟨root, isRoot, _⟩ := rooted.rooted
    exact rooted.toIsOrderly.knows isRoot
  · rcases eq_or_target_isClass rises with rfl | ⟨declaration, found, _⟩
    · exact known
    · exact rooted.toIsOrderly.knows found

end IsUnder

/-! ## Chains -/

namespace IsChain

/-- The declarations of a chain are found under their names. -/
theorem found_of_mem
    (rooted : hierarchy.IsRooted)
    {name : BinaryName}
    {chain : List ClassDeclaration}
    (isChain : hierarchy.IsChain name chain)
    {declaration : ClassDeclaration}
    (member : declaration ∈ chain) :
    hierarchy.resolve declaration.name = .ok declaration := by
  induction isChain with
  | root found _ =>
      rw [List.mem_singleton.mp member, rooted.named found]
      exact found
  | above found _ _ inductionHypothesis =>
      rcases List.mem_cons.mp member with rfl | isAbove
      · rw [rooted.named found]
        exact found
      · exact inductionHypothesis isAbove

/-- There is nothing in the chain of an interface but itself and the root class. -/
theorem eq_object_of_mem_of_isInterface
    (rooted : hierarchy.IsRooted)
    {name : BinaryName}
    {nearest : ClassDeclaration}
    {chain : List ClassDeclaration}
    (isChain : hierarchy.IsChain name (nearest :: chain))
    (isInterface : nearest.isInterface = true)
    {declaration : ClassDeclaration}
    (member : declaration ∈ chain) :
    declaration.name = .object := by
  cases isChain with
  | root => cases member
  | above found hasSuper isAbove =>
      cases hasSuper.symm.trans (rooted.interfaceSuper found isInterface)
      cases isAbove with
      | root rootFound _ =>
          rw [List.mem_singleton.mp member]
          exact rooted.named rootFound
      | above rootFound rootSuper _ =>
          exact absurd (leads_superParents_iff.mpr ⟨_, rootFound, rootSuper⟩)
            rooted.not_leads_object

/-- The chain of a class that is no interface holds no others but what the class is under, and what
follows an interface. -/
theorem isUnder_of_mem
    (rooted : hierarchy.IsRooted)
    {name : BinaryName}
    {chain : List ClassDeclaration}
    (isChain : hierarchy.IsChain name chain)
    (isClass : hierarchy.IsClass name)
    {declaration : ClassDeclaration}
    (member : declaration ∈ chain)
    (noInterface : declaration.isInterface = false) :
    hierarchy.IsUnder name declaration.name := by
  induction isChain with
  | @root name root found _ =>
      rw [List.mem_singleton.mp member, rooted.named found]
      exact .refl name
  | @above name super nearest chain found hasSuper isChain inductionHypothesis =>
      rcases List.mem_cons.mp member with rfl | isAbove
      · rw [rooted.named found]
        exact .refl name
      · obtain ⟨next, others, isNext, rfl⟩ := isChain.resolves
        cases isInterface : next.isInterface with
        | false =>
            have rises : hierarchy.Rises name super :=
              ⟨isClass, leads_superParents_iff.mpr ⟨nearest, found, hasSuper⟩,
                next, isNext, isInterface⟩
            exact IsUnder.trans rooted (.inr (.single rises))
              (inductionHypothesis ⟨next, isNext, isInterface⟩ isAbove)
        | true =>
            rcases List.mem_cons.mp isAbove with rfl | isAboveNext
            · cases noInterface.symm.trans isInterface
            · exact .inl (isChain.eq_object_of_mem_of_isInterface rooted isInterface isAboveNext)

/-- A class that another one rises to is in the chain of the latter. -/
theorem mem_of_rises
    {name super : BinaryName}
    {chain : List ClassDeclaration}
    (rises : Relation.ReflTransGen hierarchy.Rises name super)
    (isChain : hierarchy.IsChain name chain) :
    ∃ declaration ∈ chain, hierarchy.resolve super = .ok declaration := by
  induction rises using Relation.ReflTransGen.head_induction_on generalizing chain with
  | refl =>
      obtain ⟨declaration, others, found, rfl⟩ := isChain.resolves
      exact ⟨declaration, List.mem_cons_self, found⟩
  | head isFirst _ inductionHypothesis =>
      obtain ⟨nearest, found, hasSuper⟩ := leads_superParents_iff.mp isFirst.2.1
      cases isChain with
      | root same noSuper =>
          cases found.symm.trans same
          cases noSuper.symm.trans hasSuper
      | above same isSuper isAbove =>
          cases found.symm.trans same
          cases hasSuper.symm.trans isSuper
          obtain ⟨declaration, member, isLast⟩ := inductionHypothesis isAbove
          exact ⟨declaration, List.mem_cons_of_mem _ member, isLast⟩

end IsChain

/-! ## Joins of classes -/

/-- What a class and an interface are both under is the interface, if at all, or the root class. -/
theorem IsUnder.eq_object_of_isInterface
    {name bound : BinaryName}
    {declaration : ClassDeclaration}
    (found : hierarchy.resolve name = .ok declaration)
    (isInterface : declaration.isInterface = true)
    (under : hierarchy.IsUnder name bound) :
    bound = .object ∨ bound = name := by
  rcases under with isRoot | rises
  · exact .inl isRoot
  · rcases eq_or_source_isClass rises with same | isClass
    · exact .inr same.symm
    · cases isInterface.symm.trans (not_isInterface isClass found)

/-- Two different classes of which one is an interface have nothing in common but the root class. -/
theorem IsUnder.eq_object_of_different
    {name other bound : BinaryName}
    {declaration : ClassDeclaration}
    (found : hierarchy.resolve name = .ok declaration)
    (isInterface : declaration.isInterface = true)
    (different : other ≠ name)
    (under : hierarchy.IsUnder name bound)
    (otherUnder : hierarchy.IsUnder other bound) :
    bound = .object := by
  rcases under.eq_object_of_isInterface found isInterface with isRoot | rfl
  · exact isRoot
  · rcases otherUnder with isRoot | rises
    · exact isRoot
    · rcases eq_or_target_isClass rises with same | isClass
      · exact absurd same different
      · cases isInterface.symm.trans (not_isInterface isClass found)

/-- Everything is under the root class, which is the join of what has nothing else in common. -/
theorem isJoin_object
    {first second : BinaryName}
    (nothingElse : ∀ bound, hierarchy.IsUnder first bound → hierarchy.IsUnder second bound →
      bound = .object) :
    IsJoin hierarchy.IsUnder first second .object :=
  ⟨.inl rfl, .inl rfl, fun bound below above => .inl (nothingElse bound below above)⟩

theorem IsClass.ne_of_isInterface
    {first second : BinaryName}
    {declaration : ClassDeclaration}
    (isClass : hierarchy.IsClass first)
    (found : hierarchy.resolve second = .ok declaration)
    (isInterface : declaration.isInterface = true) :
    first ≠ second := by
  rintro rfl
  cases isInterface.symm.trans (not_isInterface isClass found)

/-- The join with a class is the root class if that is an interface, the class itself if it is in the
chain of the other class, and what is found in the rest of its chain otherwise. -/
theorem IsChain.isJoin_firstShared_cons
    (rooted : hierarchy.IsRooted)
    {first second : BinaryName}
    {declaration : ClassDeclaration}
    {firstChain others : List ClassDeclaration}
    (isFirstChain : hierarchy.IsChain first firstChain)
    (isClass : hierarchy.IsClass first)
    (found : hierarchy.resolve second = .ok declaration)
    (inOthers : hierarchy.IsClass second → (hierarchy.IsUnder first second → second = .object) →
      IsJoin hierarchy.IsUnder first second (firstShared firstChain others)) :
    IsJoin hierarchy.IsUnder first second (firstShared firstChain (declaration :: others)) := by
  unfold firstShared
  split
  · rename_i isInterface
    exact isJoin_object fun bound below above => above.eq_object_of_different found isInterface
      (isClass.ne_of_isInterface found isInterface) below
  · rename_i noInterface
    have noInterface : declaration.isInterface = false := by simpa using noInterface
    split
    · rename_i isShared
      obtain ⟨other, member, sameName⟩ := List.any_eq_true.mp isShared
      have isOther := isFirstChain.found_of_mem rooted member
      rw [of_decide_eq_true sameName, rooted.named found] at isOther
      cases found.symm.trans isOther
      have under := isFirstChain.isUnder_of_mem rooted isClass member noInterface
      rw [rooted.named found] at under ⊢
      exact (IsJoin.of_under IsUnder.refl under).symm
    · rename_i notShared
      refine inOthers ⟨declaration, found, noInterface⟩ fun under => ?_
      by_contra notRoot
      obtain ⟨other, member, isOther⟩ := isFirstChain.mem_of_rises (under.resolve_left notRoot)
      cases found.symm.trans isOther
      exact notShared (List.any_eq_true.mpr ⟨declaration, member, by simp⟩)

/-- The class that a chain shares with that of a class which is no interface is the join of both
classes. -/
theorem IsChain.isJoin_firstShared
    (rooted : hierarchy.IsRooted)
    {first second : BinaryName}
    {firstChain secondChain : List ClassDeclaration}
    (isFirstChain : hierarchy.IsChain first firstChain)
    (isClass : hierarchy.IsClass first)
    (isSecondChain : hierarchy.IsChain second secondChain) :
    IsJoin hierarchy.IsUnder first second (firstShared firstChain secondChain) := by
  induction isSecondChain with
  | @root second root found noSuper =>
      refine isFirstChain.isJoin_firstShared_cons rooted isClass found fun _ onlyRoot => ?_
      refine isJoin_object fun bound below above => ?_
      rcases above with isRoot | rises
      · exact isRoot
      · cases rises using Relation.ReflTransGen.head_induction_on with
        | refl => exact onlyRoot below
        | head isFirst _ _ =>
            obtain ⟨same, isSame, hasSuper⟩ := leads_superParents_iff.mp isFirst.2.1
            cases found.symm.trans isSame
            cases noSuper.symm.trans hasSuper
  | @above second super nearest chain found hasSuper isChain inductionHypothesis =>
      refine isFirstChain.isJoin_firstShared_cons rooted isClass found fun isSecondClass onlyRoot => ?_
      have leads : hierarchy.Leads superParents second super :=
        leads_superParents_iff.mpr ⟨nearest, found, hasSuper⟩
      refine ⟨inductionHypothesis.left, ?_, ?_⟩
      · obtain ⟨next, others, isNext, rfl⟩ := isChain.resolves
        cases isInterface : next.isInterface with
        | true =>
            exact .inl (inductionHypothesis.right.eq_object_of_different isNext isInterface
              (isClass.ne_of_isInterface isNext isInterface) inductionHypothesis.left)
        | false =>
            have rises : hierarchy.Rises second super :=
              ⟨isSecondClass, leads, next, isNext, isInterface⟩
            exact IsUnder.trans rooted (.inr (.single rises)) inductionHypothesis.right
      · intro bound below above
        rcases above with isRoot | rises
        · exact .inl isRoot
        · cases rises using Relation.ReflTransGen.head_induction_on with
          | refl => exact .inl (onlyRoot below)
          | head isFirst rises _ =>
              obtain ⟨same, isSame, isSuper⟩ := leads_superParents_iff.mp isFirst.2.1
              cases found.symm.trans isSame
              cases hasSuper.symm.trans isSuper
              exact inductionHypothesis.least bound below (.inr rises)

/-- The nearest common superclass of two classes whose superclasses are found is found, and is their
join. -/
theorem IsRooted.exists_commonSuperclass_eq_ok
    (rooted : hierarchy.IsRooted)
    {first second : BinaryName}
    (firstKnown : hierarchy.Knows first)
    (secondKnown : hierarchy.Knows second) :
    ∃ shared, hierarchy.commonSuperclass first second = .ok shared ∧
      IsJoin hierarchy.IsUnder first second shared := by
  unfold commonSuperclass
  split
  · rename_i same
    subst same
    exact ⟨first, rfl, .of_under IsUnder.refl (.refl first)⟩
  · rename_i different
    obtain ⟨firstChain, foundFirst⟩ := firstKnown
    obtain ⟨secondChain, foundSecond⟩ := secondKnown
    have isFirstChain := isChain_of_superclasses_eq_ok foundFirst
    obtain ⟨nearest, others, found, rfl⟩ := isFirstChain.resolves
    rw [foundFirst, foundSecond]
    cases isInterface : nearest.isInterface with
    | true =>
        refine ⟨.object, bind_eq_ok.mpr ⟨_, rfl, by simp only [isInterface]; rfl⟩, ?_⟩
        exact isJoin_object fun bound below above =>
          below.eq_object_of_different found isInterface (Ne.symm different) above
    | false =>
        refine ⟨_, bind_eq_ok.mpr ⟨_, rfl, ?_⟩, isFirstChain.isJoin_firstShared rooted
          ⟨nearest, found, isInterface⟩ (isChain_of_superclasses_eq_ok foundSecond)⟩
        simp only [isInterface]
        rfl

end Hierarchy

/-! ## Joins of types -/

namespace RefType

/-- Types are in the order of the classes that they are made of in the same way, and under the root
class. -/
def IsUnder (hierarchy : Hierarchy) : RefType → RefType → Prop
  | .object sub, .object super => hierarchy.IsUnder sub super
  | .objectArray nesting sub, .objectArray superNesting super =>
      nesting = superNesting ∧ hierarchy.IsUnder sub super
  | .primitiveArray nesting sub, .primitiveArray superNesting super =>
      nesting = superNesting ∧ sub = super
  | _, .object super => super = .object
  | _, _ => False

variable {hierarchy : Hierarchy}

theorem IsUnder.refl
    (type : RefType) :
    type.IsUnder hierarchy type := by
  cases type with
  | object name => exact Hierarchy.IsUnder.refl name
  | objectArray nesting name => exact ⟨rfl, .refl name⟩
  | primitiveArray nesting element => exact ⟨rfl, rfl⟩

theorem isUnder_object
    (type : RefType) :
    type.IsUnder hierarchy (.object .object) := by
  cases type with
  | object name => exact .inl rfl
  | objectArray nesting name => exact rfl
  | primitiveArray nesting element => exact rfl

theorem IsUnder.trans
    (rooted : hierarchy.IsRooted)
    {first second third : RefType}
    (lower : first.IsUnder hierarchy second)
    (upper : second.IsUnder hierarchy third) :
    first.IsUnder hierarchy third := by
  match first, second, third with
  | .object _, .object _, .object _ => exact Hierarchy.IsUnder.trans rooted lower upper
  | .objectArray _ _, .object _, .object _ =>
      obtain rfl := lower
      exact Hierarchy.IsUnder.eq_object rooted upper
  | .primitiveArray _ _, .object _, .object _ =>
      obtain rfl := lower
      exact Hierarchy.IsUnder.eq_object rooted upper
  | .objectArray _ _, .objectArray _ _, .object _ => exact upper
  | .primitiveArray _ _, .primitiveArray _ _, .object _ => exact upper
  | .objectArray _ _, .objectArray _ _, .objectArray _ _ =>
      exact ⟨lower.1.trans upper.1, Hierarchy.IsUnder.trans rooted lower.2 upper.2⟩
  | .primitiveArray _ _, .primitiveArray _ _, .primitiveArray _ _ =>
      exact ⟨lower.1.trans upper.1, lower.2.trans upper.2⟩

theorem IsUnder.antisymm
    (rooted : hierarchy.IsRooted)
    {first second : RefType}
    (lower : first.IsUnder hierarchy second)
    (upper : second.IsUnder hierarchy first) :
    first = second := by
  match first, second with
  | .object _, .object _ => rw [Hierarchy.IsUnder.antisymm rooted lower upper]
  | .objectArray _ _, .objectArray _ _ =>
      rw [lower.1, Hierarchy.IsUnder.antisymm rooted lower.2 upper.2]
  | .primitiveArray _ _, .primitiveArray _ _ => rw [lower.1, lower.2]

/-- What is above a type of known classes is so. -/
theorem IsUnder.isKnown
    (rooted : hierarchy.IsRooted)
    {sub super : RefType}
    (under : sub.IsUnder hierarchy super)
    (known : sub.IsKnown hierarchy) :
    super.IsKnown hierarchy := by
  match sub, super with
  | .object _, .object _ => exact Hierarchy.IsUnder.knows rooted under known
  | .objectArray _ _, .objectArray _ _ => exact Hierarchy.IsUnder.knows rooted under.2 known
  | .primitiveArray _ _, .primitiveArray _ _ => trivial
  | .objectArray _ _, .object _ =>
      obtain rfl := under
      exact Hierarchy.IsUnder.knows rooted (.inl rfl) known
  | .primitiveArray _ _, .object _ =>
      obtain rfl := under
      obtain ⟨root, isRoot, _⟩ := rooted.rooted
      exact rooted.toIsOrderly.knows isRoot

/-- The root class is the join of types that have nothing else in common. -/
theorem isJoin_object
    {first second : RefType}
    (nothingElse : ∀ bound, first.IsUnder hierarchy bound → second.IsUnder hierarchy bound →
      bound = .object .object) :
    IsJoin (IsUnder hierarchy) first second (.object .object) :=
  ⟨isUnder_object first, isUnder_object second, fun bound below above => by
    rw [nothingElse bound below above]
    exact .refl _⟩

end RefType

namespace Hierarchy

variable {hierarchy : Hierarchy}

/-- The nearest common supertype of two types of known classes is found, and is their join. -/
theorem IsRooted.exists_commonSupertype_eq_ok
    (rooted : hierarchy.IsRooted)
    {first second : RefType}
    (firstKnown : first.IsKnown hierarchy)
    (secondKnown : second.IsKnown hierarchy) :
    ∃ shared, hierarchy.commonSupertype first second = .ok shared ∧
      IsJoin (RefType.IsUnder hierarchy) first second shared := by
  unfold commonSupertype
  split
  · rename_i same
    subst same
    exact ⟨first, rfl, .of_under RefType.IsUnder.refl (.refl first)⟩
  · rename_i different
    split
    · obtain ⟨shared, computed, isJoin⟩ :=
        rooted.exists_commonSuperclass_eq_ok firstKnown secondKnown
      refine ⟨.object shared, map_eq_ok.mpr ⟨shared, computed, rfl⟩,
        isJoin.left, isJoin.right, ?_⟩
      intro bound below above
      match bound with
      | .object bound => exact isJoin.least bound below above
    · split
      · rename_i sameNesting
        subst sameNesting
        obtain ⟨shared, computed, isJoin⟩ :=
          rooted.exists_commonSuperclass_eq_ok firstKnown secondKnown
        refine ⟨_, map_eq_ok.mpr ⟨shared, computed, rfl⟩,
          ⟨rfl, isJoin.left⟩, ⟨rfl, isJoin.right⟩, ?_⟩
        intro bound below above
        match bound with
        | .object bound => exact below
        | .objectArray _ bound => exact ⟨below.1, isJoin.least bound below.2 above.2⟩
      · rename_i differentNesting
        refine ⟨_, rfl, RefType.isJoin_object ?_⟩
        intro bound below above
        match bound with
        | .object bound => exact congrArg _ below
        | .objectArray _ bound => exact absurd (below.1.trans above.1.symm) differentNesting
    · rename_i notObjects notArrays
      refine ⟨_, rfl, RefType.isJoin_object ?_⟩
      intro bound below above
      match first, second, bound with
      | .object _, .object _, _ => exact absurd rfl (notObjects _ _ rfl)
      | .objectArray _ _, .objectArray _ _, _ => exact absurd rfl (notArrays _ _ _ _ rfl)
      | .objectArray _ _, .object _, .object _ => exact congrArg _ below
      | .primitiveArray _ _, _, .object _ => exact congrArg _ below
      | _, .objectArray _ _, .object _ => exact congrArg _ above
      | _, .primitiveArray _ _, .object _ => exact congrArg _ above
      | .primitiveArray _ _, .primitiveArray _ _, .primitiveArray _ _ =>
          obtain ⟨rfl, rfl⟩ := below
          obtain ⟨rfl, rfl⟩ := above
          exact absurd rfl different

end Hierarchy

end ClosureConversion
