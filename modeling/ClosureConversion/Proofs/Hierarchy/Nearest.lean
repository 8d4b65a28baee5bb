import ClosureConversion.Proofs.Hierarchy.Lineages
import ClosureConversion.Proofs.Hierarchy.Subtypes

/-!
Contract: the nearest common supertype of two types, by assignability.

Owns:
- in a hierarchy as the language makes it, whose classes are found under their own names, being
  under a class by superclasses is being below it by the declarations, if it is no interface;
- the nearest common supertype of two types is the same in either order, both types are assignable
  to it, and it is assignable to every class that both are assignable to;
- hierarchies in which the order matters.

Does not own: types that are arrays of different dimensions, of which only the root class is found.
-/

namespace ClosureConversion

namespace Hierarchy

/-- Declarations as the language makes them, each found under its own name. -/
structure IsNamedRegular (hierarchy : Hierarchy) : Prop extends hierarchy.IsRegular where
  named : ∀ {name declaration}, hierarchy.resolve name = .ok declaration → declaration.name = name

variable {hierarchy : Hierarchy}

/-! ## Roots -/

/-- The root class is found where any class is: its chain of superclasses leads there. -/
theorem IsChain.exists_root
    (regular : hierarchy.IsRegular)
    {name : BinaryName}
    {chain : List ClassDeclaration}
    (isChain : hierarchy.IsChain name chain) :
    ∃ root, hierarchy.resolve .object = .ok root ∧ root.super = none := by
  induction isChain with
  | root found noSuper =>
      obtain rfl := (regular.rooted found).mp noSuper
      exact ⟨_, found, noSuper⟩
  | above _ _ _ inductionHypothesis => exact inductionHypothesis

theorem IsNamedRegular.isRooted
    (regular : hierarchy.IsNamedRegular)
    {name : BinaryName}
    (known : hierarchy.Knows name) :
    hierarchy.IsRooted where
  toIsOrderly := regular.toIsOrderly
  named := regular.named
  rooted := by
    obtain ⟨chain, found⟩ := known
    exact (isChain_of_superclasses_eq_ok found).exists_root regular.toIsRegular

/-! ## Orders -/

/-- What a class is under by superclasses, it is below by the declarations. -/
theorem IsUnder.inherits
    {sub super : BinaryName}
    (under : hierarchy.IsUnder sub super) :
    hierarchy.Inherits sub super :=
  under.imp_right fun rises =>
    Relation.ReflTransGen.mono (fun _ _ step => leads_parents_of_superParents step.2.1) _ _ rises

namespace IsRegular

/-- A class that is no interface rises to all its superclasses. -/
theorem rises_of_leads
    (regular : hierarchy.IsRegular)
    {sub super : BinaryName}
    (isClass : hierarchy.IsClass sub)
    (leads : Relation.ReflTransGen (hierarchy.Leads superParents) sub super) :
    Relation.ReflTransGen hierarchy.Rises sub super := by
  induction leads using Relation.ReflTransGen.head_induction_on with
  | refl => exact .refl
  | @head name parent isNext _ inductionHypothesis =>
      obtain ⟨declaration, found, hasSuper⟩ := leads_superParents_iff.mp isNext
      obtain ⟨target, isTarget⟩ := regular.resolvable (leads_parents_of_superParents isNext)
      have isParentClass : hierarchy.IsClass parent :=
        ⟨target, isTarget, regular.classSuper found hasSuper isTarget⟩
      exact .head ⟨isClass, isNext, isParentClass⟩ (inductionHypothesis isParentClass)

/-- Nothing is below a class by the declarations that is not under it by superclasses. -/
theorem isUnder_of_inherits
    (regular : hierarchy.IsRegular)
    {sub super : BinaryName}
    (isClass : hierarchy.IsClass super)
    (inherits : hierarchy.Inherits sub super) :
    hierarchy.IsUnder sub super := by
  obtain ⟨target, found, isTargetClass⟩ := isClass
  by_cases isRoot : super = .object
  · exact .inl isRoot
  · have leads := inherits.resolve_left isRoot
    cases leads using Relation.ReflTransGen.head_induction_on with
    | refl => exact .refl _
    | head isFirst rest _ =>
        obtain ⟨declaration, subFound, _⟩ := id isFirst
        cases isInterface : declaration.isInterface with
        | true =>
            rcases regular.eq_object_or_isInterface_of_leads subFound isInterface
                (.head isFirst rest) with isRoot' | ⟨same, isSame, isTargetInterface⟩
            · exact absurd isRoot' isRoot
            · cases found.symm.trans isSame
              cases isTargetClass.symm.trans isTargetInterface
        | false =>
            have leads := regular.leads_superParents (.head isFirst rest) found isTargetClass isRoot
            exact .inr (regular.rises_of_leads ⟨declaration, subFound, isInterface⟩ leads)

end IsRegular

/-! ## Classes -/

namespace IsNamedRegular

/-- A class that is found for two classes is above both, and below every class that is. -/
theorem inherits_commonSuperclass
    (regular : hierarchy.IsNamedRegular)
    {first second shared : BinaryName}
    (computed : hierarchy.commonSuperclass first second = .ok shared) :
    (hierarchy.Inherits first shared ∧ hierarchy.Inherits second shared) ∧
      ∀ bound, hierarchy.IsClass bound → hierarchy.Inherits first bound →
        hierarchy.Inherits second bound → hierarchy.Inherits shared bound := by
  have isComputed := computed
  unfold commonSuperclass at computed
  split at computed
  · rename_i same
    cases computed
    exact ⟨⟨.inr .refl, same ▸ .inr .refl⟩, fun _ _ below _ => below⟩
  · obtain ⟨chain, firstFound, computed⟩ := bind_eq_ok.mp computed
    have rooted := regular.isRooted ⟨chain, firstFound⟩
    obtain ⟨nearest, others, found, rfl⟩ := (isChain_of_superclasses_eq_ok firstFound).resolves
    dsimp only at computed
    split at computed
    · rename_i isInterface
      cases computed
      refine ⟨⟨.inl rfl, .inl rfl⟩, fun bound isClass below _ => .inl ?_⟩
      rcases (regular.isUnder_of_inherits isClass below).eq_object_of_isInterface found
          isInterface with isRoot | same
      · exact isRoot
      · exact absurd same (isClass.ne_of_isInterface found isInterface)
    · obtain ⟨secondChain, secondFound, _⟩ := bind_eq_ok.mp computed
      obtain ⟨join, isJoinFound, isJoin⟩ :=
        rooted.exists_commonSuperclass_eq_ok ⟨_, firstFound⟩ ⟨_, secondFound⟩
      cases isComputed.symm.trans isJoinFound
      refine ⟨⟨isJoin.left.inherits, isJoin.right.inherits⟩, fun bound isClass below above => ?_⟩
      exact (isJoin.least bound (regular.isUnder_of_inherits isClass below)
        (regular.isUnder_of_inherits isClass above)).inherits

end IsNamedRegular

end Hierarchy

/-! ## Types -/

/-- A type whose class is found is one of known classes. -/
theorem RefType.IsFound.isKnown
    {hierarchy : Hierarchy}
    (orderly : hierarchy.IsOrderly)
    {type : RefType}
    (found : type.IsFound hierarchy) :
    type.IsKnown hierarchy := by
  cases type with
  | object name =>
      obtain ⟨declaration, isFound⟩ := found name rfl
      exact orderly.knows isFound
  | objectArray nesting name =>
      obtain ⟨declaration, isFound⟩ := found name rfl
      exact orderly.knows isFound
  | primitiveArray nesting element => trivial

namespace Hierarchy

variable {hierarchy : Hierarchy}

namespace IsNamedRegular

/-- Both types are within the type that is found for them. -/
theorem isWithin_commonSupertype
    (regular : hierarchy.IsNamedRegular)
    {first second shared : RefType}
    (computed : hierarchy.commonSupertype first second = .ok shared) :
    first.IsWithin hierarchy shared ∧ second.IsWithin hierarchy shared := by
  have isRoot : ∀ type : RefType, type.IsWithin hierarchy (.object .object) := fun type =>
    .of_isSubtype regular.toIsRegular (.root type)
  unfold commonSupertype at computed
  split at computed
  · rename_i same
    cases computed
    exact ⟨.inl ⟨rfl, .refl _⟩, same ▸ .inl ⟨rfl, .refl _⟩⟩
  · split at computed
    · obtain ⟨name, isShared, rfl⟩ := map_eq_ok.mp computed
      obtain ⟨firstBelow, secondBelow⟩ := (regular.inherits_commonSuperclass isShared).1
      exact ⟨.inl ⟨rfl, firstBelow⟩, .inl ⟨rfl, secondBelow⟩⟩
    · split at computed
      · rename_i sameNesting
        subst sameNesting
        obtain ⟨name, isShared, rfl⟩ := map_eq_ok.mp computed
        obtain ⟨firstBelow, secondBelow⟩ := (regular.inherits_commonSuperclass isShared).1
        exact ⟨.inl ⟨rfl, firstBelow⟩, .inl ⟨rfl, secondBelow⟩⟩
      · cases computed
        exact ⟨isRoot _, isRoot _⟩
    · cases computed
      exact ⟨isRoot _, isRoot _⟩

/-- The type that is found for two classes is within every class that both are within. -/
theorem isWithin_of_isClass
    (regular : hierarchy.IsNamedRegular)
    {first second bound : BinaryName}
    {shared : RefType}
    (computed : hierarchy.commonSupertype (.object first) (.object second) = .ok shared)
    (isClass : hierarchy.IsClass bound)
    (below : RefType.IsWithin hierarchy (.object first) (.object bound))
    (above : RefType.IsWithin hierarchy (.object second) (.object bound)) :
    shared.IsWithin hierarchy (.object bound) := by
  unfold commonSupertype at computed
  split at computed
  · cases computed
    exact below
  · obtain ⟨name, isShared, rfl⟩ := map_eq_ok.mp computed
    have firstBelow : hierarchy.Inherits first bound :=
      (below.resolve_right fun more => Nat.lt_irrefl 0 more.1).2
    have secondBelow : hierarchy.Inherits second bound :=
      (above.resolve_right fun more => Nat.lt_irrefl 0 more.1).2
    exact .inl ⟨rfl, (regular.inherits_commonSuperclass isShared).2 bound isClass firstBelow
      secondBelow⟩

/-- Where both classes are found, the order of the types does not matter. -/
theorem commonSupertype_comm
    (regular : hierarchy.IsNamedRegular)
    {first second : RefType}
    (firstFound : first.IsFound hierarchy)
    (secondFound : second.IsFound hierarchy) :
    ∃ shared, hierarchy.commonSupertype first second = .ok shared ∧
      hierarchy.commonSupertype second first = .ok shared := by
  have firstKnown := firstFound.isKnown regular.toIsOrderly
  have secondKnown := secondFound.isKnown regular.toIsOrderly
  by_cases someClass : ∃ name, hierarchy.Knows name
  · obtain ⟨name, known⟩ := someClass
    have rooted := regular.isRooted known
    obtain ⟨shared, computed, isJoin⟩ :=
      rooted.exists_commonSupertype_eq_ok firstKnown secondKnown
    obtain ⟨other, otherComputed, otherJoin⟩ :=
      rooted.exists_commonSupertype_eq_ok secondKnown firstKnown
    obtain rfl : shared = other :=
      (isJoin.least other otherJoin.right otherJoin.left).antisymm rooted
        (otherJoin.least shared isJoin.right isJoin.left)
    exact ⟨shared, computed, otherComputed⟩
  · -- Without any class there are only arrays of numbers.
    match first, second with
    | .primitiveArray nesting element, .primitiveArray otherNesting otherElement =>
        unfold commonSupertype
        by_cases same : RefType.primitiveArray nesting element =
            .primitiveArray otherNesting otherElement
        · exact ⟨_, if_pos same, by rw [if_pos same.symm, same]⟩
        · exact ⟨_, if_neg same, if_neg (Ne.symm same)⟩
    | .object name, _ => exact absurd ⟨name, firstKnown⟩ someClass
    | .objectArray _ name, _ => exact absurd ⟨name, firstKnown⟩ someClass
    | _, .object name => exact absurd ⟨name, secondKnown⟩ someClass
    | _, .objectArray _ name => exact absurd ⟨name, secondKnown⟩ someClass

end IsNamedRegular

/-- What the nearest common supertype of two types is. It is found for types whose classes are
found, the same in either order. Both types are assignable to it. It is assignable to every class,
but for interfaces, that two classes are both assignable to. -/
structure FindsNearest (hierarchy : Hierarchy) : Prop where
  decided : ∀ {first second : RefType}, first.IsFound hierarchy → second.IsFound hierarchy →
    ∃ shared, hierarchy.commonSupertype first second = .ok shared
  comm : ∀ {first second : RefType}, first.IsFound hierarchy → second.IsFound hierarchy →
    hierarchy.commonSupertype first second = hierarchy.commonSupertype second first
  above : ∀ {first second shared : RefType}, hierarchy.commonSupertype first second = .ok shared →
    hierarchy.isAssignable first shared = .ok true ∧
      hierarchy.isAssignable second shared = .ok true
  nearest : ∀ {first second bound : BinaryName} {shared : RefType},
    hierarchy.commonSupertype (.object first) (.object second) = .ok shared →
    hierarchy.IsClass bound →
    hierarchy.isAssignable (.object first) (.object bound) = .ok true →
    hierarchy.isAssignable (.object second) (.object bound) = .ok true →
    hierarchy.isAssignable shared (.object bound) = .ok true

/-- In a hierarchy as the language makes it, whose classes are found under their own names, the
nearest common supertype is what it is called. -/
theorem findsNearest_of_isNamedRegular
    (regular : hierarchy.IsNamedRegular) :
    hierarchy.FindsNearest where
  decided firstFound secondFound := by
    obtain ⟨shared, computed, _⟩ := regular.commonSupertype_comm firstFound secondFound
    exact ⟨shared, computed⟩
  comm firstFound secondFound := by
    obtain ⟨shared, computed, otherComputed⟩ :=
      regular.commonSupertype_comm firstFound secondFound
    rw [computed, otherComputed]
  above computed := by
    rw [regular.isAssignable_iff_isWithin, regular.isAssignable_iff_isWithin]
    exact regular.isWithin_commonSupertype computed
  nearest computed isClass below above := by
    rw [regular.isAssignable_iff_isWithin] at below above ⊢
    exact regular.isWithin_of_isClass computed isClass below above

theorem core_isNamedRegular : core.IsNamedRegular where
  toIsRegular := core_isRegular
  named := core_wellFormed.named

/-- Two boxes of numbers have the class of numbers in common, and every other class that both have
in common is above that. -/
theorem core_findsNearest :
    core.IsNamedRegular ∧
      core.commonSupertype (.object .integer) (.object .long) = .ok (.object .number) ∧
      core.commonSupertype (.object .long) (.object .integer) = .ok (.object .number) ∧
      core.isAssignable (.object .integer) (.object .number) = .ok true ∧
      ∀ bound, core.IsClass bound →
        core.isAssignable (.object .integer) (.object bound) = .ok true →
        core.isAssignable (.object .long) (.object bound) = .ok true →
        core.isAssignable (.object .number) (.object bound) = .ok true := by
  have laws := findsNearest_of_isNamedRegular core_isNamedRegular
  have isInteger : RefType.IsFound core (.object .integer) := by
    rintro name ⟨⟩
    exact ⟨CoreClass.numberBox .int .intValue, by decide +kernel⟩
  have isLong : RefType.IsFound core (.object .long) := by
    rintro name ⟨⟩
    exact ⟨CoreClass.numberBox .long .longValue, by decide +kernel⟩
  have computed : core.commonSupertype (.object .integer) (.object .long) =
      .ok (.object .number) := by decide +kernel
  exact ⟨core_isNamedRegular, computed, (laws.comm isLong isInteger).trans computed,
    (laws.above computed).1, fun bound => laws.nearest computed⟩

end Hierarchy

/-! ## Other hierarchies -/

namespace Aliased

def absent : BinaryName := ⟨"a/Absent", by decide⟩
def upper : BinaryName := ⟨"a/Upper", by decide⟩
def lower : BinaryName := ⟨"a/Lower", by decide⟩
def lowest : BinaryName := ⟨"a/Lowest", by decide⟩

/-- Three classes above each other. The lowest one is found under its own name, but declares that of
the uppermost. -/
def hierarchy : Hierarchy where
  declared := [
    CoreClass.publicClass upper [] [],
    { CoreClass.publicClass lower [] [] with super := some upper }]
  loaded := [(lowest, .ok { CoreClass.publicClass upper [] [] with super := some lower })]

end Aliased

open Aliased in
/-- The order of two types matters where the class of one is missing, and where a class is found
under another name than its own, although the declarations are as the language makes them. -/
theorem commonSupertype_order_matters :
    (Hierarchy.core.IsRegular ∧
        Hierarchy.core.commonSupertype (.object .runnable) (.object absent) =
          .ok (.object .object) ∧
        Hierarchy.core.commonSupertype (.object absent) (.object .runnable) =
          .error (.missingClass "a/Absent")) ∧
      hierarchy.IsRegular ∧
        (∀ name ∈ [lowest, lower, upper], (hierarchy.resolve name).isOk = true) ∧
        hierarchy.commonSupertype (.object lowest) (.object lower) = .ok (.object lower) ∧
        hierarchy.commonSupertype (.object lower) (.object lowest) = .ok (.object upper) := by
  refine ⟨⟨Hierarchy.core_isRegular, ?_, ?_⟩, Hierarchy.isRegular_of_allDeclared ?_, ?_, ?_, ?_⟩
  all_goals decide +kernel

end ClosureConversion
