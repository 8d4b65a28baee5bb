import ClosureConversion.Proofs.Hierarchy.Endings
import ClosureConversion.Proofs.Hierarchy.Joins

/-!
Contract: how far a type is below the root class, as far as superclasses go.

Owns:
- hierarchies whose superclasses lead up, in which nothing is said about interfaces, and in which
  classes may be missing;
- a chain of superclasses is no longer than there are classes;
- the nearest common supertype of two types is the first one of them, or less far below the root.

Does not own: common supertypes of more than two types.
-/

namespace ClosureConversion

namespace Hierarchy

/-- Superclasses that lead up: a class is found under its own name, no class is above itself, and
none is above the root class. Classes may be missing. -/
structure IsGrounded (hierarchy : Hierarchy) : Prop where
  lookups : ∀ name, Returns (hierarchy.resolve name)
  named : ∀ {name declaration}, hierarchy.resolve name = .ok declaration → declaration.name = name
  acyclic : ∀ name, ¬Relation.TransGen (hierarchy.Leads superParents) name name
  rooted : ∀ {declaration}, hierarchy.resolve .object = .ok declaration → declaration.super = none

variable {hierarchy : Hierarchy}

theorem IsGrounded.not_circles
    (grounded : hierarchy.IsGrounded)
    (name : BinaryName) :
    ¬hierarchy.Circles superParents name := by
  rintro ⟨other, -, aboveItself⟩
  exact grounded.acyclic other aboveItself

/-- No class is above itself where the superclasses of every class are found. -/
theorem acyclic_of_knows
    (lookups : ∀ name, Returns (hierarchy.resolve name))
    (known : ∀ {name declaration}, hierarchy.resolve name = .ok declaration → hierarchy.Knows name)
    (name : BinaryName) :
    ¬Relation.TransGen (hierarchy.Leads superParents) name name := by
  intro aboveItself
  obtain ⟨_, ⟨declaration, found, _⟩, _⟩ := Relation.TransGen.head'_iff.mp aboveItself
  obtain ⟨chain, isChain⟩ := known found
  have returns : Returns (hierarchy.superclasses name) := by
    rw [isChain]
    exact avoids_ok
  exact (returns_superclasses_iff lookups).mp returns ⟨name, .refl, aboveItself⟩

/-- Every class is found under its own name where class files are loaded under their names. -/
theorem named_of_loaded
    (areNamed : ∀ entry ∈ hierarchy.loaded, ∀ declaration, entry.2 = .ok declaration →
      declaration.name = entry.1)
    {name : BinaryName}
    {declaration : ClassDeclaration}
    (found : hierarchy.resolve name = .ok declaration) :
    declaration.name = name := by
  unfold resolve at found
  split at found
  · rename_i declared isDeclared
    cases found
    simpa using List.find?_some isDeclared
  · unfold resolveLoaded at found
    split at found
    · rename_i loaded result isLoaded
      rw [areNamed _ (List.mem_of_find?_eq_some isLoaded) declaration found]
      simpa using List.find?_some isLoaded
    · split at found
      · rename_i core isCore
        cases found
        have isNamed := List.find?_some isCore
        simpa using isNamed
      · cases found

/-- Superclasses as the platform promises them lead up. -/
theorem WellFormed.isGrounded
    (wellFormed : hierarchy.WellFormed)
    (lookups : ∀ name, Returns (hierarchy.resolve name)) :
    hierarchy.IsGrounded where
  lookups := lookups
  named := wellFormed.named
  acyclic := acyclic_of_knows lookups wellFormed.acyclic
  rooted := by
    intro declaration found
    obtain ⟨root, isRoot, noSuper⟩ := wellFormed.rooted
    cases found.symm.trans isRoot
    exact noSuper

/-! ## Chains -/

/-- A class with a chain of superclasses is climbed from to the end of the chain. -/
theorem IsChain.climb_eq
    {name : BinaryName}
    {chain : List ClassDeclaration}
    (isChain : hierarchy.IsChain name chain) :
    hierarchy.climb name = .some (.ok chain) := by
  induction isChain with
  | root found isRoot => exact climb_eq_of_none found isRoot
  | above found hasSuper _ inductionHypothesis =>
      exact climb_eq_of_some found hasSuper inductionHypothesis

theorem superclasses_eq_ok_iff
    (lookups : ∀ name, Returns (hierarchy.resolve name))
    {name : BinaryName}
    {chain : List ClassDeclaration} :
    hierarchy.superclasses name = .ok chain ↔ hierarchy.IsChain name chain :=
  ⟨isChain_of_superclasses_eq_ok,
    fun isChain => ((climb_eq_some_iff lookups).mp isChain.climb_eq).1⟩

/-- A chain has no more classes than were not visited before it. -/
theorem length_le_of_chainFrom_eq_ok
    {name : BinaryName}
    {visited : List BinaryName}
    {chain : List ClassDeclaration}
    (isChain : hierarchy.chainFrom name visited = .ok chain) :
    chain.length ≤ hierarchy.unvisited visited := by
  fun_induction chainFrom hierarchy name visited generalizing chain with
  | case1 => cases isChain
  | case2 => cases isChain
  | case3 name visited fresh declaration found =>
      cases isChain
      exact Nat.lt_of_le_of_lt (Nat.zero_le _) (unvisited_cons_lt found fresh)
  | case4 name visited fresh declaration found super _ others isOthers inductionHypothesis =>
      cases isChain
      exact Nat.lt_of_le_of_lt (inductionHypothesis isOthers) (unvisited_cons_lt found fresh)
  | case5 => cases isChain

theorem length_le_of_superclasses_eq_ok
    {name : BinaryName}
    {chain : List ClassDeclaration}
    (isChain : hierarchy.superclasses name = .ok chain) :
    chain.length ≤ hierarchy.names.length :=
  Nat.le_trans (length_le_of_chainFrom_eq_ok isChain) (List.length_filter_le _ _)

/-- A class of a chain is its first one, or has a shorter chain. -/
theorem IsChain.eq_or_shorter_of_mem
    (grounded : hierarchy.IsGrounded)
    {name : BinaryName}
    {chain : List ClassDeclaration}
    (isChain : hierarchy.IsChain name chain)
    {declaration : ClassDeclaration}
    (member : declaration ∈ chain) :
    declaration.name = name ∨ ∃ suffix,
      hierarchy.IsChain declaration.name suffix ∧ suffix.length < chain.length := by
  induction isChain with
  | root found _ =>
      rw [List.mem_singleton.mp member]
      exact .inl (grounded.named found)
  | @above name super nearest chain found hasSuper isChain inductionHypothesis =>
      rcases List.mem_cons.mp member with rfl | isAbove
      · exact .inl (grounded.named found)
      · rcases inductionHypothesis isAbove with isSuper | ⟨suffix, isSuffix, shorter⟩
        · exact .inr ⟨chain, isSuper ▸ isChain, Nat.lt_succ_self _⟩
        · exact .inr ⟨suffix, isSuffix, Nat.lt_succ_of_lt shorter⟩

/-- There is nothing in the chain of the root class but itself. -/
theorem IsChain.eq_object_of_mem
    (grounded : hierarchy.IsGrounded)
    {chain : List ClassDeclaration}
    (isChain : hierarchy.IsChain .object chain)
    {declaration : ClassDeclaration}
    (member : declaration ∈ chain) :
    declaration.name = .object := by
  cases isChain with
  | root found _ =>
      rw [List.mem_singleton.mp member]
      exact grounded.named found
  | above found hasSuper _ => exact absurd ((grounded.rooted found).symm.trans hasSuper) nofun

/-! ## Classes -/

/-- How far a class is below the root class. A class without a chain of superclasses is below it
alone. -/
def height (hierarchy : Hierarchy) (name : BinaryName) : Nat :=
  if name = .object then 0
  else
    match hierarchy.superclasses name with
    | .ok chain => chain.length
    | .error _ => 1

@[simp] theorem height_object : hierarchy.height .object = 0 :=
  if_pos rfl

theorem height_pos
    {name : BinaryName}
    (isBelow : name ≠ .object) :
    0 < hierarchy.height name := by
  unfold height
  rw [if_neg isBelow]
  split
  · rename_i chain isChain
    obtain ⟨_, _, _, rfl⟩ := (isChain_of_superclasses_eq_ok isChain).resolves
    exact Nat.succ_pos _
  · exact Nat.one_pos

theorem height_le
    (name : BinaryName) :
    hierarchy.height name ≤ hierarchy.names.length := by
  unfold height
  split
  · exact Nat.zero_le _
  · split
    · rename_i chain isChain
      exact length_le_of_superclasses_eq_ok isChain
    · have someClass : 0 < CoreClass.all.length := by decide
      simp only [names, List.length_append, List.length_map]
      omega

/-- The class that a chain shares with other classes is the root class or one of the others. -/
theorem firstShared_eq_or_mem
    (others chain : List ClassDeclaration) :
    firstShared others chain = .object ∨
      ∃ declaration ∈ others, declaration.name = firstShared others chain := by
  induction chain with
  | nil => exact .inl rfl
  | cons declaration rest inductionHypothesis =>
      unfold firstShared
      split
      · exact .inl rfl
      · split
        · rename_i isShared
          obtain ⟨other, member, sameName⟩ := List.any_eq_true.mp isShared
          exact .inr ⟨other, member, of_decide_eq_true sameName⟩
        · exact inductionHypothesis

/-- The nearest common class of two classes is the first one, or less far below the root. -/
theorem commonSuperclass_eq_or_height_lt
    (grounded : hierarchy.IsGrounded)
    {first second shared : BinaryName}
    (computed : hierarchy.commonSuperclass first second = .ok shared) :
    shared = first ∨ hierarchy.height shared < hierarchy.height first := by
  have rootIsLower : BinaryName.object = first ∨
      hierarchy.height .object < hierarchy.height first := by
    by_cases isRoot : first = .object
    · exact .inl isRoot.symm
    · rw [height_object]
      exact .inr (height_pos isRoot)
  unfold commonSuperclass at computed
  split at computed
  · cases computed
    exact .inl rfl
  · obtain ⟨chain, isChain, computed⟩ := bind_eq_ok.mp computed
    split at computed
    · cases computed
      exact rootIsLower
    · split at computed
      · cases computed
        exact rootIsLower
      · obtain ⟨secondChain, _, computed⟩ := bind_eq_ok.mp computed
        cases computed
        rcases firstShared_eq_or_mem _ secondChain with
          isRoot | ⟨declaration, member, isShared⟩
        · rw [isRoot]
          exact rootIsLower
        · rw [← isShared]
          have chainOfFirst := isChain_of_superclasses_eq_ok isChain
          rcases chainOfFirst.eq_or_shorter_of_mem grounded member with
            isFirst | ⟨suffix, isSuffix, shorter⟩
          · exact .inl isFirst
          · by_cases isRoot : declaration.name = .object
            · rw [isRoot]
              exact rootIsLower
            · right
              have notFirst : first ≠ .object := by
                rintro rfl
                exact isRoot (chainOfFirst.eq_object_of_mem grounded member)
              unfold height
              rw [if_neg isRoot, if_neg notFirst, isChain,
                (superclasses_eq_ok_iff grounded.lookups).mpr isSuffix]
              exact shorter

/-! ## Types -/

/-- How far a type is below the root class. Arrays are below it and as far as their elements. -/
def typeHeight (hierarchy : Hierarchy) : RefType → Nat
  | .object name => hierarchy.height name
  | .objectArray _ name => hierarchy.height name + 1
  | .primitiveArray _ _ => 1

theorem typeHeight_le
    (type : RefType) :
    hierarchy.typeHeight type ≤ hierarchy.names.length + 1 := by
  cases type with
  | object name => exact Nat.le_succ_of_le (height_le name)
  | objectArray nesting name => exact Nat.succ_le_succ (height_le name)
  | primitiveArray nesting type => exact Nat.succ_le_succ (Nat.zero_le _)

/-- The nearest common supertype of two types is the first one, or less far below the root. -/
theorem commonSupertype_eq_or_typeHeight_lt
    (grounded : hierarchy.IsGrounded)
    {first second shared : RefType}
    (computed : hierarchy.commonSupertype first second = .ok shared) :
    shared = first ∨ hierarchy.typeHeight shared < hierarchy.typeHeight first := by
  unfold commonSupertype at computed
  split at computed
  · cases computed
    exact .inl rfl
  · split at computed
    · obtain ⟨name, isShared, rfl⟩ := map_eq_ok.mp computed
      rcases commonSuperclass_eq_or_height_lt grounded isShared with rfl | lower
      · exact .inl rfl
      · exact .inr lower
    · split at computed
      · obtain ⟨name, isShared, rfl⟩ := map_eq_ok.mp computed
        rcases commonSuperclass_eq_or_height_lt grounded isShared with rfl | lower
        · exact .inl rfl
        · exact .inr (Nat.succ_lt_succ lower)
      · cases computed
        right
        simp [typeHeight]
    · rename_i notObjects _
      cases computed
      cases first with
      | object name =>
          by_cases isRoot : name = .object
          · exact .inl (by rw [isRoot])
          · right
            simp only [typeHeight, height_object]
            exact height_pos isRoot
      | objectArray nesting name => exact .inr (by simp [typeHeight])
      | primitiveArray nesting type => exact .inr (by simp [typeHeight])

/-- The common supertype of two types is found, or not. -/
theorem IsGrounded.returns_commonSupertype
    (grounded : hierarchy.IsGrounded)
    (first second : RefType) :
    Returns (hierarchy.commonSupertype first second) := by
  rw [returns_commonSupertype_iff]
  intro firstClass secondClass _
  rw [returns_commonSuperclass_iff grounded.lookups]
  exact .inr ⟨grounded.not_circles firstClass, fun _ _ _ _ => grounded.not_circles secondClass⟩

end Hierarchy

end ClosureConversion
