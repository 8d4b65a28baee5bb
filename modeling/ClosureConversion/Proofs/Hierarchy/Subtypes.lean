import ClosureConversion.Proofs.Hierarchy.Regular

/-!
Contract: assignability is subtyping.

Owns:
- the subtypes of a type by the rules of the language;
- the same by the dimensions of the types and what is in them, which is what assignability goes by;
- assignability decides which types are subtypes, and is transitive.

Does not own: which classes are below each other.
-/

namespace ClosureConversion

namespace RefType

/-- The subtypes of a type, as the language defines them. -/
inductive IsSubtype (hierarchy : Hierarchy) : RefType → RefType → Prop where
  | refl (type : RefType) : IsSubtype hierarchy type type
  | trans {first second third : RefType} :
      IsSubtype hierarchy first second → IsSubtype hierarchy second third →
      IsSubtype hierarchy first third
  | declared {sub super : BinaryName} :
      hierarchy.Leads Hierarchy.parents sub super →
      IsSubtype hierarchy (.object sub) (.object super)
  | root (type : RefType) : IsSubtype hierarchy type (.object .object)
  | cloneable (element : FieldType) : IsSubtype hierarchy (arrayOf element) (.object .cloneable)
  | serializable (element : FieldType) :
      IsSubtype hierarchy (arrayOf element) (.object .serializable)
  | covariant {sub super : RefType} :
      IsSubtype hierarchy sub super →
      IsSubtype hierarchy (arrayOf (.ref sub)) (arrayOf (.ref super))

/-- How many dimensions the arrays of the type have. -/
def dimensions : RefType → Nat
  | .object _ => 0
  | .objectArray nesting _ => nesting + 1
  | .primitiveArray nesting _ => nesting + 1

/-- What is left of the type without its dimensions. -/
def innermost : RefType → BinaryName ⊕ BaseType
  | .object name => .inl name
  | .objectArray _ name => .inl name
  | .primitiveArray _ type => .inr type

/-- Classes are below each other by their declarations, and base types below themselves alone. -/
def InnerWithin (hierarchy : Hierarchy) : BinaryName ⊕ BaseType → BinaryName ⊕ BaseType → Prop
  | .inl sub, .inl super => hierarchy.Inherits sub super
  | .inr sub, .inr super => sub = super
  | _, _ => False

/-- Every array is below the class. -/
def InnerRoot : BinaryName ⊕ BaseType → Prop
  | .inl name => Hierarchy.isArrayRoot name = true
  | .inr _ => False

/-- One type is below another by what is in its dimensions, or because it has more of them. -/
def IsWithin (hierarchy : Hierarchy) (sub super : RefType) : Prop :=
  sub.dimensions = super.dimensions ∧ InnerWithin hierarchy sub.innermost super.innermost ∨
    super.dimensions < sub.dimensions ∧ InnerRoot super.innermost

variable {hierarchy : Hierarchy}

@[simp] theorem dimensions_arrayOf
    (type : RefType) :
    (arrayOf (.ref type)).dimensions = type.dimensions + 1 := by
  cases type <;> rfl

@[simp] theorem innermost_arrayOf
    (type : RefType) :
    (arrayOf (.ref type)).innermost = type.innermost := by
  cases type <;> rfl

theorem dimensions_arrayOf_pos
    (element : FieldType) :
    0 < (arrayOf element).dimensions := by
  cases element with
  | base type => exact Nat.one_pos
  | ref type =>
      rw [dimensions_arrayOf]
      exact Nat.succ_pos _

/-- A type with dimensions is an array of something. -/
theorem exists_eq_arrayOf
    {type : RefType}
    (isArray : 0 < type.dimensions) :
    ∃ element, type = arrayOf element := by
  cases type with
  | object name => exact absurd isArray (Nat.lt_irrefl 0)
  | objectArray nesting name =>
      cases nesting with
      | zero => exact ⟨.object name, rfl⟩
      | succ nesting => exact ⟨.ref (.objectArray nesting name), rfl⟩
  | primitiveArray nesting type =>
      cases nesting with
      | zero => exact ⟨.base type, rfl⟩
      | succ nesting => exact ⟨.ref (.primitiveArray nesting type), rfl⟩

/-- A type with more than one dimension is an array of arrays. -/
theorem exists_eq_arrayOf_ref
    {type : RefType}
    {count : Nat}
    (isNested : count + 1 < type.dimensions) :
    ∃ inner : RefType, type = arrayOf (.ref inner) ∧ count < inner.dimensions := by
  obtain ⟨element, rfl⟩ := exists_eq_arrayOf (Nat.zero_lt_of_lt isNested)
  cases element with
  | base type =>
      have isFlat : count + 1 < 1 := isNested
      omega
  | ref inner =>
      rw [dimensions_arrayOf] at isNested
      exact ⟨inner, rfl, Nat.lt_of_succ_lt_succ isNested⟩

/-! ### The table follows the rules -/

/-- Every array is below the root class and the interfaces of arrays. -/
theorem isSubtype_of_isArrayRoot
    {type : RefType}
    {name : BinaryName}
    (isArray : 0 < type.dimensions)
    (isRoot : Hierarchy.isArrayRoot name = true) :
    IsSubtype hierarchy type (.object name) := by
  obtain ⟨element, rfl⟩ := exists_eq_arrayOf isArray
  simp only [Hierarchy.isArrayRoot, Bool.or_eq_true, decide_eq_true_eq] at isRoot
  rcases isRoot with (rfl | rfl) | rfl
  · exact .root _
  · exact .cloneable element
  · exact .serializable element

/-- An array with more dimensions is below an array of what every array is below. -/
theorem isSubtype_objectArray_of_isArrayRoot
    {type : RefType}
    {nesting : Nat}
    {name : BinaryName}
    (isNested : nesting + 1 < type.dimensions)
    (isRoot : Hierarchy.isArrayRoot name = true) :
    IsSubtype hierarchy type (.objectArray nesting name) := by
  induction nesting generalizing type with
  | zero =>
      obtain ⟨inner, rfl, isArray⟩ := exists_eq_arrayOf_ref isNested
      exact .covariant (isSubtype_of_isArrayRoot isArray isRoot)
  | succ nesting inductionHypothesis =>
      obtain ⟨inner, rfl, isInnerNested⟩ := exists_eq_arrayOf_ref isNested
      exact .covariant (inductionHypothesis isInnerNested)

/-- What the declarations lead to is above a class. -/
theorem isSubtype_of_inherits
    {sub super : BinaryName}
    (inherits : hierarchy.Inherits sub super) :
    IsSubtype hierarchy (.object sub) (.object super) := by
  rcases inherits with rfl | leads
  · exact .root _
  · induction leads with
    | refl => exact .refl _
    | tail _ isLast inductionHypothesis => exact inductionHypothesis.trans (.declared isLast)

theorem isSubtype_objectArray_of_inherits
    {sub super : BinaryName}
    (nesting : Nat)
    (inherits : hierarchy.Inherits sub super) :
    IsSubtype hierarchy (.objectArray nesting sub) (.objectArray nesting super) := by
  induction nesting with
  | zero => exact .covariant (isSubtype_of_inherits inherits)
  | succ nesting inductionHypothesis => exact .covariant inductionHypothesis

theorem IsWithin.isSubtype
    {sub super : RefType}
    (within : IsWithin hierarchy sub super) :
    IsSubtype hierarchy sub super := by
  rcases within with ⟨sameDimensions, innerWithin⟩ | ⟨moreDimensions, isRoot⟩
  · cases sub with
    | object sub =>
        cases super with
        | object super => exact isSubtype_of_inherits innerWithin
        | objectArray nesting super => cases sameDimensions
        | primitiveArray nesting type => cases sameDimensions
    | objectArray nesting sub =>
        cases super with
        | object super => cases sameDimensions
        | objectArray superNesting super =>
            cases sameDimensions
            exact isSubtype_objectArray_of_inherits nesting innerWithin
        | primitiveArray superNesting type => exact innerWithin.elim
    | primitiveArray nesting type =>
        cases super with
        | object super => cases sameDimensions
        | objectArray superNesting super => exact innerWithin.elim
        | primitiveArray superNesting other =>
            cases sameDimensions
            cases innerWithin
            exact .refl _
  · cases super with
    | object super => exact isSubtype_of_isArrayRoot moreDimensions isRoot
    | objectArray nesting super => exact isSubtype_objectArray_of_isArrayRoot moreDimensions isRoot
    | primitiveArray nesting type => exact isRoot.elim

/-! ### The rules follow the table -/

theorem InnerWithin.refl
    (inner : BinaryName ⊕ BaseType) :
    InnerWithin hierarchy inner inner := by
  cases inner with
  | inl name => exact .inr .refl
  | inr type => rfl

theorem InnerWithin.trans
    (regular : hierarchy.IsRegular)
    {first second third : BinaryName ⊕ BaseType}
    (lower : InnerWithin hierarchy first second)
    (upper : InnerWithin hierarchy second third) :
    InnerWithin hierarchy first third := by
  match first, second, third with
  | .inl _, .inl _, .inl _ => exact Hierarchy.Inherits.trans regular lower upper
  | .inr _, .inr _, .inr _ => exact Eq.trans lower upper

theorem InnerWithin.innerRoot
    (regular : hierarchy.IsRegular)
    {first second : BinaryName ⊕ BaseType}
    (within : InnerWithin hierarchy first second)
    (isRoot : InnerRoot first) :
    InnerRoot second := by
  match first, second with
  | .inl _, .inl _ => exact Hierarchy.Inherits.isArrayRoot regular within isRoot

theorem IsWithin.trans
    (regular : hierarchy.IsRegular)
    {first second third : RefType}
    (lower : IsWithin hierarchy first second)
    (upper : IsWithin hierarchy second third) :
    IsWithin hierarchy first third := by
  rcases lower with ⟨sameLower, innerLower⟩ | ⟨moreLower, rootLower⟩
  · rcases upper with ⟨sameUpper, innerUpper⟩ | ⟨moreUpper, rootUpper⟩
    · exact .inl ⟨sameLower.trans sameUpper, innerLower.trans regular innerUpper⟩
    · exact .inr ⟨sameLower ▸ moreUpper, rootUpper⟩
  · rcases upper with ⟨sameUpper, innerUpper⟩ | ⟨moreUpper, rootUpper⟩
    · exact .inr ⟨sameUpper ▸ moreLower, innerUpper.innerRoot regular rootLower⟩
    · exact .inr ⟨Nat.lt_trans moreUpper moreLower, rootUpper⟩

theorem IsWithin.of_isSubtype
    (regular : hierarchy.IsRegular)
    {sub super : RefType}
    (isSubtype : IsSubtype hierarchy sub super) :
    IsWithin hierarchy sub super := by
  induction isSubtype with
  | refl type => exact .inl ⟨rfl, .refl _⟩
  | trans _ _ lower upper => exact lower.trans regular upper
  | declared leads => exact .inl ⟨rfl, .inr (.single leads)⟩
  | root type =>
      cases type with
      | object name => exact .inl ⟨rfl, .inl rfl⟩
      | objectArray nesting name => exact .inr ⟨Nat.succ_pos _, rfl⟩
      | primitiveArray nesting type => exact .inr ⟨Nat.succ_pos _, rfl⟩
  | cloneable element =>
      have isRoot : Hierarchy.isArrayRoot .cloneable = true := by decide
      exact .inr ⟨dimensions_arrayOf_pos element, isRoot⟩
  | serializable element =>
      have isRoot : Hierarchy.isArrayRoot .serializable = true := by decide
      exact .inr ⟨dimensions_arrayOf_pos element, isRoot⟩
  | covariant _ within =>
      unfold IsWithin
      simp only [dimensions_arrayOf, innermost_arrayOf, Nat.add_right_cancel_iff,
        Nat.add_lt_add_iff_right]
      exact within

/-- The table and the rules say the same. -/
theorem isWithin_iff_isSubtype
    (regular : hierarchy.IsRegular)
    {sub super : RefType} :
    IsWithin hierarchy sub super ↔ IsSubtype hierarchy sub super :=
  ⟨IsWithin.isSubtype, IsWithin.of_isSubtype regular⟩

end RefType

namespace Hierarchy

variable {hierarchy : Hierarchy}

/-- Assignability goes by the table. -/
theorem IsRegular.isAssignable_iff_isWithin
    (regular : hierarchy.IsRegular)
    {sub super : RefType} :
    hierarchy.isAssignable sub super = .ok true ↔ sub.IsWithin hierarchy super := by
  unfold isAssignable
  split
  · rename_i same
    subst same
    exact ⟨fun _ => .inl ⟨rfl, .refl _⟩, fun _ => rfl⟩
  · rename_i different
    cases sub with
    | object sub =>
        cases super with
        | object super =>
            dsimp only
            rw [regular.isSubclass_eq_true_iff fun same => different (congrArg _ same)]
            simp [RefType.IsWithin, RefType.dimensions, RefType.innermost, RefType.InnerWithin]
        | objectArray superNesting super => simp [RefType.IsWithin, RefType.dimensions]
        | primitiveArray superNesting type => simp [RefType.IsWithin, RefType.dimensions]
    | objectArray nesting sub =>
        cases super with
        | object super =>
            simp [RefType.IsWithin, RefType.dimensions, RefType.innermost, RefType.InnerRoot]
        | objectArray superNesting super =>
            dsimp only
            split
            · rename_i sameNesting
              subst sameNesting
              rw [regular.isSubclass_eq_true_iff fun same => different (congrArg _ same)]
              simp [RefType.IsWithin, RefType.dimensions, RefType.innermost, RefType.InnerWithin]
            · rename_i differentNesting
              simp [RefType.IsWithin, RefType.dimensions, RefType.innermost, RefType.InnerRoot,
                differentNesting]
        | primitiveArray superNesting type =>
            simp [RefType.IsWithin, RefType.innermost, RefType.InnerWithin, RefType.InnerRoot]
    | primitiveArray nesting type =>
        cases super with
        | object super =>
            simp [RefType.IsWithin, RefType.dimensions, RefType.innermost, RefType.InnerRoot]
        | objectArray superNesting super =>
            simp [RefType.IsWithin, RefType.dimensions, RefType.innermost, RefType.InnerRoot,
              RefType.InnerWithin]
        | primitiveArray superNesting other =>
            have apart : nesting = superNesting → type ≠ other := by
              rintro rfl rfl
              exact different rfl
            simpa [RefType.IsWithin, RefType.dimensions, RefType.innermost, RefType.InnerWithin,
              RefType.InnerRoot] using apart

end Hierarchy

/-- The class that a type is made of is found. -/
def RefType.IsFound (hierarchy : Hierarchy) (type : RefType) : Prop :=
  ∀ name, type.innermost = .inl name → ∃ declaration, hierarchy.resolve name = .ok declaration

namespace Hierarchy

variable {hierarchy : Hierarchy}

/-- What assignability is: every value of a type is one of another type exactly if the first type
is a subtype of the second. It is decided for types whose classes are found. Leaving out interfaces
on the way to a class never changes the answer. What is assignable to a type is assignable to
whatever that is assignable to. -/
structure AssignsSubtypes (hierarchy : Hierarchy) : Prop where
  isAssignable_iff : ∀ sub super,
    hierarchy.isAssignable sub super = .ok true ↔ sub.IsSubtype hierarchy super
  decided : ∀ sub super : RefType, sub.IsFound hierarchy → super.IsFound hierarchy →
    ∃ answer, hierarchy.isAssignable sub super = .ok answer
  unpruned : ∀ sub super, hierarchy.isSubclassUnpruned sub super = hierarchy.isSubclass sub super
  trans : ∀ {first second third}, hierarchy.isAssignable first second = .ok true →
    hierarchy.isAssignable second third = .ok true → hierarchy.isAssignable first third = .ok true

/-- Assignability has an answer for types whose classes are found. -/
theorem IsRegular.exists_isAssignable_eq_ok
    (regular : hierarchy.IsRegular)
    {sub super : RefType}
    (subFound : sub.IsFound hierarchy)
    (superFound : super.IsFound hierarchy) :
    ∃ answer, hierarchy.isAssignable sub super = .ok answer := by
  have isDecided : ∀ subClass superClass, sub.innermost = .inl subClass →
      super.innermost = .inl superClass →
      ∃ answer, hierarchy.isSubclass subClass superClass = .ok answer := by
    intro subClass superClass isSub isSuper
    obtain ⟨declaration, isFound⟩ := subFound subClass isSub
    obtain ⟨target, isTarget⟩ := superFound superClass isSuper
    obtain ⟨answer, isAnswer, _⟩ := regular.exists_isSubclass_eq_ok isFound isTarget
    exact ⟨answer, isAnswer⟩
  unfold isAssignable
  split
  · exact ⟨true, rfl⟩
  · split
    · exact isDecided _ _ rfl rfl
    · exact ⟨_, rfl⟩
    · split
      · exact isDecided _ _ rfl rfl
      · exact ⟨_, rfl⟩
    · exact ⟨_, rfl⟩
    · exact ⟨_, rfl⟩
    · exact ⟨_, rfl⟩

/-- In a hierarchy as the language makes it, assignability is subtyping. -/
theorem assignsSubtypes_of_isRegular
    (regular : hierarchy.IsRegular) :
    hierarchy.AssignsSubtypes := by
  have isAssignable_iff : ∀ sub super,
      hierarchy.isAssignable sub super = .ok true ↔ sub.IsSubtype hierarchy super :=
    fun sub super => regular.isAssignable_iff_isWithin.trans (RefType.isWithin_iff_isSubtype regular)
  refine ⟨isAssignable_iff, ?_, regular.isSubclassUnpruned_eq, ?_⟩
  · exact fun sub super => regular.exists_isAssignable_eq_ok
  · intro first second third lower upper
    rw [isAssignable_iff] at lower upper ⊢
    exact lower.trans upper

/-- Boxes can be compared, and so arrays of arrays of them are those of what can be compared, but
arrays of numbers are no arrays of objects. -/
theorem core_assignsSubtypes :
    core.IsRegular ∧
      core.isAssignable (.objectArray 1 .integer) (.objectArray 1 .comparable) = .ok true ∧
      ¬RefType.IsSubtype core (.primitiveArray 0 .int) (.objectArray 0 .object) := by
  have isComparable : core.Leads parents .integer .comparable :=
    ⟨CoreClass.numberBox .int .intValue, by decide +kernel, by decide⟩
  refine ⟨core_isRegular, ?_, ?_⟩
  · rw [(assignsSubtypes_of_isRegular core_isRegular).isAssignable_iff]
    exact .covariant (.covariant (.declared isComparable))
  · rw [← (assignsSubtypes_of_isRegular core_isRegular).isAssignable_iff]
    decide

end Hierarchy

end ClosureConversion
