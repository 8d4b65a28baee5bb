import ClosureConversion.Proofs.Closure.Calls
import ClosureConversion.Proofs.Closure.Naming

/-!
Contract: which members of the class of a closure have the same name.

Owns:
- names that are marked with numbers, of which a free one is always found;
- no two fields of the class of a closure have the same name;
- no two methods of it have the same name and type, exactly if the methods for default values are
  not named alike, and the implemented method is named like none of the others.

Does not own: bridges, and the names of the classes.
-/

namespace ClosureConversion

/-! ## Free names -/

@[simp]
theorem UnqualifiedName.toList_append
    (front back : UnqualifiedName) :
    (front.append back).text.toList = front.text.toList ++ back.text.toList :=
  String.toList_append

theorem UnqualifiedName.eq_of_toList_eq
    {name other : UnqualifiedName}
    (equal : name.text.toList = other.text.toList) :
    name = other := by
  cases name
  cases other
  cases String.toList_injective equal
  rfl

/-- Different numbers mark a name differently. -/
theorem numberedName_injective
    (name : UnqualifiedName) :
    Function.Injective (numberedName name) := by
  have marked : ∀ number, (numberedName name (number + 1)).text.toList =
      name.text.toList ++ '$' :: (number + 1).repr.toList := by
    intro number
    simp only [numberedName, UnqualifiedName.toList_append, List.append_assoc]
    rfl
  have longer : ∀ number, numberedName name (number + 1) ≠ name := by
    intro number equal
    have sameText := congrArg (fun name => name.text.toList) equal
    rw [marked] at sameText
    exact absurd (List.append_right_eq_self.mp sameText) (List.cons_ne_nil _ _)
  intro number other equal
  cases number with
  | zero =>
      cases other with
      | zero => rfl
      | succ other => exact absurd equal.symm (longer other)
  | succ number =>
      cases other with
      | zero => exact absurd equal (longer number)
      | succ other =>
          have sameText := congrArg (fun name => name.text.toList) equal
          rw [marked, marked, List.append_cancel_left_eq, List.cons.injEq] at sameText
          exact Nat.repr_injective (String.toList_injective sameText.2)

/-- The name that is found is free. -/
theorem freeName_not_mem
    (taken : List UnqualifiedName)
    (name : UnqualifiedName) :
    freeName taken name ∉ taken := by
  unfold freeName
  dsimp only
  have distinct : ((List.range (taken.length + 1)).map (numberedName name)).Nodup :=
    List.nodup_range.map (numberedName_injective name)
  obtain ⟨candidate, isCandidate, isFree⟩ := exists_mem_not_mem_of_length_lt distinct
    (show taken.length < _ by simp)
  cases found : ((List.range (taken.length + 1)).map (numberedName name)).find? fun candidate =>
      !taken.contains candidate with
  | some first => simpa using List.find?_some found
  | none =>
      have noneIsFree := List.find?_eq_none.mp found candidate isCandidate
      exact absurd (by simpa using noneIsFree) isFree

/-- The fields of captures are named apart, and apart from the names taken before. -/
theorem nodup_fieldNamesAfter
    (taken : List UnqualifiedName)
    (captures : List Capture) :
    (fieldNamesAfter taken captures).Nodup ∧ ∀ name ∈ fieldNamesAfter taken captures,
      name ∉ taken := by
  induction captures generalizing taken with
  | nil => exact ⟨List.nodup_nil, List.forall_mem_nil _⟩
  | cons capture captures inductionHypothesis =>
      obtain ⟨distinct, areFree⟩ := inductionHypothesis (freeName taken capture.name :: taken)
      refine ⟨List.nodup_cons.mpr ⟨fun member => areFree _ member List.mem_cons_self, distinct⟩, ?_⟩
      refine List.forall_mem_cons.mpr ⟨freeName_not_mem taken capture.name, ?_⟩
      exact fun name member isTaken => areFree name member (List.mem_cons_of_mem _ isTaken)

/-! ## Methods -/

/-- What tells the methods of a class apart. -/
def MethodDeclaration.signature (declaration : MethodDeclaration) : UnqualifiedName × MethodType :=
  (declaration.name, declaration.type)

theorem defaultName_injective_name
    {field other : FieldRef}
    (equal : defaultName field = defaultName other) :
    field.name = other.name := by
  have sameText := congrArg (fun name => name.text.toList) equal
  unfold defaultName at sameText
  simp only [UnqualifiedName.toList_append, List.append_cancel_left_eq] at sameText
  exact UnqualifiedName.eq_of_toList_eq sameText

theorem defaultName_ne_init
    (field : FieldRef) :
    defaultName field ≠ .init := by
  intro equal
  have sameText := congrArg (fun name => name.text.toList.head?) equal
  unfold defaultName at sameText
  simp only [UnqualifiedName.toList_append] at sameText
  rw [List.head?_append_of_ne_nil _ (by decide)] at sameText
  exact absurd sameText (by decide)

/-- The methods that the class of the closure is to declare are told apart: those for default values
by the names and types of their parameters, and the implemented method from all others. -/
structure SitePlan.NamesApart (plan : SitePlan) : Prop where
  defaults : (plan.defaultFields.map fun field => (field.name, field.type)).Nodup
  implemented : ∀ field ∈ plan.defaultFields,
    (plan.method.name, plan.method.type) ≠ (defaultName field, ⟨[], some field.type⟩)
  constructor : (plan.method.name, plan.method.type) ≠ (.init, plan.constructorType)

/-- The methods for default values are told apart just as the parameters are. -/
theorem nodup_map_signature_defaultDeclaration
    {fields : List FieldRef} :
    ((fields.map defaultDeclaration).map MethodDeclaration.signature).Nodup ↔
      (fields.map fun field => (field.name, field.type)).Nodup := by
  rw [List.map_map, List.nodup_iff_pairwise_ne, List.nodup_iff_pairwise_ne, List.pairwise_map,
    List.pairwise_map]
  have same : ∀ field other : FieldRef,
      (MethodDeclaration.signature ∘ defaultDeclaration) field =
        (MethodDeclaration.signature ∘ defaultDeclaration) other ↔
      (field.name, field.type) = (other.name, other.type) := by
    intro field other
    constructor
    · intro equal
      obtain ⟨sameName, sameType⟩ := Prod.mk.inj equal
      have sameResult := congrArg MethodType.result sameType
      exact Prod.ext (defaultName_injective_name sameName) (Option.some.inj sameResult)
    · intro equal
      obtain ⟨sameName, sameType⟩ := Prod.mk.inj equal
      change (defaultName field, (⟨[], some field.type⟩ : MethodType)) =
        (defaultName other, ⟨[], some other.type⟩)
      rw [defaultName, defaultName, sameName, sameType]
  simp only [ne_eq, same]

/-- The methods that the class of the closure is to declare have different names or types exactly if
they are told apart. -/
theorem SitePlan.nodup_signature_iff
    {plan : SitePlan} :
    (plan.declaredMethods.map MethodDeclaration.signature).Nodup ↔ plan.NamesApart := by
  unfold declaredMethods
  rw [List.cons_append, List.map_cons, List.map_append, List.nodup_cons, List.nodup_append',
    List.mem_append, nodup_map_signature_defaultDeclaration, List.map_singleton,
    List.disjoint_singleton, List.mem_singleton, List.map_map]
  constructor
  · rintro ⟨notInit, defaults, _, apart⟩
    refine ⟨defaults, fun field isDefault equal => apart ?_, fun equal => notInit (.inr equal.symm)⟩
    exact List.mem_map.mpr ⟨field, isDefault, equal.symm⟩
  · intro apart
    refine ⟨?_, apart.defaults, List.nodup_singleton _, fun member => ?_⟩
    · rintro (member | equal)
      · obtain ⟨field, _, equal⟩ := List.mem_map.mp member
        exact defaultName_ne_init field (congrArg Prod.fst equal)
      · exact apart.constructor equal.symm
    · obtain ⟨field, isDefault, equal⟩ := List.mem_map.mp member
      exact apart.implemented field isDefault equal.symm

/-! ## The class -/

section Class

variable {method : Method} {sites : List SitePlan} {number : Nat} {self : SitePlan}
  {hierarchy : Hierarchy} {version : Version} {place : Place} {before after : BridgeTable}
  {definition : ClassDefinition}

/-- The fields of the class are named as the captures, marked where that is needed. -/
theorem map_name_fields_of_closureClass_eq_ok
    (made : closureClass method sites number self hierarchy version place before =
      .ok (definition, after)) :
    definition.fields.map FieldDeclaration.name = fieldNames self.captures.captures := by
  unfold closureClass at made
  simp only [thread_bind_eq_ok, thread_lift_eq_ok, thread_pure_eq_ok] at made
  obtain ⟨_, _, _, _, _, _, _, _, _, _, _, _, equal⟩ := made
  cases equal
  rw [List.map_map]
  have sameLength : (fieldNames self.captures.captures).length ≤ self.captures.captures.length :=
    Nat.le_of_eq (length_fieldNamesAfter [] _)
  exact List.map_snd_zip sameLength

/-- **Distinctness**: no two fields of the class of a closure have the same name, and no two methods
of it have the same name and type exactly if the methods that it is to declare are told apart. -/
theorem nodup_members_of_closureClass_eq_ok
    (made : closureClass method sites number self hierarchy version place before =
      .ok (definition, after)) :
    (definition.fields.map FieldDeclaration.name).Nodup ∧
      ((definition.methods.map fun method => method.declaration.signature).Nodup ↔
        self.NamesApart) := by
  obtain ⟨_, _, _, _, isClass⟩ := closureClass_eq_ok made
  refine ⟨?_, ?_⟩
  · rw [map_name_fields_of_closureClass_eq_ok made]
    exact (nodup_fieldNamesAfter [] _).1
  · rw [← SitePlan.nodup_signature_iff]
    have declared : definition.methods.map MethodDefinition.declaration = self.declaredMethods :=
      isClass.map_declaration
    rw [← declared, List.map_map]
    rfl

end Class

namespace TwoDefaults

/-- The name of the first parameter, and of two variables. -/
def addend : UnqualifiedName := ⟨"addend", by decide⟩

/-- Another name for the second parameter. -/
def augend : UnqualifiedName := ⟨"augend", by decide⟩

/-- A parameter of type int that a class declares. -/
def parameter (owner : BinaryName) (name : UnqualifiedName) : FieldRef := ⟨owner, name, .int⟩

/-- The class that declares the first parameter. -/
def first : BinaryName := ⟨"demo/First", by decide⟩

/-- The class that declares the second parameter. -/
def second : BinaryName := ⟨"demo/Second", by decide⟩

theorem isBinaryName_supplier : IsBinaryName "java/util/function/IntSupplier".toList := by
  decide

theorem isUnqualified_getAsInt : IsUnqualified "getAsInt".toList := by
  decide

/-- The type of the closure, whose method takes no arguments. -/
def supplier : BinaryName := ⟨"java/util/function/IntSupplier", isBinaryName_supplier⟩

/-- The factory of a closure with two parameters. -/
def factory : MethodRef where
  owner := .object first
  name := ⟨"sum", by decide⟩
  type := ⟨[.int, .int, .int], some (.object supplier)⟩
  ofInterface := false

/-- A method that makes a closure with default values for both parameters. -/
def method (name : UnqualifiedName) : Method where
  instructions := #[.pushInt 1, .op (.stack .dup), .field .putStatic (parameter first addend),
    .pushInt 2, .op (.stack .dup), .field .putStatic (parameter second name),
    .pushInt 3, .invoke .static factory, .op (.leave (some .reference))]
  owner := first
  flags := MethodFlags.accStatic
  name := ⟨"makeSum", by decide⟩
  type := ⟨[], some (.object supplier)⟩
  hasVariableTable := false
  maxLocals := 0

/-- The site of the closure. -/
def site (name : UnqualifiedName) : LambdaSite where
  id := 0
  line := none
  factory := factory
  target := supplier
  parameters := [⟨some (parameter first addend), ⟨0, 3⟩, some ⟨0, 1⟩⟩,
    ⟨some (parameter second name), ⟨3, 6⟩, some ⟨3, 4⟩⟩]
  body := ⟨6, 7⟩
  call := 7
  stop := 8
  parent := none

/-- The closure implements the method without arguments, so that both values are computed. It
captures two variables of one name. -/
def plan (name : UnqualifiedName) : SitePlan where
  site := site name
  captures := { captures := [⟨.local 0 0, addend, .int, .outerLocal, false⟩,
    ⟨.local 1 0, addend, .int, .outerLocal, false⟩] }
  method := ⟨supplier, ⟨"getAsInt", isUnqualified_getAsInt⟩, ⟨[], some .int⟩, true⟩
  className := ⟨"demo/First$IntSupplier$L0$0", by decide⟩

theorem exists_closureClass
    (name : UnqualifiedName) :
    ∃ definition after, closureClass (method name) [plan name] 0 (plan name) .core .java8
      (Place.ofMethod (method name)) (.ofClass (CoreClass.publicClass first [] [])) =
        .ok (definition, after) :=
  ⟨_, _, by with_unfolding_all rfl⟩

end TwoDefaults

open TwoDefaults in
/-- The members are told apart if the parameters have different names, also where captured variables
have the same name. -/
theorem differentDefaults_areDistinct :
    ∃ definition after, closureClass (method augend) [plan augend] 0 (plan augend) .core .java8
        (Place.ofMethod (method augend)) (.ofClass (CoreClass.publicClass first [] [])) =
          .ok (definition, after) ∧
      (definition.fields.map FieldDeclaration.name).Nodup ∧
      (definition.methods.map fun method => method.declaration.signature).Nodup := by
  obtain ⟨definition, after, made⟩ := exists_closureClass augend
  have apart : (plan augend).NamesApart := ⟨by decide, by decide, by decide⟩
  obtain ⟨fields, methods⟩ := nodup_members_of_closureClass_eq_ok made
  exact ⟨definition, after, made, fields, methods.mpr apart⟩

open TwoDefaults in
/-- Parameters of one name and type that different classes declare get methods of one name and type
for their default values. -/
theorem sameDefaults_areNotDistinct :
    ∃ definition after, closureClass (method addend) [plan addend] 0 (plan addend) .core .java8
        (Place.ofMethod (method addend)) (.ofClass (CoreClass.publicClass first [] [])) =
          .ok (definition, after) ∧
      ¬ (definition.methods.map fun method => method.declaration.signature).Nodup := by
  obtain ⟨definition, after, made⟩ := exists_closureClass addend
  obtain ⟨_, _, _, _, isClass⟩ := closureClass_eq_ok made
  have declared : definition.methods.map MethodDefinition.declaration =
      (plan addend).declaredMethods := isClass.map_declaration
  refine ⟨definition, after, made, fun distinct => ?_⟩
  rw [← Function.comp_def, ← List.map_map, declared, SitePlan.nodup_signature_iff] at distinct
  exact absurd distinct.defaults (by decide)

end ClosureConversion
