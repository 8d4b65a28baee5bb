import ClosureConversion.Proofs.Flow.Serving

/-!
Contract: an instruction that can be executed in a frame can be executed in every frame
that it covers, and the frame afterwards covers the other one.

Owns:
- the orders of values for which that holds: with the names of classes forgotten, and by the
  superclasses of a hierarchy, among values of known classes;
- that law for the operand stack, the local variables and every instruction, also where the
  covered frame lacks the values at the bottom of the stack: then the instruction can be
  executed or it runs out of values;
- wide values keep both their halves;
- the classes of the values after an instruction are those of the values before it and
  those that the instruction names.

Does not own: where control goes after an instruction.
-/

namespace ClosureConversion

/-! ## Named types -/

/-- The reference type of an object. -/
def VerificationType.namedTypes : VType → List RefType
  | .object type => [type]
  | _ => []

/-- The reference types of the values that an instruction makes. -/
def Instruction.namedTypes {Label : Type} : Instruction Label → List RefType
  | .pushLiteral literal => literal.type.namedTypes
  | .field _ member => (VerificationType.ofField member.type).namedTypes
  | .invoke _ method =>
      method.type.result.toList.flatMap fun type => (VerificationType.ofField type).namedTypes
  | .invokeDynamic call =>
      call.type.result.toList.flatMap fun type => (VerificationType.ofField type).namedTypes
  | .new name => [.object name]
  | .newRefArray element => [RefType.arrayOf (.ref element)]
  | .checkCast type => [type]
  | .newMultiArray type _ => [type]
  | _ => []

/-- The classes of all values that code makes in a class are known. -/
structure CodeIsKnown (hierarchy : Hierarchy) (owner : BinaryName)
    (code : Array (Instruction Nat)) : Prop where
  owner : hierarchy.Knows owner
  instructions : ∀ {index : Nat} {instruction : Instruction Nat},
    code[index]? = some instruction →
    ∀ type ∈ instruction.namedTypes, RefType.IsKnown hierarchy type

variable {hierarchy : Hierarchy}

theorem VerificationType.isKnown_of_namedTypes
    {type : VType}
    (known : ∀ named ∈ type.namedTypes, named.IsKnown hierarchy) :
    type.IsKnown hierarchy := by
  cases type with
  | object named => exact known named List.mem_cons_self
  | _ => trivial

/-! ## Values -/

namespace VerificationType

@[simp] theorem namedTypes_type_of_localKind
    (kind : LocalKind) :
    (kind.type).namedTypes = [] := by
  cases kind <;> rfl

theorem KnownBelow.refl
    {type : VType}
    (known : type.IsKnown hierarchy) :
    type.KnownBelow hierarchy type :=
  ⟨known, .refl type⟩

end VerificationType

/-- An order of values, and one of what slots hold, that instructions respect: what they ask of
a value, they find in the values below it, and what they make is below itself. -/
structure ValueOrder (Below Fits : VType → VType → Prop) : Prop where
  serves : ∀ {special general}, Below special general → special.ServesAs general
  refl : ∀ {type : VType},
    (∀ named ∈ type.namedTypes, Below (.object named) (.object named)) → Below type type
  primitiveArray : ∀ nesting type,
    Below (.object (.primitiveArray nesting type)) (.object (.primitiveArray nesting type))
  elementOf : ∀ {special general} (kind : ArrayKind), Below special general →
    Refines Below (kind.elementOf special) (kind.elementOf general)
  fits : ∀ {special general}, Below special general → Fits special general
  fits_top : ∀ {type}, Below type type → Fits type .top
  eq_top_or_below : ∀ {special general}, Fits special general →
    general = .top ∨ Below special general

/-- What code makes in a class is below itself. -/
structure CodeIsOrdered (Below : VType → VType → Prop) (owner : BinaryName)
    (code : Array (Instruction Nat)) : Prop where
  owner : Below (.object (.object owner)) (.object (.object owner))
  instructions : ∀ {index : Nat} {instruction : Instruction Nat},
    code[index]? = some instruction →
    ∀ type ∈ instruction.namedTypes, Below (.object type) (.object type)

namespace NumericKind

theorem isReference_type
    (kind : NumericKind) :
    kind.type.isReference = false := by
  cases kind <;> rfl

end NumericKind

namespace IntegerKind

theorem isReference_type
    (kind : IntegerKind) :
    kind.type.isReference = false := by
  cases kind <;> rfl

end IntegerKind

theorem LocalKind.isKnown_type
    (kind : LocalKind) :
    kind.type.IsKnown hierarchy := by
  cases kind <;> trivial

namespace ArrayKind

/-- The elements of an array of known classes are of known classes. -/
theorem isKnown_of_elementOf_eq_ok
    {array element : VType}
    (known : array.IsKnown hierarchy)
    {kind : ArrayKind}
    (computed : kind.elementOf array = .ok element) :
    element.IsKnown hierarchy := by
  unfold elementOf at computed
  split at computed
  · cases computed
    exact kind.toLocal.isKnown_type
  · split at computed
    · cases computed
      exact known
    · cases computed
      exact known
  · cases computed
    trivial
  · split at computed
    · cases computed
      exact kind.toLocal.isKnown_type
    · cases computed
  · cases computed

/-- What an array instruction finds in arrays that are below each other. -/
theorem refines_elementOf_of_isBelow
    {special general : VType}
    (below : special.IsBelow hierarchy general)
    (kind : ArrayKind) :
    Refines (VerificationType.IsBelow hierarchy) (kind.elementOf special)
      (kind.elementOf general) := by
  cases below with
  | refl =>
      intro element computed
      exact ⟨element, computed, .refl element⟩
  | null type =>
      intro element computed
      refine ⟨kind.toLocal.type, rfl, ?_⟩
      cases type with
      | object name => cases kind <;> cases computed
      | objectArray nesting name =>
          cases kind <;> cases nesting <;> cases computed
          · exact .null _
          · exact .null _
      | primitiveArray nesting base =>
          cases nesting with
          | zero =>
              cases base <;> cases kind <;> cases computed <;> exact .refl _
          | succ inner =>
              cases kind <;> cases computed
              exact .null _
  | object below =>
      cases below with
      | refl =>
          intro element computed
          exact ⟨element, computed, .refl element⟩
      | root type =>
          intro element computed
          cases kind <;> cases computed
      | object steps =>
          intro element computed
          cases kind <;> cases computed
      | objectArray nesting steps =>
          intro element computed
          cases kind <;> cases nesting <;> cases computed
          · exact ⟨_, rfl, .object (.object steps)⟩
          · exact ⟨_, rfl, .object (.objectArray _ steps)⟩

end ArrayKind

/-- The order in which the names of classes are forgotten. -/
theorem valueOrder_servesAs :
    ValueOrder VerificationType.ServesAs VerificationType.ServesSlot where
  serves := id
  refl := fun _ => .refl _
  primitiveArray := fun _ _ => .refl _
  elementOf := fun kind serves => kind.refines_elementOf_of_servesAs serves
  fits := .inr
  fits_top := fun _ => .inl rfl
  eq_top_or_below := id

theorem codeIsOrdered_servesAs
    (owner : BinaryName)
    (code : Array (Instruction Nat)) :
    CodeIsOrdered VerificationType.ServesAs owner code where
  owner := .refl _
  instructions := fun _ _ _ => .refl _

/-- The order by the superclasses of a hierarchy, among values of known classes. -/
theorem valueOrder_knownBelow :
    ValueOrder (VerificationType.KnownBelow hierarchy) (VerificationType.KnownFits hierarchy) where
  serves := fun below => below.2.servesAs
  refl := fun named => .refl (VerificationType.isKnown_of_namedTypes fun type member =>
    (named type member).1)
  primitiveArray := fun _ _ => .refl trivial
  elementOf := by
    intro special general kind below above computed
    obtain ⟨element, found, elementBelow⟩ :=
      kind.refines_elementOf_of_isBelow below.2 above computed
    exact ⟨element, found, kind.isKnown_of_elementOf_eq_ok below.1 found, elementBelow⟩
  fits := fun below => ⟨below.1, .inr below.2⟩
  fits_top := fun below => ⟨below.1, .inl rfl⟩
  eq_top_or_below := fun fits => fits.2.imp_right fun below => ⟨fits.1, below⟩

theorem CodeIsKnown.isOrdered
    {owner : BinaryName}
    {code : Array (Instruction Nat)}
    (codeKnown : CodeIsKnown hierarchy owner code) :
    CodeIsOrdered (VerificationType.KnownBelow hierarchy) owner code where
  owner := .refl codeKnown.owner
  instructions := fun isInstruction type member =>
    .refl (codeKnown.instructions isInstruction type member)

/-! ## The operand stack -/

namespace OperandStack

/-- The values of a stack are below those at the top of another one, which has so many more
values underneath. -/
inductive IsTopOf (Below : VType → VType → Prop) (depth : Nat) :
    OperandStack → OperandStack → Prop where
  | base {underneath : OperandStack} :
      underneath.length = depth → IsTopOf Below depth [] underneath
  | cons {value above : VType} {rest restAbove : OperandStack} :
      Below value above → IsTopOf Below depth rest restAbove →
      IsTopOf Below depth (value :: rest) (above :: restAbove)

/-- A value below another one, on a stack that is the top of another one. -/
def PopIsTopOf (Below : VType → VType → Prop) (depth : Nat)
    (special general : VType × OperandStack) : Prop :=
  Below special.1 general.1 ∧ IsTopOf Below depth special.2 general.2

/-- Values below others, on a stack that is the top of another one. -/
def TakeIsTopOf (Below : VType → VType → Prop) (depth : Nat)
    (special general : OperandStack × OperandStack) : Prop :=
  List.Forall₂ Below special.1 general.1 ∧ IsTopOf Below depth special.2 general.2

/-- A stack that lacks some values of another one may run out of them. -/
def MayRunOut (depth : Nat) (failure : FlowError) : Prop :=
  0 < depth ∧ failure = .emptyStack

namespace IsTopOf

variable {Below : VType → VType → Prop} {depth : Nat} {special general : OperandStack}

theorem length_eq
    (top : IsTopOf Below depth special general) :
    general.length = special.length + depth := by
  induction top with
  | base isBase => rw [isBase, List.length_nil, Nat.zero_add]
  | cons _ _ inductionHypothesis =>
      rw [List.length_cons, List.length_cons, inductionHypothesis]
      omega

/-- The stack is below the values that stand above the others. -/
theorem forall₂_take
    (top : IsTopOf Below depth special general) :
    List.Forall₂ Below special (general.take special.length) := by
  induction top with
  | base _ => exact .nil
  | cons below _ inductionHypothesis => exact .cons below inductionHypothesis

theorem append
    {front frontAbove : OperandStack}
    (frontBelow : List.Forall₂ Below front frontAbove)
    (top : IsTopOf Below depth special general) :
    IsTopOf Below depth (front ++ special) (frontAbove ++ general) := by
  induction frontBelow with
  | nil => exact top
  | cons below _ inductionHypothesis => exact .cons below inductionHypothesis

theorem insertCopy
    {copied skipped copiedAbove skippedAbove : OperandStack}
    (copiedBelow : List.Forall₂ Below copied copiedAbove)
    (skippedBelow : List.Forall₂ Below skipped skippedAbove)
    (top : IsTopOf Below depth special general) :
    IsTopOf Below depth (copied ++ skipped ++ copied ++ special)
      (copiedAbove ++ skippedAbove ++ copiedAbove ++ general) :=
  top.append (List.rel_append (List.rel_append copiedBelow skippedBelow) copiedBelow)

theorem map
    {f : VType → VType}
    (kept : ∀ value above, Below value above → Below (f value) (f above))
    (top : IsTopOf Below depth special general) :
    IsTopOf Below depth (special.map f) (general.map f) := by
  induction top with
  | base isBase => exact .base (by rw [List.length_map, isBase])
  | cons below _ inductionHypothesis => exact .cons (kept _ _ below) inductionHypothesis

/-- What is above the whole stack is above its top. -/
theorem trans
    {Upper Whole : VType → VType → Prop}
    (composed : ∀ first second third, Below first second → Upper second third →
      Whole first third)
    {third : OperandStack}
    (top : IsTopOf Below depth special general)
    (upper : List.Forall₂ Upper general third) :
    IsTopOf Whole depth special third := by
  induction top generalizing third with
  | base isBase => exact .base (upper.length_eq.symm.trans isBase)
  | cons below _ inductionHypothesis =>
      cases upper with
      | cons headUpper tailUpper =>
          exact .cons (composed _ _ _ below headUpper) (inductionHypothesis tailUpper)

end IsTopOf

/-- Where no value is missing, the whole stack is below the other one. -/
theorem isTopOf_zero_iff
    {Below : VType → VType → Prop}
    {special general : OperandStack} :
    IsTopOf Below 0 special general ↔ List.Forall₂ Below special general := by
  constructor
  · intro top
    induction top with
    | base isBase =>
        rw [List.length_eq_zero_iff.mp isBase]
        exact .nil
    | cons below _ inductionHypothesis => exact .cons below inductionHypothesis
  · intro below
    induction below with
    | nil => exact .base rfl
    | cons headBelow _ inductionHypothesis => exact .cons headBelow inductionHypothesis

theorem refines_pop
    {Below : VType → VType → Prop}
    {depth : Nat}
    {special general : OperandStack}
    (top : IsTopOf Below depth special general) :
    RefinesUnless (MayRunOut depth) (PopIsTopOf Below depth) special.pop general.pop := by
  cases top with
  | base isBase =>
      cases general with
      | nil => exact refinesUnless_error
      | cons value rest =>
          intro result _
          exact .inl ⟨.emptyStack, rfl, by rw [← isBase]; exact Nat.succ_pos _, rfl⟩
  | cons headBelow tailTop => exact refinesUnless_ok ⟨headBelow, tailTop⟩

end OperandStack

namespace ValueOrder

open OperandStack

variable {Below Fits : VType → VType → Prop} (order : ValueOrder Below Fits)
variable {depth : Nat} {special general : OperandStack}

include order

/-- What is no object is below itself. -/
theorem refl_of_namedTypes_eq_nil
    {type : VType}
    (plain : type.namedTypes = []) :
    Below type type := by
  apply order.refl
  rw [plain]
  exact nofun

theorem refl_kind
    (kind : LocalKind) :
    Below kind.type kind.type :=
  order.refl_of_namedTypes_eq_nil (VerificationType.namedTypes_type_of_localKind kind)

theorem refines_popType
    (top : IsTopOf Below depth special general)
    {expected : VType}
    (noReference : expected.isReference = false) :
    RefinesUnless (MayRunOut depth) (IsTopOf Below depth)
      (special.popType expected) (general.popType expected) := by
  refine (refines_pop top).bind ?_
  rintro ⟨value, rest⟩ ⟨above, restAbove⟩ ⟨headBelow, tailTop⟩
  refine refinesUnless_if ?_ (refinesUnless_ok tailTop)
  rintro rfl
  exact (order.serves headBelow).eq_of_not_reference noReference

theorem refines_popTypes
    (top : IsTopOf Below depth special general)
    {expected : List VType}
    (noReferences : ∀ type ∈ expected, type.isReference = false) :
    RefinesUnless (MayRunOut depth) (IsTopOf Below depth)
      (special.popTypes expected) (general.popTypes expected) := by
  induction expected generalizing special general with
  | nil => exact refinesUnless_ok top
  | cons type others inductionHypothesis =>
      refine (order.refines_popType top (noReferences type List.mem_cons_self)).bind ?_
      intro rest restAbove restTop
      exact inductionHypothesis restTop
        fun other member => noReferences other (List.mem_cons_of_mem _ member)

theorem refines_replaceTypes
    (top : IsTopOf Below depth special general)
    {consumed : List VType}
    (noReferences : ∀ type ∈ consumed, type.isReference = false)
    {produced : VType}
    (ordered : Below produced produced) :
    RefinesUnless (MayRunOut depth) (IsTopOf Below depth)
      (special.replaceTypes consumed produced) (general.replaceTypes consumed produced) := by
  refine (order.refines_popTypes top noReferences).bind ?_
  intro rest restAbove restTop
  exact refinesUnless_ok (.cons ordered restTop)

theorem refines_popReference
    (top : IsTopOf Below depth special general) :
    RefinesUnless (MayRunOut depth) (IsTopOf Below depth)
      special.popReference general.popReference := by
  refine (refines_pop top).bind ?_
  rintro ⟨value, rest⟩ ⟨above, restAbove⟩ ⟨headBelow, tailTop⟩
  refine refinesUnless_if ?_ (refinesUnless_ok tailTop)
  intro isReference
  rw [(order.serves headBelow).isReference_eq]
  exact isReference

theorem refines_popKind
    (top : IsTopOf Below depth special general)
    (kind : LocalKind) :
    RefinesUnless (MayRunOut depth) (PopIsTopOf Below depth)
      (special.popKind kind) (general.popKind kind) := by
  refine (refines_pop top).bind ?_
  rintro ⟨value, rest⟩ ⟨above, restAbove⟩ ⟨headBelow, tailTop⟩
  exact refinesUnless_if (order.serves headBelow).isOfKind
    (refinesUnless_ok ⟨headBelow, tailTop⟩)

theorem refines_popFitting
    (top : IsTopOf Below depth special general)
    (declared : FieldType) :
    RefinesUnless (MayRunOut depth) (IsTopOf Below depth)
      (special.popFitting declared) (general.popFitting declared) := by
  refine (refines_pop top).bind ?_
  rintro ⟨value, rest⟩ ⟨above, restAbove⟩ ⟨headBelow, tailTop⟩
  exact refinesUnless_if (order.serves headBelow).fits (refinesUnless_ok tailTop)

theorem refines_popArguments
    (top : IsTopOf Below depth special general)
    (parameters : List FieldType) :
    RefinesUnless (MayRunOut depth) (IsTopOf Below depth)
      (special.popArguments parameters) (general.popArguments parameters) := by
  unfold popArguments
  induction parameters.reverse generalizing special general with
  | nil => exact refinesUnless_ok top
  | cons parameter others inductionHypothesis =>
      rw [List.foldlM_cons, List.foldlM_cons]
      exact (order.refines_popFitting top parameter).bind
        fun rest restAbove restTop => inductionHypothesis restTop

theorem refines_takeSingle
    (top : IsTopOf Below depth special general) :
    RefinesUnless (MayRunOut depth) (TakeIsTopOf Below depth)
      special.takeSingle general.takeSingle := by
  refine (refines_pop top).bind ?_
  rintro ⟨value, rest⟩ ⟨above, restAbove⟩ ⟨headBelow, tailTop⟩
  dsimp only at headBelow tailTop ⊢
  rw [(order.serves headBelow).isWide_eq]
  split
  · exact refinesUnless_error
  · exact refinesUnless_ok ⟨.cons headBelow .nil, tailTop⟩

theorem refines_takePair
    (top : IsTopOf Below depth special general) :
    RefinesUnless (MayRunOut depth) (TakeIsTopOf Below depth)
      special.takePair general.takePair := by
  refine (refines_pop top).bind ?_
  rintro ⟨value, rest⟩ ⟨above, restAbove⟩ ⟨headBelow, tailTop⟩
  dsimp only at headBelow tailTop ⊢
  rw [(order.serves headBelow).isWide_eq]
  split
  · exact refinesUnless_ok ⟨.cons headBelow .nil, tailTop⟩
  · refine (order.refines_takeSingle tailTop).bind ?_
    rintro ⟨second, rest⟩ ⟨secondAbove, restAbove⟩ ⟨secondBelow, restTop⟩
    exact refinesUnless_ok ⟨.cons headBelow secondBelow, restTop⟩

theorem refines_loadElement
    (top : IsTopOf Below depth special general)
    (kind : ArrayKind) :
    RefinesUnless (MayRunOut depth) (IsTopOf Below depth)
      (special.loadElement kind) (general.loadElement kind) := by
  refine (order.refines_popType top rfl).bind ?_
  intro rest restAbove restTop
  refine (refines_pop restTop).bind ?_
  rintro ⟨array, rest⟩ ⟨arrayAbove, restAbove⟩ ⟨arrayBelow, restTop⟩
  refine (order.elementOf kind arrayBelow).unless.bind ?_
  intro element elementAbove elementBelow
  exact refinesUnless_ok (.cons elementBelow restTop)

theorem refines_storeElement
    (top : IsTopOf Below depth special general)
    (kind : ArrayKind) :
    RefinesUnless (MayRunOut depth) (IsTopOf Below depth)
      (special.storeElement kind) (general.storeElement kind) := by
  refine (refines_pop top).bind ?_
  rintro ⟨value, rest⟩ ⟨above, restAbove⟩ ⟨valueBelow, restTop⟩
  refine (order.refines_popType restTop rfl).bind ?_
  intro rest restAbove restTop
  refine (refines_pop restTop).bind ?_
  rintro ⟨array, rest⟩ ⟨arrayAbove, restAbove⟩ ⟨arrayBelow, restTop⟩
  refine (order.elementOf kind arrayBelow).unless.bind ?_
  intro _ _ _
  exact refinesUnless_if (order.serves valueBelow).isOfKind (refinesUnless_ok restTop)

theorem refines_arrayLength
    (top : IsTopOf Below depth special general) :
    RefinesUnless (MayRunOut depth) (IsTopOf Below depth)
      special.arrayLength general.arrayLength := by
  refine (refines_pop top).bind ?_
  rintro ⟨array, rest⟩ ⟨arrayAbove, restAbove⟩ ⟨arrayBelow, restTop⟩
  have lengthPushed : IsTopOf Below depth (.int :: rest) (.int :: restAbove) :=
    .cons (order.refl_of_namedTypes_eq_nil rfl) restTop
  have serves : array.ServesAs arrayAbove := order.serves arrayBelow
  cases serves with
  | refl =>
      dsimp only
      split
      · exact refinesUnless_ok lengthPushed
      · exact refinesUnless_ok lengthPushed
      · exact refinesUnless_ok lengthPushed
      · exact refinesUnless_error
  | null type =>
      cases type with
      | object name => exact refinesUnless_error
      | objectArray nesting name => exact refinesUnless_ok lengthPushed
      | primitiveArray nesting base => exact refinesUnless_ok lengthPushed
  | @object sub super serves =>
      cases serves with
      | refl =>
          cases sub with
          | object name => exact refinesUnless_error
          | objectArray nesting name => exact refinesUnless_ok lengthPushed
          | primitiveArray nesting base => exact refinesUnless_ok lengthPushed
      | class_ type name => exact refinesUnless_error
      | objectArray nesting sub super => exact refinesUnless_ok lengthPushed

/-! ## Instructions on the operand stack -/

theorem refines_stackOperation
    (top : IsTopOf Below depth special general)
    (operation : StackOperation) :
    RefinesUnless (MayRunOut depth) (IsTopOf Below depth)
      (operation.apply special) (operation.apply general) := by
  cases operation with
  | pop =>
      refine (order.refines_takeSingle top).bind ?_
      rintro ⟨taken, rest⟩ ⟨takenAbove, restAbove⟩ ⟨_, restTop⟩
      exact refinesUnless_ok restTop
  | pop2 =>
      refine (order.refines_takePair top).bind ?_
      rintro ⟨taken, rest⟩ ⟨takenAbove, restAbove⟩ ⟨_, restTop⟩
      exact refinesUnless_ok restTop
  | dup =>
      refine (order.refines_takeSingle top).bind ?_
      rintro ⟨copied, rest⟩ ⟨copiedAbove, restAbove⟩ ⟨copiedBelow, restTop⟩
      exact refinesUnless_ok (restTop.append (List.rel_append copiedBelow copiedBelow))
  | dupX1 =>
      refine (order.refines_takeSingle top).bind ?_
      rintro ⟨copied, rest⟩ ⟨copiedAbove, restAbove⟩ ⟨copiedBelow, restTop⟩
      refine (order.refines_takeSingle restTop).bind ?_
      rintro ⟨skipped, rest⟩ ⟨skippedAbove, restAbove⟩ ⟨skippedBelow, restTop⟩
      exact refinesUnless_ok (restTop.insertCopy copiedBelow skippedBelow)
  | dupX2 =>
      refine (order.refines_takeSingle top).bind ?_
      rintro ⟨copied, rest⟩ ⟨copiedAbove, restAbove⟩ ⟨copiedBelow, restTop⟩
      refine (order.refines_takePair restTop).bind ?_
      rintro ⟨skipped, rest⟩ ⟨skippedAbove, restAbove⟩ ⟨skippedBelow, restTop⟩
      exact refinesUnless_ok (restTop.insertCopy copiedBelow skippedBelow)
  | dup2 =>
      refine (order.refines_takePair top).bind ?_
      rintro ⟨copied, rest⟩ ⟨copiedAbove, restAbove⟩ ⟨copiedBelow, restTop⟩
      exact refinesUnless_ok (restTop.append (List.rel_append copiedBelow copiedBelow))
  | dup2X1 =>
      refine (order.refines_takePair top).bind ?_
      rintro ⟨copied, rest⟩ ⟨copiedAbove, restAbove⟩ ⟨copiedBelow, restTop⟩
      refine (order.refines_takeSingle restTop).bind ?_
      rintro ⟨skipped, rest⟩ ⟨skippedAbove, restAbove⟩ ⟨skippedBelow, restTop⟩
      exact refinesUnless_ok (restTop.insertCopy copiedBelow skippedBelow)
  | dup2X2 =>
      refine (order.refines_takePair top).bind ?_
      rintro ⟨copied, rest⟩ ⟨copiedAbove, restAbove⟩ ⟨copiedBelow, restTop⟩
      refine (order.refines_takePair restTop).bind ?_
      rintro ⟨skipped, rest⟩ ⟨skippedAbove, restAbove⟩ ⟨skippedBelow, restTop⟩
      exact refinesUnless_ok (restTop.insertCopy copiedBelow skippedBelow)
  | swap =>
      refine (order.refines_takeSingle top).bind ?_
      rintro ⟨first, rest⟩ ⟨firstAbove, restAbove⟩ ⟨firstBelow, restTop⟩
      refine (order.refines_takeSingle restTop).bind ?_
      rintro ⟨second, rest⟩ ⟨secondAbove, restAbove⟩ ⟨secondBelow, restTop⟩
      exact refinesUnless_ok (restTop.append (List.rel_append secondBelow firstBelow))

theorem refines_condition
    (top : IsTopOf Below depth special general)
    (condition : Condition) :
    RefinesUnless (MayRunOut depth) (IsTopOf Below depth)
      (condition.apply special) (condition.apply general) := by
  cases condition with
  | zero comparison => exact order.refines_popType top rfl
  | ints comparison => exact order.refines_popTypes top (by decide)
  | references comparison =>
      exact (order.refines_popReference top).bind
        fun _ _ restTop => order.refines_popReference restTop
  | null comparison => exact order.refines_popReference top

theorem refines_fieldAccess
    (top : IsTopOf Below depth special general)
    (access : FieldAccess)
    {type : FieldType}
    (ordered : Below (.ofField type) (.ofField type)) :
    RefinesUnless (MayRunOut depth) (IsTopOf Below depth)
      (access.apply type special) (access.apply type general) := by
  cases access with
  | getStatic => exact refinesUnless_ok (.cons ordered top)
  | putStatic => exact order.refines_popFitting top type
  | getField =>
      exact (order.refines_popReference top).bind
        fun _ _ restTop => refinesUnless_ok (.cons ordered restTop)
  | putField =>
      exact (order.refines_popFitting top type).bind
        fun _ _ restTop => order.refines_popReference restTop

theorem refines_operation
    (top : IsTopOf Below depth special general)
    (operation : Operation) :
    RefinesUnless (MayRunOut depth) (IsTopOf Below depth)
      (operation.apply special) (operation.apply general) := by
  cases operation with
  | nop => exact refinesUnless_ok top
  | pushNull => exact refinesUnless_ok (.cons (order.refl_of_namedTypes_eq_nil rfl) top)
  | arrayLoad kind => exact order.refines_loadElement top kind
  | arrayStore kind => exact order.refines_storeElement top kind
  | stack operation => exact order.refines_stackOperation top operation
  | arithmetic operation kind =>
      exact order.refines_replaceTypes top (by simp [kind.isReference_type])
        (order.refl_kind kind.toLocal)
  | negate kind =>
      exact order.refines_replaceTypes top (by simp [kind.isReference_type])
        (order.refl_kind kind.toLocal)
  | shift direction kind =>
      exact order.refines_replaceTypes top
        (by simp [kind.isReference_type, show (VerificationType.int : VType).isReference = false
          from rfl]) (order.refl_kind kind.toLocal)
  | bitwise operation kind =>
      exact order.refines_replaceTypes top (by simp [kind.isReference_type])
        (order.refl_kind kind.toLocal)
  | convert conversion =>
      exact order.refines_replaceTypes top
        (by simp [conversion.source.isReference_type]) (order.refl_kind conversion.target.toLocal)
  | compareLong =>
      exact order.refines_replaceTypes top (by decide) (order.refl_of_namedTypes_eq_nil rfl)
  | compareFloat unordered =>
      exact order.refines_replaceTypes top (by decide) (order.refl_of_namedTypes_eq_nil rfl)
  | compareDouble unordered =>
      exact order.refines_replaceTypes top (by decide) (order.refl_of_namedTypes_eq_nil rfl)
  | leave kind =>
      cases kind with
      | none => exact refinesUnless_ok top
      | some kind => exact (order.refines_popKind top kind).map fun _ _ related => related.2
  | throw => exact order.refines_popReference top
  | arrayLength => exact order.refines_arrayLength top
  | monitorEnter => exact order.refines_popReference top
  | monitorExit => exact order.refines_popReference top

/-! ## Calls -/

theorem refines_call
    (top : IsTopOf Below depth special general)
    (hasReceiver : Bool)
    {type : MethodType}
    (ordered : ∀ made ∈ type.result.toList.flatMap fun result =>
        (VerificationType.ofField result : VType).namedTypes,
      Below (.object made) (.object made)) :
    RefinesUnless (MayRunOut depth) (IsTopOf Below depth)
      (Frame.call special hasReceiver type) (Frame.call general hasReceiver type) := by
  have pushed : ∀ rest restAbove, IsTopOf Below depth rest restAbove →
      IsTopOf Below depth (pushResult rest type.result) (pushResult restAbove type.result) := by
    intro rest restAbove restTop
    cases hasResult : type.result with
    | none => exact restTop
    | some result =>
        refine .cons (order.refl fun made member => ordered made ?_) restTop
        exact List.mem_flatMap.mpr ⟨result, by rw [hasResult]; exact List.mem_cons_self, member⟩
  unfold Frame.call
  refine (order.refines_popArguments top type.parameters).bind ?_
  intro rest restAbove restTop
  cases hasReceiver with
  | false => exact refinesUnless_ok (pushed _ _ restTop)
  | true =>
      exact (order.refines_popReference restTop).bind
        fun _ _ restTop => refinesUnless_ok (pushed _ _ restTop)

end ValueOrder

/-! ## Local variables -/

namespace Locals

theorem valueAt_set
    (locals : List VType)
    (slot : Nat)
    (type : VType)
    (index : Nat) :
    valueAt (locals.set slot type) index =
      if index = slot ∧ slot < locals.length then type else valueAt locals index := by
  unfold valueAt
  rw [List.getD_eq_getElem?_getD, List.getD_eq_getElem?_getD, List.getElem?_set]
  by_cases isSlot : slot = index
  · subst isSlot
    by_cases inside : slot < locals.length
    · simp [inside]
    · simp [inside]
  · rw [if_neg isSlot, if_neg fun both => isSlot both.1.symm]

theorem length_splitBefore
    (locals : List VType)
    (slot : Nat) :
    (splitBefore locals slot).length = locals.length := by
  unfold splitBefore
  split
  · rfl
  · split
    · split
      · exact List.length_set
      · rfl
    · rfl

theorem valueAt_splitBefore
    (locals : List VType)
    (slot index : Nat) :
    valueAt (splitBefore locals slot) index =
      if index + 1 = slot ∧ (valueAt locals index).isWide = true then .top
      else valueAt locals index := by
  unfold splitBefore
  cases slot with
  | zero => simp
  | succ before =>
      dsimp only
      by_cases inside : before < locals.length
      · rw [getElem?_of_lt_length inside]
        dsimp only
        by_cases isWide : (valueAt locals before).isWide = true
        · rw [if_pos isWide, valueAt_set]
          by_cases isBefore : index = before
          · subst isBefore
            rw [if_pos ⟨rfl, inside⟩, if_pos ⟨rfl, isWide⟩]
          · rw [if_neg fun both => isBefore both.1,
              if_neg fun both => isBefore (Nat.succ.inj both.1)]
        · rw [if_neg isWide]
          symm
          apply if_neg
          rintro ⟨isBefore, isWideHere⟩
          cases Nat.succ.inj isBefore
          exact isWide isWideHere
      · rw [List.getElem?_eq_none (by omega)]
        dsimp only
        symm
        apply if_neg
        rintro ⟨isBefore, isWideHere⟩
        rw [valueAt_of_length_le (by omega)] at isWideHere
        cases isWideHere

theorem length_assign
    (locals : List VType)
    (slot : UInt16)
    (type : VType) :
    (assign locals slot type).length = max locals.length (slot.toNat + width type) := by
  unfold assign
  dsimp only
  split <;> simp [length_splitBefore]

/-- What a slot holds after a value is assigned: the value, nothing of use in its second
half and in what lost its second half to it, and in every other slot what it held. -/
theorem valueAt_assign
    (locals : List VType)
    (slot : UInt16)
    (type : VType)
    (index : Nat) :
    valueAt (assign locals slot type) index =
      if index = slot.toNat then type
      else if type.isWide = true ∧ index = slot.toNat + 1 then .top
      else if index + 1 = slot.toNat ∧ (valueAt locals index).isWide = true then .top
      else valueAt locals index := by
  have widthOfType : width type = if type.isWide then 2 else 1 := rfl
  have narrow : valueAt ((splitBefore (extend locals (slot.toNat + width type)) slot.toNat).set
      slot.toNat type) index =
        if index = slot.toNat then type
        else if index + 1 = slot.toNat ∧ (valueAt locals index).isWide = true then .top
        else valueAt locals index := by
    have inside : slot.toNat < (splitBefore (extend locals (slot.toNat + width type))
        slot.toNat).length := by
      rw [length_splitBefore, length_extend, widthOfType]
      split <;> omega
    rw [valueAt_set, valueAt_splitBefore, valueAt_extend]
    simp only [inside, and_true]
  unfold assign
  dsimp only
  split
  · rename_i isWide
    rw [valueAt_set, narrow]
    have inside : slot.toNat + 1 < ((splitBefore (extend locals (slot.toNat + width type))
        slot.toNat).set slot.toNat type).length := by
      rw [List.length_set, length_splitBefore, length_extend, widthOfType, if_pos isWide]
      omega
    simp only [inside, and_true, isWide, true_and]
    by_cases isSecond : index = slot.toNat + 1
    · rw [if_pos isSecond, if_neg (by omega), if_pos isSecond]
    · rw [if_neg isSecond, if_neg isSecond]
  · rename_i notWide
    rw [narrow, if_neg (show ¬(type.isWide = true ∧ index = slot.toNat + 1) from
      fun both => notWide both.1)]

theorem isWhole_assign
    {locals : List VType}
    (whole : IsWhole locals)
    (slot : UInt16)
    (type : VType) :
    IsWhole (assign locals slot type) := by
  intro index isWide
  have widthOfType : width type = if type.isWide then 2 else 1 := rfl
  have inside : index + 1 < (assign locals slot type).length ∧
      valueAt (assign locals slot type) (index + 1) = .top := by
    rw [length_assign, widthOfType, valueAt_assign]
    rw [valueAt_assign] at isWide
    by_cases isSlot : index = slot.toNat
    · rw [if_pos isSlot] at isWide
      refine ⟨?_, ?_⟩
      · rw [if_pos isWide]
        omega
      · rw [if_neg (by omega), if_pos ⟨isWide, by omega⟩]
    · rw [if_neg isSlot] at isWide
      split at isWide
      · cases isWide
      · split at isWide
        · cases isWide
        · rename_i keeps
          have found := whole index isWide
          have notBefore : index + 1 ≠ slot.toNat := fun isBefore => keeps ⟨isBefore, isWide⟩
          refine ⟨by have := (List.getElem?_eq_some_iff.mp found).1; omega, ?_⟩
          rw [if_neg notBefore, valueAt_of_getElem? found]
          simp [VerificationType.isWide]
  rw [getElem?_of_lt_length inside.1, inside.2]

theorem valueAt_of_get_eq_ok
    {locals : List VType}
    {slot : UInt16}
    {type : VType}
    (found : get locals slot = .ok type) :
    valueAt locals slot.toNat = type := by
  unfold get at found
  split at found
  · rename_i value isValue
    cases found
    exact valueAt_of_getElem? isValue
  · cases found

end Locals

namespace ValueOrder

variable {Below Fits : VType → VType → Prop} (order : ValueOrder Below Fits)
variable {special general : List VType}

include order

/-- Values below each other, assigned to slots that fit, leave slots that fit. -/
theorem fits_assign
    (fits : ∀ index, Fits (Locals.valueAt special index) (Locals.valueAt general index))
    {value above : VType}
    (below : Below value above)
    (slot : UInt16)
    (index : Nat) :
    Fits (Locals.valueAt (Locals.assign special slot value) index)
      (Locals.valueAt (Locals.assign general slot above) index) := by
  have topFits : Fits .top .top := order.fits_top (order.refl_of_namedTypes_eq_nil rfl)
  rw [Locals.valueAt_assign, Locals.valueAt_assign, (order.serves below).isWide_eq]
  split
  · exact order.fits below
  · split
    · exact topFits
    · have slotFits := fits index
      rcases order.eq_top_or_below slotFits with isTop | slotBelow
      · rw [isTop] at slotFits ⊢
        rw [if_neg (show ¬(index + 1 = slot.toNat ∧
          (VerificationType.top : VType).isWide = true) from fun both => nomatch both.2)]
        split
        · exact topFits
        · exact slotFits
      · rw [(order.serves slotBelow).isWide_eq]
        split
        · exact topFits
        · exact slotFits

/-- A slot that holds something of use in the frame above holds something below it. -/
theorem get_eq_ok
    (fits : ∀ index, Fits (Locals.valueAt special index) (Locals.valueAt general index))
    {slot : UInt16}
    {above : VType}
    (found : Locals.get general slot = .ok above)
    (useful : above ≠ .top) :
    ∃ value, Locals.get special slot = .ok value ∧ Below value above := by
  have isAbove := Locals.valueAt_of_get_eq_ok found
  have below : Below (Locals.valueAt special slot.toNat) above := by
    rcases order.eq_top_or_below (fits slot.toNat) with isTop | below
    · exact absurd (isAbove.symm.trans isTop) useful
    · exact isAbove ▸ below
  have inside : slot.toNat < special.length := by
    by_contra outside
    rw [Locals.valueAt_of_length_le (by omega)] at below
    exact useful (order.serves below).eq_top
  refine ⟨Locals.valueAt special slot.toNat, ?_, below⟩
  unfold Locals.get
  rw [Locals.getElem?_of_lt_length inside]

end ValueOrder

/-! ## Frames -/

namespace Frame

variable {owner : BinaryName} {code : Array (Instruction Nat)}

/-- Only an object whose constructor has not run can be initialised. -/
theorem isInitializedReference_of_initialized_eq_ok
    {receiver object : VType}
    (computed : initialized owner code receiver = .ok object) :
    receiver.isInitializedReference = false ∧ receiver ≠ .top := by
  cases receiver with
  | uninitializedThis => exact ⟨rfl, nofun⟩
  | uninitialized site => exact ⟨rfl, nofun⟩
  | _ => cases computed

/-- The value that stands where a value stood, once an object is initialised. -/
def replaced (receiver object type : VType) : VType :=
  if type = receiver then object else type

theorem valueAt_map_replaced
    {receiver object : VType}
    (useful : receiver ≠ .top)
    (locals : List VType)
    (index : Nat) :
    Locals.valueAt (locals.map (replaced receiver object)) index =
      replaced receiver object (Locals.valueAt locals index) := by
  by_cases inside : index < locals.length
  · apply Locals.valueAt_of_getElem?
    rw [List.getElem?_map, Locals.getElem?_of_lt_length inside]
    rfl
  · rw [Locals.valueAt_of_length_le (by simpa using inside),
      Locals.valueAt_of_length_le (by omega), replaced, if_neg useful.symm]

/-- A frame has the values at the top of the stack of another one, which has so many more
values, and slots that fit. -/
structure IsTopOf (Below Fits : VType → VType → Prop) (depth : Nat)
    (special general : Frame) : Prop where
  stack : OperandStack.IsTopOf Below depth special.stack general.stack
  locals : ∀ index,
    Fits (Locals.valueAt special.locals index) (Locals.valueAt general.locals index)

/-- A frame at the top of another one, that needs no more slots than a third one and the other
one. -/
def StaysTopOf (Below Fits : VType → VType → Prop) (depth : Nat)
    (before special general : Frame) : Prop :=
  special.IsTopOf Below Fits depth general ∧
    special.localSlots ≤ max before.localSlots general.localSlots

/-- A frame below another one, with known classes, that needs no more slots than a third
one and the other one. -/
def StaysBelow (hierarchy : Hierarchy) (before special general : Frame) : Prop :=
  special.IsKnownBelow hierarchy general ∧
    special.localSlots ≤ max before.localSlots general.localSlots

end Frame

namespace ValueOrder

open OperandStack

variable {Below Fits : VType → VType → Prop} (order : ValueOrder Below Fits)
variable {depth : Nat} {special general : Frame}
variable {owner : BinaryName} {code : Array (Instruction Nat)}

include order

theorem below_replaced
    {receiver object value above : VType}
    (notInitialized : receiver.isInitializedReference = false)
    (ordered : Below object object)
    (below : Below value above) :
    Below (Frame.replaced receiver object value) (Frame.replaced receiver object above) := by
  have serves := order.serves below
  unfold Frame.replaced
  by_cases isReceiver : above = receiver
  · subst isReceiver
    rw [serves.eq_of_not_initialized notInitialized, if_pos rfl]
    exact ordered
  · rw [if_neg isReceiver]
    by_cases isReceiverBelow : value = receiver
    · subst isReceiverBelow
      cases serves with
      | refl => exact absurd rfl isReceiver
      | null type => cases notInitialized
      | object _ => cases notInitialized
    · rw [if_neg isReceiverBelow]
      exact below

theorem fits_replaced
    {receiver object value above : VType}
    (notInitialized : receiver.isInitializedReference = false)
    (useful : receiver ≠ .top)
    (ordered : Below object object)
    (fits : Fits value above) :
    Fits (Frame.replaced receiver object value) (Frame.replaced receiver object above) := by
  rcases order.eq_top_or_below fits with rfl | below
  · rw [show Frame.replaced receiver object .top = .top from if_neg useful.symm]
    unfold Frame.replaced
    split
    · exact order.fits_top ordered
    · exact fits
  · exact order.fits (order.below_replaced notInitialized ordered below)

section Execute

variable (top : special.IsTopOf Below Fits depth general)
variable (codeOrdered : CodeIsOrdered Below owner code)

omit order in
include codeOrdered in
theorem below_initialized
    {receiver object : VType}
    (computed : Frame.initialized owner code receiver = .ok object) :
    Below object object := by
  unfold Frame.initialized at computed
  split at computed
  · cases computed
    exact codeOrdered.owner
  · rename_i site
    split at computed
    · rename_i name isNew
      cases computed
      exact codeOrdered.instructions isNew (.object name) List.mem_cons_self
    · cases computed
  · cases computed

include top codeOrdered in
theorem refines_construct
    (type : MethodType) :
    RefinesUnless (MayRunOut depth) (Frame.StaysTopOf Below Fits depth special)
      (special.construct owner code type) (general.construct owner code type) := by
  refine (order.refines_popArguments top.stack type.parameters).bind ?_
  intro rest restAbove restTop
  refine (refines_pop restTop).bind ?_
  rintro ⟨receiver, rest⟩ ⟨receiverAbove, restAbove⟩ ⟨receiverBelow, restTop⟩
  intro after computed
  obtain ⟨object, isObject, computed⟩ := bind_eq_ok.mp computed
  obtain ⟨notInitialized, useful⟩ := Frame.isInitializedReference_of_initialized_eq_ok isObject
  have ordered : Below object object := below_initialized codeOrdered isObject
  obtain rfl : receiver = receiverAbove :=
    (order.serves receiverBelow).eq_of_not_initialized notInitialized
  split at computed
  · cases computed
  · rename_i noResult
    cases computed
    refine .inr ⟨Frame.replaceAll ⟨special.locals, rest⟩ receiver object,
      bind_eq_ok.mpr ⟨object, isObject, ?_⟩, ⟨?_, ?_⟩, ?_⟩
    · rw [if_neg noResult]
      rfl
    · exact restTop.map fun _ _ below => order.below_replaced notInitialized ordered below
    · intro index
      change Fits (Locals.valueAt (special.locals.map (Frame.replaced receiver object)) index)
        (Locals.valueAt (general.locals.map (Frame.replaced receiver object)) index)
      rw [Frame.valueAt_map_replaced useful, Frame.valueAt_map_replaced useful]
      exact order.fits_replaced notInitialized useful ordered (top.locals index)
    · change (special.locals.map _).length ≤ _
      rw [List.length_map]
      exact Nat.le_max_left _ _

/-! ## Instructions -/

omit order in
include top in
/-- The frame after an instruction that only changes the stack. -/
theorem refines_withStack
    {stack stackAbove : Except FlowError OperandStack} :
    RefinesUnless (MayRunOut depth) (OperandStack.IsTopOf Below depth) stack stackAbove →
      RefinesUnless (MayRunOut depth) (Frame.StaysTopOf Below Fits depth special)
        (match stack with
          | .ok stack => .ok ⟨special.locals, stack⟩
          | .error failure => .error failure)
        (match stackAbove with
          | .ok stack => .ok ⟨general.locals, stack⟩
          | .error failure => .error failure) := by
  intro refines
  cases stackAbove with
  | error failure => exact refinesUnless_error
  | ok restAbove =>
      rcases refines restAbove rfl with ⟨failure, rfl, excused⟩ | ⟨rest, rfl, restTop⟩
      · exact fun _ _ => .inl ⟨failure, rfl, excused⟩
      · exact refinesUnless_ok ⟨⟨restTop, top.locals⟩, Nat.le_max_left _ _⟩

omit order in
include top in
theorem refines_push
    {value above : VType}
    (valueBelow : Below value above) :
    RefinesUnless (MayRunOut depth) (Frame.StaysTopOf Below Fits depth special)
      (.ok ⟨special.locals, value :: special.stack⟩ : Except FlowError Frame)
      (.ok ⟨general.locals, above :: general.stack⟩) :=
  refinesUnless_ok ⟨⟨.cons valueBelow top.stack, top.locals⟩, Nat.le_max_left _ _⟩

include top in
theorem refines_load
    (kind : LocalKind)
    (slot : UInt16)
    (index : Nat) :
    RefinesUnless (MayRunOut depth) (Frame.StaysTopOf Below Fits depth special)
      (special.execute owner code index (.load kind slot))
      (general.execute owner code index (.load kind slot)) := by
  intro after computed
  obtain ⟨above, found, computed⟩ := bind_eq_ok.mp computed
  split at computed
  · rename_i ofKind
    have useful : above ≠ .top := by
      rintro rfl
      cases kind <;> cases ofKind
    obtain ⟨value, valueFound, valueBelow⟩ := order.get_eq_ok top.locals found useful
    cases computed
    refine .inr ⟨⟨special.locals, value :: special.stack⟩,
      bind_eq_ok.mpr ⟨value, valueFound, ?_⟩,
      ⟨.cons valueBelow top.stack, top.locals⟩, Nat.le_max_left _ _⟩
    rw [if_pos ((order.serves valueBelow).isOfKind ofKind)]
  · cases computed

include top in
theorem refines_increment
    (slot : UInt16)
    (amount : Int16)
    (index : Nat) :
    RefinesUnless (MayRunOut depth) (Frame.StaysTopOf Below Fits depth special)
      (special.execute owner code index (.increment slot amount))
      (general.execute owner code index (.increment slot amount)) := by
  intro after computed
  obtain ⟨above, found, computed⟩ := bind_eq_ok.mp computed
  split at computed
  · rename_i isInt
    subst isInt
    cases computed
    obtain ⟨value, valueFound, valueBelow⟩ := order.get_eq_ok top.locals found nofun
    obtain rfl : value = .int := (order.serves valueBelow).eq_of_not_reference rfl
    exact .inr ⟨special, bind_eq_ok.mpr ⟨.int, valueFound, rfl⟩, top, Nat.le_max_left _ _⟩
  · cases computed

include top in
theorem refines_store
    (kind : LocalKind)
    (slot : UInt16)
    (index : Nat) :
    RefinesUnless (MayRunOut depth) (Frame.StaysTopOf Below Fits depth special)
      (special.execute owner code index (.store kind slot))
      (general.execute owner code index (.store kind slot)) := by
  refine (order.refines_popKind top.stack kind).bind ?_
  rintro ⟨value, rest⟩ ⟨above, restAbove⟩ ⟨valueBelow, restTop⟩
  refine refinesUnless_ok ⟨⟨restTop, order.fits_assign top.locals valueBelow slot⟩, ?_⟩
  have sameWidth : width value = width above :=
    congrArg (fun wide => if wide = true then 2 else 1) (order.serves valueBelow).isWide_eq
  simp only [Frame.localSlots, Locals.length_assign]
  rw [sameWidth]
  omega

include top codeOrdered in
/-- An instruction that can be executed in a frame can be executed in every frame at its top,
and leaves a frame at the top, or it runs out of values there. -/
theorem refines_execute
    {index : Nat}
    {instruction : Instruction Nat}
    (isInstruction : code[index]? = some instruction) :
    RefinesUnless (MayRunOut depth) (Frame.StaysTopOf Below Fits depth special)
      (special.execute owner code index instruction)
      (general.execute owner code index instruction) := by
  have named := codeOrdered.instructions isInstruction
  clear isInstruction
  cases instruction with
  | op operation => exact refines_withStack top (order.refines_operation top.stack operation)
  | pushInt value => exact refines_push top (order.refl_of_namedTypes_eq_nil rfl)
  | pushLong value => exact refines_push top (order.refl_of_namedTypes_eq_nil rfl)
  | pushFloat bits => exact refines_push top (order.refl_of_namedTypes_eq_nil rfl)
  | pushDouble bits => exact refines_push top (order.refl_of_namedTypes_eq_nil rfl)
  | pushLiteral literal => exact refines_push top (order.refl named)
  | load kind slot => exact order.refines_load top kind slot index
  | store kind slot => exact order.refines_store top kind slot index
  | increment slot amount => exact order.refines_increment top slot amount index
  | branch condition target =>
      exact refines_withStack top (order.refines_condition top.stack condition)
  | goto target => exact refinesUnless_ok ⟨top, Nat.le_max_left _ _⟩
  | tableSwitch default low targets =>
      exact refines_withStack top (order.refines_popType top.stack rfl)
  | lookupSwitch default targets =>
      exact refines_withStack top (order.refines_popType top.stack rfl)
  | field access member =>
      exact refines_withStack top (order.refines_fieldAccess top.stack access (order.refl named))
  | invoke kind method =>
      unfold Frame.execute
      dsimp only
      split
      · exact order.refines_construct top codeOrdered method.type
      · exact refines_withStack top (order.refines_call top.stack kind.hasReceiver named)
  | invokeDynamic call =>
      exact refines_withStack top (order.refines_call top.stack false named)
  | new name => exact refines_push top (order.refl_of_namedTypes_eq_nil rfl)
  | newArray element =>
      exact refines_withStack top
        (order.refines_replaceTypes top.stack (by decide) (order.primitiveArray 0 element))
  | newRefArray element =>
      exact refines_withStack top
        (order.refines_replaceTypes top.stack (by decide) (named _ List.mem_cons_self))
  | checkCast type =>
      exact refines_withStack top ((order.refines_popReference top.stack).bind
        fun _ _ restTop => refinesUnless_ok (.cons (named type List.mem_cons_self) restTop))
  | instanceOf type =>
      exact refines_withStack top ((order.refines_popReference top.stack).bind
        fun _ _ restTop =>
          refinesUnless_ok (.cons (order.refl_of_namedTypes_eq_nil rfl) restTop))
  | newMultiArray type dimensions =>
      refine refines_withStack top (order.refines_replaceTypes top.stack ?_
        (named type List.mem_cons_self))
      intro expected member
      rw [List.eq_of_mem_replicate member]
      rfl

end Execute

end ValueOrder

/-- An instruction that can be executed in a frame can be executed in every frame below
it, and leaves a frame below. -/
theorem Frame.refines_execute
    {special general : Frame}
    {owner : BinaryName}
    {code : Array (Instruction Nat)}
    (below : special.IsKnownBelow hierarchy general)
    (codeKnown : CodeIsKnown hierarchy owner code)
    {index : Nat}
    {instruction : Instruction Nat}
    (isInstruction : code[index]? = some instruction) :
    Refines (StaysBelow hierarchy special) (special.execute owner code index instruction)
      (general.execute owner code index instruction) := by
  have top : special.IsTopOf (VerificationType.KnownBelow hierarchy)
      (VerificationType.KnownFits hierarchy) 0 general :=
    ⟨OperandStack.isTopOf_zero_iff.mpr below.stack, below.locals⟩
  intro result computed
  have refines := (valueOrder_knownBelow.refines_execute top codeKnown.isOrdered
    isInstruction).refines fun _ runsOut => absurd runsOut.1 (Nat.lt_irrefl 0)
  obtain ⟨after, executed, stays, slots⟩ := refines result computed
  exact ⟨after, executed, ⟨OperandStack.isTopOf_zero_iff.mp stays.stack, stays.locals⟩, slots⟩

/-! ## Halves of wide values -/

namespace Frame

/-- What an instruction does to the slots: nothing, or it assigns one, or it initialises
an object. -/
inductive SlotChange (owner : BinaryName) (code : Array (Instruction Nat))
    (before : List VType) : List VType → Prop where
  | unchanged : SlotChange owner code before before
  | assigned (slot : UInt16) (type : VType) :
      SlotChange owner code before (Locals.assign before slot type)
  | initialized {receiver object : VType} :
      Frame.initialized owner code receiver = .ok object →
      SlotChange owner code before (before.map (replaced receiver object))

variable {owner : BinaryName} {code : Array (Instruction Nat)} {frame after : Frame}

theorem locals_of_withStack_eq_ok
    {stack : Except FlowError OperandStack}
    (computed : (match stack with
      | .ok stack => .ok ⟨frame.locals, stack⟩
      | .error failure => .error failure) = (.ok after : Except FlowError Frame)) :
    after.locals = frame.locals := by
  cases stack with
  | error failure => cases computed
  | ok stack =>
      cases computed
      rfl

theorem slotChange_of_execute_eq_ok
    {index : Nat}
    {instruction : Instruction Nat}
    (computed : frame.execute owner code index instruction = .ok after) :
    SlotChange owner code frame.locals after.locals := by
  cases instruction with
  | load kind slot =>
      obtain ⟨type, _, computed⟩ := bind_eq_ok.mp computed
      split at computed
      · cases computed
        exact .unchanged
      · cases computed
  | store kind slot =>
      obtain ⟨⟨type, stack⟩, _, computed⟩ := bind_eq_ok.mp computed
      cases computed
      exact .assigned slot type
  | increment slot amount =>
      obtain ⟨type, _, computed⟩ := bind_eq_ok.mp computed
      split at computed
      · cases computed
        exact .unchanged
      · cases computed
  | invoke kind method =>
      unfold execute at computed
      dsimp only at computed
      split at computed
      · obtain ⟨arguments, _, computed⟩ := bind_eq_ok.mp computed
        obtain ⟨⟨receiver, stack⟩, _, computed⟩ := bind_eq_ok.mp computed
        obtain ⟨object, isObject, computed⟩ := bind_eq_ok.mp computed
        split at computed
        · cases computed
        · cases computed
          exact .initialized isObject
      · rw [locals_of_withStack_eq_ok computed]
        exact .unchanged
  | goto target =>
      cases computed
      exact .unchanged
  | pushInt _ | pushLong _ | pushFloat _ | pushDouble _ | pushLiteral _ | new _ =>
      cases computed
      exact .unchanged
  | op _ | branch _ _ | tableSwitch _ _ _ | lookupSwitch _ _ | field _ _ | invokeDynamic _
  | newArray _ | newRefArray _ | checkCast _ | instanceOf _ | newMultiArray _ _ =>
      rw [locals_of_withStack_eq_ok computed]
      exact .unchanged

theorem isWide_initialized
    {receiver object : VType}
    (computed : initialized owner code receiver = .ok object) :
    object.isWide = false := by
  unfold initialized at computed
  split at computed
  · cases computed
    rfl
  · split at computed
    · cases computed
      rfl
    · cases computed
  · cases computed

/-- No instruction leaves one half of a wide value without the other. -/
theorem isWhole_of_execute_eq_ok
    {index : Nat}
    {instruction : Instruction Nat}
    (whole : Locals.IsWhole frame.locals)
    (computed : frame.execute owner code index instruction = .ok after) :
    Locals.IsWhole after.locals := by
  have change := slotChange_of_execute_eq_ok computed
  generalize after.locals = slots at change ⊢
  cases change with
  | unchanged => exact whole
  | assigned slot type => exact Locals.isWhole_assign whole slot type
  | @initialized receiver object isObject =>
      obtain ⟨_, useful⟩ := isInitializedReference_of_initialized_eq_ok isObject
      intro position isWide
      rw [valueAt_map_replaced useful] at isWide
      have wasWide : (Locals.valueAt frame.locals position).isWide = true := by
        unfold replaced at isWide
        split at isWide
        · rw [isWide_initialized isObject] at isWide
          cases isWide
        · exact isWide
      rw [List.getElem?_map, whole position wasWide]
      simp [replaced, useful.symm]

end Frame

end ClosureConversion
