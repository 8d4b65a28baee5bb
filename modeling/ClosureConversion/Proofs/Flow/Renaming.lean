import ClosureConversion.Flow.Execution
import ClosureConversion.Proofs.Computation
import Mathlib.Data.Prod.Basic

/-!
Contract: the allocation sites in frames may be renamed.

Owns:
- the sites of the objects in a frame whose constructors have not run, and renaming them;
- every instruction does the same to a frame with other names for its sites;
- an instruction brings no site into a frame but its own.

Does not own: which names the sites have.
-/

namespace ClosureConversion

section Bind

variable {ε : Type} {α α' β β' : Type}

/-- A computation whose first part has an image and whose rest respects it has an image. -/
theorem bind_eq_map_bind
    {f : α → α'}
    {g : β → β'}
    {first : Except ε α}
    {image : Except ε α'}
    {next : α → Except ε β}
    {imageNext : α' → Except ε β'}
    (isImage : image = f <$> first)
    (respects : ∀ value, first = .ok value → imageNext (f value) = g <$> next value) :
    image >>= imageNext = g <$> (first >>= next) := by
  subst isImage
  cases first with
  | error failure => rfl
  | ok value => exact respects value rfl

end Bind

/-! ## Values -/

namespace VerificationType

/-- The allocation site of an object whose constructor has not run. -/
def site? : VType → Option Nat
  | .uninitialized site => some site
  | _ => none

/-- The value with another name for its site. -/
def rename (name : Nat → Nat) : VType → VType
  | .uninitialized site => .uninitialized (name site)
  | type => type

variable {name : Nat → Nat}

theorem site?_of_not_reference
    {type : VType}
    (noReference : type.isReference = false) :
    type.site? = none := by
  cases type with
  | uninitialized site => cases noReference
  | _ => rfl

theorem rename_of_site?_eq_none
    {type : VType}
    (noSite : type.site? = none) :
    type.rename name = type := by
  cases type with
  | uninitialized site => cases noSite
  | _ => rfl

theorem rename_eq_iff
    {type expected : VType}
    (noSite : expected.site? = none) :
    type.rename name = expected ↔ type = expected := by
  cases type with
  | uninitialized site =>
      constructor
      · rintro rfl
        cases noSite
      · rintro rfl
        cases noSite
  | _ => exact Iff.rfl

/-- Sites with different names are told apart. -/
theorem rename_eq_rename_iff
    {first second : VType}
    (apart : ∀ site other, first = .uninitialized site → second = .uninitialized other →
      name site = name other → site = other) :
    first.rename name = second.rename name ↔ first = second := by
  refine ⟨fun same => ?_, fun same => same ▸ rfl⟩
  cases second with
  | uninitialized other =>
      cases first with
      | uninitialized site =>
          rw [apart site other rfl rfl (VerificationType.uninitialized.inj same)]
      | _ => cases same
  | _ => exact (rename_eq_iff rfl).mp same

@[simp] theorem isReference_rename
    (type : VType) :
    (type.rename name).isReference = type.isReference := by
  cases type <;> rfl

@[simp] theorem isInitializedReference_rename
    (type : VType) :
    (type.rename name).isInitializedReference = type.isInitializedReference := by
  cases type <;> rfl

@[simp] theorem isWide_rename
    (type : VType) :
    (type.rename name).isWide = type.isWide := by
  cases type <;> rfl

@[simp] theorem width_rename
    (type : VType) :
    width (type.rename name) = width type := by
  cases type <;> rfl

@[simp] theorem isOfKind_rename
    (type : VType)
    (kind : LocalKind) :
    (type.rename name).isOfKind kind = type.isOfKind kind := by
  cases type <;> cases kind <;> rfl

theorem site?_ofField
    (type : FieldType) :
    (ofField type : VType).site? = none := by
  cases type with
  | base base => cases base <;> rfl
  | ref type => rfl

@[simp] theorem fits_rename
    (type : VType)
    (declared : FieldType) :
    (type.rename name).fits declared = type.fits declared := by
  cases declared with
  | base base =>
      rw [Bool.eq_iff_iff]
      simp only [fits, decide_eq_true_eq]
      exact rename_eq_iff (site?_ofField _)
  | ref declared => exact isInitializedReference_rename type

theorem site?_type_of_localKind
    (kind : LocalKind) :
    kind.type.site? = none := by
  cases kind <;> rfl

end VerificationType

open VerificationType (rename)

variable {name : Nat → Nat}

theorem ArrayKind.elementOf_rename
    (kind : ArrayKind)
    (array : VType) :
    kind.elementOf (array.rename name) = rename name <$> kind.elementOf array := by
  cases array with
  | object type =>
      cases type with
      | object className => cases kind <;> rfl
      | objectArray nesting className => cases kind <;> cases nesting <;> rfl
      | primitiveArray nesting base =>
          cases nesting with
          | zero => cases kind <;> cases base <;> rfl
          | succ inner => cases kind <;> rfl
  | null =>
      change Except.ok kind.toLocal.type = Except.ok (kind.toLocal.type.rename name)
      rw [VerificationType.rename_of_site?_eq_none
        (VerificationType.site?_type_of_localKind kind.toLocal)]
  | _ => cases kind <;> rfl

/-! ## The operand stack -/

namespace OperandStack

/-- The stack with other names for the sites of its values. -/
def rename (name : Nat → Nat) (stack : OperandStack) : OperandStack :=
  stack.map (VerificationType.rename name)

variable (stack : OperandStack)

theorem rename_append
    (first second : OperandStack) :
    rename name (first ++ second) = first.rename name ++ second.rename name :=
  List.map_append

theorem eq_cons_of_pop_eq_ok
    {stack rest : OperandStack}
    {type : VType}
    (popped : stack.pop = .ok (type, rest)) :
    stack = type :: rest := by
  cases stack with
  | nil => cases popped
  | cons last others =>
      cases popped
      rfl

theorem pop_rename :
    (stack.rename name).pop =
      Prod.map (VerificationType.rename name) (rename name) <$> stack.pop := by
  cases stack <;> rfl

theorem popType_rename
    {expected : VType}
    (noSite : expected.site? = none) :
    (stack.rename name).popType expected = rename name <$> stack.popType expected := by
  refine bind_eq_map_bind stack.pop_rename ?_
  rintro ⟨type, rest⟩ _
  simp only [Prod.map_apply, VerificationType.rename_eq_iff noSite]
  split <;> rfl

theorem popTypes_rename
    {expected : List VType}
    (noSites : ∀ type ∈ expected, type.site? = none) :
    (stack.rename name).popTypes expected = rename name <$> stack.popTypes expected := by
  induction expected generalizing stack with
  | nil => rfl
  | cons type others inductionHypothesis =>
      refine bind_eq_map_bind (stack.popType_rename (noSites type List.mem_cons_self)) ?_
      intro rest _
      exact inductionHypothesis rest
        fun other member => noSites other (List.mem_cons_of_mem _ member)

theorem replaceTypes_rename
    {consumed : List VType}
    {produced : VType}
    (noSites : ∀ type ∈ consumed, type.site? = none)
    (noSite : produced.site? = none) :
    (stack.rename name).replaceTypes consumed produced =
      rename name <$> stack.replaceTypes consumed produced := by
  refine bind_eq_map_bind (stack.popTypes_rename noSites) ?_
  intro rest _
  change Except.ok (produced :: rest.rename name) =
    Except.ok (produced.rename name :: rest.rename name)
  rw [VerificationType.rename_of_site?_eq_none noSite]

theorem popReference_rename :
    (stack.rename name).popReference = rename name <$> stack.popReference := by
  refine bind_eq_map_bind stack.pop_rename ?_
  rintro ⟨type, rest⟩ _
  simp only [Prod.map_apply, VerificationType.isReference_rename]
  split <;> rfl

theorem popKind_rename
    (kind : LocalKind) :
    (stack.rename name).popKind kind =
      Prod.map (VerificationType.rename name) (rename name) <$> stack.popKind kind := by
  refine bind_eq_map_bind stack.pop_rename ?_
  rintro ⟨type, rest⟩ _
  simp only [Prod.map_apply, VerificationType.isOfKind_rename]
  split <;> rfl

theorem popFitting_rename
    (declared : FieldType) :
    (stack.rename name).popFitting declared = rename name <$> stack.popFitting declared := by
  refine bind_eq_map_bind stack.pop_rename ?_
  rintro ⟨type, rest⟩ _
  simp only [Prod.map_apply, VerificationType.fits_rename]
  split <;> rfl

theorem popArguments_rename
    (parameters : List FieldType) :
    (stack.rename name).popArguments parameters =
      rename name <$> stack.popArguments parameters := by
  unfold popArguments
  induction parameters.reverse generalizing stack with
  | nil => rfl
  | cons parameter others inductionHypothesis =>
      rw [List.foldlM_cons, List.foldlM_cons]
      exact bind_eq_map_bind (stack.popFitting_rename parameter)
        fun rest _ => inductionHypothesis rest

/-- Popping arguments leaves the values underneath. -/
theorem suffix_of_popArguments_eq_ok
    {stack rest : OperandStack}
    {parameters : List FieldType}
    (popped : stack.popArguments parameters = .ok rest) :
    rest <:+ stack := by
  refine foldlM_preserves (fun _ reached => reached <:+ stack) ?_ (List.suffix_refl stack) popped
  intro _ declared reached next _ isSuffix computed
  obtain ⟨⟨type, underneath⟩, isPopped, fits⟩ := bind_eq_ok.mp computed
  rw [eq_cons_of_pop_eq_ok isPopped] at isSuffix
  dsimp only at fits
  split at fits
  · cases fits
    exact (List.suffix_cons _ _).trans isSuffix
  · cases fits

theorem takeSingle_rename :
    (stack.rename name).takeSingle =
      Prod.map (rename name) (rename name) <$> stack.takeSingle := by
  refine bind_eq_map_bind stack.pop_rename ?_
  rintro ⟨type, rest⟩ _
  simp only [Prod.map_apply, VerificationType.isWide_rename, VerificationType.width_rename]
  split <;> rfl

theorem takePair_rename :
    (stack.rename name).takePair =
      Prod.map (rename name) (rename name) <$> stack.takePair := by
  refine bind_eq_map_bind stack.pop_rename ?_
  rintro ⟨type, rest⟩ _
  simp only [Prod.map_apply, VerificationType.isWide_rename]
  split
  · rfl
  · refine bind_eq_map_bind rest.takeSingle_rename ?_
    rintro ⟨second, rest⟩ _
    rfl

theorem loadElement_rename
    (kind : ArrayKind) :
    (stack.rename name).loadElement kind = rename name <$> stack.loadElement kind := by
  refine bind_eq_map_bind (stack.popType_rename rfl) ?_
  intro rest _
  refine bind_eq_map_bind rest.pop_rename ?_
  rintro ⟨array, rest⟩ _
  refine bind_eq_map_bind (kind.elementOf_rename array) ?_
  intro element _
  rfl

theorem storeElement_rename
    (kind : ArrayKind) :
    (stack.rename name).storeElement kind = rename name <$> stack.storeElement kind := by
  refine bind_eq_map_bind stack.pop_rename ?_
  rintro ⟨value, rest⟩ _
  refine bind_eq_map_bind (rest.popType_rename rfl) ?_
  intro rest _
  refine bind_eq_map_bind rest.pop_rename ?_
  rintro ⟨array, rest⟩ _
  refine bind_eq_map_bind (kind.elementOf_rename array) ?_
  intro element _
  simp only [VerificationType.isOfKind_rename]
  split <;> rfl

theorem arrayLength_rename :
    (stack.rename name).arrayLength = rename name <$> stack.arrayLength := by
  refine bind_eq_map_bind stack.pop_rename ?_
  rintro ⟨array, rest⟩ _
  cases array with
  | object type => cases type <;> rfl
  | _ => rfl

theorem pushResult_rename
    (result : Option FieldType) :
    (stack.rename name).pushResult result = (stack.pushResult result).rename name := by
  cases result with
  | none => rfl
  | some type =>
      change VerificationType.ofField type :: stack.rename name =
        (VerificationType.ofField type).rename name :: stack.rename name
      rw [VerificationType.rename_of_site?_eq_none (VerificationType.site?_ofField type)]

end OperandStack

/-! ## Instructions on the operand stack -/

open OperandStack (rename_append)

theorem StackOperation.apply_rename
    (operation : StackOperation)
    (stack : OperandStack) :
    operation.apply (stack.rename name) = OperandStack.rename name <$> operation.apply stack := by
  cases operation with
  | pop =>
      refine bind_eq_map_bind stack.takeSingle_rename ?_
      rintro ⟨taken, rest⟩ _
      rfl
  | pop2 =>
      refine bind_eq_map_bind stack.takePair_rename ?_
      rintro ⟨taken, rest⟩ _
      rfl
  | dup =>
      refine bind_eq_map_bind stack.takeSingle_rename ?_
      rintro ⟨copied, rest⟩ _
      exact congrArg Except.ok (by simp only [rename_append])
  | dupX1 =>
      refine bind_eq_map_bind stack.takeSingle_rename ?_
      rintro ⟨copied, rest⟩ _
      refine bind_eq_map_bind rest.takeSingle_rename ?_
      rintro ⟨skipped, rest⟩ _
      exact congrArg Except.ok (by simp only [rename_append])
  | dupX2 =>
      refine bind_eq_map_bind stack.takeSingle_rename ?_
      rintro ⟨copied, rest⟩ _
      refine bind_eq_map_bind rest.takePair_rename ?_
      rintro ⟨skipped, rest⟩ _
      exact congrArg Except.ok (by simp only [rename_append])
  | dup2 =>
      refine bind_eq_map_bind stack.takePair_rename ?_
      rintro ⟨copied, rest⟩ _
      exact congrArg Except.ok (by simp only [rename_append])
  | dup2X1 =>
      refine bind_eq_map_bind stack.takePair_rename ?_
      rintro ⟨copied, rest⟩ _
      refine bind_eq_map_bind rest.takeSingle_rename ?_
      rintro ⟨skipped, rest⟩ _
      exact congrArg Except.ok (by simp only [rename_append])
  | dup2X2 =>
      refine bind_eq_map_bind stack.takePair_rename ?_
      rintro ⟨copied, rest⟩ _
      refine bind_eq_map_bind rest.takePair_rename ?_
      rintro ⟨skipped, rest⟩ _
      exact congrArg Except.ok (by simp only [rename_append])
  | swap =>
      refine bind_eq_map_bind stack.takeSingle_rename ?_
      rintro ⟨top, rest⟩ _
      refine bind_eq_map_bind rest.takeSingle_rename ?_
      rintro ⟨below, rest⟩ _
      exact congrArg Except.ok (by simp only [rename_append])

theorem Condition.apply_rename
    (condition : Condition)
    (stack : OperandStack) :
    condition.apply (stack.rename name) = OperandStack.rename name <$> condition.apply stack := by
  cases condition with
  | zero comparison => exact stack.popType_rename rfl
  | ints comparison => exact stack.popTypes_rename (by decide)
  | references comparison =>
      exact bind_eq_map_bind stack.popReference_rename fun rest _ => rest.popReference_rename
  | null comparison => exact stack.popReference_rename

theorem FieldAccess.apply_rename
    (access : FieldAccess)
    (type : FieldType)
    (stack : OperandStack) :
    access.apply type (stack.rename name) =
      OperandStack.rename name <$> access.apply type stack := by
  have pushed : ∀ rest : OperandStack,
      (.ok (.ofField type :: rest.rename name) : Except FlowError OperandStack) =
        OperandStack.rename name <$> .ok (.ofField type :: rest) :=
    fun rest => congrArg Except.ok (rest.pushResult_rename (some type))
  cases access with
  | getStatic => exact pushed stack
  | putStatic => exact stack.popFitting_rename type
  | getField => exact bind_eq_map_bind stack.popReference_rename fun rest _ => pushed rest
  | putField =>
      exact bind_eq_map_bind (stack.popFitting_rename type) fun rest _ => rest.popReference_rename

theorem Operation.apply_rename
    (operation : Operation)
    (stack : OperandStack) :
    operation.apply (stack.rename name) = OperandStack.rename name <$> operation.apply stack := by
  have noSite : ∀ kind : LocalKind, kind.type.site? = none :=
    VerificationType.site?_type_of_localKind
  have noSiteInt : (VerificationType.int : VType).site? = none := rfl
  cases operation with
  | nop => rfl
  | pushNull => rfl
  | arrayLoad kind => exact stack.loadElement_rename kind
  | arrayStore kind => exact stack.storeElement_rename kind
  | stack operation => exact operation.apply_rename stack
  | arithmetic operation kind =>
      exact stack.replaceTypes_rename (by simp [NumericKind.type, noSite]) (noSite _)
  | negate kind => exact stack.replaceTypes_rename (by simp [NumericKind.type, noSite]) (noSite _)
  | shift direction kind =>
      exact stack.replaceTypes_rename (by simp [IntegerKind.type, noSite, noSiteInt]) (noSite _)
  | bitwise operation kind =>
      exact stack.replaceTypes_rename (by simp [IntegerKind.type, noSite]) (noSite _)
  | convert conversion =>
      exact stack.replaceTypes_rename (by simp [NumericKind.type, noSite]) (noSite _)
  | compareLong => exact stack.replaceTypes_rename (by decide) rfl
  | compareFloat unordered => exact stack.replaceTypes_rename (by decide) rfl
  | compareDouble unordered => exact stack.replaceTypes_rename (by decide) rfl
  | leave kind =>
      cases kind with
      | none => rfl
      | some kind =>
          change Prod.snd <$> (stack.rename name).popKind kind =
            OperandStack.rename name <$> (Prod.snd <$> stack.popKind kind)
          rw [stack.popKind_rename kind]
          cases stack.popKind kind <;> rfl
  | throw => exact stack.popReference_rename
  | arrayLength => exact stack.arrayLength_rename
  | monitorEnter => exact stack.popReference_rename
  | monitorExit => exact stack.popReference_rename

/-! ## Local variables -/

namespace Locals

/-- The slots with other names for the sites of their values. -/
def rename (name : Nat → Nat) (locals : List VType) : List VType :=
  locals.map (VerificationType.rename name)

variable (locals : List VType)

@[simp] theorem length_rename :
    (rename name locals).length = locals.length :=
  List.length_map _

theorem get_rename
    (slot : UInt16) :
    get (rename name locals) slot = VerificationType.rename name <$> get locals slot := by
  unfold get rename
  rw [List.getElem?_map]
  cases locals[slot.toNat]? <;> rfl

theorem extend_rename
    (count : Nat) :
    extend (rename name locals) count = rename name (extend locals count) := by
  unfold extend
  rw [length_rename, rename, rename, List.map_append, List.map_replicate]
  rfl

theorem set_rename
    (slot : Nat)
    (type : VType) :
    (rename name locals).set slot (type.rename name) = rename name (locals.set slot type) :=
  List.map_set.symm

theorem splitBefore_rename
    (slot : Nat) :
    splitBefore (rename name locals) slot = rename name (splitBefore locals slot) := by
  cases slot with
  | zero => rfl
  | succ before =>
      unfold splitBefore
      dsimp only
      rw [rename, List.getElem?_map]
      cases locals[before]? with
      | none => rfl
      | some type =>
          simp only [Option.map_some, VerificationType.isWide_rename]
          split
          · exact set_rename locals before .top
          · rfl

theorem assign_rename
    (slot : UInt16)
    (type : VType) :
    assign (rename name locals) slot (type.rename name) =
      rename name (assign locals slot type) := by
  unfold assign
  dsimp only
  rw [VerificationType.width_rename, VerificationType.isWide_rename, extend_rename,
    splitBefore_rename, set_rename]
  split
  · exact set_rename _ _ .top
  · rfl

end Locals

/-! ## Frames -/

namespace Frame

/-- The frame has an object of a site whose constructor has not run. -/
def Holds (frame : Frame) (site : Nat) : Prop :=
  .uninitialized site ∈ frame.stack ∨ .uninitialized site ∈ frame.locals

/-- The frame with other names for the sites of its values. -/
def rename (name : Nat → Nat) (frame : Frame) : Frame :=
  ⟨Locals.rename name frame.locals, frame.stack.rename name⟩

variable {owner : BinaryName} {code : Array (Instruction Nat)} {frame after : Frame}

/-- A frame is told from its names for the sites that it holds. -/
theorem rename_congr
    {other : Nat → Nat}
    (same : ∀ site, frame.Holds site → name site = other site) :
    frame.rename name = frame.rename other := by
  have sameValue : ∀ type : VType, (∀ site, type = .uninitialized site → frame.Holds site) →
      type.rename name = type.rename other := by
    intro type held
    cases type with
    | uninitialized site =>
        exact congrArg VerificationType.uninitialized (same site (held site rfl))
    | _ => rfl
  unfold rename Locals.rename OperandStack.rename
  rw [List.map_congr_left fun type member => sameValue type fun site isSite =>
      .inr (isSite ▸ member),
    List.map_congr_left fun type member => sameValue type fun site isSite =>
      .inl (isSite ▸ member)]

theorem rename_id
    (frame : Frame) :
    frame.rename id = frame := by
  have sameValue : VerificationType.rename id = id := by
    funext type
    cases type <;> rfl
  unfold rename Locals.rename OperandStack.rename
  rw [sameValue, List.map_id, List.map_id]

theorem initialized_rename
    {imageCode : Array (Instruction Nat)}
    {receiver : VType}
    (sameCode : ∀ site, receiver = .uninitialized site → imageCode[name site]? = code[site]?) :
    initialized owner imageCode (receiver.rename name) =
      VerificationType.rename name <$> initialized owner code receiver := by
  cases receiver with
  | uninitialized site =>
      have same := sameCode site rfl
      unfold initialized
      dsimp only [VerificationType.rename]
      rw [same]
      split <;> rfl
  | _ => rfl

/-- What becomes of an object whose constructor runs is no longer told by its site. -/
theorem site?_of_initialized_eq_ok
    {receiver object : VType}
    (isObject : initialized owner code receiver = .ok object) :
    object.site? = none := by
  unfold initialized at isObject
  split at isObject
  · cases isObject
    rfl
  · split at isObject
    · cases isObject
      rfl
    · cases isObject
  · cases isObject

/-- Where sites have different names, all copies of an object are replaced by whatever names. -/
theorem map_replaced_rename
    {values : List VType}
    {receiver object : VType}
    (noSite : object.site? = none)
    (apart : ∀ site other, .uninitialized site ∈ values → receiver = .uninitialized other →
      name site = name other → site = other) :
    (values.map (VerificationType.rename name)).map
        (fun type => if type = receiver.rename name then object else type) =
      (values.map fun type => if type = receiver then object else type).map
        (VerificationType.rename name) := by
  rw [List.map_map, List.map_map]
  refine List.map_congr_left fun type member => ?_
  have same : type.rename name = receiver.rename name ↔ type = receiver :=
    VerificationType.rename_eq_rename_iff fun site other isSite isOther sameName =>
      apart site other (isSite ▸ member) isOther sameName
  simp only [Function.comp_apply, same]
  split
  · exact (VerificationType.rename_of_site?_eq_none noSite).symm
  · rfl

section Execute

variable {imageCode : Array (Instruction Nat)}
variable (apart : ∀ site other, frame.Holds site → frame.Holds other →
  name site = name other → site = other)
variable (sameCode : ∀ site, frame.Holds site → imageCode[name site]? = code[site]?)

include apart sameCode in
theorem construct_rename
    (type : MethodType) :
    (frame.rename name).construct owner imageCode type =
      rename name <$> frame.construct owner code type := by
  refine bind_eq_map_bind (frame.stack.popArguments_rename type.parameters) ?_
  intro stack popped
  have isSuffix := OperandStack.suffix_of_popArguments_eq_ok popped
  refine bind_eq_map_bind stack.pop_rename ?_
  rintro ⟨receiver, rest⟩ isPopped
  obtain rfl := OperandStack.eq_cons_of_pop_eq_ok isPopped
  have receiverHeld : ∀ site, receiver = .uninitialized site → frame.Holds site := by
    rintro site rfl
    exact .inl (isSuffix.subset List.mem_cons_self)
  refine bind_eq_map_bind
    (initialized_rename fun site isSite => sameCode site (receiverHeld site isSite)) ?_
  intro object isObject
  have noSite := site?_of_initialized_eq_ok isObject
  by_cases hasResult : type.result.isSome = true
  · rw [if_pos hasResult, if_pos hasResult]
    rfl
  · rw [if_neg hasResult, if_neg hasResult]
    have sameLocals := @map_replaced_rename name frame.locals receiver object noSite
      fun site other member isOther =>
        apart site other (.inr member) (receiverHeld other isOther)
    have sameStack := @map_replaced_rename name rest receiver object noSite
      fun site other member isOther =>
        apart site other (.inl (isSuffix.subset (List.mem_cons_of_mem _ member)))
          (receiverHeld other isOther)
    simp only [VerificationType.rename_of_site?_eq_none noSite]
    exact congrArg Except.ok (congr (congrArg Frame.mk sameLocals) sameStack)

theorem call_rename
    (stack : OperandStack)
    (hasReceiver : Bool)
    (type : MethodType) :
    call (stack.rename name) hasReceiver type =
      OperandStack.rename name <$> call stack hasReceiver type := by
  refine bind_eq_map_bind (stack.popArguments_rename type.parameters) ?_
  intro rest _
  have pushed : ∀ rest : OperandStack,
      (.ok ((rest.rename name).pushResult type.result) : Except FlowError OperandStack) =
        OperandStack.rename name <$> .ok (rest.pushResult type.result) :=
    fun rest => congrArg Except.ok (rest.pushResult_rename type.result)
  cases hasReceiver with
  | false => exact pushed rest
  | true => exact bind_eq_map_bind rest.popReference_rename fun rest _ => pushed rest

theorem withStack_rename
    {image result : Except FlowError OperandStack} :
    image = OperandStack.rename name <$> result →
      (match image with
        | .ok stack => .ok ⟨(frame.rename name).locals, stack⟩
        | .error failure => .error failure : Except FlowError Frame) =
        rename name <$> (match result with
          | .ok stack => .ok ⟨frame.locals, stack⟩
          | .error failure => .error failure) := by
  rintro rfl
  cases result <;> rfl

theorem push_rename
    {type : VType}
    (noSite : type.site? = none) :
    (.ok ⟨(frame.rename name).locals, type :: (frame.rename name).stack⟩ :
        Except FlowError Frame) =
      rename name <$> .ok ⟨frame.locals, type :: frame.stack⟩ := by
  change _ = Except.ok (Frame.mk _ (type.rename name :: _))
  rw [VerificationType.rename_of_site?_eq_none noSite]
  rfl

include apart sameCode in
/-- Every instruction does the same to a frame with other names for its sites, in code where the
sites of these names are the same instructions. -/
theorem execute_rename
    {index imageIndex : Nat}
    {instruction : Instruction Nat}
    (sameIndex : ∀ made, instruction = .new made → imageIndex = name index) :
    (frame.rename name).execute owner imageCode imageIndex instruction =
      rename name <$> frame.execute owner code index instruction := by
  cases instruction with
  | op operation => exact withStack_rename (operation.apply_rename frame.stack)
  | pushInt value => exact push_rename rfl
  | pushLong value => exact push_rename rfl
  | pushFloat bits => exact push_rename rfl
  | pushDouble bits => exact push_rename rfl
  | pushLiteral literal => exact push_rename (by cases literal <;> rfl)
  | load kind slot =>
      refine bind_eq_map_bind (Locals.get_rename frame.locals slot) ?_
      intro type _
      rw [VerificationType.isOfKind_rename]
      split <;> rfl
  | store kind slot =>
      refine bind_eq_map_bind (frame.stack.popKind_rename kind) ?_
      rintro ⟨type, rest⟩ _
      exact congrArg (fun locals => Except.ok (Frame.mk locals (rest.rename name)))
        (Locals.assign_rename frame.locals slot type)
  | increment slot amount =>
      refine bind_eq_map_bind (Locals.get_rename frame.locals slot) ?_
      intro type _
      have isInt : type.rename name = .int ↔ type = .int := VerificationType.rename_eq_iff rfl
      simp only [isInt]
      split <;> rfl
  | branch condition target => exact withStack_rename (condition.apply_rename frame.stack)
  | goto target => rfl
  | tableSwitch default low targets => exact withStack_rename (frame.stack.popType_rename rfl)
  | lookupSwitch default targets => exact withStack_rename (frame.stack.popType_rename rfl)
  | field access member => exact withStack_rename (access.apply_rename member.type frame.stack)
  | invoke kind method =>
      unfold execute
      dsimp only
      split
      · exact construct_rename apart sameCode method.type
      · exact withStack_rename (call_rename frame.stack kind.hasReceiver method.type)
  | invokeDynamic dynamic => exact withStack_rename (call_rename frame.stack false dynamic.type)
  | new made =>
      rw [sameIndex made rfl]
      rfl
  | newArray element =>
      exact withStack_rename (frame.stack.replaceTypes_rename (by decide) rfl)
  | newRefArray element =>
      exact withStack_rename (frame.stack.replaceTypes_rename (by decide) rfl)
  | checkCast type =>
      exact withStack_rename (bind_eq_map_bind frame.stack.popReference_rename fun _ _ => rfl)
  | instanceOf type =>
      exact withStack_rename (bind_eq_map_bind frame.stack.popReference_rename fun _ _ => rfl)
  | newMultiArray type dimensions =>
      refine withStack_rename (frame.stack.replaceTypes_rename ?_ rfl)
      intro expected member
      rw [List.eq_of_mem_replicate member]
      rfl

end Execute

/-- An instruction brings no site into a frame but its own. -/
theorem holds_of_execute_eq_ok
    {index site : Nat}
    {instruction : Instruction Nat}
    (executed : frame.execute owner code index instruction = .ok after)
    (held : after.Holds site) :
    frame.Holds site ∨ site = index ∧ ∃ made, instruction = .new made := by
  by_contra notHeld
  rw [not_or] at notHeld
  obtain ⟨notBefore, notMade⟩ := notHeld
  -- Another name for the site changes nothing before, so that it changes nothing afterwards.
  let name (other : Nat) : Nat := if other = site then site + 1 else other
  have keeps : ∀ other, frame.Holds other → name other = other := by
    intro other otherHeld
    refine if_neg ?_
    rintro rfl
    exact notBefore otherHeld
  have sameBefore : frame.rename name = frame :=
    (rename_congr keeps).trans frame.rename_id
  have renamed : frame.execute owner code index instruction =
      rename name <$> frame.execute owner code index instruction := by
    have image : (frame.rename name).execute owner code index instruction =
        rename name <$> frame.execute owner code index instruction := by
      refine execute_rename ?_ (fun other otherHeld => by rw [keeps other otherHeld])
        (fun made isNew => (if_neg fun isSite => notMade ⟨isSite.symm, made, isNew⟩).symm)
      intro first second firstHeld secondHeld same
      rw [keeps first firstHeld, keeps second secondHeld] at same
      exact same
    rw [sameBefore] at image
    exact image
  have sameAfter : after = after.rename name := by
    rw [executed] at renamed
    exact Except.ok.inj renamed
  have isRenamed : (VerificationType.uninitialized site : VType).rename name =
      .uninitialized (site + 1) :=
    congrArg VerificationType.uninitialized (if_pos rfl)
  have changed : ∀ {values : List VType}, values = values.map (VerificationType.rename name) →
      .uninitialized site ∉ values := by
    intro values same member
    rw [same] at member
    obtain ⟨type, _, isType⟩ := List.mem_map.mp member
    cases type with
    | uninitialized other =>
        have isSite : name other = site := VerificationType.uninitialized.inj isType
        by_cases isOther : other = site
        · rw [show name other = site + 1 from if_pos isOther] at isSite
          omega
        · rw [show name other = other from if_neg isOther] at isSite
          exact isOther isSite
    | _ => cases isType
  rcases held with onStack | inSlot
  · exact changed (congrArg Frame.stack sameAfter) onStack
  · exact changed (congrArg Frame.locals sameAfter) inSlot

end Frame

end ClosureConversion
