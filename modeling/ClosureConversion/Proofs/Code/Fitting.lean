import ClosureConversion.ClassDefinition
import ClosureConversion.Proofs.Code.Layout
import ClosureConversion.Proofs.Reference
import ClosureConversion.Proofs.StackMap.Points

/-!
Contract: code and classes that are written wherever the constant pool has room for them.

Owns:
- the room that the constants of an instruction, of a method and of a class take;
- straight code, which is written whatever the positions of its constants are;
- methods without exception handlers whose stack maps are empty, and classes of such methods.

Does not own: what is written.
-/

namespace ClosureConversion

theorem Attribute.fitsIn_ofContents
    {α : Type}
    [AttributeContents α]
    (contents : α) :
    FitsIn 1 (Attribute.ofContents contents) :=
  (ConstantPool.fitsIn_intern (.utf8 (attributeName α))).bind fun name =>
    fitsIn_pure (Attribute.mk name (write contents))

/-! ## Instructions -/

/-- Whether an instruction is a dynamic call, which has constants without a limit. -/
def Instruction.isDynamicCall : Instruction Nat → Bool
  | .invokeDynamic _ => true
  | _ => false

/-- Dynamic calls apart, instructions have the constants of one member at most. -/
theorem Instruction.fitsIn_internConstant
    {instruction : Instruction Nat}
    (isOther : instruction.isDynamicCall = false) :
    FitsIn 7 instruction.internConstant := by
  have nothing : FitsIn 7 (pure none : PoolM (Option PoolIndex)) :=
    (fitsIn_pure none).mono (Nat.zero_le _)
  unfold internConstant
  cases instruction with
  | pushInt value =>
      dsimp only
      split
      · exact nothing
      · exact (Literal.fitsIn_intern _).map some
  | pushLong value =>
      dsimp only
      split
      · exact nothing
      · exact (Literal.fitsIn_intern _).map some
  | pushFloat bits =>
      dsimp only
      split
      · exact nothing
      · exact (Literal.fitsIn_intern _).map some
  | pushDouble bits =>
      dsimp only
      split
      · exact nothing
      · exact (Literal.fitsIn_intern _).map some
  | pushLiteral literal => exact literal.fitsIn_intern.map some
  | field access member => exact (member.fitsIn_intern.map some).mono (by decide)
  | invoke kind method => exact (method.fitsIn_intern.map some).mono (by decide)
  | invokeDynamic call => cases isOther
  | new name => exact (name.fitsIn_intern.map some).mono (by decide)
  | newRefArray element => exact (element.fitsIn_intern.map some).mono (by decide)
  | checkCast type => exact (type.fitsIn_intern.map some).mono (by decide)
  | instanceOf type => exact (type.fitsIn_intern.map some).mono (by decide)
  | newMultiArray type dimensions => exact (type.fitsIn_intern.map some).mono (by decide)
  | _ => exact nothing

/-- Code of instructions that neither are dynamic calls nor have targets, short enough for the code
of a method. -/
structure IsStraight (instructions : Array (Instruction Nat)) : Prop where
  noDynamicCall : ∀ instruction ∈ instructions.toList, instruction.isDynamicCall = false
  noTargets : ∀ instruction ∈ instructions.toList, instruction.targets = []
  isShort : 8 * instructions.size ≤ maxCodeLength

instance (instructions : Array (Instruction Nat)) : Decidable (IsStraight instructions) :=
  decidable_of_iff
    ((∀ instruction ∈ instructions.toList, instruction.isDynamicCall = false) ∧
      (∀ instruction ∈ instructions.toList, instruction.targets = []) ∧
        8 * instructions.size ≤ maxCodeLength)
    ⟨fun ⟨noDynamicCall, noTargets, isShort⟩ => ⟨noDynamicCall, noTargets, isShort⟩,
      fun ⟨noDynamicCall, noTargets, isShort⟩ => ⟨noDynamicCall, noTargets, isShort⟩⟩

theorem literalSize_le
    (constant : Option PoolIndex) :
    literalSize constant ≤ 3 := by
  unfold literalSize
  split
  · split <;> decide
  · decide

theorem localAccessSize_le
    (slot : UInt16) :
    localAccessSize slot ≤ 4 := by
  unfold localAccessSize
  split
  · decide
  · split <;> decide

theorem Linked.size_le
    {item : Linked}
    (noTargets : item.instruction.targets = [])
    (offset : Nat)
    (far : Bool) :
    item.size offset far ≤ 8 := by
  obtain ⟨instruction, constant⟩ := item
  have literal := literalSize_le constant
  cases instruction with
  | pushInt value =>
      change (if _ then _ else if _ then _ else if _ then _ else literalSize constant) ≤ 8
      split_ifs <;> omega
  | pushLong value =>
      change (if _ then _ else _) ≤ 8
      split_ifs <;> omega
  | pushFloat bits =>
      change (if _ then literalSize constant else _) ≤ 8
      split_ifs <;> omega
  | pushDouble bits =>
      change (if _ then _ else _) ≤ 8
      split_ifs <;> omega
  | pushLiteral value =>
      change (if _ then _ else literalSize constant) ≤ 8
      split_ifs <;> omega
  | load kind slot => exact Nat.le_trans (localAccessSize_le slot) (by decide)
  | store kind slot => exact Nat.le_trans (localAccessSize_le slot) (by decide)
  | increment slot amount =>
      change (if _ then _ else _) ≤ 8
      split_ifs <;> omega
  | invoke kind method => cases kind <;> exact Nat.le_of_ble_eq_true rfl
  | branch condition target => cases noTargets
  | goto target => cases noTargets
  | tableSwitch default low targets => cases noTargets
  | lookupSwitch default targets => cases noTargets
  | _ => exact Nat.le_of_ble_eq_true rfl

theorem Linked.exists_bytes
    {item : Linked}
    (noTargets : item.instruction.targets = [])
    (offsets : Array Nat)
    (offset : Nat)
    (far : Bool) :
    ∃ bytes, item.bytes offsets offset far = .ok bytes := by
  obtain ⟨instruction, constant⟩ := item
  unfold bytes
  cases instruction with
  | pushInt value =>
      dsimp only
      split
      · exact ⟨_, rfl⟩
      · split_ifs <;> exact ⟨_, rfl⟩
  | pushLong value => cases constant <;> exact ⟨_, rfl⟩
  | pushFloat bits => cases constant <;> exact ⟨_, rfl⟩
  | pushDouble bits => cases constant <;> exact ⟨_, rfl⟩
  | pushLiteral literal =>
      dsimp only
      split_ifs <;> exact ⟨_, rfl⟩
  | increment slot amount =>
      dsimp only
      split_ifs <;> exact ⟨_, rfl⟩
  | invoke kind method => cases kind <;> exact ⟨_, rfl⟩
  | branch condition target => cases noTargets
  | goto target => cases noTargets
  | tableSwitch default low targets => cases noTargets
  | lookupSwitch default targets => cases noTargets
  | _ => exact ⟨_, rfl⟩

section Straight

variable {range : JumpRange} {items : Array Linked}

/-- Without targets, no jump has to be long. -/
theorem farJumps_of_noTargets
    (noTargets : ∀ item ∈ items, item.instruction.targets = [])
    (offsets : Array Nat) :
    farJumps range items (Array.replicate items.size false) offsets =
      .ok (Array.replicate items.size false) := by
  have noJump : ∀ item ∈ items, item.instruction.jumpTarget? = none := by
    intro item member
    have none := noTargets item member
    cases isInstruction : item.instruction <;> rw [isInstruction] at none <;>
      first | rfl | cases none
  refine mapIdxM_eq_ok_of_forall (by simp) fun index item stands => ?_
  obtain ⟨isItem, isShort⟩ := Array.getElem?_zip_eq_some.mp stands
  refine ⟨false, ?_, ?_⟩
  · rw [isShort, (Array.mem_replicate.mp (Array.mem_of_getElem? isShort)).2]
  · dsimp only
    rw [(Array.mem_replicate.mp (Array.mem_of_getElem? isShort)).2,
      noJump item.1 (Array.mem_of_getElem? isItem)]
    rfl

theorem le_of_mem_offsetsFrom_of_noTargets
    {start : Nat}
    {placed : List (Linked × Bool)}
    (noTargets : ∀ item ∈ placed, item.1.instruction.targets = [])
    {offset : Nat}
    (member : offset ∈ offsetsFrom start placed) :
    offset ≤ start + 8 * placed.length := by
  induction placed generalizing start with
  | nil =>
      rw [List.mem_singleton.mp member]
      exact Nat.le_add_right _ _
  | cons item placed inductionHypothesis =>
      rw [List.length_cons]
      rcases List.mem_cons.mp member with rfl | isLater
      · omega
      · have small := Linked.size_le (noTargets item List.mem_cons_self) start item.2
        have later := inductionHypothesis
          (fun other member => noTargets other (List.mem_cons_of_mem _ member)) isLater
        omega

/-- Code without targets is written whatever the positions of its constants are, and no jump as
two. -/
theorem exists_encodeLinked_eq_ok
    (noTargets : ∀ item ∈ items, item.instruction.targets = [])
    (isShort : 8 * items.size ≤ maxCodeLength) :
    ∃ encoded, encodeLinked range items = .ok encoded ∧ encoded.widened = [] := by
  let far := Array.replicate items.size false
  have placedNoTargets : ∀ item ∈ (items.zip far).toList, item.1.instruction.targets = [] :=
    fun item member => noTargets item.1
      (Array.of_mem_zip (Array.mem_toList_iff.mp member)).1
  have relaxed : relax range items (items.size + 1) far = .ok (layout items far, far) := by
    rw [relax]
    refine bind_eq_ok.mpr ⟨far, farJumps_of_noTargets noTargets _, ?_⟩
    rw [if_pos rfl]
    rfl
  have length : (layout items far).back?.getD 0 ≤ maxCodeLength := by
    cases isLast : (layout items far).back? with
    | none => exact Nat.zero_le _
    | some last =>
        have member : last ∈ offsetsFrom 0 (items.zip far).toList := by
          rw [← toList_layout]
          exact Array.mem_toList_iff.mpr (Array.mem_of_back? isLast)
        have bound := le_of_mem_offsetsFrom_of_noTargets placedNoTargets member
        simp only [Array.length_toList, Array.size_zip, far, Array.size_replicate, Nat.min_self]
          at bound
        rw [Option.getD_some]
        omega
  obtain ⟨chunks, areChunks⟩ : ∃ chunks, (items.zip far).mapIdxM (fun index entry =>
      entry.1.bytes (layout items far) ((layout items far).getD index 0) entry.2) = .ok chunks :=
    exists_mapIdxM_eq_ok fun index entry stands => Linked.exists_bytes
      (placedNoTargets entry (Array.mem_toList_iff.mpr (Array.mem_of_getElem? stands))) _ _ _
  unfold encodeLinked
  rw [relaxed]
  dsimp only [bind, Except.bind]
  rw [if_neg (Nat.not_lt.mpr length)]
  refine ⟨_, bind_eq_ok.mpr ⟨chunks, areChunks, rfl⟩, ?_⟩
  refine List.filter_eq_nil_iff.mpr fun index _ => ?_
  cases stands : (items.zip far)[index]? with
  | none => exact Bool.false_ne_true
  | some item =>
      obtain ⟨_, isFar⟩ := Array.getElem?_zip_eq_some.mp stands
      dsimp only
      rw [(Array.mem_replicate.mp (Array.mem_of_getElem? isFar)).2, Bool.false_and]
      exact Bool.false_ne_true

end Straight

/-- Straight code is written wherever the pool has room for its constants. -/
theorem IsStraight.encode_eq_ok
    {instructions : Array (Instruction Nat)}
    (isStraight : IsStraight instructions)
    {pool : ConstantPool}
    (room : pool.constants.endOffset + 7 * instructions.size ≤ ConstantPool.positionLimit) :
    ∃ encoded after, encode instructions pool = .ok encoded after ∧ encoded.widened = [] ∧
      after.constants.endOffset ≤ pool.constants.endOffset + 7 * instructions.size ∧
      after.bootstraps = pool.bootstraps := by
  let link (instruction : Instruction Nat) : PoolM Linked := do
    return ({ instruction, constant := ← instruction.internConstant } : Linked)
  have fits : FitsIn (7 * instructions.toList.length) (instructions.toList.mapM link) :=
    fitsIn_mapM _ fun instruction member =>
      (Instruction.fitsIn_internConstant (isStraight.noDynamicCall instruction member)).bind
        fun constant => fitsIn_pure (Linked.mk instruction constant)
  obtain ⟨items, after, linked, afterEnd, same⟩ := fits pool room
  have kept : List.Forall₂ (fun instruction (item : Linked) => item.instruction = instruction)
      instructions.toList items := by
    refine (forall₂_of_run_mapM_eq_ok linked).imp ?_
    rintro instruction item ⟨_, _, isLinked⟩
    obtain ⟨constant, _, _, isItem⟩ := run_bind_eq_ok.mp isLinked
    obtain ⟨rfl, _⟩ := run_pure_eq_ok.mp isItem
    rfl
  have noTargets : ∀ item ∈ items.toArray, item.instruction.targets = [] := by
    intro item member
    obtain ⟨instruction, isInstruction, rfl⟩ :=
      exists_mem_of_forall₂ kept (List.mem_toArray.mp member)
    exact isStraight.noTargets _ isInstruction
  have isShort : 8 * items.toArray.size ≤ maxCodeLength := by
    rw [List.size_toArray, ← kept.length_eq, Array.length_toList]
    exact isStraight.isShort
  obtain ⟨encoded, isEncoded, notWidened⟩ := exists_encodeLinked_eq_ok noTargets isShort
  refine ⟨encoded, after, ?_, notWidened, afterEnd, same⟩
  refine run_bind_eq_ok.mpr ⟨items.toArray, after, ?_, run_ofExcept_eq_ok.mpr ⟨isEncoded, rfl⟩⟩
  rw [Array.mapM_eq_mapM_toList, map_eq_pure_bind]
  exact run_bind_eq_ok.mpr ⟨items, after, linked, rfl⟩

/-! ## Methods -/

/-- Whether a value is an object that was created in the code and has not been initialized. -/
def VerificationType.isUninitialized : VType → Bool
  | .uninitialized _ => true
  | _ => false

theorem VerificationType.fitsIn_toStackMap
    {type : VType}
    (isOther : type.isUninitialized = false)
    (offsets : Array Nat) :
    FitsIn 2 (type.toStackMap offsets) := by
  unfold toStackMap
  cases type with
  | object type => exact type.fitsIn_intern.map VerificationType.object
  | uninitialized site => cases isOther
  | _ => exact (fitsIn_pure _).mono (Nat.zero_le _)

/-- A method that is accepted, with straight code, without exception handlers and without frames
in its stack map. -/
structure Method.IsPlain (method : Method) (hierarchy : Hierarchy) (analysis : FlowAnalysis) :
    Prop where
  accepted : method.analyze hierarchy = .ok analysis
  isStraight : IsStraight (analysis.overwriteDead method.instructions)
  noHandlers : method.handlers = #[]
  noPoints : framePoints (analysis.overwriteDead method.instructions) analysis [] [] = []
  initialized : ∀ type ∈ Locals.values method.entryFrame.locals, type.isUninitialized = false
  isShallow : analysis.maxStack ≤ 65535
  fewLocals : method.localsNeeded analysis ≤ 65535

instance (method : Method) (hierarchy : Hierarchy) (analysis : FlowAnalysis) :
    Decidable (method.IsPlain hierarchy analysis) :=
  decidable_of_iff
    (method.analyze hierarchy = .ok analysis ∧
      IsStraight (analysis.overwriteDead method.instructions) ∧ method.handlers.toList = [] ∧
      -- Whether an instruction needs a frame is looked up in a list here, so that it computes.
      ((List.range (analysis.overwriteDead method.instructions).size).filterMap fun index =>
        (if (analysis.deadRuns.map DeadRun.start).contains index then some Frame.deadCode
          else if (frameTargets (analysis.overwriteDead method.instructions) analysis []
            []).contains index then analysis.frame? index
          else none).map (index, ·)) = [] ∧
      (∀ type ∈ Locals.values method.entryFrame.locals, type.isUninitialized = false) ∧
      analysis.maxStack ≤ 65535 ∧ method.localsNeeded analysis ≤ 65535)
    ⟨fun ⟨accepted, isStraight, noHandlers, noPoints, initialized, isShallow, fewLocals⟩ =>
      ⟨accepted, isStraight, Array.toList_inj.mp noHandlers, framePoints_eq.trans noPoints,
        initialized, isShallow, fewLocals⟩,
    fun plain => ⟨plain.accepted, plain.isStraight, congrArg Array.toList plain.noHandlers,
      framePoints_eq.symm.trans plain.noPoints, plain.initialized, plain.isShallow,
      plain.fewLocals⟩⟩

/-- The room that the constants of a plain method take. -/
def Method.room (method : Method) : Nat :=
  7 * method.instructions.size +
    (2 * (Locals.values method.entryFrame.locals).length +
      (1 + (2 * method.localVariables.size + 1)))

namespace Method

variable {method : Method} {hierarchy : Hierarchy} {analysis : FlowAnalysis}

theorem fitsIn_stackMapAttribute
    (initialized : ∀ type ∈ Locals.values method.entryFrame.locals, type.isUninitialized = false)
    (offsets : Array Nat) :
    FitsIn (2 * (Locals.values method.entryFrame.locals).length)
      (method.stackMapAttribute offsets []) := by
  have toldLocals := fitsIn_mapM (Locals.values method.entryFrame.locals) fun type member =>
    VerificationType.fitsIn_toStackMap (initialized type member) offsets
  have told : FitsIn (2 * (Locals.values method.entryFrame.locals).length)
      (method.entryFrame.toMapFrame offsets) :=
    toldLocals.bind fun locals => fitsIn_pure (MapFrame.mk (MapFrame.trimmed locals) [])
  exact told.bind fun entry => fitsIn_pure []

theorem fitsIn_lineAttribute
    (method : Method)
    (offsets : Array Nat) :
    FitsIn 1 (method.lineAttribute offsets) := by
  unfold lineAttribute
  dsimp only
  split
  · exact (fitsIn_pure []).mono (Nat.zero_le _)
  · exact (Attribute.fitsIn_ofContents _).bind fun entry => fitsIn_pure [entry]

theorem fitsIn_variableAttribute
    (method : Method)
    (offsets : Array Nat) :
    FitsIn (2 * method.localVariables.size + 1) (method.variableAttribute offsets) := by
  unfold variableAttribute
  split
  · have each : ∀ entry : LocalVariable Nat, FitsIn 2 (variableEntry offsets entry) :=
      fun entry => (ConstantPool.fitsIn_intern (.utf8 entry.name.text)).bind fun name =>
        (ConstantPool.fitsIn_intern (.utf8 entry.type.descriptor)).bind fun descriptor =>
          fitsIn_pure _
    have entries : FitsIn (2 * method.localVariables.size) (variableEntries method offsets) := by
      refine (fitsIn_mapM _ fun entry _ => each entry).mono (Nat.mul_le_mul_left 2 ?_)
      exact Nat.le_trans (List.length_filter_le _ _) (Nat.le_of_eq Array.length_toList)
    exact entries.bind fun localVariables =>
      (Attribute.fitsIn_ofContents (VariableTable.mk localVariables)).bind fun entry =>
        fitsIn_pure [entry]
  · exact (fitsIn_pure []).mono (Nat.zero_le _)

/-- Once the code of a plain method is encoded, only its tables are left to be made. -/
theorem IsPlain.assemble_of_encode_eq_ok
    (isPlain : method.IsPlain hierarchy analysis)
    (version : Version)
    {pool between : ConstantPool}
    {encoded : EncodedCode}
    (isEncoded : encode (analysis.overwriteDead method.instructions) pool = .ok encoded between)
    (notWidened : encoded.widened = []) :
    method.assemble hierarchy version pool =
      ((if version.usesStackMaps then method.stackMapAttribute encoded.offsets [] else pure []) >>=
        fun stackMap => do
          let lines ← method.lineAttribute encoded.offsets
          let localVariables ← method.variableAttribute encoded.offsets
          return CodeAttribute.mk analysis.maxStack.toUInt16
            (method.localsNeeded analysis).toUInt16 encoded.bytes []
            (stackMap ++ lines ++ localVariables)) between := by
  have noRanges : splitRanges method.handlers.toList analysis = [] := by
    rw [isPlain.noHandlers]
    rfl
  have accepted : (MonadExcept.ofExcept (method.analyze hierarchy) : PoolM FlowAnalysis) pool =
      .ok analysis pool :=
    run_ofExcept_eq_ok.mpr ⟨isPlain.accepted, rfl⟩
  unfold assemble
  rw [run_bind, accepted]
  dsimp only
  rw [run_bind, isEncoded]
  dsimp only
  rw [if_neg (Nat.not_lt.mpr isPlain.isShallow), if_neg (Nat.not_lt.mpr isPlain.fewLocals),
    noRanges, notWidened, isPlain.noPoints]
  rw [← run_ite_bind]
  rfl

/-- A plain method is assembled wherever the pool has room for it. -/
theorem IsPlain.fitsIn_assemble
    (isPlain : method.IsPlain hierarchy analysis)
    (version : Version) :
    FitsIn method.room (method.assemble hierarchy version) := by
  intro pool enough
  unfold room at enough ⊢
  have size : (analysis.overwriteDead method.instructions).size = method.instructions.size := by
    simp [FlowAnalysis.overwriteDead]
  obtain ⟨encoded, between, isEncoded, notWidened, betweenEnd, betweenSame⟩ :=
    isPlain.isStraight.encode_eq_ok (show pool.constants.endOffset + _ ≤ _ by rw [size]; omega)
  rw [size] at betweenEnd
  have fitsMap : FitsIn (2 * (Locals.values method.entryFrame.locals).length)
      (if version.usesStackMaps then method.stackMapAttribute encoded.offsets [] else pure []) := by
    split
    · exact fitsIn_stackMapAttribute isPlain.initialized encoded.offsets
    · exact (fitsIn_pure []).mono (Nat.zero_le _)
  have fitsTables := fitsMap.bind fun stackMap =>
    (method.fitsIn_lineAttribute encoded.offsets).bind fun lines =>
      (method.fitsIn_variableAttribute encoded.offsets).bind fun localVariables =>
        fitsIn_pure (CodeAttribute.mk analysis.maxStack.toUInt16
          (method.localsNeeded analysis).toUInt16 encoded.bytes []
          (stackMap ++ lines ++ localVariables))
  obtain ⟨code, after, assembled, afterEnd, afterSame⟩ := fitsTables between (by omega)
  refine ⟨code, after, ?_, by omega, afterSame.trans betweenSame⟩
  rw [isPlain.assemble_of_encode_eq_ok version isEncoded notWidened]
  exact assembled

end Method

/-! ## Classes -/

namespace ClassDefinition

variable {definition : ClassDefinition} {hierarchy : Hierarchy}

/-- A method of the class with its body. -/
def whole (definition : ClassDefinition) (declared : MethodDeclaration) (body : CodeBody Nat) :
    Method :=
  .ofBody definition.name declared.flags declared.name declared.type body

/-- The members have no annotations, and the methods are plain and take so much room. -/
structure IsPlain (definition : ClassDefinition) (hierarchy : Hierarchy) (room : Nat) : Prop where
  fields : ∀ field ∈ definition.fields, field.annotations = []
  methods : ∀ method ∈ definition.methods, method.declaration.annotations = [] ∧
    ∃ body analysis, method.body = some body ∧
      (definition.whole method.declaration body).IsPlain
        (hierarchy.shadow definition.declaration) analysis ∧
      (definition.whole method.declaration body).room ≤ room

/-- How many positions annotations take at most: one for each, and one for the name of their
attribute. -/
def annotationRoom (names : List BinaryName) : Nat :=
  if names.isEmpty then 0 else names.length + 1

theorem fitsIn_annotationAttribute
    (names : List BinaryName) :
    FitsIn (annotationRoom names) (annotationAttribute names) := by
  have each : ∀ name : BinaryName, FitsIn 1 ( annotation name) := fun name =>
    (ConstantPool.fitsIn_intern (.utf8 (FieldType.object name).descriptor)).bind fun _ =>
      fitsIn_pure _
  unfold annotationRoom annotationAttribute
  split
  · exact fitsIn_pure []
  · have marked : FitsIn (1 * names.length + 1) _ :=
      (fitsIn_mapM names fun name _ => each name).bind fun marks =>
        (Attribute.fitsIn_ofContents (InvisibleAnnotations.mk marks)).bind fun entry =>
          fitsIn_pure [entry]
    exact marked.mono (Nat.le_of_eq (by rw [Nat.one_mul]))

theorem fitsIn_fieldMember
    (field : FieldDeclaration) :
    FitsIn (2 + annotationRoom field.annotations) (fieldMember field) := by
  have made : FitsIn (1 + (1 + (annotationRoom field.annotations + 0))) (fieldMember field) :=
    (ConstantPool.fitsIn_intern (.utf8 field.name.text)).bind fun name =>
      (ConstantPool.fitsIn_intern (.utf8 field.type.descriptor)).bind fun descriptor =>
        (fitsIn_annotationAttribute field.annotations).bind fun attributes =>
          fitsIn_pure (Member.mk field.flags name descriptor attributes)
  exact made.mono (by omega)

/-- Besides its body a method takes no more room than a field. -/
theorem fitsIn_methodMember
    {room : Nat}
    {method : MethodDefinition}
    (coded : FitsIn room (definition.codeAttribute hierarchy method)) :
    FitsIn (room + 2 + annotationRoom method.declaration.annotations)
      (definition.methodMember hierarchy method) := by
  have made : FitsIn (room + (annotationRoom method.declaration.annotations + (1 + (1 + 0))))
      (definition.methodMember hierarchy method) :=
    coded.bind fun code =>
      (fitsIn_annotationAttribute method.declaration.annotations).bind fun annotations =>
        (ConstantPool.fitsIn_intern (.utf8 method.declaration.name.text)).bind fun name =>
          (ConstantPool.fitsIn_intern (.utf8 method.declaration.type.descriptor)).bind
            fun descriptor => fitsIn_pure
              (Member.mk method.declaration.flags name descriptor (code ++ annotations))
  exact made.mono (by omega)

theorem codeAttribute_of_body_eq_none
    {method : MethodDefinition}
    (noBody : method.body = none) :
    definition.codeAttribute hierarchy method = pure [] := by
  unfold codeAttribute
  rw [noBody]

theorem codeAttribute_of_body_eq_some
    {method : MethodDefinition}
    {body : CodeBody Nat}
    (isBody : method.body = some body) :
    definition.codeAttribute hierarchy method = do
      let code ← (definition.whole method.declaration body).assemble hierarchy definition.version
      return [← Attribute.ofContents code] := by
  unfold codeAttribute
  rw [isBody]
  rfl

theorem IsPlain.fitsIn_methodMember
    {room : Nat}
    (isPlain : definition.IsPlain hierarchy room)
    {method : MethodDefinition}
    (member : method ∈ definition.methods) :
    FitsIn (room + 3)
      (definition.methodMember (hierarchy.shadow definition.declaration) method) := by
  obtain ⟨unannotated, body, analysis, isBody, isPlainMethod, fits⟩ := isPlain.methods method member
  have coded : FitsIn (room + 1)
      (definition.codeAttribute (hierarchy.shadow definition.declaration) method) := by
    rw [codeAttribute_of_body_eq_some isBody]
    exact ((isPlainMethod.fitsIn_assemble definition.version).mono fits).bind fun code =>
      (Attribute.fitsIn_ofContents code).bind fun entry => fitsIn_pure [entry]
  have made := ClassDefinition.fitsIn_methodMember coded
  rwa [unannotated] at made

end ClassDefinition

/-- A class file has bytes if there is room for the name of one more attribute. -/
theorem ClassFile.exists_finish
    {file : ClassFile}
    (room : file.pool.constants.endOffset + 1 ≤ ConstantPool.positionLimit) :
    ∃ bytes, file.finish = .ok bytes := by
  unfold finish syncBootstraps
  split
  · obtain ⟨entry, pool, interned, _⟩ :=
      Attribute.fitsIn_ofContents (BootstrapTable.mk file.pool.bootstraps) file.pool room
    rw [interned]
    exact ⟨_, rfl⟩
  · exact ⟨_, rfl⟩

/-- A class whose members do not take too much room has a class file. -/
theorem ClassDefinition.exists_toBytes_of_fitsIn
    {definition : ClassDefinition}
    {hierarchy : Hierarchy}
    {fieldRoom methodRoom : Nat}
    (fields : ∀ field ∈ definition.fields, FitsIn fieldRoom (fieldMember field))
    (methods : ∀ method ∈ definition.methods, FitsIn methodRoom
      (definition.methodMember (hierarchy.shadow definition.declaration) method))
    (isSmall : 6 + 2 * definition.interfaces.length + fieldRoom * definition.fields.length +
      methodRoom * definition.methods.length ≤ ConstantPool.positionLimit) :
    ∃ bytes, definition.toBytes hierarchy = .ok bytes := by
  have interfaces := fitsIn_mapM definition.interfaces fun name _ => name.fitsIn_intern
  have fields := fitsIn_mapM definition.fields fields
  have methods := fitsIn_mapM definition.methods methods
  have empty : ConstantPool.empty.constants.endOffset = 1 := rfl
  obtain ⟨this, withThis, isThis, thisEnd, _⟩ :=
    definition.name.fitsIn_intern ConstantPool.empty (by omega)
  obtain ⟨super, withSuper, isSuper, superEnd, _⟩ :=
    definition.super.fitsIn_intern withThis (by omega)
  obtain ⟨names, withNames, areNames, namesEnd, _⟩ := interfaces withSuper (by omega)
  obtain ⟨fieldMembers, withFields, areFields, fieldsEnd, _⟩ := fields withNames (by omega)
  obtain ⟨methodMembers, pool, areMethods, poolEnd, _⟩ := methods withFields (by omega)
  have made : definition.members (hierarchy.shadow definition.declaration) ConstantPool.empty =
      .ok ⟨definition.version, pool, definition.flags, this, super, names, fieldMembers,
        methodMembers, []⟩ pool := by
    refine run_bind_eq_ok.mpr ⟨this, withThis, isThis, ?_⟩
    refine run_bind_eq_ok.mpr ⟨super, withSuper, isSuper, ?_⟩
    refine run_bind_eq_ok.mpr ⟨names, withNames, areNames, ?_⟩
    refine run_bind_eq_ok.mpr ⟨fieldMembers, withFields, areFields, ?_⟩
    exact run_bind_eq_ok.mpr ⟨methodMembers, pool, areMethods, rfl⟩
  unfold toBytes build
  rw [made]
  exact ClassFile.exists_finish (show pool.constants.endOffset + 1 ≤ _ by omega)

/-- A class of plain members that is not too large has a class file. -/
theorem ClassDefinition.IsPlain.exists_toBytes
    {definition : ClassDefinition}
    {hierarchy : Hierarchy}
    {room : Nat}
    (isPlain : definition.IsPlain hierarchy room)
    (isSmall : 6 + 2 * definition.interfaces.length + 2 * definition.fields.length +
      (room + 3) * definition.methods.length ≤ ConstantPool.positionLimit) :
    ∃ bytes, definition.toBytes hierarchy = .ok bytes := by
  refine exists_toBytes_of_fitsIn (fun field member => ?_)
    (fun method member => isPlain.fitsIn_methodMember member) isSmall
  have made := fitsIn_fieldMember field
  rwa [isPlain.fields field member] at made

end ClosureConversion
