import ClosureConversion.Proofs.ClassFile.Bootstraps
import ClosureConversion.Proofs.ClassFile.Replacing
import ClosureConversion.Proofs.ClassFile.RoundTrip
import ClosureConversion.Proofs.Code.Fitting
import ClosureConversion.Proofs.Code.Rereading
import ClosureConversion.Proofs.Rewriting.Positions
import ClosureConversion.Proofs.StackMap.Cutting
import Mathlib

/-!
Contract: a method that is assembled is read back as it was.

Owns:
- code without a jump that is written as two is decoded at the offsets it was given;
- the entries of ranges, variables and lines are read as what they were written for;
- methods without dead code whose tables tell of places inside the code: a class file that holds
  their code holds them, with numbers pushed as such, switches sorted, and no fewer local slots;
- where a method is not read back: its bootstrap methods are more than sixteen bits tell apart.

Does not own: methods with dead code, or with jumps that are too long.
-/

namespace ClosureConversion

/-! ## Instructions -/

/-- The first instructions of items stand at their offsets, which the end of the code follows. -/
theorem map_fst_emissionFrom_append
    {place : Nat → Nat}
    {start last : Nat}
    {placed : List (Linked × Bool)}
    (notWidened : ∀ item ∈ placed, isWidened item = false)
    (ends : (offsetsFrom start placed)[placed.length]? = some last) :
    (emissionFrom place start placed).map Prod.fst ++ [last] = offsetsFrom start placed := by
  induction placed generalizing start with
  | nil =>
      cases ends
      rfl
  | cons item rest inductionHypothesis =>
      have starts : item.1.starts start item.2 = [start] :=
        if_neg (Bool.eq_false_iff.mp (notWidened item List.mem_cons_self))
      rw [map_fst_emissionFrom_cons, starts, List.append_assoc,
        inductionHypothesis (fun other member => notWidened other (List.mem_cons_of_mem _ member))
          ends]
      rfl

theorem map_snd_emissionFrom
    {place : Nat → Nat}
    {start : Nat}
    {placed : List (Linked × Bool)}
    (notWidened : ∀ item ∈ placed, isWidened item = false) :
    (emissionFrom place start placed).map Prod.snd =
      placed.map fun item => item.1.instruction.normalize.map place := by
  induction placed generalizing start with
  | nil => rfl
  | cons item rest inductionHypothesis =>
      rw [map_snd_emissionFrom_cons,
        Instruction.expand_of_not_widened (notWidened item List.mem_cons_self),
        inductionHypothesis fun other member => notWidened other (List.mem_cons_of_mem _ member)]
      rfl

/-- Code without a jump that is written as two is decoded instruction by instruction, at the
offsets that it was given. -/
theorem EncodedCode.IsMadeOf.decodeCode_of_not_widened
    {code : EncodedCode}
    {range : JumpRange}
    {placed : List (Linked × Bool)}
    {pool : ConstantPool}
    (madeOf : code.IsMadeOf range placed)
    (short : -32768 ≤ range.low ∧ range.high ≤ 32767)
    (linked : ∀ item ∈ placed, item.1.instruction.IsLinked pool item.1.constant)
    (switchesFit : ∀ item ∈ placed, item.1.instruction.SwitchFits)
    (notWidened : code.widened = []) :
    decodeCode code.bytes pool = .ok {
      instructions := (placed.map fun item => item.1.instruction.normalize).toArray
      offsets := code.offsets } := by
  let starts := (emissionFrom (placeIn code.offsets) 0 placed).map Prod.fst
  have goesOn : ∀ index ∈ code.widened, index + 1 < placed.length := by
    rw [notWidened]
    exact fun _ member => (List.not_mem_nil member).elim
  have nowhereWidened : ∀ item ∈ placed, isWidened item = false := by
    intro item member
    rw [← Bool.not_eq_true]
    intro isWide
    obtain ⟨isLong, isBranch⟩ := Bool.and_eq_true_iff.mp isWide
    obtain ⟨index, stands⟩ := List.getElem?_of_mem member
    have listed := (madeOf.mem_widened index).mpr ⟨item.1, by rw [stands, ← isLong], isBranch⟩
    rw [notWidened] at listed
    cases listed
  have isLast := madeOf.lastOffset linked
  have areOffsets : starts ++ [code.bytes.length] = code.offsets.toList := by
    rw [← Array.getElem?_toList, madeOf.offsets] at isLast
    rw [madeOf.offsets]
    exact map_fst_emissionFrom_append nowhereWidened isLast
  have increasing : starts.toArray.toList.Pairwise (· < ·) :=
    (pairwise_map_fst_emissionFrom (placeIn code.offsets) 0 placed).1
  -- An item is found again where it starts: no item before it was written as two instructions.
  have finds : ∀ index offset, index < placed.length → code.offsets[index]? = some offset →
      indexOfOffset? starts.toArray offset = some index := by
    intro index offset inside stands
    apply indexOfOffset?_eq_some increasing
    have inStarts : index < starts.length := by
      have lengths : starts.length + 1 = placed.length + 1 := by
        rw [← madeOf.offsetCount, ← Array.length_toList, ← areOffsets, List.length_append]
        rfl
      omega
    rw [← Array.getElem?_toList, ← areOffsets, List.getElem?_append_left inStarts] at stands
    rw [List.getElem?_toArray]
    exact stands
  rw [decodeCode_eq_ok (madeOf.decodes short linked switchesFit goesOn)]
  · congr 2
    · rw [map_snd_emissionFrom nowhereWidened, List.map_map]
      congr 1
      refine List.map_congr_left fun item member => ?_
      refine Eq.trans (b := item.1.instruction.normalize.map id)
        (Instruction.map_normalize fun target isTarget => ?_) item.1.instruction.normalize.map_id
      obtain ⟨inside, stands⟩ := madeOf.getElem?_of_mem_targets member isTarget
      change (indexOfOffset? starts.toArray _).getD 0 = target
      rw [finds target _ inside stands, Option.getD_some]
    · apply Array.toList_inj.mp
      rw [← areOffsets, Array.toList_push]
  · intro entry member target isTarget
    obtain ⟨index, inside, stands⟩ := madeOf.exists_of_mem_targets goesOn member isTarget
    exact ⟨index, finds index target inside stands⟩

/-! ## Tables -/

/-- A kind that the first attributes do not have is looked for among the others. -/
theorem Attribute.find?_append_of_not_holds
    {α : Type}
    [AttributeContents α]
    {pool : ConstantPool}
    {front : List Attribute}
    (isOther : ∀ entry ∈ front, entry.holds pool α = false)
    (back : List Attribute) :
    find? (front ++ back) pool α = find? back pool α := by
  have nowhere : front.find? (·.holds pool α) = none := by
    rw [List.find?_eq_none]
    intro entry member
    rw [isOther entry member]
    exact Bool.false_ne_true
  unfold find?
  rw [List.find?_append, nowhere, Option.none_or]

namespace Method

section Tables

variable {decoded : DecodedCode} (areOffsets : AreOffsets decoded.offsets)

include areOffsets

/-- An offset is found at its index. -/
theorem indexOf_getElem
    {index : Nat}
    (inside : index < decoded.offsets.size) :
    indexOf decoded decoded.offsets[index] = .ok index := by
  have found : decoded.indexOf? decoded.offsets[index] = some index :=
    indexOfOffset?_eq_some areOffsets.increasing (Array.getElem?_eq_getElem inside)
  rw [indexOf, found]

theorem indexOf_offsetAt
    {index : Nat}
    (inside : index < decoded.offsets.size) :
    indexOf decoded (offsetAt decoded.offsets index).toNat = .ok index := by
  rw [areOffsets.toNat_offsetAt inside, indexOf_getElem areOffsets inside]

/-- A range is read from its entry. No class has the position that stands for every class. -/
theorem yields_exceptionEntry_read
    (range : ExceptionRange Nat)
    (start : range.start < decoded.offsets.size)
    (stop : range.stop < decoded.offsets.size)
    (handler : range.handler < decoded.offsets.size) :
    Yields (exceptionEntry decoded.offsets range) fun final entry =>
      final.constants.IsContiguous → readHandler decoded final entry = .ok range := by
  have reads : ∀ (final : ConstantPool) (catchType : PoolIndex),
      (if catchType = 0 then pure none else some <$> BinaryName.resolve final catchType :
        Except BytecodeError (Option BinaryName)) = .ok range.catchType →
      readHandler decoded final ⟨offsetAt decoded.offsets range.start,
        offsetAt decoded.offsets range.stop, offsetAt decoded.offsets range.handler, catchType⟩ =
          .ok range := by
    intro final catchType isType
    unfold readHandler
    simp only [indexOf_offsetAt areOffsets start, indexOf_offsetAt areOffsets stop,
      indexOf_offsetAt areOffsets handler, ok_bind]
    by_cases isAny : catchType = 0
    · rw [if_pos isAny] at isType ⊢
      rw [isType]
      rfl
    · rw [if_neg isAny] at isType ⊢
      rw [isType]
      rfl
  unfold exceptionEntry
  split
  · rename_i isAny
    exact yields_pure fun final _ _ => reads final 0 (by rw [if_pos rfl, isAny]; rfl)
  · rename_i name isName
    apply name.yields_intern.bind
    intro catchType
    refine yields_pure fun final consistent resolved contiguous => reads final catchType ?_
    obtain ⟨type, isType, _⟩ := bind_eq_ok.mp resolved
    obtain ⟨constant, stands, _⟩ := bind_eq_ok.mp isType
    rw [if_neg (consistent.ne_zero_of_get_eq_ok contiguous stands), resolved, isName]
    rfl

/-- A variable is read from its entry. -/
theorem yields_variableEntry_read
    {entry : LocalVariable Nat}
    (notEmpty : entry.start < entry.stop)
    (inside : entry.stop < decoded.offsets.size) :
    Yields (variableEntry decoded.offsets entry) fun final written =>
      readVariable decoded final written = .ok entry := by
  apply (ConstantPool.yields_internText entry.name.text).bind
  intro name
  apply (ConstantPool.yields_internText entry.type.descriptor).bind
  intro descriptor
  refine yields_pure fun final _ isDescriptor isName => ?_
  unfold readVariable
  simp only [isName, isDescriptor, areOffsets.toNat_offsetAt_add notEmpty inside,
    indexOf_offsetAt areOffsets (Nat.lt_trans notEmpty inside), indexOf_getElem areOffsets inside,
    UnqualifiedName.ofClassFile_text, FieldType.ofClassFile_descriptor, ok_bind]
  rfl

/-- The lines of a table are read from the entries of those that begin inside the code. -/
theorem mapM_lineEntries
    {method : Method}
    (sized : method.instructions.size < decoded.offsets.size)
    (inside : ∀ line ∈ method.lines, line.start < method.instructions.size) :
    (lineEntries method decoded.offsets).mapM (fun line => do
      let start ← indexOf decoded line.start.toNat
      return { start, line := line.line : SourceLine Nat }) = .ok method.lines.toList := by
  have all : method.lines.toList.filter (fun line => line.start < method.instructions.size) =
      method.lines.toList :=
    List.filter_eq_self.mpr fun line member =>
      decide_eq_true (inside line (Array.mem_toList_iff.mp member))
  unfold lineEntries
  rw [all]
  apply mapM_eq_ok_of_forall₂
  rw [List.forall₂_map_left_iff, List.forall₂_same]
  intro line member
  have before := inside line (Array.mem_toList_iff.mp member)
  rw [indexOf_offsetAt areOffsets (Nat.lt_trans before sized)]
  rfl

end Tables

/-! ## Attributes -/

/-- The attributes are read as these lines, one after another. -/
def ReadsLines (decoded : DecodedCode) (pool : ConstantPool) (attributes : List Attribute)
    (lines : List (SourceLine Nat)) : Prop :=
  ∃ each, attributes.mapM (readLines decoded pool) = .ok each ∧ each.flatten = lines

section Attributes

variable {method : Method} {decoded : DecodedCode} {pool : ConstantPool}
  {attributes others : List Attribute} {lines moreLines : List (SourceLine Nat)}

theorem ReadsLines.append
    (reads : ReadsLines decoded pool attributes lines)
    (othersRead : ReadsLines decoded pool others moreLines) :
    ReadsLines decoded pool (attributes ++ others) (lines ++ moreLines) := by
  obtain ⟨each, isEach, rfl⟩ := reads
  obtain ⟨more, isMore, rfl⟩ := othersRead
  refine ⟨each ++ more, ?_, List.flatten_append⟩
  rw [List.mapM_append, isEach, ok_bind, isMore]
  rfl

/-- Attributes of other kinds have no lines. -/
theorem readsLines_nil
    (decoded : DecodedCode)
    (isOther : ∀ entry ∈ attributes, entry.holds pool LineTable = false) :
    ReadsLines decoded pool attributes [] := by
  refine ⟨attributes.map fun _ => [], ?_, by simp⟩
  apply mapM_eq_ok_of_forall₂
  rw [List.forall₂_map_right_iff, List.forall₂_same]
  intro entry member
  rw [readLines, isOther entry member]
  rfl

/-- The lines of a method are read from its attribute for them, if there is one. -/
theorem yields_lineAttribute_read
    (areOffsets : AreOffsets decoded.offsets)
    (sized : method.instructions.size < decoded.offsets.size)
    (inside : ∀ line ∈ method.lines, line.start < method.instructions.size)
    (few : method.lines.size < 2 ^ 16) :
    Yields (method.lineAttribute decoded.offsets) fun final attributes =>
      ReadsLines decoded final attributes method.lines.toList := by
  have areRead := mapM_lineEntries areOffsets sized inside
  unfold lineAttribute
  dsimp only
  split
  · rename_i noEntries
    rw [List.isEmpty_iff.mp noEntries, List.mapM_nil] at areRead
    exact yields_pure fun final _ => ⟨[], rfl, Except.ok.inj areRead⟩
  · apply (Attribute.yields_ofContents (LineTable.mk (lineEntries method decoded.offsets))).bind
    intro entry
    refine yields_pure fun final _ carries => ⟨[method.lines.toList], ?_, by simp⟩
    have count : (lineEntries method decoded.offsets).length = method.lines.size :=
      (forall₂_of_mapM_eq_ok areRead).length_eq.trans Array.length_toList
    have isTable := Attribute.contents_eq_ok carries.1 (LineTable.isReadBack (count ▸ few))
    have isKind : entry.holds final LineTable = true := by
      rw [Attribute.holds_of_text carries.2]
      rfl
    rw [List.mapM_cons, readLines, if_pos isKind, isTable, ok_bind, areRead]
    rfl

/-- The variables of a method whose class file lists them are read from the attribute for them. -/
theorem yields_variableAttribute_read
    (areOffsets : AreOffsets decoded.offsets)
    (sized : method.instructions.size < decoded.offsets.size)
    (listed : method.hasVariableTable = true)
    (inside : ∀ entry ∈ method.localVariables,
      entry.start < entry.stop ∧ entry.stop ≤ method.instructions.size) :
    Yields (method.variableAttribute decoded.offsets) fun final attributes =>
      ∃ (entry : Attribute) (table : VariableTable), attributes = [entry] ∧
        entry.Carries final table ∧
        table.entries.mapM (readVariable decoded final) = .ok method.localVariables.toList := by
  have all : method.localVariables.toList.filter (fun entry =>
      entry.start < entry.stop && entry.stop ≤ method.instructions.size) =
        method.localVariables.toList :=
    List.filter_eq_self.mpr fun entry member => by
      obtain ⟨notEmpty, before⟩ := inside entry (Array.mem_toList_iff.mp member)
      rw [Bool.and_eq_true, decide_eq_true_eq, decide_eq_true_eq]
      exact ⟨notEmpty, before⟩
  unfold variableAttribute variableEntries
  rw [if_pos listed, all]
  apply Yields.bind (yields_mapM _ fun entry member => ?_)
  · intro entries
    apply (Attribute.yields_ofContents (VariableTable.mk entries)).bind
    intro entry
    refine yields_pure fun final _ carries areRead => ?_
    exact ⟨entry, ⟨entries⟩, rfl, ⟨carries.1, carries.2⟩, mapM_eq_ok_of_forall₂ areRead.flip⟩
  · obtain ⟨notEmpty, before⟩ := inside entry (Array.mem_toList_iff.mp member)
    exact yields_variableEntry_read areOffsets notEmpty (Nat.lt_of_le_of_lt before sized)

end Attributes

/-- A body is read from its parts. Lines in the order of their starts stay in that order. -/
theorem readBody_eq_ok
    {code : CodeAttribute}
    {pool : ConstantPool}
    {decoded : DecodedCode}
    {handlers : List (ExceptionRange Nat)}
    {table : VariableTable}
    {localVariables : List (LocalVariable Nat)}
    {lines : List (SourceLine Nat)}
    (isDecoded : decodeCode code.bytes pool = .ok decoded)
    (areHandlers : code.exceptions.mapM (readHandler decoded pool) = .ok handlers)
    (isTable : Attribute.find? code.attributes pool VariableTable = .ok (some table))
    (areVariables : table.entries.mapM (readVariable decoded pool) = .ok localVariables)
    (areLines : ReadsLines decoded pool code.attributes lines)
    (sorted : lines.Pairwise (·.start ≤ ·.start)) :
    readBody code pool = .ok
      (⟨decoded.instructions, handlers.toArray, localVariables.toArray, lines.toArray⟩, true) := by
  obtain ⟨each, isEach, rfl⟩ := areLines
  have inOrder : each.flatten.mergeSort (fun left right => left.start ≤ right.start) =
      each.flatten :=
    List.mergeSort_of_pairwise (sorted.imp fun ordered => decide_eq_true ordered)
  unfold readBody
  rw [isDecoded, ok_bind, areHandlers, ok_bind, isTable, ok_bind]
  dsimp only [Option.map_some, Option.getD_some]
  rw [areVariables, ok_bind, isEach, ok_bind, inOrder]
  rfl

/-! ## Sizes -/

/-- Values that all take the same number of bytes are written to that number for each, after their
count. -/
theorem length_write_list
    {α : Type}
    [Binary α]
    (size : Nat)
    (each : ∀ value : α, (write value).length = size)
    (values : List α) :
    (write values).length = 2 + size * values.length := by
  have elements : (values.flatMap write).length = size * values.length := by
    induction values with
    | nil => rfl
    | cons value values inductionHypothesis =>
        rw [List.flatMap_cons, List.length_append, each, inductionHypothesis, List.length_cons,
          Nat.mul_succ, Nat.add_comm]
  change (write values.length.toUInt16 ++ values.flatMap write).length = _
  rw [List.length_append, elements]
  rfl

/-- A table of few lines is not too long to be an attribute. -/
theorem fits_of_lineTable
    {entry : Attribute}
    {table : LineTable}
    (isInfo : entry.info = write table)
    (few : table.entries.length < 2 ^ 16) :
    entry.Fits := by
  have length := length_write_list 4 (fun _ : LineEntry => rfl) table.entries
  change (write table).length = _ at length
  rw [Attribute.Fits, isInfo, length]
  omega

/-- A table of few variables is not too long to be an attribute. -/
theorem fits_of_variableTable
    {entry : Attribute}
    {table : VariableTable}
    (isInfo : entry.info = write table)
    (few : table.entries.length < 2 ^ 16) :
    entry.Fits := by
  have length := length_write_list 10 (fun _ : VariableEntry => rfl) table.entries
  change (write table).length = _ at length
  rw [Attribute.Fits, isInfo, length]
  omega

/-! ## Methods -/

/-- A method that is told as it is: control reaches all of its code, no jump is written as two
before the pool is used for anything else, and its tables tell of places inside the code, which
are listed in order. That ranges lie inside the code is checked when it is assembled. -/
structure IsTidy (method : Method) (hierarchy : Hierarchy) (before : ConstantPool) : Prop where
  live : ∀ analysis, method.analyze hierarchy = .ok analysis →
    ∀ index < method.instructions.size, analysis.isReachable index = true
  near : ∀ encoded after, encode method.instructions before = .ok encoded after →
    encoded.widened = []
  switchesFit : ∀ instruction ∈ method.instructions, instruction.SwitchFits
  ranges : ∀ range ∈ method.handlers, range.start < range.stop
  scopes : ∀ entry ∈ method.localVariables,
    entry.start < entry.stop ∧ entry.stop ≤ method.instructions.size
  lines : ∀ line ∈ method.lines, line.start < method.instructions.size
  sorted : method.lines.toList.Pairwise (·.start ≤ ·.start)
  fewRanges : method.handlers.size < 2 ^ 16
  fewScopes : method.localVariables.size < 2 ^ 16
  fewLines : method.lines.size < 2 ^ 16
  listed : method.hasVariableTable = true

namespace Steps

variable {method : Method} {hierarchy : Hierarchy} {version : Version}
  {before after final : ConstantPool} {code : CodeAttribute}
  {steps : method.Steps hierarchy version before after code} {decoded : DecodedCode}

/-- What was written for the ranges, the lines and the variables of a method is read as that from
decoded code. -/
structure AreRead (steps : method.Steps hierarchy version before after code)
    (decoded : DecodedCode) (final : ConstantPool) : Prop where
  ranges : steps.exceptions.mapM (readHandler decoded final) = .ok method.handlers.toList
  maps : Attribute.AreAtMostOne final StackMap (fun _ => True) steps.maps
  lines : Attribute.AreAtMostOne final LineTable
    (· = ⟨lineEntries method steps.encoded.offsets⟩) steps.lines
  linesRead : ReadsLines decoded final steps.lines method.lines.toList
  scopes : ∃ (entry : Attribute) (table : VariableTable), steps.locals = [entry] ∧
    entry.Carries final table ∧
      table.entries.mapM (readVariable decoded final) = .ok method.localVariables.toList

/-- Code that is all alive is written as it is. -/
theorem encode_eq_ok
    (steps : method.Steps hierarchy version before after code)
    (tidy : method.IsTidy hierarchy before) :
    encode method.instructions before = .ok steps.encoded steps.withCode := by
  have codeDone := steps.codeDone
  rwa [FlowAnalysis.overwriteDead_of_live (tidy.live _ steps.accepted)] at codeDone

/-- Ranges in code that is all alive are not split. -/
theorem splitRanges_eq
    (steps : method.Steps hierarchy version before after code)
    (tidy : method.IsTidy hierarchy before) :
    splitRanges method.handlers.toList steps.analysis = method.handlers.toList := by
  have follows := FlowAnalysis.followsControl_of_analyze_eq_ok steps.accepted
  obtain ⟨_, targetsInside, _⟩ := exists_run_of_analyze_eq_ok steps.accepted
  have live := tidy.live _ steps.accepted
  refine splitRanges_of_deadRuns_eq_nil (FlowAnalysis.deadRuns_eq_nil (follows.size ▸ live))
    (fun range member => tidy.ranges range (Array.mem_toList_iff.mp member))
    fun range member => ?_
  have notEmpty := tidy.ranges range (Array.mem_toList_iff.mp member)
  have inside := (targetsInside.handlers range member).2.1
  exact follows.isReachable_handler member
    (ExceptionRange.covers_iff.mpr ⟨Nat.le_refl _, notEmpty⟩) (live _ (by omega))

/-- Whatever the instructions are decoded to: if they stand at the offsets of the code, the tables
of a tidy method are read from them as they were, in every later pool. -/
theorem areRead
    (steps : method.Steps hierarchy version before after code)
    (tidy : method.IsTidy hierarchy before)
    (consistent : before.IsConsistent)
    (sameOffsets : decoded.offsets = steps.encoded.offsets)
    (finalConsistent : final.IsConsistent)
    (finalExtends : final.Extends after)
    (contiguous : final.constants.IsContiguous) :
    steps.AreRead decoded final ∧ final.Extends steps.withCode := by
  obtain ⟨_, targetsInside, _⟩ := exists_run_of_analyze_eq_ok steps.accepted
  obtain ⟨withCodeConsistent, _, placed, madeOf, instructionsOf, _⟩ :=
    isMadeOf_of_encodeWithin_eq_ok consistent (steps.encode_eq_ok tidy)
  have areOffsets : AreOffsets decoded.offsets := sameOffsets ▸ madeOf.areOffsets
  have sized : method.instructions.size < decoded.offsets.size := by
    have count := madeOf.offsetCount
    rw [length_of_instructions instructionsOf, ← sameOffsets] at count
    omega
  have linesDone := steps.linesDone
  have localsDone := steps.localsDone
  have rangesDone := steps.exceptionsDone
  rw [← sameOffsets] at linesDone localsDone rangesDone
  rw [steps.splitRanges_eq tidy] at rangesDone
  obtain ⟨withMapsConsistent, withMapsExtends, mapsMean⟩ :=
    yields_stackMap_areAtMostOne _ _ _ _ _ withCodeConsistent steps.mapsDone
  obtain ⟨withLinesConsistent, withLinesExtends, linesMean⟩ :=
    (yields_lineAttribute_areAtMostOne.and
      (yields_lineAttribute_read areOffsets sized tidy.lines tidy.fewLines))
      _ _ _ withMapsConsistent linesDone
  obtain ⟨withLocalsConsistent, withLocalsExtends, localsMean⟩ :=
    yields_variableAttribute_read areOffsets sized tidy.listed tidy.scopes
      _ _ _ withLinesConsistent localsDone
  obtain ⟨_, afterExtends, rangesMean⟩ :=
    yields_mapM _ (fun range member => yields_exceptionEntry_read areOffsets range
      (by have := targetsInside.handlers range member; omega)
      (by have := targetsInside.handlers range member; omega)
      (by have := targetsInside.handlers range member; omega))
      _ _ _ withLocalsConsistent rangesDone
  have extendsLocals := finalExtends.trans afterExtends
  have extendsLines := extendsLocals.trans withLocalsExtends
  have extendsMaps := extendsLines.trans withLinesExtends
  obtain ⟨areLines, linesRead⟩ := linesMean final finalConsistent extendsLines
  rw [sameOffsets] at areLines
  refine ⟨⟨?_, mapsMean final finalConsistent extendsMaps, areLines, linesRead,
    localsMean final finalConsistent extendsLocals⟩, extendsMaps.trans withMapsExtends⟩
  exact mapM_eq_ok_of_forall₂ ((rangesMean final finalConsistent finalExtends).flip.imp
    fun _ _ isRead => isRead contiguous)

/-- The body of a tidy method is read from the instructions that its code is decoded to. -/
theorem AreRead.readBody_eq_ok
    (areRead : steps.AreRead decoded final)
    (tidy : method.IsTidy hierarchy before)
    (isDecoded : decodeCode steps.encoded.bytes final = .ok decoded) :
    readBody code final =
      .ok ({ method.toCodeBody with instructions := decoded.instructions }, true) := by
  obtain ⟨entry, table, isOnly, carries, localsRead⟩ := areRead.scopes
  have few : table.entries.length < 2 ^ 16 := by
    rw [(forall₂_of_mapM_eq_ok localsRead).length_eq, Array.length_toList]
    exact tidy.fewScopes
  have isKind : entry.holds final VariableTable = true := Attribute.holds_iff.mpr carries.named
  have noLines : ∀ other ∈ [entry], other.holds final LineTable = false := by
    intro other member
    rw [List.mem_singleton.mp member, Attribute.holds_of_text carries.named]
    rfl
  have mapsOther : ∀ (α : Type) [AttributeContents α], attributeName StackMap ≠ attributeName α →
      ∀ other ∈ steps.maps, other.holds final α = false :=
    fun α _ differs other member => (areRead.maps.holds_eq member).trans (decide_eq_false differs)
  rw [steps.isCode, isOnly]
  refine Method.readBody_eq_ok isDecoded areRead.ranges ?_ localsRead ?_ tidy.sorted
  · rw [List.append_assoc, Attribute.find?_append_of_not_holds (mapsOther _ (by decide)),
      Attribute.find?_append_of_not_holds fun other member =>
        (areRead.lines.holds_eq member).trans (by decide),
      Attribute.find?, List.find?_cons, isKind]
    dsimp only
    rw [Attribute.contents_eq_ok carries.info (VariableTable.isReadBack few)]
    rfl
  · have together := ((readsLines_nil decoded (mapsOther LineTable (by decide))).append
      areRead.linesRead).append (readsLines_nil decoded noLines)
    rwa [List.nil_append, List.append_nil] at together

/-- Only the stack map of a tidy method can be too long to be written. -/
theorem AreRead.fits
    (areRead : steps.AreRead decoded final)
    (tidy : method.IsTidy hierarchy before)
    (isShort : steps.encoded.bytes.length ≤ 65535)
    (mapFits : ∀ entry ∈ code.attributes, entry.holds final StackMap = true → entry.Fits) :
    code.Fits := by
  obtain ⟨entry, table, isOnly, carries, localsRead⟩ := areRead.scopes
  have rangeCount := (forall₂_of_mapM_eq_ok areRead.ranges).length_eq
  have scopeCount := (forall₂_of_mapM_eq_ok localsRead).length_eq
  have lineCount : (lineEntries method steps.encoded.offsets).length ≤ method.lines.size := by
    unfold lineEntries
    rw [List.length_map, ← Array.length_toList]
    exact List.length_filter_le _ _
  have mapCount := areRead.maps.count
  have lineTables := areRead.lines.count
  have fewRanges := tidy.fewRanges
  have fewScopes := tidy.fewScopes
  have fewLines := tidy.fewLines
  rw [steps.isCode, isOnly] at mapFits ⊢
  rw [Array.length_toList] at rangeCount scopeCount
  refine ⟨?_, rangeCount ▸ fewRanges, ?_, fun other member => ?_⟩
  · exact Nat.lt_of_le_of_lt isShort (by decide)
  · simp only [List.length_append, List.length_singleton]
    omega
  · have isListed := member
    dsimp only at member
    rw [List.append_assoc] at member
    rcases List.mem_append.mp member with isMap | isTable
    · exact mapFits other isListed (areRead.maps.holds_eq isMap)
    rcases List.mem_append.mp isTable with isLines | isVariables
    · obtain ⟨contents, isInfo, rfl⟩ := areRead.lines.contents other isLines
      exact fits_of_lineTable isInfo (Nat.lt_of_le_of_lt lineCount fewLines)
    · rw [List.mem_singleton.mp isVariables]
      exact fits_of_variableTable carries.info (scopeCount ▸ fewScopes)

/-- The code of a tidy method is decoded to its instructions, with numbers pushed as such and
switches sorted, as long as its calls have bootstrap methods that sixteen bits tell apart. -/
theorem decodeCode_eq_ok
    (steps : method.Steps hierarchy version before after code)
    (tidy : method.IsTidy hierarchy before)
    (consistent : before.IsConsistent)
    (finalConsistent : final.IsConsistent)
    (finalExtends : final.Extends steps.withCode)
    (callsFit : ∀ instruction ∈ method.instructions, instruction.CallFits final) :
    decodeCode steps.encoded.bytes final = .ok {
      instructions := method.instructions.map Instruction.normalize
      offsets := steps.encoded.offsets } ∧
    steps.encoded.bytes.length ≤ 65535 := by
  have isEncoded := steps.encode_eq_ok tidy
  obtain ⟨_, _, placed, madeOf, instructionsOf, linked⟩ :=
    isMadeOf_of_encodeWithin_eq_ok consistent isEncoded
  have itemsOf : ∀ item ∈ placed, item.1.instruction ∈ method.instructions := by
    intro item member
    rw [← Array.mem_toList_iff, ← instructionsOf]
    exact List.mem_map_of_mem member
  have itemsLinked : ∀ item ∈ placed, item.1.instruction.IsLinked final item.1.constant :=
    fun item member => linked final finalConsistent finalExtends item member
      (callsFit _ (itemsOf item member))
  constructor
  · rw [madeOf.decodeCode_of_not_widened (by decide) itemsLinked
      (fun item member => tidy.switchesFit _ (itemsOf item member)) (tidy.near _ _ isEncoded)]
    have normalized : (placed.map fun item => item.1.instruction.normalize).toArray =
        method.instructions.map Instruction.normalize := by
      apply Array.toList_inj.mp
      rw [Array.toList_map, ← instructionsOf, List.map_map]
      rfl
    rw [normalized]
  · have isLast := madeOf.lastOffset itemsLinked
    rw [← Array.getElem?_toList] at isLast
    exact madeOf.notLong _ (List.mem_of_getElem? isLast)

/-- The code has room for all the local slots of the method. -/
theorem maxLocals_le
    (steps : method.Steps hierarchy version before after code) :
    method.maxLocals ≤ code.maxLocals := by
  have few := steps.fewLocals
  rw [steps.isCode, UInt16.le_iff_toNat_le]
  dsimp only
  rw [UInt16.toNat_ofNat_of_lt' (Nat.lt_succ_of_le few)]
  exact Nat.le_max_right _ _

end Steps

/-- A member of a class file declares the method, and the first attribute for code that it has is
what is written for this code. -/
structure IsDeclaredBy (method : Method) (code : CodeAttribute) (file : ClassFile)
    (member : Member .method) : Prop where
  owner : file.thisName = .ok method.owner
  signature : file.methodSignature member = .ok (method.name, method.type)
  flags : member.flags = method.flags
  code : ∃ entry, member.attributes.find? (·.holds file.pool CodeAttribute) = some entry ∧
    entry.info = write code

/-- The method is read from a member that declares it, with the body that its code is read as. -/
theorem IsDeclaredBy.ofMember?_eq_ok
    {method : Method}
    {code : CodeAttribute}
    {file : ClassFile}
    {member : Member .method}
    (declared : method.IsDeclaredBy code file member)
    (fits : code.Fits)
    {body : CodeBody Nat}
    {listed : Bool}
    (isRead : readBody code file.pool = .ok (body, listed)) :
    ofMember? file member = .ok (some { method with
      toCodeBody := body
      hasVariableTable := listed
      maxLocals := code.maxLocals }) := by
  obtain ⟨entry, isFirst, isInfo⟩ := declared.code
  have isCode : member.code? file.pool = .ok (some code) := by
    unfold Member.code? Attribute.find?
    rw [isFirst]
    dsimp only
    rw [Attribute.contents_eq_ok isInfo fits.isReadBack]
    rfl
  unfold ofMember?
  rw [isCode, ok_bind]
  dsimp only
  rw [declared.signature, ok_bind]
  dsimp only
  rw [declared.owner, ok_bind, isRead, ok_bind]
  dsimp only
  rw [declared.flags]
  rfl

/-- A tidy method that was assembled is read from a class file that declares it as it was, with
its numbers pushed as such, its switches sorted and no fewer local slots, as long as sixteen bits
tell the bootstrap methods of its calls apart and its stack map is not too long to be written. -/
theorem ofMember?_of_assemble_eq_ok
    {method : Method}
    {hierarchy : Hierarchy}
    {version : Version}
    {before after : ConstantPool}
    {code : CodeAttribute}
    (tidy : method.IsTidy hierarchy before)
    (consistent : before.IsConsistent)
    (assembled : method.assemble hierarchy version before = .ok code after)
    {file : ClassFile}
    {member : Member .method}
    (declared : method.IsDeclaredBy code file member)
    (fileConsistent : file.pool.IsConsistent)
    (fileExtends : file.pool.Extends after)
    (contiguous : file.pool.constants.IsContiguous)
    (callsFit : ∀ instruction ∈ method.instructions, instruction.CallFits file.pool)
    (mapFits : ∀ entry ∈ code.attributes, entry.holds file.pool StackMap = true → entry.Fits) :
    ofMember? file member = .ok (some { method with
        instructions := method.instructions.map Instruction.normalize
        maxLocals := code.maxLocals }) ∧
      method.maxLocals ≤ code.maxLocals := by
  obtain ⟨steps⟩ := exists_steps_of_assemble_eq_ok assembled
  let decoded : DecodedCode :=
    { instructions := method.instructions.map Instruction.normalize
      offsets := steps.encoded.offsets }
  obtain ⟨areRead, extendsCode⟩ :=
    steps.areRead tidy consistent (rfl : decoded.offsets = _) fileConsistent fileExtends contiguous
  obtain ⟨isDecoded, isShort⟩ :=
    steps.decodeCode_eq_ok tidy consistent fileConsistent extendsCode callsFit
  refine ⟨?_, steps.maxLocals_le⟩
  rw [declared.ofMember?_eq_ok (areRead.fits tidy isShort mapFits)
    (areRead.readBody_eq_ok tidy isDecoded), tidy.listed]

end Method

/-! ## A method that is read back -/

namespace SwitchingMethod

/-- A method with a switch, whose keys are not sorted, before a handler. -/
def method : Method where
  instructions := #[.load .int 0, .lookupSwitch 3 [(7, 2), (-1, 3)], .op .nop, .op (.leave none),
    .op .throw]
  handlers := #[⟨0, 3, 4, some .exception⟩]
  localVariables := #[⟨0, 5, ⟨"key", by decide⟩, .int, 0⟩]
  lines := #[⟨0, 10⟩, ⟨2, 11⟩]
  owner := .object
  flags := MethodFlags.accStatic
  name := ⟨"select", by decide⟩
  type := ⟨[.int], none⟩
  hasVariableTable := true
  maxLocals := 1

/-- The frames of the method. -/
def frames : FlowAnalysis where
  frames := #[some ⟨[.int], []⟩, some ⟨[.int], [.int]⟩, some ⟨[.int], []⟩, some ⟨[.int], []⟩,
    some ⟨[.int], [.object (.object .exception)]⟩]
  maxStack := 1
  maxLocals := 1

/-- The code of the method, with its switch sorted and padded. -/
def encoded : EncodedCode where
  bytes := [0x1a, 0xab, 0, 0, 0, 0, 0, 28, 0, 0, 0, 2, 0xff, 0xff, 0xff, 0xff, 0, 0, 0, 28,
    0, 0, 0, 7, 0, 0, 0, 27, 0x00, 0xb1, 0xbf]
  offsets := #[0, 1, 28, 29, 30, 31]
  widened := []

/-- Constants that name the class, the method and its code, and a handle of a field. -/
def constants : List Constant :=
  [.utf8 "java/lang/Object", .classInfo 1, .utf8 "select", .utf8 "(I)V", .utf8 "Code",
    .utf8 "valueOf", .utf8 "I", .nameAndType 6 7, .fieldRef 2 8,
    .methodHandle (.field .getStatic) 9]

def pool : ConstantPool :=
  .ofTable (ConstantTable.empty.pushAll constants) []

/-- The class file of the method, with the pool and the code that assembling it gave. -/
def file (after : ConstantPool) : ClassFile where
  version := ⟨49, 0⟩
  pool := after
  flags := ClassFlags.accPublic
  this := 2
  super := 0
  interfaces := []
  fields := []
  methods := []
  attributes := []

def member (code : CodeAttribute) : Member .method :=
  ⟨MethodFlags.accStatic, 3, 4, [⟨5, write code⟩]⟩

theorem analyze_eq_ok :
    method.analyze .core = .ok frames := by
  decide +kernel

theorem encode_eq_ok :
    encode method.instructions pool = .ok encoded pool := by
  let items : Array Linked := (method.instructions.toList.map fun instruction =>
    ⟨instruction, none⟩).toArray
  have isEncoded : encodeLinked JumpRange.short items = .ok encoded := by
    cbv
  refine run_bind_eq_ok.mpr ⟨items, pool, ?_, run_ofExcept_eq_ok.mpr ⟨isEncoded, rfl⟩⟩
  rw [Array.mapM_eq_mapM_toList]
  rfl

theorem isConsistent_pool : pool.IsConsistent := by
  have ordered :=
    (OffsetSeq.isOrdered_startingAt 1 : ConstantTable.empty.IsOrdered).pushAll constants
  refine ConstantPool.isConsistent_ofTable ordered (fun entry isEntry => ?_) []
  exact Nat.lt_trans (ordered.bounded entry isEntry) (by decide)

theorem isContiguous
    {before after : ConstantPool}
    (grown : after.GrownFrom before)
    (sameConstants : before.constants = pool.constants) :
    after.constants.IsContiguous := by
  obtain ⟨added, isAdded, _⟩ := grown.appended
  rw [isAdded, sameConstants]
  exact ConstantTable.isContiguous_pushAll (ConstantTable.isContiguous_pushAll
    (show ConstantTable.empty.IsContiguous from rfl) constants) added

/-- The class is found in every later pool. -/
theorem owner_resolve
    {after : ConstantPool}
    (consistent : after.IsConsistent)
    (extending : after.Extends pool) :
    BinaryName.resolve after 2 = .ok .object := by
  have stands : ∀ {index : PoolIndex} {constant : Constant},
      (index.toNat, constant) ∈ pool.constants.toList → after.get index = .ok constant :=
    fun member => consistent.get_eq_ok_iff.mpr (extending.constants _ member)
  have isClass : after.get 2 = .ok (.classInfo 1) := stands (by decide)
  have isText : after.text 1 = .ok "java/lang/Object" :=
    ConstantPool.text_eq_ok (stands (by decide))
  have isType : RefType.resolve after 2 = .ok (.object .object) := by
    rw [RefType.resolve, isClass, ok_bind]
    dsimp only
    rw [isText, ok_bind]
    exact congrArg (Except.mapError _) (RefType.ofClassInfoName_classInfoName (.object .object))
  rw [BinaryName.resolve, isType]
  rfl

/-- There is room for the lines, the variable and the class that the handler catches. -/
theorem exists_assemble_eq_ok :
    ∃ code after, method.assemble .core ⟨49, 0⟩ pool = .ok code after ∧ code.maxLocals = 1 ∧
      after.IsConsistent ∧ after.GrownFrom pool ∧
      ∀ entry ∈ code.attributes, entry.holds after StackMap = false := by
  have poolEnd : pool.constants.endOffset = 11 := rfl
  have limit : ConstantPool.positionLimit = 65535 := rfl
  obtain ⟨lines, withLines, linesDone, linesEnd, _⟩ :=
    method.fitsIn_lineAttribute encoded.offsets pool (by omega)
  obtain ⟨locals, withLocals, localsDone, localsEnd, _⟩ :=
    method.fitsIn_variableAttribute encoded.offsets withLines
      (show withLines.constants.endOffset + 3 ≤ _ by omega)
  change _ ≤ _ + 3 at localsEnd
  obtain ⟨catchType, after, classDone, _, _⟩ :=
    BinaryName.exception.fitsIn_intern withLocals (by omega)
  obtain ⟨linesConsistent, _, linesOther⟩ :=
    Method.yields_lineAttribute _ _ _ isConsistent_pool linesDone
  obtain ⟨localsConsistent, localsExtend, localsOther⟩ :=
    Method.yields_variableAttribute _ _ _ linesConsistent localsDone
  obtain ⟨afterConsistent, afterExtends, _⟩ :=
    BinaryName.exception.yields_intern _ _ _ localsConsistent classDone
  have assembled : method.assemble .core ⟨49, 0⟩ pool =
      .ok ⟨1, 1, encoded.bytes, [⟨0, 29, 30, catchType⟩], [] ++ lines ++ locals⟩ after := by
    refine run_bind_eq_ok.mpr ⟨frames, pool, run_ofExcept_eq_ok.mpr ⟨analyze_eq_ok, rfl⟩, ?_⟩
    refine run_bind_eq_ok.mpr ⟨encoded, pool, encode_eq_ok, ?_⟩
    refine run_bind_eq_ok.mpr ⟨[], pool, rfl, ?_⟩
    refine run_bind_eq_ok.mpr ⟨lines, withLines, linesDone, ?_⟩
    refine run_bind_eq_ok.mpr ⟨locals, withLocals, localsDone, ?_⟩
    refine run_bind_eq_ok.mpr ⟨[⟨0, 29, 30, catchType⟩], after, ?_, rfl⟩
    have sameRanges : splitRanges method.handlers.toList frames = [⟨0, 3, 4, some .exception⟩] := by
      decide +kernel
    rw [sameRanges, List.mapM_cons]
    refine run_bind_eq_ok.mpr ⟨⟨0, 29, 30, catchType⟩, after, ?_, rfl⟩
    exact run_bind_eq_ok.mpr ⟨catchType, after, classDone, rfl⟩
  obtain ⟨_, grown⟩ := method.onlyAdds_assemble .core ⟨49, 0⟩ _ _ _ isConsistent_pool assembled
  refine ⟨_, after, assembled, rfl, afterConsistent, grown, fun entry isEntry => ?_⟩
  rcases List.mem_append.mp isEntry with isLine | isLocal
  · exact linesOther after afterConsistent (afterExtends.trans localsExtend) entry isLine
  · exact localsOther after afterConsistent afterExtends entry isLocal

theorem isTidy : method.IsTidy .core pool where
  live analysis accepted := by
    rw [analyze_eq_ok, Except.ok.injEq] at accepted
    subst accepted
    decide
  near written after isEncoded := by
    rw [encode_eq_ok, EStateM.Result.ok.injEq] at isEncoded
    exact isEncoded.1 ▸ rfl
  switchesFit := by simp [method, Instruction.SwitchFits]
  ranges := by decide
  scopes := by decide
  lines := by decide
  sorted := by decide
  fewRanges := by decide
  fewScopes := by decide
  fewLines := by decide
  listed := rfl

/-- Whatever follows the names in the pool, the class file declares a method of the name, with
whatever body. -/
theorem isDeclaredBy
    {after : ConstantPool}
    (consistent : after.IsConsistent)
    (extending : after.Extends pool)
    (code : CodeAttribute)
    (body : CodeBody Nat) :
    ({ method with toCodeBody := body } : Method).IsDeclaredBy code (file after) (member code) := by
  have stands : ∀ {index : PoolIndex} {constant : Constant},
      (index.toNat, constant) ∈ pool.constants.toList → after.get index = .ok constant :=
    fun member => consistent.get_eq_ok_iff.mpr (extending.constants _ member)
  have nameText : after.text 3 = .ok method.name.text :=
    ConstantPool.text_eq_ok (stands (by decide))
  have typeText : after.text 4 = .ok method.type.descriptor :=
    ConstantPool.text_eq_ok (stands (by decide))
  have codeText : after.text 5 = .ok "Code" := ConstantPool.text_eq_ok (stands (by decide))
  refine ⟨owner_resolve consistent extending, ?_, rfl, ⟨5, write code⟩, ?_, rfl⟩
  · change (after.text 3 >>= _) = _
    rw [nameText, ok_bind]
    change (after.text 4 >>= _) = _
    rw [typeText, ok_bind, UnqualifiedName.ofClassFile_text, ok_bind,
      MethodType.ofClassFile_descriptor]
    rfl
  · have isCode : (Attribute.mk 5 (write code)).holds after CodeAttribute = true :=
      Attribute.holds_iff.mpr codeText
    change [Attribute.mk 5 (write code)].find? (·.holds after CodeAttribute) = _
    rw [List.find?_cons, isCode]

end SwitchingMethod

open SwitchingMethod in
/-- A method with a handler, a variable and two lines is read as it was, but for its switch. -/
theorem switchingMethod_isReadBack :
    ∃ code after, method.assemble .core ⟨49, 0⟩ pool = .ok code after ∧
      Method.ofMember? (file after) (member code) = .ok (some { method with
        instructions := #[.load .int 0, .lookupSwitch 3 [(-1, 3), (7, 2)], .op .nop,
          .op (.leave none), .op .throw] }) := by
  obtain ⟨code, after, assembled, maxLocals, consistent, grown, noMap⟩ := exists_assemble_eq_ok
  have contiguous := isContiguous grown rfl
  obtain ⟨isRead, _⟩ := Method.ofMember?_of_assemble_eq_ok isTidy isConsistent_pool assembled
    (isDeclaredBy consistent grown.toExtends code method.toCodeBody) consistent (.refl after)
    contiguous
    (by simp [method, Instruction.CallFits])
    (fun entry isEntry isMap => by
      rw [show entry.holds (file after).pool StackMap = false from noMap entry isEntry] at isMap
      cases isMap)
  refine ⟨code, after, assembled, ?_⟩
  rw [isRead, maxLocals]
  have sorted : method.instructions.map Instruction.normalize = #[.load .int 0,
      .lookupSwitch 3 [(-1, 3), (7, 2)], .op .nop, .op (.leave none), .op .throw] := by
    cbv
  rw [sorted]
  rfl

/-! ## A call that is not read back -/

namespace CrowdedTable

/-- The pool, with one bootstrap method for every number of sixteen bits. -/
def pool : ConstantPool :=
  SwitchingMethod.pool.seedBootstraps (List.replicate (2 ^ 16) ⟨10, []⟩)

/-- A call whose bootstrap method, if it has arguments, is not in the pool. -/
def call (arguments : List Literal) : DynamicCall where
  bootstrap := .field .getStatic ⟨.object, .valueOf, .int⟩
  arguments
  name := .valueOf
  type := ⟨[], none⟩

def method : Method :=
  { SwitchingMethod.method with
    instructions := #[.invokeDynamic (call [.integer 0]), .op (.leave none)]
    handlers := #[]
    localVariables := #[]
    lines := #[] }

def encoded (index : PoolIndex) : EncodedCode where
  bytes := 0xba :: write index ++ [0, 0, 0xb1]
  offsets := #[0, 5, 6]
  widened := []

/-- The call as it is linked, before the instruction that leaves the method. -/
def linked (arguments : List Literal) (index : PoolIndex) : Array Linked :=
  #[⟨.invokeDynamic (call arguments), some index⟩, ⟨.op (.leave none), none⟩]

theorem isConsistent_pool : pool.IsConsistent where
  ordered := SwitchingMethod.isConsistent_pool.ordered
  small := SwitchingMethod.isConsistent_pool.small
  recorded := SwitchingMethod.isConsistent_pool.recorded

theorem extends_pool : pool.Extends SwitchingMethod.pool where
  constants _ member := member
  positions _ _ recorded := recorded
  bootstraps := List.nil_prefix

/-- The bytes tell the calls apart by their constant only. -/
theorem encodeLinked_linked
    (arguments : List Literal)
    (index : PoolIndex) :
    encodeLinked JumpRange.short (linked arguments index) = .ok (encoded index) := by
  with_unfolding_all rfl

theorem encode_eq_ok
    {index : PoolIndex}
    {after : ConstantPool}
    (interned : (call [.integer 0]).intern pool = .ok index after) :
    encode method.instructions pool = .ok (encoded index) after := by
  have isLinked : (some <$> (call [.integer 0]).intern : PoolM (Option PoolIndex)) pool =
      .ok (some index) after := by
    rw [map_eq_pure_bind]
    exact run_bind_eq_ok.mpr ⟨index, after, interned, rfl⟩
  refine run_bind_eq_ok.mpr ⟨linked [.integer 0] index, after, ?_,
    run_ofExcept_eq_ok.mpr ⟨encodeLinked_linked _ index, rfl⟩⟩
  rw [Array.mapM_eq_mapM_toList, map_eq_pure_bind]
  refine run_bind_eq_ok.mpr ⟨(linked [.integer 0] index).toList, after, ?_, rfl⟩
  have areInstructions : method.instructions.toList =
      [.invokeDynamic (call [.integer 0]), .op (.leave none)] := rfl
  rw [areInstructions, List.mapM_cons]
  refine run_bind_eq_ok.mpr ⟨⟨.invokeDynamic (call [.integer 0]), some index⟩, after, ?_, rfl⟩
  exact run_bind_eq_ok.mpr ⟨some index, after, isLinked, rfl⟩

/-- In every later pool the handle of the bootstrap methods reads the field. -/
theorem handle_resolve
    {final : ConstantPool}
    (consistent : final.IsConsistent)
    (extending : final.Extends pool) :
    Handle.resolve final 10 = .ok (call []).bootstrap := by
  have stands : ∀ {index : PoolIndex} {constant : Constant},
      (index.toNat, constant) ∈ pool.constants.toList → final.get index = .ok constant :=
    fun member => consistent.get_eq_ok_iff.mpr (extending.constants _ member)
  have isHandle : final.get 10 = .ok (.methodHandle (.field .getStatic) 9) := stands (by decide)
  have isField : final.get 9 = .ok (.fieldRef 2 8) := stands (by decide)
  have isSignature : final.get 8 = .ok (.nameAndType 6 7) := stands (by decide)
  have nameText : final.text 6 = .ok UnqualifiedName.valueOf.text :=
    ConstantPool.text_eq_ok (stands (by decide))
  have typeText : final.text 7 = .ok FieldType.int.descriptor :=
    ConstantPool.text_eq_ok (stands (by decide))
  have signature : final.nameAndType 8 =
      .ok (UnqualifiedName.valueOf.text, FieldType.int.descriptor) := by
    rw [ConstantPool.nameAndType, isSignature]
    dsimp only
    rw [nameText, ok_bind, typeText]
    rfl
  have field : FieldRef.resolve final 9 = .ok ⟨.object, .valueOf, .int⟩ := by
    rw [FieldRef.resolve, isField, ok_bind]
    dsimp only
    rw [SwitchingMethod.owner_resolve consistent (extending.trans extends_pool), ok_bind, signature,
      ok_bind]
    dsimp only
    rw [UnqualifiedName.ofClassFile_text, ok_bind, FieldType.ofClassFile_descriptor]
    rfl
  rw [Handle.resolve, isHandle, ok_bind]
  dsimp only
  rw [field]
  rfl

/-- A call is read back without its arguments: whatever sixteen bits are kept of the place of its
bootstrap method, they lead to one that was there before. -/
theorem resolve_of_intern_eq_ok
    {arguments : List Literal}
    {index : PoolIndex}
    {after final : ConstantPool}
    (interned : (call arguments).intern pool = .ok index after)
    (consistent : final.IsConsistent)
    (extending : final.Extends after) :
    DynamicCall.resolve final index = .ok (call []) := by
  obtain ⟨_, afterExtends, means⟩ :=
    (call arguments).yields_intern_placed _ _ _ isConsistent_pool interned
  obtain ⟨_, place, _, _, _, stands, signed⟩ := means final consistent extending
  have extendsPool := extending.trans afterExtends
  have resolves_iff : DynamicCall.resolve final index = .ok (call []) ↔ _ :=
    DynamicCall.resolve_eq_ok_iff stands signed
  refine resolves_iff.mpr ⟨⟨10, []⟩, ?_, handle_resolve consistent extendsPool, rfl⟩
  obtain ⟨others, areBootstraps⟩ := extendsPool.bootstraps
  have isOld : place.toUInt16.toNat < pool.bootstraps.length :=
    Nat.lt_of_lt_of_eq place.toUInt16.toNat_lt List.length_replicate.symm
  rw [← areBootstraps, List.getElem?_append_left isOld]
  exact List.getElem?_replicate_of_lt place.toUInt16.toNat_lt

/-- What is written for the call is decoded to the other one. -/
theorem decodeCode_encoded
    {index : PoolIndex}
    {final : ConstantPool}
    (resolved : DynamicCall.resolve final index = .ok (call [])) :
    decodeCode (encoded index).bytes final = .ok {
      instructions := #[.invokeDynamic (call []), .op (.leave none)]
      offsets := (encoded index).offsets } := by
  obtain ⟨placed, areItems, madeOf⟩ :=
    isMadeOf_of_encodeLinked_eq_ok (encodeLinked_linked [] index)
  have itemOf : ∀ item ∈ placed, item.1 = ⟨.invokeDynamic (call []), some index⟩ ∨
      item.1 = ⟨.op (.leave none), none⟩ := by
    intro item member
    have isItem : item.1 ∈ (linked [] index).toList := areItems ▸ List.mem_map_of_mem member
    simpa [linked] using isItem
  have areInstructions : (placed.map fun item => item.1.instruction.normalize) =
      (linked [] index).toList.map fun item => item.instruction.normalize := by
    rw [← areItems, List.map_map]
    rfl
  rw [madeOf.decodeCode_of_not_widened (by decide) _ _ rfl, areInstructions]
  · rfl
  · intro item member
    rcases itemOf item member with isCall | isEnd
    · rw [isCall]
      exact ⟨index, rfl, resolved⟩
    · rw [isEnd]
      trivial
  · intro item member
    rcases itemOf item member with isCall | isEnd
    · rw [isCall]
      trivial
    · rw [isEnd]
      trivial

def frames : FlowAnalysis where
  frames := #[some ⟨[.int], []⟩, some ⟨[.int], []⟩]
  maxStack := 0
  maxLocals := 1

theorem analyze_eq_ok :
    method.analyze .core = .ok frames := by
  decide +kernel

/-- There is room for the call and the table of variables. -/
theorem exists_assemble_eq_ok :
    ∃ index withCode code after, (call [.integer 0]).intern pool = .ok index withCode ∧
      method.assemble .core ⟨49, 0⟩ pool = .ok code after ∧ code.maxLocals = 1 ∧
      after.IsConsistent ∧ after.GrownFrom pool ∧
      ∀ entry ∈ code.attributes, entry.holds after StackMap = false := by
  have poolEnd : pool.constants.endOffset = 11 := rfl
  have limit : ConstantPool.positionLimit = 65535 := rfl
  obtain ⟨index, withCode, interned, codeEnd⟩ :=
    (call [.integer 0]).exists_intern_within (show pool.constants.endOffset + 18 ≤ _ by omega)
  change _ ≤ _ + 18 at codeEnd
  obtain ⟨codeConsistent, _, _⟩ :=
    (call [.integer 0]).yields_intern_placed _ _ _ isConsistent_pool interned
  obtain ⟨locals, after, localsDone, _, _⟩ :=
    method.fitsIn_variableAttribute (encoded index).offsets withCode
      (show withCode.constants.endOffset + 1 ≤ _ by omega)
  obtain ⟨afterConsistent, _, localsOther⟩ :=
    Method.yields_variableAttribute _ _ _ codeConsistent localsDone
  have assembled : method.assemble .core ⟨49, 0⟩ pool =
      .ok ⟨0, 1, (encoded index).bytes, [], locals⟩ after := by
    refine run_bind_eq_ok.mpr ⟨frames, pool, run_ofExcept_eq_ok.mpr ⟨analyze_eq_ok, rfl⟩, ?_⟩
    refine run_bind_eq_ok.mpr ⟨encoded index, withCode, encode_eq_ok interned, ?_⟩
    refine run_bind_eq_ok.mpr ⟨[], withCode, rfl, ?_⟩
    refine run_bind_eq_ok.mpr ⟨[], withCode, rfl, ?_⟩
    refine run_bind_eq_ok.mpr ⟨locals, after, localsDone, ?_⟩
    exact run_bind_eq_ok.mpr ⟨[], after, rfl, rfl⟩
  obtain ⟨_, grown⟩ := method.onlyAdds_assemble .core ⟨49, 0⟩ _ _ _ isConsistent_pool assembled
  exact ⟨index, withCode, _, after, interned, assembled, rfl, afterConsistent, grown,
    localsOther after afterConsistent (.refl after)⟩

theorem isTidy
    {index : PoolIndex}
    {withCode : ConstantPool}
    (interned : (call [.integer 0]).intern pool = .ok index withCode) :
    method.IsTidy .core pool where
  live analysis accepted := by
    rw [analyze_eq_ok, Except.ok.injEq] at accepted
    subst accepted
    decide
  near written after isEncoded := by
    rw [encode_eq_ok interned, EStateM.Result.ok.injEq] at isEncoded
    exact isEncoded.1 ▸ rfl
  switchesFit := by simp [method, Instruction.SwitchFits]
  ranges := by decide
  scopes := by decide
  lines := by decide
  sorted := by decide
  fewRanges := by decide
  fewScopes := by decide
  fewLines := by decide
  listed := rfl

end CrowdedTable

open CrowdedTable in
/-- A tidy method is assembled, and read from a class file that declares it with another call than
its own: its bootstrap method is given the number of one that was there before. -/
theorem crowdedCall_isReadAsAnother :
    pool.IsConsistent ∧ method.IsTidy .core pool ∧
      ∃ code after, method.assemble .core ⟨49, 0⟩ pool = .ok code after ∧
        method.IsDeclaredBy code (SwitchingMethod.file after) (SwitchingMethod.member code) ∧
        after.IsConsistent ∧ after.constants.IsContiguous ∧
        (∀ entry ∈ code.attributes, entry.holds after StackMap = false) ∧
        Method.ofMember? (SwitchingMethod.file after) (SwitchingMethod.member code) =
          .ok (some { method with
            instructions := #[.invokeDynamic (call []), .op (.leave none)] }) := by
  obtain ⟨index, withCode, code, after, interned, assembled, maxLocals, consistent, grown, noMap⟩ :=
    exists_assemble_eq_ok
  have tidy := isTidy interned
  have contiguous := SwitchingMethod.isContiguous grown rfl
  have declared : method.IsDeclaredBy code (SwitchingMethod.file after)
      (SwitchingMethod.member code) :=
    SwitchingMethod.isDeclaredBy consistent (grown.toExtends.trans extends_pool) code
      method.toCodeBody
  refine ⟨isConsistent_pool, tidy, code, after, assembled, declared, consistent, contiguous, noMap,
    ?_⟩
  obtain ⟨steps⟩ := Method.exists_steps_of_assemble_eq_ok assembled
  obtain ⟨isEncoded, isAfter⟩ := EStateM.Result.ok.inj
    ((encode_eq_ok interned).symm.trans (steps.encode_eq_ok tidy))
  let decoded : DecodedCode :=
    { instructions := #[.invokeDynamic (call []), .op (.leave none)]
      offsets := (encoded index).offsets }
  obtain ⟨areRead, extendsCode⟩ := steps.areRead tidy isConsistent_pool
    (isEncoded ▸ rfl : decoded.offsets = _) consistent (.refl after) contiguous
  have isDecoded : decodeCode steps.encoded.bytes after = .ok decoded :=
    isEncoded ▸ decodeCode_encoded
      (resolve_of_intern_eq_ok interned consistent (isAfter ▸ extendsCode))
  have isShort : steps.encoded.bytes.length ≤ 65535 :=
    isEncoded ▸ show 6 ≤ 65535 by decide
  have fits : code.Fits := areRead.fits tidy isShort fun entry isEntry isMap =>
    nomatch (noMap entry isEntry).symm.trans isMap
  rw [declared.ofMember?_eq_ok fits (areRead.readBody_eq_ok tidy isDecoded), maxLocals]
  rfl

end ClosureConversion
