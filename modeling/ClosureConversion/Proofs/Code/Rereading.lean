import ClosureConversion.Closure.SiteDetection
import ClosureConversion.Proofs.ClassFile.Including
import ClosureConversion.Proofs.StackMap.Assembly

/-!
Contract: the code of an assembled method is read as the body of a method again.

Owns:
- code attributes whose sizes fit, which are read back;
- what the tables in the code of an assembled method refer to;
- that the code is read in every later pool, and that it makes no static calls but those of the
  method.

Does not own: what else is known of the body that is read.
-/

namespace ClosureConversion

/-! ## Contents -/

instance : LawfulBinary ExceptionEntry where
  read_write entry rest := by
    change (do
        let start ← read
        let stop ← read
        let handler ← read
        let catchType ← read
        return ⟨start, stop, handler, catchType⟩ : Reader ExceptionEntry)
      (write entry.start ++ write entry.stop ++ write entry.handler ++ write entry.catchType ++
        rest) = _
    simp only [List.append_assoc]
    rw [read_bind_of_eq_ok (read_write _ _), read_bind_of_eq_ok (read_write _ _),
      read_bind_of_eq_ok (read_write _ _), read_bind_of_eq_ok (read_write _ _)]
    rfl

instance : LawfulBinary LineEntry where
  read_write entry rest := read_bind_write LineEntry.mk entry.start entry.line rest

instance : LawfulBinary VariableEntry where
  read_write entry rest := by
    change (do
        let start ← read
        let length ← read
        let name ← read
        let descriptor ← read
        let slot ← read
        return ⟨start, length, name, descriptor, slot⟩ : Reader VariableEntry)
      (write entry.start ++ write entry.length ++ write entry.name ++ write entry.descriptor ++
        write entry.slot ++ rest) = _
    simp only [List.append_assoc]
    rw [read_bind_of_eq_ok (read_write _ _), read_bind_of_eq_ok (read_write _ _),
      read_bind_of_eq_ok (read_write _ _), read_bind_of_eq_ok (read_write _ _),
      read_bind_of_eq_ok (read_write _ _)]
    rfl

theorem LineTable.isReadBack
    {table : LineTable}
    (few : table.entries.length < 2 ^ 16) :
    IsReadBack table :=
  Reader.Takes.map (read_write_list (fun entry _ => read_write entry) few) LineTable.mk

theorem VariableTable.isReadBack
    {table : VariableTable}
    (few : table.entries.length < 2 ^ 16) :
    IsReadBack table :=
  Reader.Takes.map (read_write_list (fun entry _ => read_write entry) few) VariableTable.mk

namespace CodeAttribute

/-- Every size in the code fits the field that it is written to. -/
structure Fits (code : CodeAttribute) : Prop where
  bytes : code.bytes.length < 2 ^ 32
  exceptions : code.exceptions.length < 2 ^ 16
  attributeCount : code.attributes.length < 2 ^ 16
  attributes : ∀ entry ∈ code.attributes, entry.Fits

/-- Code that fits is read back. -/
theorem Fits.isReadBack
    {code : CodeAttribute}
    (fits : code.Fits) :
    IsReadBack code := by
  intro rest
  have count : code.bytes.length.toUInt32.toNat = code.bytes.length :=
    UInt32.toNat_ofNat_of_lt' fits.bytes
  change (do
      let maxStack ← read
      let maxLocals ← read
      let length : UInt32 ← read
      let bytes ← Reader.take length.toNat "bytecode"
      let exceptions ← read
      let attributes ← read
      return ⟨maxStack, maxLocals, bytes, exceptions, attributes⟩ : Reader CodeAttribute)
    (write code.maxStack ++ write code.maxLocals ++ write code.bytes.length.toUInt32 ++
      code.bytes ++ write code.exceptions ++ write code.attributes ++ rest) = _
  simp only [List.append_assoc]
  rw [read_bind_of_eq_ok (read_write _ _), read_bind_of_eq_ok (read_write _ _),
    read_bind_of_eq_ok (read_write _ _), count, read_bind_of_eq_ok (take_append _ _ _),
    read_bind_of_eq_ok (read_write_list (fun entry _ => read_write entry) fits.exceptions _),
    read_bind_of_eq_ok (Attribute.isReadBack_list fits.attributeCount fits.attributes _)]
  rfl

/-- What is written for the whole code is no shorter than its parts. -/
theorem fits_of_length_lt
    {code : CodeAttribute}
    (short : (write code).length < 2 ^ 32)
    (fewExceptions : code.exceptions.length < 2 ^ 16)
    (fewAttributes : code.attributes.length < 2 ^ 16) :
    code.Fits := by
  have parts : write code = write code.maxStack ++ write code.maxLocals ++
      write code.bytes.length.toUInt32 ++ code.bytes ++ write code.exceptions ++
        (write code.attributes.length.toUInt16 ++ code.attributes.flatMap write) := rfl
  rw [parts] at short
  simp only [List.length_append] at short
  refine ⟨by omega, fewExceptions, fewAttributes, fun entry member => ?_⟩
  obtain ⟨front, back, isSplit⟩ := List.append_of_mem member
  have inside : (write entry).length ≤ (code.attributes.flatMap write).length := by
    rw [isSplit, List.flatMap_append, List.flatMap_cons]
    simp only [List.length_append]
    omega
  have info : (write entry).length =
      (write entry.name ++ write entry.info.length.toUInt32).length + entry.info.length :=
    List.length_append
  unfold Attribute.Fits
  omega

end CodeAttribute

/-! ## Decoding -/

@[simp]
theorem staticCall?_map
    (f : Nat → Nat)
    (instruction : Instruction Nat) :
    staticCall? (instruction.map f) = staticCall? instruction := by
  cases instruction with
  | invoke kind method => rfl
  | _ => rfl

@[simp]
theorem staticCall?_normalize
    (instruction : Instruction Nat) :
    staticCall? instruction.normalize = staticCall? instruction := by
  cases instruction with
  | pushLiteral literal => cases literal <;> rfl
  | _ => rfl

theorem staticCall?_of_mem_expand
    {instruction part : Instruction Nat}
    {far : Bool}
    {place : Nat → Nat}
    {next : Nat}
    (isPart : part ∈ instruction.expand far place next)
    {called : BinaryName × MethodRef}
    (calls : staticCall? part = some called) :
    staticCall? instruction = some called := by
  unfold Instruction.expand at isPart
  split at isPart
  · split at isPart
    · rcases List.mem_cons.mp isPart with rfl | isJump
      · cases calls
      · rw [List.mem_singleton.mp isJump] at calls
        cases calls
    · rw [List.mem_singleton.mp isPart] at calls
      cases calls
  · rw [List.mem_singleton.mp isPart, staticCall?_map, staticCall?_normalize] at calls
    exact calls

/-- Instructions that bytes are read as start among these bytes. -/
theorem Decodes.lt_of_mem
    {pool : ConstantPool}
    {codeLength offset : Nat}
    {bytes : Bytes}
    {found : List (Nat × Instruction Nat)}
    (decodes : Decodes pool codeLength offset bytes found)
    {entry : Nat × Instruction Nat}
    (member : entry ∈ found) :
    entry.1 < offset + bytes.length := by
  induction decodes with
  | nil => cases member
  | @cons offset front back instruction rest _ notEmpty _ inductionHypothesis =>
      have positive := List.length_pos_iff.mpr notEmpty
      rw [List.length_append]
      rcases List.mem_cons.mp member with rfl | isLater
      · dsimp only
        omega
      · have later := inductionHypothesis isLater
        omega

namespace EncodedCode

/-- Code that is decoded calls a static method only where an item does. -/
theorem exists_item_of_mem_emissionFrom
    {place : Nat → Nat}
    {start : Nat}
    {placed : List (Linked × Bool)}
    {found : Nat × Instruction Nat}
    (member : found ∈ emissionFrom place start placed)
    {called : BinaryName × MethodRef}
    (calls : staticCall? found.2 = some called) :
    ∃ item ∈ placed, staticCall? item.1.instruction = some called := by
  induction placed generalizing start with
  | nil => cases member
  | cons item rest inductionHypothesis =>
      rw [emissionFrom] at member
      rcases List.mem_append.mp member with inItem | inRest
      · exact ⟨item, List.mem_cons_self,
          staticCall?_of_mem_expand (List.of_mem_zip inItem).2 calls⟩
      · obtain ⟨other, isOther, isCall⟩ := inductionHypothesis inRest
        exact ⟨other, List.mem_cons_of_mem _ isOther, isCall⟩

/-- Encoded code is decoded with every pool in which its items are linked. The start of every item
and the end of the code are found then, and every instruction is one that was emitted, with the
indices of its targets. -/
theorem IsMadeOf.exists_decodeCode
    {code : EncodedCode}
    {range : JumpRange}
    {placed : List (Linked × Bool)}
    {pool : ConstantPool}
    (madeOf : code.IsMadeOf range placed)
    (short : -32768 ≤ range.low ∧ range.high ≤ 32767)
    (linked : ∀ item ∈ placed, item.1.instruction.IsLinked pool item.1.constant)
    (switchesFit : ∀ item ∈ placed, item.1.instruction.SwitchFits)
    (goesOn : ∀ index ∈ code.widened, index + 1 < placed.length) :
    ∃ decoded, decodeCode code.bytes pool = .ok decoded ∧
      (∀ offset ∈ code.offsets, ∃ index, decoded.indexOf? offset = some index) ∧
      ∀ instruction ∈ decoded.instructions,
        ∃ entry ∈ emissionFrom (placeIn code.offsets) 0 placed, ∃ indexOf,
          instruction = entry.2.map indexOf ∧
            ∀ offset ∈ entry.2.targets, decoded.offsets[indexOf offset]? = some offset := by
  have decodes := madeOf.decodes short linked switchesFit goesOn
  have isLast := madeOf.lastOffset linked
  let starts := (emissionFrom (placeIn code.offsets) 0 placed).map Prod.fst
  have increasing : (starts ++ [code.bytes.length]).Pairwise (· < ·) := by
    rw [List.pairwise_append]
    refine ⟨(pairwise_map_fst_emissionFrom (placeIn code.offsets) 0 placed).1,
      List.pairwise_singleton _ _, fun start member last isLast => ?_⟩
    obtain ⟨entry, isEntry, rfl⟩ := List.mem_map.mp member
    have below := decodes.lt_of_mem isEntry
    rw [List.mem_singleton.mp isLast]
    omega
  have startsIncreasing : starts.toArray.toList.Pairwise (· < ·) :=
    (List.pairwise_append.mp increasing).1
  have targetsFound : ∀ entry ∈ emissionFrom (placeIn code.offsets) 0 placed,
      ∀ target ∈ entry.2.targets, ∃ index, starts[index]? = some target ∧
        indexOfOffset? starts.toArray target = some index := by
    intro entry member target isTarget
    obtain ⟨index, inside, stands⟩ := madeOf.exists_of_mem_targets goesOn member isTarget
    have found := madeOf.getElem?_shift (placeIn code.offsets) inside stands
    refine ⟨code.shift index, found, indexOfOffset?_eq_some startsIncreasing ?_⟩
    rw [List.getElem?_toArray]
    exact found
  refine ⟨_, decodeCode_eq_ok decodes fun entry member target isTarget =>
    (targetsFound entry member target isTarget).imp fun _ found => found.2, ?_, ?_⟩
  · intro offset member
    obtain ⟨index, inside, rfl⟩ := Array.mem_iff_getElem.mp member
    have stands := Array.getElem?_eq_getElem inside
    rw [madeOf.offsetCount] at inside
    have asList : (starts.toArray.push code.bytes.length).toList = starts ++ [code.bytes.length] := by
      simp
    unfold DecodedCode.indexOf?
    rcases Nat.lt_or_eq_of_le (Nat.le_of_lt_succ inside) with isItem | isEnd
    · have found := madeOf.getElem?_shift (placeIn code.offsets) isItem stands
      obtain ⟨below, _⟩ := List.getElem?_eq_some_iff.mp found
      refine ⟨code.shift index, indexOfOffset?_eq_some (asList ▸ increasing) ?_⟩
      rw [← Array.getElem?_toList, asList, List.getElem?_append_left below]
      exact found
    · subst isEnd
      rw [isLast] at stands
      refine ⟨starts.length, indexOfOffset?_eq_some (asList ▸ increasing) ?_⟩
      rw [← Array.getElem?_toList, asList, List.getElem?_append_right (Nat.le_refl _),
        Nat.sub_self]
      exact stands
  · intro instruction member
    obtain ⟨read, isRead, rfl⟩ := List.mem_map.mp (List.mem_toArray.mp member)
    obtain ⟨entry, isEntry, rfl⟩ := List.mem_map.mp isRead
    refine ⟨entry, isEntry, _, rfl, fun target isTarget => ?_⟩
    obtain ⟨index, stands, found⟩ := targetsFound entry isEntry target isTarget
    obtain ⟨below, isStart⟩ := List.getElem?_eq_some_iff.mp stands
    have sameIndex : (indexOfOffset? starts.toArray target).getD 0 = index := by
      rw [found, Option.getD_some]
    change (starts.toArray.push code.bytes.length)[(indexOfOffset? starts.toArray target).getD 0]? = _
    rw [sameIndex, Array.getElem?_push_lt below]
    exact congrArg some isStart

end EncodedCode

/-! ## Tables -/

/-- The offsets of instructions and, last, of the end of the code, which sixteen bits hold. -/
structure AreOffsets (offsets : Array Nat) : Prop where
  first : offsets[0]? = some 0
  increasing : offsets.toList.Pairwise (· < ·)
  small : ∀ offset ∈ offsets, offset < 2 ^ 16

/-- An entry tells of a variable whose scope begins and ends at offsets. -/
structure VariableEntry.IsLegible (entry : VariableEntry) (offsets : Array Nat)
    (pool : ConstantPool) : Prop where
  name : ∃ name : UnqualifiedName, pool.text entry.name = .ok name.text
  descriptor : ∃ type : FieldType, pool.text entry.descriptor = .ok type.descriptor
  start : entry.start.toNat ∈ offsets
  stop : entry.start.toNat + entry.length.toNat ∈ offsets

/-- An entry tells of a range with a handler, all at offsets. -/
structure ExceptionEntry.IsLegible (entry : ExceptionEntry) (offsets : Array Nat)
    (pool : ConstantPool) : Prop where
  start : entry.start.toNat ∈ offsets
  stop : entry.stop.toNat ∈ offsets
  handler : entry.handler.toNat ∈ offsets
  catchType : entry.catchType = 0 ∨
    ∃ name, BinaryName.resolve pool entry.catchType = .ok name

/-- There is at most one attribute, which has the name of a kind and contents of which something
holds. -/
structure Attribute.AreAtMostOne (pool : ConstantPool) (α : Type) [AttributeContents α]
    (Holds : α → Prop) (attributes : List Attribute) : Prop where
  count : attributes.length ≤ 1
  named : ∀ entry ∈ attributes, pool.text entry.name = .ok (attributeName α)
  contents : ∀ entry ∈ attributes, ∃ contents : α, entry.info = write contents ∧ Holds contents

theorem Attribute.areAtMostOne_nil
    (pool : ConstantPool)
    {α : Type}
    [AttributeContents α]
    {Holds : α → Prop} :
    AreAtMostOne pool α Holds [] :=
  ⟨Nat.zero_le 1, fun _ member => (List.not_mem_nil member).elim,
    fun _ member => (List.not_mem_nil member).elim⟩

theorem Attribute.yields_singleton
    {α : Type}
    [AttributeContents α]
    (contents : α) :
    Yields (do return [← ofContents contents]) fun final attributes =>
      AreAtMostOne final α (· = contents) attributes := by
  apply (yields_ofContents contents).bind
  intro entry
  refine yields_pure fun final _ means => ⟨Nat.le_refl 1, fun other member => ?_, fun other member => ?_⟩
  · rw [List.mem_singleton.mp member]
    exact means.2
  · rw [List.mem_singleton.mp member]
    exact ⟨contents, means.1, rfl⟩

section Tables

variable {offsets : Array Nat} (areOffsets : AreOffsets offsets)

include areOffsets

/-- Whatever the index, an offset is found for it. -/
theorem AreOffsets.offsetAt_mem
    (index : Nat) :
    (offsetAt offsets index).toNat ∈ offsets := by
  unfold offsetAt
  rw [Array.getD_eq_getD_getElem?]
  cases isOffset : offsets[index]? with
  | none => exact Array.mem_of_getElem? areOffsets.first
  | some offset =>
      have member := Array.mem_of_getElem? isOffset
      rw [Option.getD_some, UInt16.toNat_ofNat_of_lt' (areOffsets.small offset member)]
      exact member

/-- The offset of an index within the code fits its field. -/
theorem AreOffsets.toNat_offsetAt
    {index : Nat}
    (inside : index < offsets.size) :
    (offsetAt offsets index).toNat = offsets[index] := by
  have small := areOffsets.small _ (Array.getElem_mem inside)
  unfold offsetAt
  rw [Array.getD_eq_getD_getElem?, Array.getElem?_eq_getElem inside, Option.getD_some,
    UInt16.toNat_ofNat_of_lt' small]

/-- So does the distance to a later one, at which the later offset is found. -/
theorem AreOffsets.toNat_offsetAt_add
    {start stop : Nat}
    (notEmpty : start < stop)
    (inside : stop < offsets.size) :
    (offsetAt offsets start).toNat + (offsets.getD stop 0 - offsets.getD start 0).toUInt16.toNat =
      offsets[stop] := by
  have startInside := Nat.lt_trans notEmpty inside
  have before : offsets[start] < offsets[stop] :=
    List.pairwise_iff_getElem.mp areOffsets.increasing start stop startInside inside notEmpty
  have small := areOffsets.small _ (Array.getElem_mem inside)
  rw [areOffsets.toNat_offsetAt startInside, Array.getD_eq_getD_getElem?,
    Array.getD_eq_getD_getElem?, Array.getElem?_eq_getElem startInside,
    Array.getElem?_eq_getElem inside, Option.getD_some, Option.getD_some,
    UInt16.toNat_ofNat_of_lt' (show _ < 2 ^ 16 by omega), Nat.add_sub_cancel' (Nat.le_of_lt before)]

theorem yields_variableEntry_isLegible
    {entry : LocalVariable Nat}
    (notEmpty : entry.start < entry.stop)
    (inside : entry.stop < offsets.size) :
    Yields (variableEntry offsets entry) fun final written => written.IsLegible offsets final := by
  apply (ConstantPool.yields_internText entry.name.text).bind
  intro name
  apply (ConstantPool.yields_internText entry.type.descriptor).bind
  intro descriptor
  refine yields_pure fun final _ isDescriptor isName => ?_
  refine ⟨⟨entry.name, isName⟩, ⟨entry.type, isDescriptor⟩, areOffsets.offsetAt_mem _, ?_⟩
  rw [areOffsets.toNat_offsetAt_add notEmpty inside]
  exact Array.getElem_mem inside

theorem yields_exceptionEntry_isLegible
    (range : ExceptionRange Nat) :
    Yields (exceptionEntry offsets range) fun final entry => entry.IsLegible offsets final := by
  have legible : ∀ (final : ConstantPool) (catchType : PoolIndex), (catchType = 0 ∨
      ∃ name, BinaryName.resolve final catchType = .ok name) →
        ExceptionEntry.IsLegible ⟨offsetAt offsets range.start, offsetAt offsets range.stop,
          offsetAt offsets range.handler, catchType⟩ offsets final :=
    fun _ _ resolves => ⟨areOffsets.offsetAt_mem _, areOffsets.offsetAt_mem _,
      areOffsets.offsetAt_mem _, resolves⟩
  unfold exceptionEntry
  split
  · exact yields_pure fun final _ => legible final 0 (.inl rfl)
  · rename_i name _
    apply name.yields_intern.bind
    intro catchType
    exact yields_pure fun final _ resolved => legible final catchType (.inr ⟨name, resolved⟩)

end Tables

namespace Method

variable {method : Method} {offsets : Array Nat}

theorem yields_stackMapAttribute_areAtMostOne
    (points : List (Nat × Frame)) :
    Yields (method.stackMapAttribute offsets points) fun final attributes =>
      Attribute.AreAtMostOne final StackMap (fun _ => True) attributes := by
  unfold stackMapAttribute
  apply (method.entryFrame.onlyAdds_toMapFrame offsets).yields.bind
  intro entry
  apply (onlyAdds_stackMapFrom offsets points entry none).yields.bind
  intro frames
  split
  · exact yields_pure fun final _ _ _ => Attribute.areAtMostOne_nil final
  · exact (Attribute.yields_singleton (StackMap.mk frames)).imp fun _ _ found _ _ =>
      ⟨found.count, found.named, fun entry member =>
        (found.contents entry member).imp fun _ isContents => ⟨isContents.1, trivial⟩⟩

theorem yields_lineAttribute_areAtMostOne :
    Yields (method.lineAttribute offsets) fun final attributes =>
      Attribute.AreAtMostOne final LineTable (· = ⟨lineEntries method offsets⟩) attributes := by
  unfold lineAttribute
  dsimp only
  split
  · exact yields_pure fun final _ => Attribute.areAtMostOne_nil final
  · exact Attribute.yields_singleton _

theorem yields_variableAttribute_areAtMostOne
    (areOffsets : AreOffsets offsets)
    (sized : offsets.size = method.instructions.size + 1) :
    Yields (method.variableAttribute offsets) fun final attributes =>
      Attribute.AreAtMostOne final VariableTable (fun table =>
        table.entries.length ≤ method.localVariables.size ∧
          ∀ entry ∈ table.entries, entry.IsLegible offsets final) attributes := by
  unfold variableAttribute
  split
  · unfold variableEntries
    apply Yields.bind (yields_mapM _ fun entry member => ?_)
    · intro entries
      apply (Attribute.yields_singleton (VariableTable.mk entries)).imp
      intro final attributes found legible
      refine ⟨found.count, found.named, fun entry member => ?_⟩
      obtain ⟨_, isInfo, rfl⟩ := found.contents entry member
      refine ⟨⟨entries⟩, isInfo, ?_, fun written isWritten => ?_⟩
      · rw [← legible.length_eq, ← Array.length_toList]
        exact List.length_filter_le _ _
      · obtain ⟨_, _, isLegible⟩ := exists_mem_of_forall₂ legible isWritten
        exact isLegible
    · have inScope := (List.mem_filter.mp member).2
      rw [Bool.and_eq_true, decide_eq_true_eq, decide_eq_true_eq] at inScope
      exact yields_variableEntry_isLegible areOffsets inScope.1 (by omega)
  · exact yields_pure fun final _ => Attribute.areAtMostOne_nil final

end Method

/-! ## Bodies -/

theorem EncodedCode.IsMadeOf.areOffsets
    {code : EncodedCode}
    {range : JumpRange}
    {placed : List (Linked × Bool)}
    (madeOf : code.IsMadeOf range placed) :
    AreOffsets code.offsets where
  first := by
    rw [← Array.getElem?_toList, madeOf.offsets, getElem?_zero_offsetsFrom]
  increasing := madeOf.increasing
  small offset member :=
    Nat.lt_succ_of_le (madeOf.notLong offset (Array.mem_toList_iff.mpr member))

theorem Instruction.callFits_of_length_le
    {pool : ConstantPool}
    (few : pool.bootstraps.length ≤ 2 ^ 16)
    (instruction : Instruction Nat) :
    instruction.CallFits pool := by
  unfold CallFits
  split
  · exact few
  · trivial

/-- Where nothing is reached, nothing is called. -/
theorem FlowAnalysis.mem_of_mem_overwriteDead
    {analysis : FlowAnalysis}
    {instructions : Array (Instruction Nat)}
    {instruction : Instruction Nat}
    (member : instruction ∈ analysis.overwriteDead instructions) :
    instruction ∈ instructions ∨ ∃ operation, instruction = .op operation := by
  obtain ⟨index, stands⟩ := Array.getElem?_of_mem member
  unfold overwriteDead at stands
  rw [Array.getElem?_mapIdx] at stands
  obtain ⟨original, isOriginal, rfl⟩ := Option.map_eq_some_iff.mp stands
  split
  · exact .inl (Array.mem_of_getElem? isOriginal)
  · split
    · exact .inr ⟨.nop, rfl⟩
    · exact .inr ⟨.throw, rfl⟩

namespace Attribute

variable {pool : ConstantPool} {attributes : List Attribute}

/-- If the contents of the attributes of a kind can be read, those of the first one can. -/
theorem exists_find?_eq_ok
    {α : Type}
    [AttributeContents α]
    {Holds : α → Prop}
    (contain : ∀ entry ∈ attributes, entry.holds pool α = true →
      ∃ contents, entry.contents α = .ok contents ∧ Holds contents) :
    ∃ found?, find? attributes pool α = .ok found? ∧
      ∀ contents, found? = some contents → Holds contents := by
  unfold find?
  split
  · rename_i entry isFirst
    have isKind := List.find?_some isFirst
    obtain ⟨contents, isRead, holds⟩ :=
      contain entry (List.mem_of_find?_eq_some isFirst) isKind
    refine ⟨some contents, by rw [isRead]; rfl, fun other same => ?_⟩
    cases same
    exact holds
  · exact ⟨none, rfl, fun _ isSome => nomatch isSome⟩

theorem AreAtMostOne.holds_eq
    {α β : Type}
    [AttributeContents α]
    [AttributeContents β]
    {Holds : α → Prop}
    (areOne : AreAtMostOne pool α Holds attributes)
    {entry : Attribute}
    (member : entry ∈ attributes) :
    entry.holds pool β = decide (attributeName α = attributeName β) :=
  holds_of_text (areOne.named entry member) β

end Attribute

/-- The tables of code can be read, and all that they refer to stands at offsets. -/
structure AreTables (pool : ConstantPool) (offsets : Array Nat) (attributes : List Attribute) :
    Prop where
  count : attributes.length ≤ 3
  listed : ∀ entry ∈ attributes, entry.holds pool VariableTable = true →
    ∃ table, entry.contents VariableTable = .ok table ∧
      ∀ variable_ ∈ table.entries, variable_.IsLegible offsets pool
  lines : ∀ entry ∈ attributes, entry.holds pool LineTable = true →
    ∃ table, entry.contents LineTable = .ok table ∧
      ∀ line ∈ table.entries, line.start.toNat ∈ offsets

namespace Method

section Bodies

variable {offsets : Array Nat} {decoded : DecodedCode} {pool : ConstantPool}
  (finds : ∀ offset ∈ offsets, ∃ index, decoded.indexOf? offset = some index)

include finds

theorem exists_indexOf_eq_ok
    {offset : Nat}
    (member : offset ∈ offsets) :
    ∃ index, indexOf decoded offset = .ok index := by
  obtain ⟨index, found⟩ := finds offset member
  refine ⟨index, ?_⟩
  rw [indexOf, found]

theorem exists_readHandler_eq_ok
    {entry : ExceptionEntry}
    (legible : entry.IsLegible offsets pool) :
    ∃ range, readHandler decoded pool entry = .ok range := by
  obtain ⟨start, isStart⟩ := exists_indexOf_eq_ok finds legible.start
  obtain ⟨stop, isStop⟩ := exists_indexOf_eq_ok finds legible.stop
  obtain ⟨handler, isHandler⟩ := exists_indexOf_eq_ok finds legible.handler
  have reads : ∀ catchType : Option BinaryName, ∃ range, (do
      let start ← indexOf decoded entry.start.toNat
      let stop ← indexOf decoded entry.stop.toNat
      let handler ← indexOf decoded entry.handler.toNat
      return { start, stop, handler, catchType : ExceptionRange Nat }) = .ok range := by
    intro catchType
    rw [isStart, ok_bind, isStop, ok_bind, isHandler, ok_bind]
    exact ⟨_, rfl⟩
  unfold readHandler
  split
  · exact reads none
  · rename_i notAny
    obtain ⟨name, resolved⟩ := legible.catchType.resolve_left notAny
    rw [resolved]
    exact reads (some name)

theorem exists_readVariable_eq_ok
    {entry : VariableEntry}
    (legible : entry.IsLegible offsets pool) :
    ∃ read, readVariable decoded pool entry = .ok read := by
  obtain ⟨name, isName⟩ := legible.name
  obtain ⟨type, isType⟩ := legible.descriptor
  obtain ⟨start, isStart⟩ := exists_indexOf_eq_ok finds legible.start
  obtain ⟨stop, isStop⟩ := exists_indexOf_eq_ok finds legible.stop
  unfold readVariable
  rw [isName, ok_bind, isStart, ok_bind, isStop, ok_bind, UnqualifiedName.ofClassFile_text,
    ok_bind, isType, ok_bind, FieldType.ofClassFile_descriptor, ok_bind]
  exact ⟨_, rfl⟩

theorem exists_readLines_eq_ok
    {entry : Attribute}
    (contains : entry.holds pool LineTable = true → ∃ table, entry.contents LineTable = .ok table ∧
      ∀ line ∈ table.entries, line.start.toNat ∈ offsets) :
    ∃ lines, readLines decoded pool entry = .ok lines := by
  unfold readLines
  split
  · rename_i holds
    obtain ⟨table, isTable, areFound⟩ := contains holds
    rw [isTable, ok_bind]
    have each : ∀ line ∈ table.entries, ∃ result, (do
        let start ← indexOf decoded line.start.toNat
        return { start, line := line.line : SourceLine Nat }) = .ok result := by
      intro line member
      obtain ⟨start, isStart⟩ := exists_indexOf_eq_ok finds (areFound line member)
      rw [isStart, ok_bind]
      exact ⟨_, rfl⟩
    obtain ⟨lines, areLines⟩ := exists_forall₂_of_forall each
    exact ⟨lines, mapM_eq_ok_of_forall₂ areLines.flip⟩
  · exact ⟨[], rfl⟩

/-- A body is read whose instructions are decoded, if all that its tables refer to is found. -/
theorem exists_readBody_eq_ok
    {code : CodeAttribute}
    (isDecoded : decodeCode code.bytes pool = .ok decoded)
    (handlers : ∀ entry ∈ code.exceptions, entry.IsLegible offsets pool)
    (listed : ∀ entry ∈ code.attributes, entry.holds pool VariableTable = true →
      ∃ table, entry.contents VariableTable = .ok table ∧
        ∀ variable_ ∈ table.entries, variable_.IsLegible offsets pool)
    (lines : ∀ entry ∈ code.attributes, entry.holds pool LineTable = true →
      ∃ table, entry.contents LineTable = .ok table ∧
        ∀ line ∈ table.entries, line.start.toNat ∈ offsets) :
    ∃ body, readBody code pool = .ok body ∧ body.1.instructions = decoded.instructions := by
  obtain ⟨ranges, areRanges⟩ := exists_forall₂_of_forall fun entry member =>
    exists_readHandler_eq_ok finds (handlers entry member)
  obtain ⟨table?, isTable, legible⟩ := Attribute.exists_find?_eq_ok listed
  have eachVariable : ∀ entry ∈ (table?.map VariableTable.entries).getD [],
      ∃ read, readVariable decoded pool entry = .ok read := by
    cases table? with
    | none => exact fun entry member => (List.not_mem_nil member).elim
    | some table => exact fun entry member =>
        exists_readVariable_eq_ok finds (legible table rfl entry member)
  obtain ⟨locals, areLocals⟩ := exists_forall₂_of_forall eachVariable
  obtain ⟨tables, areLines⟩ := exists_forall₂_of_forall fun entry member =>
    exists_readLines_eq_ok finds (lines entry member)
  unfold readBody
  rw [isDecoded, ok_bind, mapM_eq_ok_of_forall₂ areRanges.flip, ok_bind, isTable, ok_bind,
    mapM_eq_ok_of_forall₂ areLocals.flip, ok_bind, mapM_eq_ok_of_forall₂ areLines.flip, ok_bind]
  exact ⟨_, rfl, rfl⟩

end Bodies

theorem areTables_append
    {method : Method}
    {offsets : Array Nat}
    {pool : ConstantPool}
    (areOffsets : AreOffsets offsets)
    {maps lines locals : List Attribute}
    {IsMap : StackMap → Prop}
    (isMap : Attribute.AreAtMostOne pool StackMap IsMap maps)
    (areLines : Attribute.AreAtMostOne pool LineTable (· = ⟨lineEntries method offsets⟩) lines)
    (areVariables : Attribute.AreAtMostOne pool VariableTable (fun table =>
      table.entries.length ≤ method.localVariables.size ∧
        ∀ entry ∈ table.entries, entry.IsLegible offsets pool) locals)
    (fewLines : method.lines.size < 2 ^ 16)
    (fewVariables : method.localVariables.size < 2 ^ 16) :
    AreTables pool offsets (maps ++ lines ++ locals) := by
  refine ⟨?_, fun entry member holds => ?_, fun entry member holds => ?_⟩
  · have mapCount := isMap.count
    have lineCount := areLines.count
    have variableCount := areVariables.count
    simp only [List.length_append]
    omega
  · have isVariable : entry ∈ locals := by
      rcases List.mem_append.mp member with isEarlier | isVariable
      · rcases List.mem_append.mp isEarlier with inMaps | inLines
        · cases (isMap.holds_eq inMaps).symm.trans holds
        · cases (areLines.holds_eq inLines).symm.trans holds
      · exact isVariable
    obtain ⟨table, isInfo, few, legible⟩ := areVariables.contents entry isVariable
    exact ⟨table, Attribute.contents_eq_ok isInfo
      (VariableTable.isReadBack (Nat.lt_of_le_of_lt few fewVariables)), legible⟩
  · have isLine : entry ∈ lines := by
      rcases List.mem_append.mp member with isEarlier | inVariables
      · rcases List.mem_append.mp isEarlier with inMaps | isLine
        · cases (isMap.holds_eq inMaps).symm.trans holds
        · exact isLine
      · cases (areVariables.holds_eq inVariables).symm.trans holds
    obtain ⟨table, isInfo, rfl⟩ := areLines.contents entry isLine
    refine ⟨⟨lineEntries method offsets⟩, ?_, fun line isListed => ?_⟩
    · refine Attribute.contents_eq_ok isInfo
        (LineTable.isReadBack (Nat.lt_of_le_of_lt ?_ fewLines))
      unfold lineEntries
      rw [List.length_map, ← Array.length_toList]
      exact List.length_filter_le _ _
    · obtain ⟨original, _, rfl⟩ := List.mem_map.mp isListed
      exact areOffsets.offsetAt_mem _

/-- The stack map is the attribute of its kind, whether there is one or not. -/
theorem yields_stackMap_areAtMostOne
    {method : Method}
    {version : Version}
    (offsets : Array Nat)
    (points : List (Nat × Frame)) :
    Yields (if version.usesStackMaps then method.stackMapAttribute offsets points else pure [])
      fun final attributes => Attribute.AreAtMostOne final StackMap (fun _ => True) attributes := by
  split
  · exact yields_stackMapAttribute_areAtMostOne points
  · exact yields_pure fun final _ => Attribute.areAtMostOne_nil final

/-- The code of an assembled method is read back in every later pool: its instructions call the
static methods that those of the method call. -/
theorem exists_readBody_of_assemble_eq_ok
    {method : Method}
    {hierarchy : Hierarchy}
    {version : Version}
    {before after final : ConstantPool}
    (consistent : before.IsConsistent)
    {code : CodeAttribute}
    (assembled : method.assemble hierarchy version before = .ok code after)
    (finalConsistent : final.IsConsistent)
    (finalExtends : final.Extends after)
    (fewBootstraps : final.bootstraps.length ≤ 2 ^ 16)
    (switchesFit : ∀ instruction ∈ method.instructions, instruction.SwitchFits)
    (fewLines : method.lines.size ≤ method.instructions.size)
    (fewVariables : method.localVariables.size < 2 ^ 16) :
    code.attributes.length ≤ 3 ∧ ∃ body, readBody code final = .ok body ∧
      ∀ instruction ∈ body.1.instructions, ∀ called, staticCall? instruction = some called →
        ∃ other ∈ method.instructions, staticCall? other = some called := by
  obtain ⟨analysis, encoded, maps, lines, locals, exceptions, between, _, _, _, accepted, isEncoded,
    _, _, mapDone, linesDone, variablesDone, exceptionsDone, isCode⟩ :=
    exists_steps_of_assemble_eq_ok assembled
  obtain ⟨betweenConsistent, _, placed, madeOf, instructionsOf, linked⟩ :=
    isMadeOf_of_encodeWithin_eq_ok consistent isEncoded
  have follows := FlowAnalysis.followsControl_of_analyze_eq_ok accepted
  have areOffsets := madeOf.areOffsets
  have count := length_of_instructions instructionsOf
  rw [FlowAnalysis.FollowsControl.size_overwriteDead] at count
  have sized : encoded.offsets.size = method.instructions.size + 1 := by
    rw [madeOf.offsetCount, count]
  -- Everything that was written means the same in the last pool.
  obtain ⟨withMapConsistent, withMapExtends, mapMeans⟩ :=
    yields_stackMap_areAtMostOne _ _ _ _ _ betweenConsistent mapDone
  obtain ⟨withLinesConsistent, withLinesExtends, linesMean⟩ :=
    yields_lineAttribute_areAtMostOne _ _ _ withMapConsistent linesDone
  obtain ⟨withVariablesConsistent, withVariablesExtends, variablesMean⟩ :=
    yields_variableAttribute_areAtMostOne areOffsets sized _ _ _ withLinesConsistent variablesDone
  obtain ⟨_, afterExtends, exceptionsMean⟩ :=
    yields_mapM _ (fun range _ => yields_exceptionEntry_isLegible areOffsets range)
      _ _ _ withVariablesConsistent exceptionsDone
  have extendsVariables := finalExtends.trans afterExtends
  have extendsLines := extendsVariables.trans withVariablesExtends
  have extendsMap := extendsLines.trans withLinesExtends
  have originates : ∀ item ∈ placed, item.1.instruction ∈ method.instructions ∨
      ∃ operation, item.1.instruction = .op operation := by
    intro item member
    apply analysis.mem_of_mem_overwriteDead
    rw [← Array.mem_toList_iff, ← instructionsOf]
    exact List.mem_map_of_mem member
  obtain ⟨decoded, isDecoded, finds, areEmitted⟩ := madeOf.exists_decodeCode (by decide)
    (fun item member => linked final finalConsistent (extendsMap.trans withMapExtends) item member
      (Instruction.callFits_of_length_le fewBootstraps _))
    (by
      intro item member
      rcases originates item member with isOriginal | ⟨operation, isOperation⟩
      · exact switchesFit _ isOriginal
      · rw [isOperation]
        trivial)
    (fun index member => (lt_length_of_widened follows madeOf instructionsOf member).1)
  have areTables : AreTables final encoded.offsets code.attributes :=
    isCode ▸ areTables_append areOffsets (mapMeans final finalConsistent extendsMap)
      (linesMean final finalConsistent extendsLines)
      (variablesMean final finalConsistent extendsVariables)
      (Nat.lt_of_le_of_lt fewLines (count ▸ madeOf.length_lt)) fewVariables
  have handlers : ∀ entry ∈ code.exceptions, entry.IsLegible encoded.offsets final := by
    intro entry member
    rw [isCode] at member
    obtain ⟨_, _, legible⟩ :=
      exists_mem_of_forall₂ (exceptionsMean final finalConsistent finalExtends) member
    exact legible
  refine ⟨areTables.count, ?_⟩
  obtain ⟨body, isRead, areDecoded⟩ :=
    exists_readBody_eq_ok finds (isCode ▸ isDecoded) handlers areTables.listed areTables.lines
  refine ⟨body, isRead, fun instruction member called isCall => ?_⟩
  obtain ⟨entry, isEntry, _, rfl, _⟩ := areEmitted instruction (areDecoded ▸ member)
  rw [staticCall?_map] at isCall
  obtain ⟨item, isItem, calls⟩ := EncodedCode.exists_item_of_mem_emissionFrom isEntry isCall
  rcases originates item isItem with isOriginal | ⟨operation, isOperation⟩
  · exact ⟨_, isOriginal, calls⟩
  · rw [isOperation] at calls
    cases calls

end Method

end ClosureConversion
