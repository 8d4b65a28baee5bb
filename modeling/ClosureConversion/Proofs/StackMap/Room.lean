import ClosureConversion.Closure.Variable
import ClosureConversion.Proofs.Flow.Worklist
import ClosureConversion.Proofs.StackMap.Assembly

/-!
Contract: the room that the code of a method has for its values.

Owns:
- every load, store and increment that control reaches stays within the slots that the
  analysis counted, with both slots of a wide value, in every hierarchy;
- the widths of the frames that a stack map tells;
- the local slots of an assembled method are enough for every frame of the code and every access in
  it;
- the operand stack is enough for every frame of code that control reaches, and for all of
  them unless code is never reached and nothing else pushes a value.

Does not own: which instructions have a frame in the stack map.
-/

namespace ClosureConversion

/-! ## Accesses to slots -/

section Accesses

variable {hierarchy : Hierarchy}

theorem VerificationType.width_of_isOfKind
    {type : VType}
    {kind : LocalKind}
    (ofKind : type.isOfKind kind = true) :
    type ≠ .top ∧ width type = kind.slots := by
  cases kind with
  | reference =>
      cases type <;> cases ofKind <;> exact ⟨nofun, rfl⟩
  | _ =>
      rw [show type = _ from of_decide_eq_true ofKind]
      exact ⟨nofun, rfl⟩

namespace Locals

/-- A value in a slot has all its slots. -/
theorem le_length_of_isWhole
    {locals : List VType}
    (whole : IsWhole locals)
    {slot : Nat}
    (useful : valueAt locals slot ≠ .top) :
    slot + width (valueAt locals slot) ≤ locals.length := by
  have inside : slot < locals.length := by
    by_contra outside
    exact useful (valueAt_of_length_le (by omega))
  change slot + (if (valueAt locals slot).isWide then 2 else 1) ≤ locals.length
  split
  · rename_i isWide
    have next := (List.getElem?_eq_some_iff.mp (whole slot isWide)).1
    omega
  · omega

end Locals

/-- Where a frame serves as one in which a slot can be read, the slot has room in it. -/
theorem Frame.ServesAs.le_localSlots
    {special general : Frame}
    (serves : special.ServesAs general)
    (whole : Locals.IsWhole special.locals)
    {slot : UInt16}
    {type : VType}
    (found : Locals.get general.locals slot = .ok type)
    (useful : type ≠ .top) :
    slot.toNat + width type ≤ special.localSlots := by
  have isType := Locals.valueAt_of_get_eq_ok found
  rcases serves.locals slot.toNat with useless | slotServes
  · exact absurd (isType.symm.trans useless) useful
  · have specialUseful : Locals.valueAt special.locals slot.toNat ≠ .top := by
      intro isTop
      rw [isTop] at slotServes
      exact useful (isType.symm.trans slotServes.eq_top)
    have fits := Locals.le_length_of_isWhole whole specialUseful
    have widthEq : width type = width (Locals.valueAt special.locals slot.toNat) := by
      change (if type.isWide then 2 else 1) =
        if (Locals.valueAt special.locals slot.toNat).isWide then 2 else 1
      rw [slotServes.isWide_eq, isType]
    rw [widthEq]
    exact fits

/-- The value that an instruction accesses has room in the frame of the instruction or in the
one after it. -/
theorem Frame.le_localSlots_of_execute_eq_ok
    {owner : BinaryName}
    {code : Array (Instruction Nat)}
    {index : Nat}
    {instruction : Instruction Nat}
    {access : LocalAccess}
    (isAccess : instruction.localAccess? = some access)
    {recorded before after : Frame}
    (serves : recorded.ServesAs before)
    (whole : Locals.IsWhole recorded.locals)
    (executes : before.execute owner code index instruction = .ok after) :
    access.slot.toNat + access.kind.slots ≤ max recorded.localSlots after.localSlots := by
  cases instruction with
  | load kind slot =>
      cases isAccess
      obtain ⟨type, found, executes⟩ := bind_eq_ok.mp executes
      split at executes
      · rename_i ofKind
        obtain ⟨useful, widthEq⟩ := VerificationType.width_of_isOfKind ofKind
        have fits := serves.le_localSlots whole found useful
        rw [widthEq] at fits
        exact Nat.le_trans fits (Nat.le_max_left _ _)
      · cases executes
  | store kind slot =>
      cases isAccess
      obtain ⟨⟨type, stack⟩, popped, executes⟩ := bind_eq_ok.mp executes
      cases executes
      obtain ⟨⟨value, rest⟩, _, popped⟩ := bind_eq_ok.mp popped
      dsimp only at popped
      split at popped
      · rename_i ofKind
        cases popped
        have widthEq := (VerificationType.width_of_isOfKind ofKind).2
        refine Nat.le_trans ?_ (Nat.le_max_right _ _)
        rw [localSlots, Locals.length_assign, widthEq]
        exact Nat.le_max_right _ _
      · cases popped
  | increment slot amount =>
      cases isAccess
      obtain ⟨type, found, executes⟩ := bind_eq_ok.mp executes
      split at executes
      · rename_i isInt
        have fits := serves.le_localSlots whole found (by rw [isInt]; decide)
        rw [isInt] at fits
        exact Nat.le_trans fits (Nat.le_max_left _ _)
      · cases executes
  | _ => cases isAccess

/-- Accesses to slots that control reaches stay within the slots that the analysis counted. -/
theorem Method.access_le_of_analyze_eq_ok
    {method : Method}
    {analysis : FlowAnalysis}
    (accepted : method.analyze hierarchy = .ok analysis)
    {index : Nat}
    {recorded : Frame}
    (isRecorded : analysis.frame? index = some recorded)
    {instruction : Instruction Nat}
    (isInstruction : method.instructions[index]? = some instruction)
    {access : LocalAccess}
    (isAccess : instruction.localAccess? = some access) :
    access.slot.toNat + access.kind.slots ≤ analysis.maxLocals := by
  obtain ⟨state, consistent, isDone, rfl⟩ :=
    isConsistent_of_analyze_eq_ok Frame.mergeOrder_servesAs accepted
  rcases consistent.settled isRecorded with waits | settled
  · rw [isDone] at waits
    cases waits
  · obtain ⟨other, before, after, serves, settledAt⟩ := settled recorded isRecorded
    obtain rfl := Option.some.inj (isInstruction.symm.trans settledAt.isInstruction)
    refine Nat.le_trans (Frame.le_localSlots_of_execute_eq_ok isAccess serves
      (consistent.sound.whole isRecorded) settledAt.executes) ?_
    exact Nat.max_le.mpr ⟨consistent.sound.localSlots isRecorded, settledAt.localSlots⟩

end Accesses

/-! ## Widths -/

section Widths

variable {α : Type} [Width α]

theorem totalWidth_reverse
    (values : List α) :
    totalWidth values.reverse = totalWidth values := by
  induction values with
  | nil => rfl
  | cons value rest inductionHypothesis =>
      rw [List.reverse_cons, totalWidth_append, inductionHypothesis, totalWidth_cons,
        totalWidth_cons]
      exact Nat.add_comm _ _

theorem totalWidth_dropWhile_le
    (values : List α)
    (test : α → Bool) :
    totalWidth (values.dropWhile test) ≤ totalWidth values := by
  induction values with
  | nil => exact Nat.le_refl _
  | cons value rest inductionHypothesis =>
      rw [List.dropWhile_cons]
      split
      · exact Nat.le_trans inductionHypothesis (Nat.le_add_left _ _)
      · exact Nat.le_refl _

end Widths

theorem VerificationType.width_of_isToldAs
    {offsets : Array Nat}
    {pool : ConstantPool}
    {type : VType}
    {told : StackMapType}
    (isTold : type.IsToldAs offsets pool told) :
    width told = width type := by
  cases type <;> cases told <;> first | rfl | cases isTold

theorem totalWidth_of_isToldAs
    {offsets : Array Nat}
    {pool : ConstantPool}
    {types : List VType}
    {told : List StackMapType}
    (areTold : List.Forall₂ (VerificationType.IsToldAs offsets pool) types told) :
    totalWidth told = totalWidth types := by
  induction areTold with
  | nil => rfl
  | cons isTold _ inductionHypothesis =>
      rw [totalWidth_cons, totalWidth_cons, inductionHypothesis,
        VerificationType.width_of_isToldAs isTold]

namespace Locals

theorem IsWhole.tail
    {type : VType}
    {rest : List VType}
    (whole : IsWhole (type :: rest)) :
    IsWhole rest := by
  intro index isWide
  exact whole (index + 1) isWide

/-- The values in slots are no wider than the slots. -/
theorem totalWidth_values_le
    {locals : List VType}
    (whole : IsWhole locals) :
    totalWidth (values locals) ≤ locals.length := by
  fun_induction values locals with
  | case1 => exact Nat.le_refl _
  | case2 type isWide =>
      cases whole 0 isWide
  | case3 type isWide second others inductionHypothesis =>
      have fits := inductionHypothesis whole.tail.tail
      have widthEq : width type = 2 := if_pos isWide
      rw [totalWidth_cons, widthEq, List.length_cons, List.length_cons]
      omega
  | case4 type rest notWide inductionHypothesis =>
      have fits := inductionHypothesis whole.tail
      have widthEq : width type = 1 := if_neg notWide
      rw [totalWidth_cons, widthEq, List.length_cons]
      omega

end Locals

/-- What a stack map tells of a frame takes as much room on the operand stack as the frame, and
no more local slots. -/
theorem IsTold.width_le
    {offsets : Array Nat}
    {pool : ConstantPool}
    {point : Nat × Frame}
    {told : Nat × MapFrame}
    (consistent : pool.IsConsistent)
    (isTold : IsTold offsets pool point told)
    (whole : Locals.IsWhole point.2.locals) :
    totalWidth told.2.stack = point.2.stackSlots ∧
      totalWidth told.2.locals ≤ point.2.localSlots := by
  obtain ⟨⟨locals, localsTold, isTrimmed⟩, stackTold⟩ :=
    Frame.isToldAs_of_toMapFrame_eq_ok consistent isTold.frame
  constructor
  · rw [totalWidth_of_isToldAs stackTold, totalWidth_reverse]
    rfl
  · rw [isTrimmed, MapFrame.trimmed, totalWidth_reverse]
    refine Nat.le_trans (totalWidth_dropWhile_le _ _) ?_
    rw [totalWidth_reverse, totalWidth_of_isToldAs localsTold]
    exact Locals.totalWidth_values_le whole

/-! ## Written code -/

namespace FlowAnalysis

/-- The frame before an instruction of the code that is written: what is never reached is
written as code that throws what is on the stack. -/
def writtenFrame (analysis : FlowAnalysis) (index : Nat) : Frame :=
  (analysis.frame? index).getD .deadCode

variable {analysis : FlowAnalysis}

/-- The instructions that are written in place of those that are never reached go from frame to
frame, and none of them accesses a slot. -/
theorem execute_overwriteDead
    {instructions : Array (Instruction Nat)}
    {index : Nat}
    {instruction : Instruction Nat}
    (stands : (analysis.overwriteDead instructions)[index]? = some instruction)
    (unreachable : analysis.isReachable index = false)
    (owner : BinaryName)
    (code : Array (Instruction Nat)) :
    instruction.localAccess? = none ∧
      ∃ after, (analysis.writtenFrame index).execute owner code index instruction = .ok after ∧
        (instruction.fallsThrough = true → after = analysis.writtenFrame (index + 1)) := by
  have notFound : ∀ {other}, analysis.isReachable other = false →
      analysis.writtenFrame other = .deadCode := by
    intro other isDead
    rw [isReachable, Option.isSome_eq_false_iff, Option.isNone_iff_eq_none] at isDead
    rw [writtenFrame, isDead, Option.getD_none]
  rw [overwriteDead, Array.getElem?_mapIdx, Option.map_eq_some_iff] at stands
  obtain ⟨original, _, rfl⟩ := stands
  rw [notFound unreachable, if_neg (by rw [unreachable]; exact Bool.false_ne_true)]
  split
  · rename_i goesOn
    have nextUnreachable : analysis.isReachable (index + 1) = false := by
      simpa using (Bool.and_eq_true_iff.mp goesOn).2
    exact ⟨rfl, .deadCode, rfl, fun _ => (notFound nextUnreachable).symm⟩
  · exact ⟨rfl, ⟨[], []⟩, rfl, fun fallsThrough => by cases fallsThrough⟩

theorem isWhole_deadCode :
    Locals.IsWhole Frame.deadCode.locals :=
  fun _ isWide => by cases isWide

/-- Without code that is never reached, every index has a frame. -/
theorem isReachable_of_deadRuns_eq_nil
    (noRuns : analysis.deadRuns = [])
    {index : Nat}
    (inside : index < analysis.frames.size) :
    analysis.isReachable index = true := by
  induction index with
  | zero =>
      by_contra unreachable
      rw [Bool.not_eq_true] at unreachable
      have begins : ∃ run ∈ analysis.deadRuns, run.start = 0 :=
        exists_run_of_unreachable (Nat.le_refl 0) (by omega) unreachable (fun _ => rfl) nofun
      obtain ⟨run, member, _⟩ := begins
      rw [noRuns] at member
      cases member
  | succ index inductionHypothesis =>
      by_contra unreachable
      rw [Bool.not_eq_true] at unreachable
      have reachesBefore := inductionHypothesis (by omega)
      obtain ⟨run, member, _⟩ := exists_run_after inside reachesBefore unreachable
      rw [noRuns] at member
      cases member

end FlowAnalysis

/-! ## Assembled code -/

/-- The points at which the stack map of a version has frames. -/
def Method.toldPoints (method : Method) (version : Version) (analysis : FlowAnalysis)
    (encoded : EncodedCode) : List (Nat × Frame) :=
  if version.usesStackMaps then method.mapPoints analysis encoded.widened else []

/-- The code attribute of a method, for its analysis and its encoded instructions: the maxima
are those of the analysis, and its stack map expands to the frames at the points. -/
structure Method.IsAssembledAs (method : Method) (version : Version) (analysis : FlowAnalysis)
    (encoded : EncodedCode) (code : CodeAttribute) (pool : ConstantPool)
    (told : List (Nat × MapFrame)) : Prop where
  bytes : code.bytes = encoded.bytes
  maxStack : code.maxStack.toNat = analysis.maxStack
  maxLocals : code.maxLocals.toNat = method.localsNeeded analysis
  stackMap : ∃ entry map?,
    (version.usesStackMaps = true →
      method.entryFrame.toMapFrame encoded.offsets pool = .ok entry pool) ∧
    Attribute.find? code.attributes pool StackMap = .ok map? ∧
    (map?.getD ⟨[]⟩).expand? entry = some told
  points : List.Forall₂ (IsTold encoded.offsets pool)
    (method.toldPoints version analysis encoded) told

/-- The points of a method can be written as a stack map, and what it says means the same in
every later pool. -/
theorem Method.yields_stackMap
    {method : Method}
    {hierarchy : Hierarchy}
    {analysis : FlowAnalysis}
    {encoded : EncodedCode}
    {placed : List (Linked × Bool)}
    (accepted : method.analyze hierarchy = .ok analysis)
    (stackFits : analysis.maxStack ≤ 65535)
    (localsFit : analysis.maxLocals ≤ 65535)
    (madeOf : encoded.IsMadeOf JumpRange.short placed)
    (instructionsOf : placed.map (fun item => item.1.instruction) =
      (analysis.overwriteDead method.instructions).toList)
    (version : Version) :
    Yields (if version.usesStackMaps then
        method.stackMapAttribute encoded.offsets (method.mapPoints analysis encoded.widened)
      else pure [])
      fun final attributes => ∃ entry told,
        (version.usesStackMaps = true →
          method.entryFrame.toMapFrame encoded.offsets final = .ok entry final) ∧
        List.Forall₂ (IsTold encoded.offsets final)
          (method.toldPoints version analysis encoded) told ∧
        ∀ others : List Attribute, (∀ other ∈ others, other.holds final StackMap = false) →
          ∃ map?, Attribute.find? (attributes ++ others) final StackMap = .ok map? ∧
            (map?.getD ⟨[]⟩).expand? entry = some told := by
  unfold toldPoints
  cases version.usesStackMaps with
  | false =>
      refine yields_pure fun final _ => ⟨⟨[], []⟩, [], nofun, .nil, fun others notHeld => ?_⟩
      exact ⟨none, Attribute.find?_stackMap_eq_none notHeld, rfl⟩
  | true =>
      have count := length_of_instructions instructionsOf
      have stands : ∀ point ∈ method.mapPoints analysis encoded.widened,
          ∃ offset, encoded.offsets[point.1]? = some offset ∧ offset < 2 ^ 16 := by
        intro point member
        apply madeOf.exists_offset
        rw [count]
        exact (mem_framePoints_iff.mp member).1
      have few : (method.mapPoints analysis encoded.widened).length < 2 ^ 16 := by
        apply Nat.lt_of_le_of_lt length_framePoints_le
        rw [← count]
        exact madeOf.length_lt
      refine (yields_stackMapAttribute stands (pairwise_offsets_mapPoints madeOf instructionsOf)
        (fun point member => countable_of_mapPoints accepted stackFits localsFit member)
        few).imp ?_
      rintro final attributes ⟨entry, told, entryTold, areTold, isFound⟩
      exact ⟨entry, told, fun _ => entryTold, areTold, isFound⟩

/-- How the code attribute of a method was made, in every version of the class file format: its
analysis was encoded item by item, its handlers stand where those of the method do, and what it
refers to means the same in every later pool. -/
structure Method.IsMadeAs (method : Method) (hierarchy : Hierarchy) (version : Version)
    (before after : ConstantPool) (code : CodeAttribute) (analysis : FlowAnalysis)
    (encoded : EncodedCode) (placed : List (Linked × Bool)) : Prop where
  accepted : method.analyze hierarchy = .ok analysis
  isEncoded : ∃ between,
    encode (analysis.overwriteDead method.instructions) before = .ok encoded between
  consistent : after.IsConsistent
  madeOf : encoded.IsMadeOf JumpRange.short placed
  instructions : placed.map (fun item => item.1.instruction) =
    (analysis.overwriteDead method.instructions).toList
  handlers : List.Forall₂ (fun range entry =>
    entry.handler = offsetAt encoded.offsets range.handler)
    (splitRanges method.handlers.toList analysis) code.exceptions
  linked : ∀ final : ConstantPool, final.IsConsistent → final.Extends after → ∀ item ∈ placed,
    item.1.instruction.CallFits final → item.1.instruction.IsLinked final item.1.constant
  assembled : ∀ final : ConstantPool, final.IsConsistent → final.Extends after →
    ∃ told, method.IsAssembledAs version analysis encoded code final told

/-- What assembling gives. -/
theorem Method.exists_isMadeAs_of_assemble_eq_ok
    {method : Method}
    {hierarchy : Hierarchy}
    {version : Version}
    {before after : ConstantPool}
    (consistent : before.IsConsistent)
    {code : CodeAttribute}
    (assembled : method.assemble hierarchy version before = .ok code after) :
    ∃ analysis encoded placed,
      method.IsMadeAs hierarchy version before after code analysis encoded placed := by
  obtain ⟨analysis, encoded, maps, lines, locals, exceptions, between, _, _, _, accepted, isEncoded,
    isShallow, fewLocals, mapsDone, linesDone, variablesDone, exceptionsDone, rfl⟩ :=
    exists_steps_of_assemble_eq_ok assembled
  obtain ⟨betweenConsistent, _, placed, madeOf, instructionsOf, linked⟩ :=
    isMadeOf_of_encodeWithin_eq_ok consistent isEncoded
  have analysisFits : analysis.maxLocals ≤ 65535 := by
    unfold localsNeeded at fewLocals
    omega
  obtain ⟨withMapConsistent, withMapExtends, mapMeans⟩ :=
    yields_stackMap accepted isShallow analysisFits madeOf instructionsOf version
      _ _ _ betweenConsistent mapsDone
  obtain ⟨withLinesConsistent, withLinesExtends, linesMean⟩ :=
    yields_lineAttribute _ _ _ withMapConsistent linesDone
  obtain ⟨withVariablesConsistent, withVariablesExtends, variablesMean⟩ :=
    yields_variableAttribute _ _ _ withLinesConsistent variablesDone
  obtain ⟨afterConsistent, afterExtends, handlersOf⟩ :=
    yields_mapM _ (fun range _ => yields_exceptionEntry range) _ _ _ withVariablesConsistent
      exceptionsDone
  have extendsLines := afterExtends.trans withVariablesExtends
  have extendsMap := extendsLines.trans withLinesExtends
  refine ⟨analysis, encoded, placed, accepted, ⟨between, isEncoded⟩, afterConsistent, madeOf,
    instructionsOf, handlersOf _ afterConsistent (.refl _), fun final finalConsistent finalExtends =>
      linked final finalConsistent (finalExtends.trans (extendsMap.trans withMapExtends)),
    fun final finalConsistent finalExtends => ?_⟩
  obtain ⟨entry, told, entryTold, areTold, isFound⟩ :=
    mapMeans final finalConsistent (finalExtends.trans extendsMap)
  obtain ⟨map?, isMap, expands⟩ := isFound (lines ++ locals) (by
    intro other member
    rcases List.mem_append.mp member with isLine | isVariable
    · exact linesMean _ finalConsistent (finalExtends.trans extendsLines) other isLine
    · exact variablesMean _ finalConsistent (finalExtends.trans afterExtends) other isVariable)
  refine ⟨told, rfl,
    UInt16.toNat_ofNat_of_lt (Nat.lt_succ_of_le isShallow),
    UInt16.toNat_ofNat_of_lt (Nat.lt_succ_of_le fewLocals),
    ⟨entry, map?, entryTold, ?_, expands⟩, areTold⟩
  dsimp only
  rw [List.append_assoc]
  exact isMap

/-- What assembling gives, in the pool after it. -/
theorem Method.isAssembledAs_of_assemble_eq_ok
    {method : Method}
    {hierarchy : Hierarchy}
    {version : Version}
    {before after : ConstantPool}
    (consistent : before.IsConsistent)
    {code : CodeAttribute}
    (assembled : method.assemble hierarchy version before = .ok code after) :
    ∃ analysis encoded between told,
      method.analyze hierarchy = .ok analysis ∧
      encode (analysis.overwriteDead method.instructions) before = .ok encoded between ∧
      after.IsConsistent ∧ method.IsAssembledAs version analysis encoded code after told := by
  obtain ⟨analysis, encoded, placed, made⟩ := exists_isMadeAs_of_assemble_eq_ok consistent assembled
  obtain ⟨between, isEncoded⟩ := made.isEncoded
  obtain ⟨told, isAssembled⟩ := made.assembled after made.consistent (.refl after)
  exact ⟨analysis, encoded, between, told, made.accepted, isEncoded, made.consistent, isAssembled⟩

/-- The room that code has, for the instructions that are written and the frames that its stack
map tells. -/
structure CodeAttribute.HasRoomFor (code : CodeAttribute) (version : Version)
    (analysis : FlowAnalysis) (instructions : Array (Instruction Nat))
    (told : List (Nat × MapFrame)) : Prop where
  /-- Every value that is loaded, stored or incremented lies in the local slots. -/
  accesses : ∀ (index : Nat) (instruction : Instruction Nat),
    instructions[index]? = some instruction → ∀ access, instruction.localAccess? = some access →
      access.slot.toNat + access.kind.slots ≤ code.maxLocals.toNat
  locals : ∀ index, (analysis.writtenFrame index).localSlots ≤ code.maxLocals.toNat
  toldLocals : ∀ entry ∈ told, totalWidth entry.2.locals ≤ code.maxLocals.toNat
  /-- Wherever control comes, the operand stack has room. -/
  stack : ∀ index frame, analysis.frame? index = some frame →
    frame.stackSlots ≤ code.maxStack.toNat
  /-- It has room for an exception, too, unless only code that is never reached needs that. -/
  writtenStack : (∀ index < instructions.size,
      (analysis.writtenFrame index).stackSlots ≤ code.maxStack.toNat) ↔
    (analysis.deadRuns ≠ [] → 0 < code.maxStack.toNat)
  toldStack : (∀ entry ∈ told, totalWidth entry.2.stack ≤ code.maxStack.toNat) ↔
    (version.usesStackMaps = true → analysis.deadRuns ≠ [] → 0 < code.maxStack.toNat)

section Room

variable {method : Method} {hierarchy : Hierarchy} {version : Version}
  {analysis : FlowAnalysis} {encoded : EncodedCode} {code : CodeAttribute}
  {pool : ConstantPool} {told : List (Nat × MapFrame)}

/-- The frame at a point is that of code that is never reached, or one of the analysis. -/
theorem Method.frame_of_mem_toldPoints
    {point : Nat × Frame}
    (member : point ∈ method.toldPoints version analysis encoded) :
    version.usesStackMaps = true ∧
      ((analysis.deadRuns ≠ [] ∧ point.2 = .deadCode) ∨
        analysis.frame? point.1 = some point.2) := by
  unfold toldPoints at member
  split at member
  · rename_i usesMaps
    refine ⟨usesMaps, ?_⟩
    rcases (mem_framePoints_iff.mp member).2 with ⟨⟨run, isRun, _⟩, isDead⟩ | ⟨_, isFrame⟩
    · exact .inl ⟨List.ne_nil_of_mem isRun, isDead⟩
    · exact .inr isFrame
  · cases member

/-- Every run of instructions that are never reached begins with a frame in the stack map. -/
theorem Method.mem_toldPoints_of_mem_deadRuns
    (accepted : method.analyze hierarchy = .ok analysis)
    (usesMaps : version.usesStackMaps = true)
    {run : DeadRun}
    (isRun : run ∈ analysis.deadRuns) :
    (run.start, Frame.deadCode) ∈ method.toldPoints version analysis encoded := by
  obtain ⟨notEmpty, ends, _⟩ := FlowAnalysis.isDead_of_mem_deadRuns isRun
  have size := (FlowAnalysis.followsControl_of_analyze_eq_ok accepted).size
  rw [toldPoints, if_pos usesMaps]
  apply mem_framePoints_iff.mpr
  rw [FlowAnalysis.FollowsControl.size_overwriteDead, ← size]
  exact ⟨by omega, .inl ⟨⟨run, isRun, rfl⟩, rfl⟩⟩

/-- The frames of an analysis have room in the code that is assembled from it. -/
theorem Method.IsAssembledAs.frame_le
    (accepted : method.analyze hierarchy = .ok analysis)
    (isAssembled : method.IsAssembledAs version analysis encoded code pool told)
    {index : Nat}
    {frame : Frame}
    (isFrame : analysis.frame? index = some frame) :
    Locals.IsWhole frame.locals ∧ frame.stackSlots ≤ code.maxStack.toNat ∧
      frame.localSlots ≤ code.maxLocals.toNat := by
  obtain ⟨state, consistent, _, rfl⟩ :=
    isConsistent_of_analyze_eq_ok Frame.mergeOrder_trivial accepted
  refine ⟨consistent.sound.whole isFrame, ?_, ?_⟩
  · rw [isAssembled.maxStack]
    exact consistent.sound.stackSlots isFrame
  · rw [isAssembled.maxLocals]
    exact Nat.le_trans (consistent.sound.localSlots isFrame)
      (Nat.le_trans (Nat.le_max_left _ _) (Nat.le_max_left _ _))

theorem Method.IsAssembledAs.hasRoomFor
    (consistent : pool.IsConsistent)
    (accepted : method.analyze hierarchy = .ok analysis)
    (isAssembled : method.IsAssembledAs version analysis encoded code pool told) :
    code.HasRoomFor version analysis (analysis.overwriteDead method.instructions) told where
  accesses := by
    intro index instruction stands access isAccess
    cases reachable : analysis.isReachable index with
    | true =>
        rcases FlowAnalysis.getElem?_overwriteDead stands with ⟨_, isOriginal⟩ | ⟨unreachable, _⟩
        · obtain ⟨recorded, isRecorded⟩ := FlowAnalysis.isReachable_iff.mp reachable
          rw [isAssembled.maxLocals]
          exact Nat.le_trans (access_le_of_analyze_eq_ok accepted isRecorded isOriginal isAccess)
            (Nat.le_trans (Nat.le_max_left _ _) (Nat.le_max_left _ _))
        · rw [reachable] at unreachable
          cases unreachable
    | false =>
        have noAccess := (FlowAnalysis.execute_overwriteDead stands reachable method.owner
          method.instructions).1
        rw [noAccess] at isAccess
        cases isAccess
  locals := by
    intro index
    unfold FlowAnalysis.writtenFrame
    cases isFrame : analysis.frame? index with
    | none => exact Nat.zero_le _
    | some frame => exact (isAssembled.frame_le accepted isFrame).2.2
  toldLocals := by
    intro entry member
    obtain ⟨point, isPoint, isTold⟩ := exists_mem_of_forall₂ isAssembled.points member
    rcases (frame_of_mem_toldPoints isPoint).2 with ⟨_, isDead⟩ | isFrame
    · have narrow := (isTold.width_le consistent (isDead ▸ FlowAnalysis.isWhole_deadCode)).2
      rw [isDead] at narrow
      exact Nat.le_trans narrow (Nat.zero_le _)
    · obtain ⟨whole, _, fits⟩ := isAssembled.frame_le accepted isFrame
      exact Nat.le_trans (isTold.width_le consistent whole).2 fits
  stack := fun index frame isFrame => (isAssembled.frame_le accepted isFrame).2.1
  writtenStack := by
    have size := (FlowAnalysis.followsControl_of_analyze_eq_ok accepted).size
    rw [FlowAnalysis.FollowsControl.size_overwriteDead, ← size]
    constructor
    · intro fits hasRuns
      obtain ⟨run, isRun⟩ := List.exists_mem_of_ne_nil _ hasRuns
      obtain ⟨notEmpty, ends, _⟩ := FlowAnalysis.isDead_of_mem_deadRuns isRun
      have deadFits := fits run.start (by omega)
      rw [FlowAnalysis.writtenFrame, FlowAnalysis.frame?_start_of_mem_deadRuns isRun] at deadFits
      exact deadFits
    · intro positive index inside
      unfold FlowAnalysis.writtenFrame
      cases isFrame : analysis.frame? index with
      | some frame => exact (isAssembled.frame_le accepted isFrame).2.1
      | none =>
          refine positive fun noRuns => ?_
          have reachable := FlowAnalysis.isReachable_of_deadRuns_eq_nil noRuns inside
          rw [FlowAnalysis.isReachable, isFrame] at reachable
          cases reachable
  toldStack := by
    constructor
    · intro fits usesMaps hasRuns
      obtain ⟨run, isRun⟩ := List.exists_mem_of_ne_nil _ hasRuns
      obtain ⟨entry, isEntry, isTold⟩ := exists_mem_of_forall₂ isAssembled.points.flip
        (mem_toldPoints_of_mem_deadRuns accepted usesMaps isRun)
      have deadFits := fits entry isEntry
      rw [(isTold.width_le consistent FlowAnalysis.isWhole_deadCode).1] at deadFits
      exact deadFits
    · intro positive entry member
      obtain ⟨point, isPoint, isTold⟩ := exists_mem_of_forall₂ isAssembled.points member
      obtain ⟨usesMaps, ⟨hasRuns, isDead⟩ | isFrame⟩ := frame_of_mem_toldPoints isPoint
      · rw [(isTold.width_le consistent (isDead ▸ FlowAnalysis.isWhole_deadCode)).1, isDead]
        exact positive usesMaps hasRuns
      · obtain ⟨whole, fits, _⟩ := isAssembled.frame_le accepted isFrame
        rw [(isTold.width_le consistent whole).1]
        exact fits

end Room

/-- The code of an assembled method has enough local slots for all that is in it, and room on
the operand stack for all that control reaches. It has room for the frames of code that is never
reached if and only if there is no such code, or something else needs the operand stack. -/
theorem Method.hasRoomFor_of_assemble_eq_ok
    {method : Method}
    {hierarchy : Hierarchy}
    {version : Version}
    {before after : ConstantPool}
    (consistent : before.IsConsistent)
    {code : CodeAttribute}
    (assembled : method.assemble hierarchy version before = .ok code after) :
    ∃ analysis encoded between told,
      method.analyze hierarchy = .ok analysis ∧
      encode (analysis.overwriteDead method.instructions) before = .ok encoded between ∧
      method.IsAssembledAs version analysis encoded code after told ∧
      code.HasRoomFor version analysis (analysis.overwriteDead method.instructions) told := by
  obtain ⟨analysis, encoded, between, told, accepted, isEncoded, afterConsistent, isAssembled⟩ :=
    isAssembledAs_of_assemble_eq_ok consistent assembled
  exact ⟨analysis, encoded, between, told, accepted, isEncoded, isAssembled,
    isAssembled.hasRoomFor afterConsistent accepted⟩

/-! ## Code that is skipped -/

open SkippedCode in
/-- The code that jumps over an instruction has the one slot that its method asks for. -/
theorem skippedCode_hasRoomFor :
    ConstantPool.empty.IsConsistent ∧
      ∃ code after told, method.assemble .core .java8 ConstantPool.empty = .ok code after ∧
        method.IsAssembledAs .java8 frames encoded code after told ∧ code.maxLocals.toNat = 1 ∧
        code.HasRoomFor .java8 frames (frames.overwriteDead method.instructions) told := by
  obtain ⟨code, after, assembled, _⟩ := assemble_eq_ok
  obtain ⟨analysis, written, between, told, accepted, isWritten, isAssembled, hasRoom⟩ :=
    Method.hasRoomFor_of_assemble_eq_ok ConstantPool.isConsistent_empty assembled
  rw [analyze_eq_ok, Except.ok.injEq] at accepted
  subst accepted
  rw [encode_eq_ok, EStateM.Result.ok.injEq] at isWritten
  obtain ⟨rfl, rfl⟩ := isWritten
  exact ⟨ConstantPool.isConsistent_empty, code, after, told, assembled, isAssembled,
    isAssembled.maxLocals, hasRoom⟩

open SkippedCode in
/-- Its operand stack has no room for the exception that the instruction which is never reached
throws, in the frame that the stack map gives it. -/
theorem skippedCode_overflows :
    ∃ code after, method.assemble .core .java8 ConstantPool.empty = .ok code after ∧
      code.maxStack = 0 ∧
      ∃ entry map? told, method.entryFrame.toMapFrame encoded.offsets after = .ok entry after ∧
        Attribute.find? code.attributes after StackMap = .ok map? ∧
        (map?.getD ⟨[]⟩).expand? entry = some told ∧
        ∃ frame ∈ told, code.maxStack.toNat < totalWidth frame.2.stack := by
  obtain ⟨code, after, assembled, _⟩ := assemble_eq_ok
  obtain ⟨analysis, written, between, told, accepted, isWritten, afterConsistent, isAssembled⟩ :=
    Method.isAssembledAs_of_assemble_eq_ok ConstantPool.isConsistent_empty assembled
  have hasRoom := isAssembled.hasRoomFor afterConsistent accepted
  rw [analyze_eq_ok, Except.ok.injEq] at accepted
  subst accepted
  rw [encode_eq_ok, EStateM.Result.ok.injEq] at isWritten
  obtain ⟨rfl, rfl⟩ := isWritten
  have noStack : code.maxStack.toNat = 0 := isAssembled.maxStack
  obtain ⟨entry, map?, entryTold, isMap, expands⟩ := isAssembled.stackMap
  refine ⟨code, after, assembled, UInt16.toNat.inj noStack, entry, map?, told, entryTold rfl,
    isMap, expands, ?_⟩
  by_contra noneOverflows
  have fits : ∀ frame ∈ told, totalWidth frame.2.stack ≤ code.maxStack.toNat :=
    fun frame member => Nat.le_of_not_lt fun overflows => noneOverflows ⟨frame, member, overflows⟩
  have positive := hasRoom.toldStack.mp fits rfl (by decide)
  omega

end ClosureConversion
