import ClosureConversion.Proofs.Code.Rereading
import ClosureConversion.Proofs.Rewriting.Switches
import ClosureConversion.Proofs.StackMap.Room

/-!
Contract: code with a frame in its stack map wherever a jump or an exception handler leads.

Owns:
- the offsets at which a stack map has frames;
- code and methods that have frames wherever these are needed;
- an assembled method has them, in a version that asks for a stack map.

Does not own: what the frames say.
-/

namespace ClosureConversion

/-! ## Offsets -/

namespace StackMap

/-- The offsets of compressed frames, each after the one before it. -/
def offsetsFrom (offset? : Option Nat) : List StackMapFrame → List Nat
  | [] => []
  | frame :: rest =>
      let offset := offsetAfter offset? frame.delta
      offset :: offsetsFrom (some offset) rest

/-- The offsets at which a stack map has frames. -/
def offsets (map : StackMap) : List Nat :=
  offsetsFrom none map.frames

/-- The offsets do not depend on what the frames are expanded to. -/
theorem map_fst_expandFrom?
    {frames : List StackMapFrame}
    {previous : MapFrame}
    {offset? : Option Nat}
    {expanded : List (Nat × MapFrame)}
    (expands : expandFrom? previous offset? frames = some expanded) :
    expanded.map Prod.fst = offsetsFrom offset? frames := by
  induction frames generalizing previous offset? expanded with
  | nil =>
      cases expands
      rfl
  | cons frame rest inductionHypothesis =>
      rw [expandFrom?, Option.bind_eq_bind, Option.bind_eq_some_iff] at expands
      obtain ⟨first, _, expands⟩ := expands
      obtain ⟨others, othersExpand, equal⟩ := Option.bind_eq_some_iff.mp expands
      cases equal
      rw [List.map_cons, inductionHypothesis othersExpand]
      rfl

end StackMap

/-! ## Frames -/

/-- The code is decoded, and its stack map has a frame wherever a jump, a switch or an exception
handler leads. -/
def CodeAttribute.HasFrames (pool : ConstantPool) (code : CodeAttribute) : Prop :=
  ∃ decoded map?, decodeCode code.bytes pool = .ok decoded ∧
    Attribute.find? code.attributes pool StackMap = .ok map? ∧
    (∀ instruction ∈ decoded.instructions, ∀ target ∈ instruction.targets,
      ∃ offset ∈ (map?.getD ⟨[]⟩).offsets, decoded.offsets[target]? = some offset) ∧
    ∀ entry ∈ code.exceptions, entry.handler.toNat ∈ (map?.getD ⟨[]⟩).offsets

/-- The method has no code, or code with frames wherever these are needed. -/
def Member.HasFrames (pool : ConstantPool) (member : Member .method) : Prop :=
  ∀ code, member.code? pool = .ok (some code) → code.HasFrames pool

/-- The code of an assembled method has frames in every later pool, if the version asks for a stack
map. -/
theorem Method.hasFrames_of_assemble_eq_ok
    {method : Method}
    {hierarchy : Hierarchy}
    {version : Version}
    (mapped : version.usesStackMaps = true)
    {before after final : ConstantPool}
    (consistent : before.IsConsistent)
    {code : CodeAttribute}
    (assembled : method.assemble hierarchy version before = .ok code after)
    (finalConsistent : final.IsConsistent)
    (finalExtends : final.Extends after)
    (fewBootstraps : final.bootstraps.length ≤ 2 ^ 16)
    (switchesFit : ∀ instruction ∈ method.instructions, instruction.SwitchFits) :
    code.HasFrames final := by
  obtain ⟨analysis, encoded, placed, made⟩ := exists_isMadeAs_of_assemble_eq_ok consistent assembled
  obtain ⟨told, isAssembled⟩ := made.assembled final finalConsistent finalExtends
  obtain ⟨entry, map?, _, isMap, expands⟩ := isAssembled.stackMap
  have follows := FlowAnalysis.followsControl_of_analyze_eq_ok made.accepted
  have areTold := isAssembled.points
  rw [toldPoints, if_pos mapped] at areTold
  have isMapped := isMappedTo_of_isTold follows made.madeOf made.instructions finalConsistent
    made.handlers areTold
  have offsets : told.map Prod.fst = (map?.getD ⟨[]⟩).offsets := StackMap.map_fst_expandFrom? expands
  have itemsFit : ∀ item ∈ placed, item.1.instruction.SwitchFits := by
    intro item member
    have listed : item.1.instruction ∈ analysis.overwriteDead method.instructions := by
      rw [← Array.mem_toList_iff, ← made.instructions]
      exact List.mem_map_of_mem member
    rcases analysis.mem_of_mem_overwriteDead listed with isOriginal | ⟨operation, isOperation⟩
    · exact switchesFit _ isOriginal
    · rw [isOperation]
      trivial
  obtain ⟨decoded, isDecoded, _, areEmitted⟩ := made.madeOf.exists_decodeCode (by decide)
    (fun item member => made.linked final finalConsistent finalExtends item member
      (Instruction.callFits_of_length_le fewBootstraps _)) itemsFit
    (fun index member => (lt_length_of_widened follows made.madeOf made.instructions member).1)
  refine ⟨decoded, map?, isAssembled.bytes ▸ isDecoded, isMap, fun instruction member target isTarget =>
    ?_, fun entry member => offsets ▸ isMapped.handlers entry member⟩
  obtain ⟨emitted, isEmitted, indexOf, rfl, stand⟩ := areEmitted instruction member
  obtain ⟨offset, isOffset, rfl⟩ := Instruction.mem_targets_map isTarget
  exact ⟨offset, offsets ▸ isMapped.targets emitted isEmitted offset isOffset, stand offset isOffset⟩

end ClosureConversion
