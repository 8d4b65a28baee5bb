import ClosureConversion.Method.Assembly
import ClosureConversion.Proofs.Interns
import ClosureConversion.Proofs.Reference
import ClosureConversion.Proofs.StackMap.Expansion

/-!
Contract: the stack map that is written for frames expands to these frames.

Owns:
- that a frame under analysis is serialized in the same way again;
- the expansion of the compressed frames that are written for frames at increasing
  offsets;
- finding the stack map among the attributes of code, and reading it back.

Does not own: which frames there are.
-/

namespace ClosureConversion

/-! ## Serialized frames -/

theorem VerificationType.repeats_toStackMap
    (type : VType)
    (offsets : Array Nat) :
    Repeats (type.toStackMap offsets) := by
  cases type with
  | object type => exact type.interns_intern.repeats.map VerificationType.object
  | uninitialized site =>
      unfold toStackMap
      dsimp only
      split
      · exact repeats_pure _
      · exact repeats_throw _
  | _ => exact repeats_pure _

/-- What a type in a stack map says about a value: its class by a position in the pool, or
where the object was made by an offset. -/
def VerificationType.IsToldAs (offsets : Array Nat) (pool : ConstantPool) :
    VType → StackMapType → Prop
  | .object type, .object index => RefType.resolve pool index = .ok type
  | .uninitialized site, .uninitialized offset =>
      ∃ place, offsets[site]? = some place ∧ offset = place.toUInt16
  | .top, .top => True
  | .int, .int => True
  | .float, .float => True
  | .double, .double => True
  | .long, .long => True
  | .null, .null => True
  | .uninitializedThis, .uninitializedThis => True
  | _, _ => False

theorem VerificationType.yields_toStackMap
    (type : VType)
    (offsets : Array Nat) :
    Yields (type.toStackMap offsets) fun final told => type.IsToldAs offsets final told := by
  cases type with
  | object type => exact Yields.map type.yields_intern_resolve
  | uninitialized site =>
      unfold toStackMap
      dsimp only
      split
      · rename_i place isPlace
        exact yields_pure fun _ _ => ⟨place, isPlace, rfl⟩
      · intro before told after _ done
        cases done
  | _ => exact yields_pure fun _ _ => trivial

namespace Frame

theorem repeats_toMapFrame
    (frame : Frame)
    (offsets : Array Nat) :
    Repeats (frame.toMapFrame offsets) := by
  apply (repeats_mapM (fun type => VerificationType.repeats_toStackMap type offsets) _).bind
  intro locals
  apply (repeats_mapM (fun type => VerificationType.repeats_toStackMap type offsets) _).bind
  intro stack
  exact repeats_pure _

theorem length_values_le
    (locals : List VType) :
    (Locals.values locals).length ≤ locals.length := by
  fun_induction Locals.values locals <;> grind

/-- A serialized frame has no more locals than there are slots, and all values of the operand
stack. -/
theorem length_of_toMapFrame_eq_ok
    {frame : Frame}
    {offsets : Array Nat}
    {before after : ConstantPool}
    {told : MapFrame}
    (serialized : frame.toMapFrame offsets before = .ok told after) :
    told.locals.length ≤ frame.locals.length ∧ told.stack.length = frame.stack.length := by
  obtain ⟨locals, between, localsTold, serialized⟩ := run_bind_eq_ok.mp serialized
  obtain ⟨stack, later, stackTold, serialized⟩ := run_bind_eq_ok.mp serialized
  obtain ⟨rfl, _⟩ := run_pure_eq_ok.mp serialized
  have localCount := (forall₂_of_run_mapM_eq_ok localsTold).length_eq
  have stackCount := (forall₂_of_run_mapM_eq_ok stackTold).length_eq
  have fewer := length_values_le frame.locals
  have shorter := (List.dropWhile_sublist (l := locals.reverse) (· = .top)).length_le
  rw [List.length_reverse] at stackCount shorter
  constructor
  · change (MapFrame.trimmed locals).length ≤ _
    rw [MapFrame.trimmed, List.length_reverse]
    omega
  · exact stackCount.symm

/-- The types of a serialized frame say what the values are, the bottom of the operand stack
first. -/
theorem isToldAs_of_toMapFrame_eq_ok
    {frame : Frame}
    {offsets : Array Nat}
    {pool : ConstantPool}
    {told : MapFrame}
    (consistent : pool.IsConsistent)
    (serialized : frame.toMapFrame offsets pool = .ok told pool) :
    (∃ locals, List.Forall₂ (VerificationType.IsToldAs offsets pool)
      (Locals.values frame.locals) locals ∧ told.locals = MapFrame.trimmed locals) ∧
      List.Forall₂ (VerificationType.IsToldAs offsets pool) frame.stack.reverse told.stack := by
  have yields : Yields (frame.toMapFrame offsets) fun final told =>
      (∃ locals, List.Forall₂ (VerificationType.IsToldAs offsets final)
        (Locals.values frame.locals) locals ∧ told.locals = MapFrame.trimmed locals) ∧
        List.Forall₂ (VerificationType.IsToldAs offsets final) frame.stack.reverse told.stack := by
    apply (yields_mapM _ fun type _ => type.yields_toStackMap offsets).bind
    intro locals
    apply (yields_mapM _ fun type _ => type.yields_toStackMap offsets).bind
    intro stack
    exact yields_pure fun _ _ stackTold localsTold => ⟨⟨locals, localsTold, rfl⟩, stackTold⟩
  obtain ⟨_, _, means⟩ := yields pool told pool consistent serialized
  exact means pool consistent (.refl pool)

/-- The frame of code that is never reached has nothing but an exception. -/
theorem eq_of_toMapFrame_deadCode
    {offsets : Array Nat}
    {pool : ConstantPool}
    {told : MapFrame}
    (consistent : pool.IsConsistent)
    (serialized : deadCode.toMapFrame offsets pool = .ok told pool) :
    ∃ throwable, RefType.resolve pool throwable = .ok (.object .throwable) ∧
      told = ⟨[], [.object throwable]⟩ := by
  obtain ⟨⟨locals, localsTold, isTrimmed⟩, stackTold⟩ :=
    isToldAs_of_toMapFrame_eq_ok consistent serialized
  obtain ⟨toldLocals, toldStack⟩ := told
  cases localsTold
  cases isTrimmed
  cases stackTold with
  | @cons _ value _ others valueTold othersTold =>
      cases othersTold
      cases value with
      | object throwable => exact ⟨throwable, valueTold, rfl⟩
      | _ => cases valueTold

end Frame

/-! ## Stack maps -/

/-- A frame of the analysis at an instruction is serialized as a frame at an offset. -/
structure IsTold (offsets : Array Nat) (pool : ConstantPool) (point : Nat × Frame)
    (told : Nat × MapFrame) : Prop where
  offset : offsets[point.1]? = some told.1
  frame : point.2.toMapFrame offsets pool = .ok told.2 pool

/-- Frames at increasing offsets are written as a stack map that expands to them. -/
theorem yields_stackMapFrom
    {offsets : Array Nat}
    {points : List (Nat × Frame)}
    (stands : ∀ point ∈ points, ∃ offset, offsets[point.1]? = some offset ∧ offset < 2 ^ 16)
    (increasing : points.Pairwise fun first second =>
      offsets.getD first.1 0 < offsets.getD second.1 0)
    (small : ∀ point ∈ points, point.2.locals.length < 2 ^ 16 ∧ point.2.stack.length < 2 ^ 16)
    (previous : MapFrame)
    (offset? : Option Nat)
    (after : ∀ before, offset? = some before → ∀ point ∈ points, before < offsets.getD point.1 0) :
    Yields (stackMapFrom offsets previous offset? points) fun final frames =>
      (∀ frame ∈ frames, frame.IsWritable) ∧
        ∃ expanded, StackMap.expandFrom? previous offset? frames = some expanded ∧
          List.Forall₂ (IsTold offsets final) points expanded := by
  induction points generalizing previous offset? with
  | nil =>
      refine yields_pure fun _ _ => ⟨?_, [], rfl, .nil⟩
      intro frame member
      cases member
  | cons point rest inductionHypothesis =>
      obtain ⟨index, frame⟩ := point
      obtain ⟨offset, isOffset, offsetSmall⟩ := stands (index, frame) List.mem_cons_self
      obtain ⟨beforeRest, restIncreasing⟩ := List.pairwise_cons.mp increasing
      have here : offsets.getD index 0 = offset := by
        rw [Array.getD_eq_getD_getElem?, isOffset, Option.getD_some]
      have follows : ∀ before, offset? = some before → before < offset := by
        intro before isBefore
        rw [← here]
        exact after before isBefore (index, frame) List.mem_cons_self
      apply Yields.bind (frame.repeats_toMapFrame offsets)
      intro told
      dsimp only
      rw [here]
      apply (inductionHypothesis (fun other member => stands other (List.mem_cons_of_mem _ member))
        restIncreasing (fun other member => small other (List.mem_cons_of_mem _ member))
        told (some offset) (by
          rintro _ ⟨⟩ other member
          rw [← here]
          exact beforeRest other member)).bind
      intro others
      refine yields_pure fun final _ othersTold serialized => ?_
      obtain ⟨othersWritable, expanded, othersExpand, tellsOthers⟩ := othersTold
      obtain ⟨fewLocals, asManyValues⟩ := Frame.length_of_toMapFrame_eq_ok serialized
      obtain ⟨localsSmall, stackSmall⟩ := small (index, frame) List.mem_cons_self
      have compressed := told.isCompressedTo_relativeTo previous
      refine ⟨?_, (offset, told) :: expanded, ?_, .cons ⟨isOffset, serialized⟩ tellsOthers⟩
      · intro form member
        rcases List.mem_cons.mp member with rfl | inOthers
        · apply (compressed _).writable
          · exact Nat.lt_of_le_of_lt fewLocals localsSmall
          · rw [asManyValues]
            exact stackSmall
        · exact othersWritable form inOthers
      · apply StackMap.expandFrom?_cons (compressed _).expands _ othersExpand
        rw [(compressed _).delta]
        exact StackMap.offsetAfter_distance offsetSmall follows

/-! ## Attributes -/

theorem Attribute.yields_ofContents
    {α : Type}
    [AttributeContents α]
    (contents : α) :
    Yields (Attribute.ofContents contents) fun final entry =>
      entry.info = write contents ∧ final.text entry.name = .ok (attributeName α) := by
  apply (ConstantPool.yields_internText (attributeName α)).bind
  intro name
  exact yields_pure fun _ _ named => ⟨rfl, named⟩

end ClosureConversion
