import ClosureConversion.Code.Builder
import ClosureConversion.Proofs.Rewriting.Positions
import ClosureConversion.Proofs.Rewriting.Redirection

/-!
Contract: writing a rewritten method through labels.

Owns:
- a label is placed only if it was made and has no place yet;
- writing what replaces a method from left to right, with a label for each of its positions;
- the body that is finished is that of the rewritten method, and every label has a place.

Does not own: which code replaces the pieces of a method.
-/

namespace ClosureConversion

namespace CodeBuilder

/-- The builder of an empty body, with labels that have no places yet. -/
def withLabels : Nat → CodeBuilder
  | 0 => empty
  | count + 1 => (withLabels count).freshLabel.2

/-- Places a label that was made and has no place yet. -/
def placeOnce? (builder : CodeBuilder) (label : CodeLabel) : Option CodeBuilder :=
  if builder.places[label.number]? = some none then some (builder.place label) else none

/-- Places the labels of several positions before the next instruction. -/
def placeAll? (builder : CodeBuilder) (positions : List Nat) : Option CodeBuilder :=
  positions.foldlM (fun builder position => builder.placeOnce? ⟨position⟩) builder

/-- Says which line begins at a position, if one does. -/
def pushLineAt (builder : CodeBuilder) (lines : Array (SourceLine Nat)) (position : Nat) :
    CodeBuilder :=
  match lines.find? fun line => line.start = position with
  | some line => builder.pushLine line.line
  | none => builder

/-- Writes what replaces a span: the label of its first position is placed before it, and those
of the others after it. -/
def writeReplacement (lines : Array (SourceLine Nat)) (builder : CodeBuilder)
    (replacement : Replacement) : Option CodeBuilder := do
  let started ← builder.placeOnce? ⟨replacement.span.start⟩
  let written := (started.pushLineAt lines replacement.span.start).pushAll
    (replacement.code.map fun instruction => instruction.map CodeLabel.mk)
  written.placeAll? (List.range' (replacement.span.start + 1) (replacement.span.length - 1))

end CodeBuilder

/-- Writes a rewritten method through labels, one for each position of the method and one for its
end: boxes are made, every piece is replaced, and then follow the handlers and the variables
that are kept. Nothing is written if a label would be placed twice. -/
def Method.writeLabelled (method : Method) (plan : MethodPlan) : Option CodeBuilder := do
  let replacements ← (plan.replacements method).toOption
  let begun := (CodeBuilder.withLabels (method.instructions.size + 1)).pushAll
    ((plan.boxes.flatMap MethodPlan.makeBox).map fun instruction => instruction.map CodeLabel.mk)
  let written ← replacements.foldlM (CodeBuilder.writeReplacement method.lines) begun
  let ended ← written.placeOnce? ⟨method.instructions.size⟩
  let guarded := (method.handlers.filter fun range => !plan.movedAway range).foldl
    (fun builder range => builder.pushHandler (range.map CodeLabel.mk)) ended
  return (method.localVariables.filter plan.keepsVariable).foldl
    (fun builder entry => builder.pushVariable (plan.movedVariable CodeLabel.mk entry)) guarded

/-! ## Placing labels from left to right -/

namespace CodeBuilder

/-- The labels of a builder: those of the first positions have places, as many follow that have
none, and the labels of lines come last. -/
structure HasPlaced (builder : CodeBuilder) (placed : List Nat) (unplaced : Nat)
    (marked : List (Nat × UInt16)) : Prop where
  places : builder.places.toList = placed.map some ++ List.replicate unplaced none ++
    marked.map fun mark => some mark.1
  lines : builder.body.lines.toList = marked.mapIdx fun number mark =>
    ⟨⟨placed.length + unplaced + number⟩, mark.2⟩

section Placing

variable {builder : CodeBuilder} {placed : List Nat} {unplaced : Nat}
  {marked : List (Nat × UInt16)}

theorem hasPlaced_withLabels
    (count : Nat) :
    (withLabels count).HasPlaced [] count [] ∧ (withLabels count).body = {} := by
  induction count with
  | zero => exact ⟨⟨rfl, rfl⟩, rfl⟩
  | succ count inductionHypothesis =>
      obtain ⟨⟨places, _⟩, body⟩ := inductionHypothesis
      refine ⟨⟨?_, ?_⟩, body⟩
      · change ((withLabels count).places.push none).toList = _
        rw [Array.toList_push, places]
        simp [List.replicate_succ']
      · change (withLabels count).body.lines.toList = _
        rw [body]
        rfl

@[simp]
theorem pushAll_places
    (instructions : List (Instruction CodeLabel)) :
    (builder.pushAll instructions).places = builder.places := by
  unfold pushAll
  induction instructions generalizing builder with
  | nil => rfl
  | cons instruction rest inductionHypothesis => exact inductionHypothesis

@[simp]
theorem pushAll_body
    (instructions : List (Instruction CodeLabel)) :
    (builder.pushAll instructions).body = { builder.body with
      instructions := builder.body.instructions ++ instructions } := by
  unfold pushAll
  induction instructions generalizing builder with
  | nil => simp
  | cons instruction rest inductionHypothesis =>
      rw [List.foldl_cons, inductionHypothesis]
      simp [push]

theorem HasPlaced.pushAll
    (hasPlaced : builder.HasPlaced placed unplaced marked)
    (instructions : List (Instruction CodeLabel)) :
    (builder.pushAll instructions).HasPlaced placed unplaced marked :=
  ⟨by rw [pushAll_places, hasPlaced.places], by rw [pushAll_body]; exact hasPlaced.lines⟩

/-- The next position has a label that can be placed. -/
theorem HasPlaced.placeOnce?_eq
    (hasPlaced : builder.HasPlaced placed (unplaced + 1) marked) :
    builder.placeOnce? ⟨placed.length⟩ = some (builder.place ⟨placed.length⟩) ∧
      (builder.place ⟨placed.length⟩).HasPlaced (placed ++ [builder.currentIndex]) unplaced
        marked := by
  have split : builder.places.toList = placed.map some ++
      (none :: (List.replicate unplaced none ++ marked.map fun mark => some mark.1)) := by
    rw [hasPlaced.places, List.replicate_succ, List.append_assoc, List.cons_append]
  refine ⟨if_pos ?_, ?_, ?_⟩
  · rw [← Array.getElem?_toList, split, List.getElem?_append_right (by simp)]
    simp
  · change (builder.places.setIfInBounds placed.length (some builder.currentIndex)).toList = _
    rw [Array.toList_setIfInBounds, split, List.set_append_right _ _ (by simp)]
    simp
  · change builder.body.lines.toList = _
    rw [hasPlaced.lines, List.length_append, List.length_singleton]
    congr 1
    funext number mark
    congr 2
    omega

/-- The labels of the next positions can all be placed at one place. -/
theorem HasPlaced.exists_placeAll?
    (count : Nat)
    (hasPlaced : builder.HasPlaced placed (unplaced + count) marked) :
    ∃ after, builder.placeAll? (List.range' placed.length count) = some after ∧
      after.body = builder.body ∧
      after.HasPlaced (placed ++ List.replicate count builder.currentIndex) unplaced marked := by
  induction count generalizing builder placed with
  | zero =>
      refine ⟨builder, rfl, rfl, ?_⟩
      rw [List.replicate_zero, List.append_nil]
      exact hasPlaced
  | succ count inductionHypothesis =>
      have hasNext : builder.HasPlaced placed (unplaced + count + 1) marked := hasPlaced
      obtain ⟨isPlaced, next⟩ := hasNext.placeOnce?_eq
      obtain ⟨after, areplaced, body, hasAll⟩ := inductionHypothesis next
      refine ⟨after, ?_, body, ?_⟩
      · rw [List.length_append, List.length_singleton] at areplaced
        unfold placeAll? at areplaced ⊢
        rw [List.range'_succ, List.foldlM_cons, isPlaced]
        exact areplaced
      · rw [List.append_assoc] at hasAll
        exact hasAll

/-- A line is marked at the next instruction. -/
theorem HasPlaced.pushLine
    (hasPlaced : builder.HasPlaced placed unplaced marked)
    (line : UInt16) :
    (builder.pushLine line).HasPlaced placed unplaced
      (marked ++ [(builder.currentIndex, line)]) := by
  have size : builder.places.size = placed.length + unplaced + marked.length := by
    rw [← Array.length_toList, hasPlaced.places]
    simp [Nat.add_assoc]
  constructor
  · change ((builder.places.push none).setIfInBounds builder.places.size
      (some builder.currentIndex)).toList = _
    rw [Array.toList_setIfInBounds, Array.toList_push,
      List.set_append_right _ _ (by simp), hasPlaced.places]
    simp [size, Nat.add_assoc]
  · change (builder.body.lines.push ⟨⟨builder.places.size⟩, line⟩).toList = _
    rw [Array.toList_push, hasPlaced.lines, List.mapIdx_concat, size]

end Placing

/-! ## Writing replacements -/

/-- The lines that begin with the spans, each with the place of its first instruction. -/
def marksFrom (lines : Array (SourceLine Nat)) (next : Nat) :
    List Replacement → List (Nat × UInt16)
  | [] => []
  | replacement :: rest =>
      ((lines.find? fun line => line.start = replacement.span.start).map fun line =>
        (next, line.line)).toList ++ marksFrom lines (next + replacement.code.length) rest

section Writing

variable {builder : CodeBuilder} {placed : List Nat} {unplaced : Nat}
  {marked : List (Nat × UInt16)} {lines : Array (SourceLine Nat)}

@[simp]
theorem pushLineAt_instructions
    (position : Nat) :
    (builder.pushLineAt lines position).body.instructions = builder.body.instructions := by
  unfold pushLineAt
  split <;> rfl

@[simp]
theorem pushLineAt_handlers
    (position : Nat) :
    (builder.pushLineAt lines position).body.handlers = builder.body.handlers := by
  unfold pushLineAt
  split <;> rfl

@[simp]
theorem pushLineAt_localVariables
    (position : Nat) :
    (builder.pushLineAt lines position).body.localVariables = builder.body.localVariables := by
  unfold pushLineAt
  split <;> rfl

theorem HasPlaced.pushLineAt
    (hasPlaced : builder.HasPlaced placed unplaced marked)
    (lines : Array (SourceLine Nat))
    (position : Nat) :
    (builder.pushLineAt lines position).HasPlaced placed unplaced
      (marked ++ ((lines.find? fun line => line.start = position).map fun line =>
        (builder.currentIndex, line.line)).toList) := by
  unfold CodeBuilder.pushLineAt
  cases lines.find? fun line => line.start = position with
  | none =>
      rw [Option.map_none, Option.toList_none, List.append_nil]
      exact hasPlaced
  | some line => exact hasPlaced.pushLine line.line

/-- What a builder has written after some more code: the code, and neither handlers nor
variables. -/
structure Continues (before after : CodeBuilder) (code : List (Instruction Nat)) : Prop where
  instructions : after.body.instructions.toList =
    before.body.instructions.toList ++ code.map fun instruction => instruction.map CodeLabel.mk
  handlers : after.body.handlers = before.body.handlers
  localVariables : after.body.localVariables = before.body.localVariables

theorem Continues.trans
    {before between after : CodeBuilder}
    {first second : List (Instruction Nat)}
    (isFirst : Continues before between first)
    (isSecond : Continues between after second) :
    Continues before after (first ++ second) := by
  refine ⟨?_, isSecond.handlers.trans isFirst.handlers,
    isSecond.localVariables.trans isFirst.localVariables⟩
  rw [isSecond.instructions, isFirst.instructions, List.map_append, List.append_assoc]

theorem Continues.currentIndex_eq
    {before after : CodeBuilder}
    {code : List (Instruction Nat)}
    (continues : Continues before after code) :
    after.currentIndex = before.currentIndex + code.length := by
  unfold currentIndex
  rw [← Array.length_toList, continues.instructions, List.length_append, List.length_map,
    Array.length_toList]

/-- One replacement is written where the labels of its span are the next ones. -/
theorem HasPlaced.exists_writeReplacement
    (lines : Array (SourceLine Nat))
    {replacement : Replacement}
    (nonempty : replacement.span.start < replacement.span.stop)
    (starts : placed.length = replacement.span.start)
    (hasPlaced : builder.HasPlaced placed (unplaced + replacement.span.length) marked) :
    ∃ after, builder.writeReplacement lines replacement = some after ∧
      Continues builder after replacement.code ∧
      after.HasPlaced
        (placed ++ builder.currentIndex :: List.replicate (replacement.span.length - 1)
          after.currentIndex) unplaced
        (marked ++ ((lines.find? fun line => line.start = replacement.span.start).map fun line =>
          (builder.currentIndex, line.line)).toList) := by
  have length : unplaced + replacement.span.length =
      unplaced + (replacement.span.length - 1) + 1 := by
    unfold Span.length
    omega
  rw [length] at hasPlaced
  obtain ⟨isPlaced, hasFirst⟩ := hasPlaced.placeOnce?_eq
  rw [starts] at isPlaced hasFirst
  have hasCode := (hasFirst.pushLineAt lines replacement.span.start).pushAll
    (replacement.code.map fun instruction => instruction.map CodeLabel.mk)
  obtain ⟨after, areplaced, body, hasAll⟩ := hasCode.exists_placeAll?
  rw [List.length_append, List.length_singleton, starts] at areplaced
  have continues : Continues builder after replacement.code := by
    constructor
    · rw [body, pushAll_body, pushLineAt_instructions, Array.toList_appendList]
      rfl
    · rw [body, pushAll_body]
      exact pushLineAt_handlers _
    · rw [body, pushAll_body]
      exact pushLineAt_localVariables _
  refine ⟨after, ?_, continues, ?_⟩
  · unfold writeReplacement
    rw [isPlaced]
    exact areplaced
  · have sameIndex : after.currentIndex = ((((builder.place ⟨replacement.span.start⟩).pushLineAt
        lines replacement.span.start).pushAll (replacement.code.map fun instruction =>
          instruction.map CodeLabel.mk))).currentIndex := by
      unfold currentIndex
      rw [body]
    rw [List.append_assoc, ← sameIndex] at hasAll
    exact hasAll

/-- Replacements that follow one another are written from left to right: each position gets the
place that it is known to have. -/
theorem HasPlaced.exists_foldlM_writeReplacement
    (lines : Array (SourceLine Nat))
    {start last : Nat}
    {replacements : List Replacement}
    (tiles : Tiles start (replacements.map Replacement.span) last)
    (nonempty : ∀ replacement ∈ replacements, replacement.span.start < replacement.span.stop)
    (starts : placed.length = start)
    (hasPlaced : builder.HasPlaced placed (1 + (last - start)) marked) :
    ∃ after places, replacements.foldlM (writeReplacement lines) builder = some after ∧
      Continues builder after (replacements.flatMap Replacement.code) ∧
      placesFrom builder.currentIndex replacements = places ++ [after.currentIndex] ∧
      after.HasPlaced (placed ++ places) 1
        (marked ++ marksFrom lines builder.currentIndex replacements) := by
  induction replacements generalizing builder placed marked start with
  | nil =>
      have equal : start = last := tiles
      rw [equal, Nat.sub_self] at hasPlaced
      refine ⟨builder, [], rfl, ⟨?_, rfl, rfl⟩, rfl, ?_⟩
      · rw [List.flatMap_nil, List.map_nil, List.append_nil]
      · rw [marksFrom, List.append_nil, List.append_nil]
        exact hasPlaced
  | cons replacement rest inductionHypothesis =>
      obtain ⟨rfl, tilesRest⟩ := tiles
      have isNonempty := nonempty replacement List.mem_cons_self
      have restNonempty : ∀ other ∈ rest, other.span.start < other.span.stop :=
        fun other member => nonempty other (List.mem_cons_of_mem _ member)
      have reaches := (tilesRest.within (by
        intro span member
        obtain ⟨other, isOther, rfl⟩ := List.mem_map.mp member
        exact Nat.le_of_lt (restNonempty other isOther))).1
      have split : 1 + (last - replacement.span.start) =
          1 + (last - replacement.span.stop) + replacement.span.length := by
        unfold Span.length
        omega
      rw [split] at hasPlaced
      obtain ⟨between, written, continues, hasBetween⟩ :=
        hasPlaced.exists_writeReplacement lines isNonempty starts
      obtain ⟨after, places, writtenRest, continuesRest, placesEq, hasAfter⟩ :=
        inductionHypothesis tilesRest restNonempty (by
          rw [List.length_append, List.length_cons, List.length_replicate, starts, Span.length]
          omega) hasBetween
      refine ⟨after, builder.currentIndex :: List.replicate (replacement.span.length - 1)
        between.currentIndex ++ places, ?_, ?_, ?_, ?_⟩
      · rw [List.foldlM_cons, written]
        exact writtenRest
      · rw [List.flatMap_cons]
        exact continues.trans continuesRest
      · rw [placesFrom, ← continues.currentIndex_eq, placesEq, List.append_assoc]
      · rw [List.append_assoc, List.append_assoc, continues.currentIndex_eq] at hasAfter
        rw [marksFrom, continues.currentIndex_eq]
        exact hasAfter

end Writing

/-! ## Finishing -/

section Finishing

variable {builder : CodeBuilder} {placed : List Nat} {marked : List (Nat × UInt16)}

theorem foldl_pushHandler
    (ranges : Array (ExceptionRange Nat)) :
    ranges.foldl (fun builder range => builder.pushHandler (range.map CodeLabel.mk)) builder =
      { builder with body := { builder.body with
        handlers := builder.body.handlers ++ ranges.map fun range => range.map CodeLabel.mk } } := by
  rw [← Array.foldl_toList]
  obtain ⟨ranges⟩ := ranges
  dsimp only
  induction ranges generalizing builder with
  | nil => simp
  | cons range rest inductionHypothesis =>
      rw [List.foldl_cons, inductionHypothesis]
      simp [pushHandler]

theorem foldl_pushVariable
    {moves : LocalVariable Nat → LocalVariable CodeLabel}
    (entries : Array (LocalVariable Nat)) :
    entries.foldl (fun builder entry => builder.pushVariable (moves entry)) builder =
      { builder with body := { builder.body with
        localVariables := builder.body.localVariables ++ entries.map moves } } := by
  rw [← Array.foldl_toList]
  obtain ⟨entries⟩ := entries
  dsimp only
  induction entries generalizing builder with
  | nil => simp
  | cons entry rest inductionHypothesis =>
      rw [List.foldl_cons, inductionHypothesis]
      simp [pushVariable]

/-- A body is finished if all its labels have places. -/
theorem finish_eq_ok
    (arePlaced : ∀ label ∈ builder.body.labels, (builder.place? label).isSome = true) :
    builder.finish = .ok (builder.body.map fun label => (builder.place? label).getD 0) := by
  have noneMissing : builder.body.labels.find? (fun label => (builder.place? label).isNone) =
      none := by
    rw [List.find?_eq_none]
    intro label member
    rw [← Option.not_isSome, arePlaced label member]
    exact Bool.false_ne_true
  unfold finish
  rw [noneMissing]

theorem HasPlaced.place?_eq
    (hasPlaced : builder.HasPlaced placed 0 marked)
    {number place : Nat}
    (isPlace : placed[number]? = some place) :
    builder.place? ⟨number⟩ = some place := by
  obtain ⟨below, _⟩ := List.getElem?_eq_some_iff.mp isPlace
  unfold place?
  rw [Array.getD_eq_getD_getElem?, ← Array.getElem?_toList, hasPlaced.places, List.replicate_zero,
    List.append_nil, List.getElem?_append_left (by rw [List.length_map]; exact below),
    List.getElem?_map, isPlace]
  rfl

theorem HasPlaced.place?_mark
    (hasPlaced : builder.HasPlaced placed 0 marked)
    {number : Nat}
    {mark : Nat × UInt16}
    (isMark : marked[number]? = some mark) :
    builder.place? ⟨placed.length + number⟩ = some mark.1 := by
  unfold place?
  rw [Array.getD_eq_getD_getElem?, ← Array.getElem?_toList, hasPlaced.places, List.replicate_zero,
    List.append_nil, List.getElem?_append_right (by rw [List.length_map]; exact Nat.le_add_right _ _),
    List.length_map, Nat.add_sub_cancel_left, List.getElem?_map, isMark]
  rfl

/-- The label of every line has a place. -/
theorem HasPlaced.exists_mark_of_mem_lines
    (hasPlaced : builder.HasPlaced placed 0 marked)
    {line : SourceLine CodeLabel}
    (member : line ∈ builder.body.lines.toList) :
    ∃ mark ∈ marked, builder.place? line.start = some mark.1 := by
  rw [hasPlaced.lines] at member
  obtain ⟨number, below, rfl⟩ := List.mem_mapIdx.mp member
  exact ⟨marked[number], List.getElem_mem below,
    hasPlaced.place?_mark (List.getElem?_eq_getElem below)⟩

/-- The lines of a finished body are those that were marked. -/
theorem HasPlaced.map_lines
    (hasPlaced : builder.HasPlaced placed 0 marked) :
    (builder.body.lines.map fun line =>
        line.map fun label => (builder.place? label).getD 0).toList =
      marked.map fun mark => ⟨mark.1, mark.2⟩ := by
  rw [Array.toList_map, hasPlaced.lines]
  refine List.ext_getElem? fun number => ?_
  rw [List.getElem?_map, List.getElem?_mapIdx, List.getElem?_map]
  cases isMark : marked[number]? with
  | none => rfl
  | some mark =>
      have isPlace := hasPlaced.place?_mark isMark
      rw [Option.map_some, Option.map_some, Option.map_some, SourceLine.map, Nat.add_zero,
        isPlace]
      rfl

end Finishing

end CodeBuilder

/-! ## Rewritten methods -/

/-- The variables that are kept begin and end in the code, or where it ends. -/
def MethodPlan.ScopesInside (plan : MethodPlan) (method : Method) : Prop :=
  ∀ entry ∈ method.localVariables, plan.keepsVariable entry = true →
    ∀ label ∈ entry.labels, label ≤ method.instructions.size

instance (plan : MethodPlan) (method : Method) : Decidable (plan.ScopesInside method) :=
  inferInstanceAs (Decidable (∀ entry ∈ method.localVariables, plan.keepsVariable entry = true →
    ∀ label ∈ entry.labels, label ≤ method.instructions.size))

/-- What a builder has written once all labels have places: the body of a method, and where the
positions of another one are in it. -/
structure CodeBuilder.Finishes (builder : CodeBuilder) (method : Method) (position : Nat → Nat)
    (rewritten : Method) : Prop where
  placed : ∀ place ∈ builder.places, place.isSome = true
  positions : ∀ index, index ≤ method.instructions.size →
    builder.place? ⟨index⟩ = some (position index)
  finished : builder.finish = .ok rewritten.toCodeBody

section Rewritten

variable {plan : MethodPlan} {method rewritten : Method} {replacements : List Replacement}
  {relocation : Relocation} {firstId : Nat} {sorted : List LambdaSite}

/-- The lines that were marked are those of the rewritten method. -/
theorem AreReplacements.map_marksFrom
    (areReplacements : AreReplacements plan method replacements)
    (next : Nat)
    (lines : Array (SourceLine Nat)) :
    (CodeBuilder.marksFrom lines next replacements).map (fun mark => ⟨mark.1, mark.2⟩) =
      (Relocation.ofReplacements 0 next replacements).lines lines replacements := by
  have fromFront (front back : List Replacement) (split : replacements = front ++ back) :
      (CodeBuilder.marksFrom lines (next + (front.flatMap Replacement.code).length) back).map
          (fun mark => (⟨mark.1, mark.2⟩ : SourceLine Nat)) =
        (Relocation.ofReplacements 0 next replacements).lines lines back := by
    induction back generalizing front with
    | nil => rfl
    | cons replacement rest inductionHypothesis =>
        have later := inductionHypothesis (front ++ [replacement]) (by rw [split]; simp)
        rw [List.flatMap_append, List.flatMap_singleton, List.length_append, ← Nat.add_assoc]
          at later
        have startPlace : (Relocation.ofReplacements 0 next replacements).place
            replacement.span.start = next + (front.flatMap Replacement.code).length := by
          subst split
          exact (areReplacements.place_eq next).1
        unfold Relocation.lines at later ⊢
        rw [CodeBuilder.marksFrom, List.map_append, later, List.filterMap_cons, startPlace]
        cases lines.find? fun line => line.start = replacement.span.start <;> rfl
  exact fromFront [] replacements rfl

/-- What is written for a method: boxes are made and pieces replaced, with the labels of the
method as positions, and each label of a position has its place. -/
structure IsWrittenFor (plan : MethodPlan) (method : Method) (replacements : List Replacement)
    (builder : CodeBuilder) : Prop where
  places : builder.HasPlaced
    (placesFrom (plan.boxes.flatMap MethodPlan.makeBox).length replacements) 0
    (CodeBuilder.marksFrom method.lines (plan.boxes.flatMap MethodPlan.makeBox).length
      replacements)
  instructions : builder.body.instructions.toList =
    (plan.boxes.flatMap MethodPlan.makeBox ++ replacements.flatMap Replacement.code).map
      fun instruction => instruction.map CodeLabel.mk
  handlers : builder.body.handlers =
    (method.handlers.filter fun range => !plan.movedAway range).map fun range =>
      range.map CodeLabel.mk
  scopes : builder.body.localVariables =
    (method.localVariables.filter plan.keepsVariable).map (plan.movedVariable CodeLabel.mk)

/-- No label is placed twice where a method is written. -/
theorem AreReplacements.exists_writeLabelled
    (areReplacements : AreReplacements plan method replacements)
    (replaced : plan.replacements method = .ok replacements) :
    ∃ builder, method.writeLabelled plan = some builder ∧
      IsWrittenFor plan method replacements builder := by
  let prologue := plan.boxes.flatMap MethodPlan.makeBox
  let begun := (CodeBuilder.withLabels (method.instructions.size + 1)).pushAll
    (prologue.map fun instruction => instruction.map CodeLabel.mk)
  obtain ⟨hasNone, noBody⟩ := CodeBuilder.hasPlaced_withLabels (method.instructions.size + 1)
  have begunBody : begun.body = { instructions :=
      (prologue.map fun instruction => instruction.map CodeLabel.mk).toArray } := by
    rw [CodeBuilder.pushAll_body, noBody]
    simp
  have begunIndex : begun.currentIndex = prologue.length := by
    unfold CodeBuilder.currentIndex
    rw [begunBody, List.size_toArray, List.length_map]
  have hasBegun : begun.HasPlaced [] (1 + (method.instructions.size - 0)) [] := by
    rw [Nat.sub_zero, Nat.add_comm]
    exact hasNone.pushAll _
  obtain ⟨written, places, isWritten, continues, placesEq, hasWritten⟩ :=
    hasBegun.exists_foldlM_writeReplacement method.lines areReplacements.tiles
      areReplacements.nonempty rfl
  rw [begunIndex] at placesEq hasWritten
  rw [List.nil_append, List.nil_append, ← Nat.zero_add 1] at hasWritten
  have placesLength : places.length = method.instructions.size := by
    have length := length_placesFrom prologue.length areReplacements.tiles
      areReplacements.nonempty
    rw [placesEq, List.length_append, List.length_singleton] at length
    omega
  obtain ⟨isEnded, hasEnded⟩ := hasWritten.placeOnce?_eq
  rw [placesLength] at isEnded hasEnded
  rw [← placesEq] at hasEnded
  have noHandlers : written.body.handlers = #[] := by rw [continues.handlers, begunBody]
  have noScopes : written.body.localVariables = #[] := by
    rw [continues.localVariables, begunBody]
  let ended := written.place ⟨method.instructions.size⟩
  refine ⟨{ ended with body := { ended.body with
    handlers := (method.handlers.filter fun range => !plan.movedAway range).map fun range =>
      range.map CodeLabel.mk
    localVariables := (method.localVariables.filter plan.keepsVariable).map
      (plan.movedVariable CodeLabel.mk) } },
    ?_, ⟨hasEnded.places, hasEnded.lines⟩, ?_, rfl, rfl⟩
  · unfold Method.writeLabelled
    rw [replaced]
    change (replacements.foldlM (CodeBuilder.writeReplacement method.lines) begun).bind _ = _
    rw [isWritten]
    change (written.placeOnce? ⟨method.instructions.size⟩).bind _ = _
    rw [isEnded]
    change some _ = some _
    rw [CodeBuilder.foldl_pushHandler, CodeBuilder.foldl_pushVariable]
    change some (CodeBuilder.mk ⟨_, written.body.handlers ++ _, written.body.localVariables ++ _, _⟩
      _) = _
    rw [noHandlers, noScopes, Array.empty_append, Array.empty_append]
  · change written.body.instructions.toList = _
    rw [continues.instructions, begunBody, List.map_append]

namespace IsWrittenFor

variable {builder : CodeBuilder}

/-- The label of a position has the place of the position. -/
theorem place?_eq
    (isWritten : IsWrittenFor plan method replacements builder)
    (isMadeFrom : IsMadeFrom plan method replacements relocation rewritten)
    (areReplacements : AreReplacements plan method replacements)
    {index : Nat}
    (upToEnd : index ≤ method.instructions.size) :
    builder.place? ⟨index⟩ = some (relocation.place index) := by
  have length := length_placesFrom (plan.boxes.flatMap MethodPlan.makeBox).length
    areReplacements.tiles areReplacements.nonempty
  have isPlace := List.getElem?_eq_getElem
    (l := placesFrom (plan.boxes.flatMap MethodPlan.makeBox).length replacements)
    (i := index) (by omega)
  rw [isWritten.places.place?_eq isPlace, isMadeFrom.isRelocation]
  exact congrArg some (Relocation.place_ofReplacements (Nat.zero_le _) isPlace).symm

/-- All that is written jumps to positions of the method. -/
theorem targets_le
    (inside : method.TargetsInside)
    (detected : IsDetected firstId sorted plan.lambdaSites)
    (areReplacements : AreReplacements plan method replacements)
    {instruction : Instruction Nat}
    (member : instruction ∈
      plan.boxes.flatMap MethodPlan.makeBox ++ replacements.flatMap Replacement.code)
    {target : Nat}
    (isTarget : target ∈ instruction.targets) :
    target ≤ method.instructions.size := by
  rcases List.mem_append.mp member with inPrologue | inCode
  · obtain ⟨boxed, _, isMaking⟩ := List.mem_flatMap.mp inPrologue
    rw [hasNoJumps_makeBox boxed instruction isMaking] at isTarget
    cases isTarget
  · obtain ⟨replacement, isReplacement, isCode⟩ := List.mem_flatMap.mp inCode
    rcases areReplacements.targets_cases detected isReplacement isCode with noTargets |
      ⟨index, isInstruction⟩
    · rw [noTargets] at isTarget
      cases isTarget
    · exact Nat.le_of_lt (inside.instructions isInstruction target isTarget)

/-- The code that is written is that of the rewritten method. -/
theorem map_instructions
    {resolve : CodeLabel → Nat}
    (isWritten : IsWrittenFor plan method replacements builder)
    (isMadeFrom : IsMadeFrom plan method replacements relocation rewritten)
    (inside : method.TargetsInside)
    (detected : IsDetected firstId sorted plan.lambdaSites)
    (areReplacements : AreReplacements plan method replacements)
    (resolves : ∀ index, index ≤ method.instructions.size →
      resolve ⟨index⟩ = relocation.place index) :
    builder.body.instructions.map (fun instruction => instruction.map resolve) =
      rewritten.instructions := by
  have sameCode : plan.boxes.flatMap MethodPlan.makeBox ++ relocation.code replacements =
      (plan.boxes.flatMap MethodPlan.makeBox ++ replacements.flatMap Replacement.code).map
        fun instruction => instruction.map relocation.place := by
    have noJumps : HasNoJumps (plan.boxes.flatMap MethodPlan.makeBox) := by
      intro instruction member
      obtain ⟨boxed, _, isMaking⟩ := List.mem_flatMap.mp member
      exact hasNoJumps_makeBox boxed instruction isMaking
    rw [List.map_append, noJumps.map_eq, List.map_flatMap]
    rfl
  rw [isMadeFrom.instructions, sameCode, ← Array.toList_inj, Array.toList_map,
    isWritten.instructions, List.map_map]
  refine List.map_congr_left fun instruction member => ?_
  refine (Instruction.map_map CodeLabel.mk resolve instruction).trans ?_
  exact Instruction.map_congr fun target isTarget =>
    resolves target (targets_le inside detected areReplacements member isTarget)

theorem map_handlers
    {resolve : CodeLabel → Nat}
    (isWritten : IsWrittenFor plan method replacements builder)
    (isMadeFrom : IsMadeFrom plan method replacements relocation rewritten)
    (inside : method.TargetsInside)
    (resolves : ∀ index, index ≤ method.instructions.size →
      resolve ⟨index⟩ = relocation.place index) :
    builder.body.handlers.map (fun range => range.map resolve) = rewritten.handlers := by
  rw [isWritten.handlers, isMadeFrom.handlers, Array.map_map]
  refine Array.map_congr_left fun range member => ?_
  obtain ⟨ordered, stops, handles⟩ :=
    inside.handlers range (Array.mem_toList_iff.mpr (Array.mem_filter.mp member).1)
  change ExceptionRange.mk (resolve ⟨range.start⟩) (resolve ⟨range.stop⟩)
    (resolve ⟨range.handler⟩) _ = _
  rw [resolves _ (Nat.le_trans ordered stops), resolves _ stops,
    resolves _ (Nat.le_of_lt handles)]
  rfl

theorem map_scopes
    {resolve : CodeLabel → Nat}
    (isWritten : IsWrittenFor plan method replacements builder)
    (isMadeFrom : IsMadeFrom plan method replacements relocation rewritten)
    (scopesInside : plan.ScopesInside method)
    (resolves : ∀ index, index ≤ method.instructions.size →
      resolve ⟨index⟩ = relocation.place index) :
    builder.body.localVariables.map (fun entry => entry.map resolve) =
      rewritten.localVariables := by
  rw [isWritten.scopes, isMadeFrom.scopes, Array.map_map]
  refine Array.map_congr_left fun entry member => ?_
  obtain ⟨isEntry, isKept⟩ := Array.mem_filter.mp member
  have upToEnd := scopesInside entry isEntry isKept
  have start := resolves entry.start (upToEnd _ (by simp [LocalVariable.labels]))
  have stop := resolves entry.stop (upToEnd _ (by simp [LocalVariable.labels]))
  change (plan.movedVariable CodeLabel.mk entry).map resolve = _
  unfold MethodPlan.movedVariable
  split <;> simp only [LocalVariable.map, start, stop]

theorem map_lines
    (isWritten : IsWrittenFor plan method replacements builder)
    (isMadeFrom : IsMadeFrom plan method replacements relocation rewritten)
    (areReplacements : AreReplacements plan method replacements) :
    builder.body.lines.map (fun line =>
      line.map fun label => (builder.place? label).getD 0) = rewritten.lines := by
  rw [isMadeFrom.lines, ← Array.toList_inj, isWritten.places.map_lines,
    areReplacements.map_marksFrom, isMadeFrom.isRelocation]

/-- All labels that the body mentions have places. -/
theorem isSome_place?
    (isWritten : IsWrittenFor plan method replacements builder)
    (isMadeFrom : IsMadeFrom plan method replacements relocation rewritten)
    (inside : method.TargetsInside)
    (scopesInside : plan.ScopesInside method)
    (detected : IsDetected firstId sorted plan.lambdaSites)
    (areReplacements : AreReplacements plan method replacements)
    {label : CodeLabel}
    (member : label ∈ builder.body.labels) :
    (builder.place? label).isSome = true := by
  have isPlaced {index : Nat} (upToEnd : index ≤ method.instructions.size) :
      (builder.place? ⟨index⟩).isSome = true := by
    rw [isWritten.place?_eq isMadeFrom areReplacements upToEnd]
    rfl
  unfold CodeBody.labels at member
  rcases List.mem_append.mp member with inBody | isLine
  · rcases List.mem_append.mp inBody with inCode | isScope
    · rcases List.mem_append.mp inCode with isTarget | isHandler
      · rw [isWritten.instructions] at isTarget
        obtain ⟨moved, isMoved, isTarget⟩ := List.mem_flatMap.mp isTarget
        obtain ⟨instruction, isInstruction, rfl⟩ := List.mem_map.mp isMoved
        obtain ⟨target, targets, rfl⟩ := Instruction.mem_targets_map isTarget
        exact isPlaced (targets_le inside detected areReplacements isInstruction targets)
      · rw [isWritten.handlers] at isHandler
        obtain ⟨moved, isMoved, isHandler⟩ := List.mem_flatMap.mp isHandler
        obtain ⟨range, isRange, rfl⟩ := Array.mem_map.mp (Array.mem_toList_iff.mp isMoved)
        obtain ⟨ordered, stops, handles⟩ :=
          inside.handlers range (Array.mem_toList_iff.mpr (Array.mem_filter.mp isRange).1)
        simp only [ExceptionRange.labels, ExceptionRange.map, List.mem_cons, List.not_mem_nil,
          or_false] at isHandler
        rcases isHandler with rfl | rfl | rfl
        · exact isPlaced (Nat.le_trans ordered stops)
        · exact isPlaced stops
        · exact isPlaced (Nat.le_of_lt handles)
    · rw [isWritten.scopes] at isScope
      obtain ⟨moved, isMoved, isScope⟩ := List.mem_flatMap.mp isScope
      obtain ⟨entry, isEntry, rfl⟩ := Array.mem_map.mp (Array.mem_toList_iff.mp isMoved)
      obtain ⟨isListed, isKept⟩ := Array.mem_filter.mp isEntry
      have upToEnd := scopesInside entry isListed isKept
      have sameLabels : (plan.movedVariable CodeLabel.mk entry).labels =
          [⟨entry.start⟩, ⟨entry.stop⟩] := by
        unfold MethodPlan.movedVariable
        split <;> rfl
      rw [sameLabels, List.mem_cons, List.mem_singleton] at isScope
      rcases isScope with rfl | rfl
      · exact isPlaced (upToEnd _ (by simp [LocalVariable.labels]))
      · exact isPlaced (upToEnd _ (by simp [LocalVariable.labels]))
  · obtain ⟨line, isListed, rfl⟩ := List.mem_map.mp isLine
    obtain ⟨mark, _, isMark⟩ := isWritten.places.exists_mark_of_mem_lines isListed
    rw [isMark]
    rfl

/-- What is written for a method is the body of the rewritten method, once the labels are replaced
by their places. -/
theorem finishes
    (isWritten : IsWrittenFor plan method replacements builder)
    (isMadeFrom : IsMadeFrom plan method replacements relocation rewritten)
    (inside : method.TargetsInside)
    (scopesInside : plan.ScopesInside method)
    (detected : IsDetected firstId sorted plan.lambdaSites)
    (areReplacements : AreReplacements plan method replacements) :
    builder.Finishes method relocation.place rewritten := by
  have resolves : ∀ index, index ≤ method.instructions.size →
      (builder.place? ⟨index⟩).getD 0 = relocation.place index := by
    intro index upToEnd
    rw [isWritten.place?_eq isMadeFrom areReplacements upToEnd]
    rfl
  refine ⟨?_, fun index upToEnd => isWritten.place?_eq isMadeFrom areReplacements upToEnd, ?_⟩
  · intro place member
    have isListed := Array.mem_toList_iff.mpr member
    rw [isWritten.places.places, List.replicate_zero, List.append_nil] at isListed
    rcases List.mem_append.mp isListed with isPosition | isMark
    · obtain ⟨_, _, rfl⟩ := List.mem_map.mp isPosition
      rfl
    · obtain ⟨_, _, rfl⟩ := List.mem_map.mp isMark
      rfl
  · rw [CodeBuilder.finish_eq_ok fun label member =>
      isWritten.isSome_place? isMadeFrom inside scopesInside detected areReplacements member]
    unfold CodeBody.map
    rw [isWritten.map_instructions isMadeFrom inside detected areReplacements resolves,
      isWritten.map_handlers isMadeFrom inside resolves,
      isWritten.map_scopes isMadeFrom scopesInside resolves,
      isWritten.map_lines isMadeFrom areReplacements]

end IsWrittenFor

end Rewritten

/-! ## Methods that were read -/

section Reading

variable {pool : ConstantPool} {decoded : DecodedCode}

/-- There are as many offsets as instructions. -/
theorem size_of_readInstructions_eq_ok
    {codeLength fuel : Nat}
    {cursor : CodeCursor}
    {offsets starts : Array Nat}
    {before instructions : Array (Instruction Nat)}
    (read : readInstructions pool codeLength fuel cursor offsets before =
      .ok (starts, instructions))
    (sameSize : offsets.size = before.size) :
    starts.size = instructions.size := by
  induction fuel generalizing cursor offsets before with
  | zero =>
      cases read
      exact sameSize
  | succ fuel inductionHypothesis =>
      unfold readInstructions at read
      split at read
      · cases read
        exact sameSize
      · dsimp only at read
        split at read
        · exact inductionHypothesis read (by rw [Array.size_push, Array.size_push, sameSize])
        · cases read

/-- There is one offset more than there are instructions: that of the end of the code. -/
theorem size_offsets_of_decodeCode_eq_ok
    {bytes : Bytes}
    (read : decodeCode bytes pool = .ok decoded) :
    decoded.offsets.size = decoded.instructions.size + 1 := by
  unfold decodeCode at read
  obtain ⟨found, isFound, read⟩ := bind_eq_ok.mp read
  dsimp only at read
  split at read
  · cases read
  · cases read
    rw [Array.size_push, Array.size_map,
      size_of_readInstructions_eq_ok isFound rfl]

/-- Every offset that is found is that of an instruction, or of the end of the code. -/
theorem le_size_of_indexOf_eq_ok
    {offset index : Nat}
    (sizes : decoded.offsets.size = decoded.instructions.size + 1)
    (found : Method.indexOf decoded offset = .ok index) :
    index ≤ decoded.instructions.size := by
  unfold Method.indexOf DecodedCode.indexOf? indexOfOffset? at found
  split at found
  · rename_i isIndex
    dsimp only at isIndex
    split at isIndex
    · rename_i stands
      cases isIndex
      cases found
      have below := (Array.getElem?_eq_some_iff.mp stands).1
      omega
    · cases isIndex
  · cases found

/-- The variables of a method that was read begin and end in its code, or where it ends. -/
theorem MethodPlan.scopesInside_of_ofMember?_eq_ok
    {file : ClassFile}
    {member : Member .method}
    {method : Method}
    (read : Method.ofMember? file member = .ok (some method))
    (plan : MethodPlan) :
    plan.ScopesInside method := by
  unfold Method.ofMember? at read
  obtain ⟨code?, _, read⟩ := bind_eq_ok.mp read
  cases code? with
  | none => cases read
  | some code =>
      obtain ⟨signature, _, read⟩ := bind_eq_ok.mp read
      obtain ⟨owner, _, read⟩ := bind_eq_ok.mp read
      obtain ⟨body, bodyRead, read⟩ := bind_eq_ok.mp read
      cases read
      unfold Method.readBody at bodyRead
      obtain ⟨decoded, isDecoded, bodyRead⟩ := bind_eq_ok.mp bodyRead
      obtain ⟨handlers, _, bodyRead⟩ := bind_eq_ok.mp bodyRead
      obtain ⟨table, _, bodyRead⟩ := bind_eq_ok.mp bodyRead
      obtain ⟨entries, areEntries, bodyRead⟩ := bind_eq_ok.mp bodyRead
      obtain ⟨lines, _, bodyRead⟩ := bind_eq_ok.mp bodyRead
      cases bodyRead
      have sizes := size_offsets_of_decodeCode_eq_ok isDecoded
      intro entry isEntry _ label isLabel
      obtain ⟨raw, _, entryRead⟩ := exists_mem_of_forall₂ (forall₂_of_mapM_eq_ok areEntries)
        (List.mem_toArray.mp isEntry)
      unfold Method.readVariable at entryRead
      obtain ⟨name, _, entryRead⟩ := bind_eq_ok.mp entryRead
      obtain ⟨start, startFound, entryRead⟩ := bind_eq_ok.mp entryRead
      obtain ⟨stop, stopFound, entryRead⟩ := bind_eq_ok.mp entryRead
      obtain ⟨unqualified, _, entryRead⟩ := bind_eq_ok.mp entryRead
      obtain ⟨descriptor, _, entryRead⟩ := bind_eq_ok.mp entryRead
      obtain ⟨type, _, entryRead⟩ := bind_eq_ok.mp entryRead
      cases entryRead
      rcases List.mem_cons.mp isLabel with rfl | isStop
      · exact le_size_of_indexOf_eq_ok sizes startFound
      · rw [List.mem_singleton.mp isStop]
        exact le_size_of_indexOf_eq_ok sizes stopFound

end Reading

/-! ## Planned methods -/

/-- Every planned method that is rewritten can be written through labels, none of which is placed
twice and all of which are placed. Where they are placed is where the positions of the method
went: the boxes are made once, before all of them, and the order of the positions outside the
sites is kept. -/
theorem Method.rewrite_repositions
    {Memory : Type}
    {method rewritten : Method}
    {calls : List Nat}
    {firstId : Nat}
    {settings : Settings}
    {hierarchy : Hierarchy}
    {convention : Convention Memory}
    {planningPlace rewritingPlace : Place}
    {before after : Memory}
    {plan : MethodPlan}
    (planned : planMethod method calls firstId settings hierarchy convention planningPlace before =
      .ok plan after)
    (scopesInside : plan.ScopesInside method)
    (computed : method.rewrite plan rewritingPlace = .ok rewritten) :
    ∃ position builder, method.writeLabelled plan = some builder ∧
      builder.Finishes method position rewritten ∧
      IsRepositioned plan method position rewritten := by
  obtain ⟨analysis, between, analyzed, sitesDetected⟩ :=
    exists_detectSites_of_planMethod_eq_ok planned
  obtain ⟨sorted, detected⟩ := detectSites_isDetected sitesDetected
  obtain ⟨_, inside, _⟩ := Method.exists_run_of_analyze_eq_ok analyzed
  have within : ∀ site ∈ plan.lambdaSites, site.stop ≤ method.instructions.size :=
    fun site member => stop_le_size_of_detectSites sitesDetected member
  obtain ⟨replacements, relocation, replaced, isMadeFrom⟩ := isMadeFrom_of_rewrite_eq_ok computed
  have areReplacements :=
    areReplacements_of_replacements_eq_ok (detected.areApart none) within replaced
  obtain ⟨builder, isBuilder, isWritten⟩ := areReplacements.exists_writeLabelled replaced
  exact ⟨relocation.place, builder, isBuilder,
    isWritten.finishes isMadeFrom inside scopesInside detected areReplacements,
    isMadeFrom.isRepositioned inside detected within areReplacements⟩

open TwoScopes in
/-- In a method with a box, what makes the box comes first. The accesses to the variable take more
instructions than they did, and the end of the code stays where it ends. -/
theorem oneScope_isRepositioned :
    planMethod unsplit [8] 0 .standard hierarchy convention .unknown () = .ok (plan 4) () ∧
      (plan 4).ScopesInside unsplit ∧
      ∃ rewritten position builder,
        unsplit.rewrite (plan 4) .unknown = .ok rewritten ∧
        unsplit.writeLabelled (plan 4) = some builder ∧
        builder.Finishes unsplit position rewritten ∧
        IsRepositioned (plan 4) unsplit position rewritten ∧
        (List.range 13).map position = [7, 8, 9, 10, 15, 16, 17, 18, 22, 22, 29, 36, 37] := by
  have planned : planMethod unsplit [8] 0 .standard hierarchy convention .unknown () =
      .ok (plan 4) () :=
    planMethod_eq_ok.mpr ⟨frames 2, [site], captures 4, [step], [className], (),
      by decide +kernel, by with_unfolding_all rfl, by with_unfolding_all rfl,
      abstractMethods_eq, by decide +kernel, rfl⟩
  have scopesInside : (plan 4).ScopesInside unsplit := by decide
  obtain ⟨rewritten, computed⟩ : ∃ rewritten, unsplit.rewrite (plan 4) .unknown = .ok rewritten :=
    ⟨_, by with_unfolding_all rfl⟩
  obtain ⟨position, builder, written, finishes, repositioned⟩ :=
    Method.rewrite_repositions planned scopesInside computed
  refine ⟨planned, scopesInside, rewritten, position, builder, computed, written, finishes,
    repositioned, ?_⟩
  have places : (unsplit.writeLabelled (plan 4)).map (fun builder =>
      (List.range 13).map fun index => builder.place? ⟨index⟩) =
        some ([7, 8, 9, 10, 15, 16, 17, 18, 22, 22, 29, 36, 37].map some) := by
    with_unfolding_all rfl
  rw [written] at places
  have same : (List.range 13).map (fun index => builder.place? ⟨index⟩) =
      ((List.range 13).map position).map some := by
    rw [List.map_map]
    exact List.map_congr_left fun index member =>
      finishes.positions index (Nat.le_of_lt_succ (List.mem_range.mp member))
  exact (List.map_inj_right fun _ _ => Option.some.inj).mp
    (same.symm.trans (Option.some.inj places))

end ClosureConversion
