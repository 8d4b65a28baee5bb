import ClosureConversion.Proofs.Closure.Handlers
import ClosureConversion.Proofs.Rewriting.Planning

/-!
Contract: where the positions of a method are in the rewritten method.

Owns:
- the places of positions in replaced code: their order, and what is placed between two of them;
- the pieces of a planned method: where they begin, and what they belong to;
- the code that is added has no jumps.

Does not own: how the places are found while the code is written.
-/

namespace ClosureConversion

/-! ## Places in order -/

section Places

variable {start middle last : Nat} {front replacements : List Replacement}
  {replacement : Replacement}

theorem le_of_mem_placesFrom
    {next place : Nat}
    (member : place ∈ placesFrom next replacements) :
    next ≤ place := by
  induction replacements generalizing next with
  | nil => exact Nat.le_of_eq (List.mem_singleton.mp member).symm
  | cons replacement rest inductionHypothesis =>
      rw [placesFrom, List.cons_append, List.mem_cons, List.mem_append] at member
      rcases member with rfl | inside | later
      · exact Nat.le_refl _
      · rw [List.eq_of_mem_replicate inside]
        exact Nat.le_add_right _ _
      · exact Nat.le_trans (Nat.le_add_right _ _) (inductionHypothesis later)

theorem pairwise_placesFrom
    (next : Nat)
    (replacements : List Replacement) :
    (placesFrom next replacements).Pairwise (· ≤ ·) := by
  induction replacements generalizing next with
  | nil => exact List.pairwise_singleton _ _
  | cons replacement rest inductionHypothesis =>
      have later := inductionHypothesis (next + replacement.code.length)
      rw [placesFrom, List.cons_append, List.pairwise_cons, List.pairwise_append]
      refine ⟨?_, List.pairwise_replicate.mpr (.inr (Nat.le_refl _)), later, ?_⟩
      · intro place member
        rcases List.mem_append.mp member with inside | isLater
        · rw [List.eq_of_mem_replicate inside]
          exact Nat.le_add_right _ _
        · exact Nat.le_trans (Nat.le_add_right _ _) (le_of_mem_placesFrom isLater)
      · intro inside isInside place isLater
        rw [List.eq_of_mem_replicate isInside]
        exact le_of_mem_placesFrom isLater

/-- The positions after the first spans are placed after the code that replaces these. -/
theorem drop_placesFrom
    (next : Nat)
    (tiles : Tiles start (front.map Replacement.span) middle)
    (nonempty : ∀ other ∈ front, other.span.start < other.span.stop)
    (back : List Replacement) :
    (placesFrom next (front ++ back)).drop (middle - start) =
      placesFrom (next + (front.flatMap Replacement.code).length) back := by
  induction front generalizing start next with
  | nil =>
      have equal : start = middle := tiles
      rw [equal, Nat.sub_self]
      rfl
  | cons first front inductionHypothesis =>
      obtain ⟨rfl, rest⟩ := tiles
      have firstNonempty := nonempty first List.mem_cons_self
      have restNonempty : ∀ other ∈ front, other.span.start < other.span.stop :=
        fun other member => nonempty other (List.mem_cons_of_mem _ member)
      have within := (rest.within (by
        intro span member
        obtain ⟨other, isOther, rfl⟩ := List.mem_map.mp member
        exact Nat.le_of_lt (restNonempty other isOther))).1
      have split : middle - first.span.start =
          (first.span.length - 1 + 1) + (middle - first.span.stop) := by
        unfold Span.length
        omega
      have firstLength : (List.replicate (first.span.length - 1)
          (next + first.code.length)).length = first.span.length - 1 :=
        List.length_replicate
      rw [split, ← List.drop_drop, List.cons_append, placesFrom, List.cons_append,
        List.drop_succ_cons, List.drop_left' firstLength,
        inductionHypothesis (next + first.code.length) rest restNonempty, List.flatMap_cons,
        List.length_append, Nat.add_assoc]

/-- The positions of a span but the first go to the end of what replaces the span. -/
theorem getElem?_placesFrom_inside
    {next index : Nat}
    {back : List Replacement}
    (tiles : Tiles start (front.map Replacement.span) replacement.span.start)
    (nonempty : ∀ other ∈ front, other.span.start < other.span.stop)
    (afterStart : replacement.span.start < index)
    (upToStop : index ≤ replacement.span.stop) :
    (placesFrom next (front ++ replacement :: back))[index - start]? =
      some (next + (front.flatMap Replacement.code).length + replacement.code.length) := by
  have within := (tiles.within (by
    intro span member
    obtain ⟨other, isOther, rfl⟩ := List.mem_map.mp member
    exact Nat.le_of_lt (nonempty other isOther))).1
  have split : index - start =
      (replacement.span.start - start) + (index - replacement.span.start) := by
    omega
  have offset : index - replacement.span.start =
      (index - replacement.span.start - 1) + 1 := by
    omega
  rw [split, ← List.getElem?_drop, drop_placesFrom next tiles nonempty, offset, placesFrom,
    List.cons_append, List.getElem?_cons_succ]
  by_cases isLast : index = replacement.span.stop
  · rw [List.getElem?_append_right (by rw [List.length_replicate, isLast]; exact Nat.le_refl _),
      List.length_replicate, isLast, Span.length, Nat.sub_self]
    exact getElem?_placesFrom_zero
  · have inside : index - replacement.span.start - 1 < replacement.span.length - 1 := by
      unfold Span.length
      omega
    rw [List.getElem?_append_left (by rw [List.length_replicate]; exact inside),
      List.getElem?_replicate, if_pos inside]

/-- Whatever stands in replaced code stands in what replaces one of the spans. -/
theorem exists_of_lt_length_code
    {offset : Nat}
    (isInside : offset < (replacements.flatMap Replacement.code).length) :
    ∃ front replacement back, replacements = front ++ replacement :: back ∧
      (front.flatMap Replacement.code).length ≤ offset ∧
      offset < (front.flatMap Replacement.code).length + replacement.code.length := by
  induction replacements generalizing offset with
  | nil => exact absurd isInside (Nat.not_lt_zero offset)
  | cons first rest inductionHypothesis =>
      by_cases inFirst : offset < first.code.length
      · exact ⟨[], first, rest, rfl, Nat.zero_le _, by simpa using inFirst⟩
      · rw [List.flatMap_cons, List.length_append] at isInside
        have inRest : offset - first.code.length < (rest.flatMap Replacement.code).length := by
          omega
        obtain ⟨front, replacement, back, rfl, fromFront, below⟩ := inductionHypothesis inRest
        refine ⟨first :: front, replacement, back, rfl, ?_, ?_⟩
        · rw [List.flatMap_cons, List.length_append]
          omega
        · rw [List.flatMap_cons, List.length_append]
          omega

end Places

/-! ## Pieces of a planned method -/

section Pieces

variable {sites : List LambdaSite} {parent : Option Nat}

/-- A piece begins where no site is cut, and it is what begins there. -/
theorem start_of_mem_piecesFrom
    (apart : AreApart sites parent)
    {stop index : Nat}
    (isUncut : IsUncut sites parent index)
    {piece : Piece}
    (member : piece ∈ piecesFrom sites parent stop index) :
    IsUncut sites parent piece.span.start ∧ piece.span.start < stop ∧
      pieceAt sites parent piece.span.start = piece := by
  fun_induction piecesFrom sites parent stop index with
  | case1 index isBefore inductionHypothesis =>
      rcases List.mem_cons.mp member with rfl | isLater
      · rw [start_pieceAt]
        exact ⟨isUncut, isBefore, rfl⟩
      · exact inductionHypothesis (isUncut_stop_pieceAt apart isUncut) isLater
  | case2 index notBefore => cases member

/-- The pieces of a span end where the span ends, if no site goes beyond it. -/
theorem tiles_piecesFrom
    (apart : AreApart sites parent)
    {stop index : Nat}
    (within : ∀ site ∈ sites, site.stop ≤ stop)
    (upToStop : index ≤ stop) :
    Tiles index ((piecesFrom sites parent stop index).map Piece.span) stop := by
  fun_induction piecesFrom sites parent stop index with
  | case1 index isBefore inductionHypothesis =>
      refine ⟨start_pieceAt parent index, inductionHypothesis ?_⟩
      rcases pieceAt_eq apart index with ⟨number, site, isSite, _, _, piece⟩ | ⟨_, piece⟩
      · rw [piece]
        exact within site (List.mem_of_getElem? isSite)
      · rw [piece]
        exact isBefore
  | case2 index notBefore => exact Nat.le_antisymm upToStop (Nat.not_lt.mp notBefore)

instance (sites : List LambdaSite) (parent : Option Nat) (index : Nat) :
    Decidable (IsUncut sites parent index) :=
  inferInstanceAs (Decidable (∀ site ∈ sites, site.parent = parent → site.isCutAt index = false))

/-- Between its start and its stop a piece is cut everywhere. -/
theorem not_isUncut_of_lt_stop_pieceAt
    (apart : AreApart sites parent)
    {start index : Nat}
    (afterStart : start < index)
    (beforeStop : index < (pieceAt sites parent start).span.stop) :
    ¬IsUncut sites parent index := by
  intro isUncut
  rcases pieceAt_eq apart start with ⟨number, site, isSite, isChild, starts, piece⟩ | ⟨_, piece⟩
  · rw [piece] at beforeStop
    have reaches := LambdaSite.isCutAt_eq_false_iff.mp
      (isUncut site (List.mem_of_getElem? isSite) isChild) (by omega)
    exact Nat.lt_irrefl _ (Nat.lt_of_lt_of_le beforeStop reaches)
  · rw [piece] at beforeStop
    change index < start + 1 at beforeStop
    omega

/-- The pieces of a span begin at the indices at which no site is cut. -/
theorem map_start_piecesFrom
    (apart : AreApart sites parent)
    {stop index : Nat}
    (within : ∀ site ∈ sites, site.stop ≤ stop)
    (isUncut : IsUncut sites parent index) :
    (piecesFrom sites parent stop index).map (fun piece => piece.span.start) =
      (List.range' index (stop - index)).filter fun other =>
        decide (IsUncut sites parent other) := by
  fun_induction piecesFrom sites parent stop index with
  | case1 index isBefore inductionHypothesis =>
      have after := lt_stop_pieceAt sites parent index
      have reaches : (pieceAt sites parent index).span.stop ≤ stop := by
        rcases pieceAt_eq apart index with ⟨number, site, isSite, _, _, piece⟩ | ⟨_, piece⟩
        · rw [piece]
          exact within site (List.mem_of_getElem? isSite)
        · rw [piece]
          exact isBefore
      have inPiece : List.range' index ((pieceAt sites parent index).span.stop - index) =
          index :: List.range' (index + 1)
            ((pieceAt sites parent index).span.stop - index - 1) := by
        rw [← List.range'_succ, Nat.sub_add_cancel (by omega)]
      have split : List.range' index (stop - index) =
          List.range' index ((pieceAt sites parent index).span.stop - index) ++
            List.range' (pieceAt sites parent index).span.stop
              (stop - (pieceAt sites parent index).span.stop) := by
        have lengths : stop - index = ((pieceAt sites parent index).span.stop - index) +
            (stop - (pieceAt sites parent index).span.stop) := by
          omega
        rw [lengths, ← List.range'_append_1, Nat.add_sub_cancel' (Nat.le_of_lt after)]
      have noneInside : (List.range' (index + 1)
          ((pieceAt sites parent index).span.stop - index - 1)).filter
            (fun other => decide (IsUncut sites parent other)) = [] := by
        refine List.filter_eq_nil_iff.mpr fun other member => ?_
        rw [List.mem_range'_1] at member
        rw [decide_eq_true_eq]
        exact not_isUncut_of_lt_stop_pieceAt apart member.1 (by omega)
      rw [List.map_cons, start_pieceAt, inductionHypothesis (isUncut_stop_pieceAt apart isUncut),
        split, inPiece, List.filter_append, List.filter_cons, if_pos (decide_eq_true isUncut),
        noneInside]
      rfl
  | case2 index notBefore =>
      rw [Nat.sub_eq_zero_of_le (Nat.not_lt.mp notBefore)]
      rfl

end Pieces

/-- Every detected site ends within the code. -/
theorem stop_le_size_of_detectSites
    {Memory : Type}
    {method : Method}
    {analysis : FlowAnalysis}
    {calls : List Nat}
    {firstId : Nat}
    {hierarchy : Hierarchy}
    {convention : Convention Memory}
    {place : Place}
    {before after : Memory}
    {sites : List LambdaSite}
    (detected : detectSites method analysis calls firstId hierarchy convention place before =
      .ok sites after)
    {site : LambdaSite}
    (member : site ∈ sites) :
    site.stop ≤ method.instructions.size := by
  obtain ⟨call, _, raw, earlier, later, read, equal⟩ := exists_readSite_of_mem detected member
  obtain ⟨absorbsCast, _, factoryFound, produced, _, _, _, stopEq⟩ := readSite_eq_ok read
  rw [equal]
  change raw.stop ≤ _
  rw [stopEq]
  cases absorbsCast with
  | true =>
      rw [if_pos rfl]
      obtain ⟨below, _⟩ := Array.getElem?_eq_some_iff.mp (isCast_of_producedType? produced)
      exact below
  | false =>
      rw [if_neg Bool.false_ne_true]
      unfold factoryAt at factoryFound
      split at factoryFound
      · rename_i isCall
        exact (Array.getElem?_eq_some_iff.mp isCall).1
      · cases factoryFound
      · cases factoryFound

/-! ## Code without jumps -/

namespace Instruction

variable {Label Target : Type}

/-- Replacing the positions of an instruction only depends on those that it jumps to. -/
theorem map_congr
    {f g : Label → Target}
    {instruction : Instruction Label}
    (same : ∀ target ∈ instruction.targets, f target = g target) :
    instruction.map f = instruction.map g := by
  cases instruction with
  | branch condition target => exact congrArg _ (same target List.mem_cons_self)
  | goto target => exact congrArg _ (same target List.mem_cons_self)
  | tableSwitch default low targets =>
      have first := same default List.mem_cons_self
      have others : targets.map f = targets.map g :=
        List.map_congr_left fun target member => same target (List.mem_cons_of_mem _ member)
      rw [map, map, first, others]
  | lookupSwitch default targets =>
      have first := same default List.mem_cons_self
      have others : targets.map (fun entry => (entry.1, f entry.2)) =
          targets.map fun entry => (entry.1, g entry.2) :=
        List.map_congr_left fun entry member =>
          congrArg (Prod.mk entry.1)
            (same entry.2 (List.mem_cons_of_mem _ (List.mem_map_of_mem member)))
      exact congrArg₂ Instruction.lookupSwitch first others
  | _ => rfl

theorem map_id
    (instruction : Instruction Label) :
    instruction.map id = instruction := by
  cases instruction <;> simp [map]

theorem map_map
    {Other : Type}
    (f : Label → Target)
    (g : Target → Other)
    (instruction : Instruction Label) :
    (instruction.map f).map g = instruction.map fun label => g (f label) := by
  cases instruction <;> simp [map]

/-- An instruction without jumps is the same wherever positions go. -/
theorem map_of_targets_eq_nil
    {f : Label → Label}
    {instruction : Instruction Label}
    (noTargets : instruction.targets = []) :
    instruction.map f = instruction :=
  (map_congr (by simp [noTargets])).trans instruction.map_id

theorem mem_targets_map
    {f : Label → Target}
    {instruction : Instruction Label}
    {place : Target}
    (member : place ∈ (instruction.map f).targets) :
    ∃ target ∈ instruction.targets, f target = place := by
  cases instruction with
  | branch condition target => exact ⟨target, List.mem_cons_self, (List.mem_singleton.mp member).symm⟩
  | goto target => exact ⟨target, List.mem_cons_self, (List.mem_singleton.mp member).symm⟩
  | tableSwitch default low others => simpa [map, targets, eq_comm] using member
  | lookupSwitch default others =>
      rcases List.mem_cons.mp member with rfl | later
      · exact ⟨default, List.mem_cons_self, rfl⟩
      · obtain ⟨moved, isMoved, rfl⟩ := List.mem_map.mp later
        obtain ⟨entry, isEntry, rfl⟩ := List.mem_map.mp isMoved
        exact ⟨entry.2, List.mem_cons_of_mem _ (List.mem_map_of_mem isEntry), rfl⟩
  | _ => cases member

end Instruction

/-- Code without jumps. -/
def HasNoJumps (code : List (Instruction Nat)) : Prop :=
  ∀ instruction ∈ code, instruction.targets = []

section NoJumps

variable {code first second : List (Instruction Nat)}

@[simp]
theorem hasNoJumps_nil :
    HasNoJumps [] := by
  simp [HasNoJumps]

@[simp]
theorem hasNoJumps_cons
    {instruction : Instruction Nat} :
    HasNoJumps (instruction :: code) ↔ instruction.targets = [] ∧ HasNoJumps code := by
  simp [HasNoJumps]

@[simp]
theorem hasNoJumps_append :
    HasNoJumps (first ++ second) ↔ HasNoJumps first ∧ HasNoJumps second :=
  List.forall_mem_append

theorem HasNoJumps.map_eq
    (noJumps : HasNoJumps code)
    (f : Nat → Nat) :
    code.map (fun instruction => instruction.map f) = code :=
  (List.map_congr_left fun instruction member =>
    Instruction.map_of_targets_eq_nil (noJumps instruction member)).trans code.map_id

theorem hasNoJumps_boxCode
    {push : List (Instruction Nat)}
    (pushes : HasNoJumps push)
    (type : FieldType)
    (operation : BoxOperation) :
    HasNoJumps (operation.code push type) := by
  refine hasNoJumps_append.mpr ⟨pushes, ?_⟩
  have insertsIndex : HasNoJumps (insertIndex type) := by
    unfold insertIndex
    split <;> simp [Instruction.targets]
  cases operation with
  | load => simp [BoxOperation.body, Instruction.targets]
  | store => simp [BoxOperation.body, Instruction.targets, insertsIndex]
  | increment amount => simp [BoxOperation.body, Instruction.targets]

theorem hasNoJumps_makeBox
    (boxed : BoxedLocal) :
    HasNoJumps (MethodPlan.makeBox boxed) := by
  have pushesFirst : ((firstValue boxed.type : Instruction Nat)).targets = [] := by
    unfold firstValue
    split <;> rfl
  have makesArray : (newArrayOf boxed.type : Instruction Nat).targets = [] := by
    unfold newArrayOf
    split <;> rfl
  have makes {value : Instruction Nat} (pushes : value.targets = []) :
      HasNoJumps (newBox boxed.type [value]) := by
    simp only [newBox, hasNoJumps_append, hasNoJumps_cons, hasNoJumps_nil, and_true]
    exact ⟨⟨⟨rfl, makesArray, rfl, rfl⟩, pushes⟩, rfl⟩
  refine hasNoJumps_append.mpr ⟨makes ?_, by simp [Instruction.targets]⟩
  split
  · rfl
  · exact pushesFirst

theorem hasNoJumps_construct
    {plan : MethodPlan}
    {sitePlan : SitePlan}
    (made : sitePlan.construct plan.loadCapture = .ok code) :
    HasNoJumps code := by
  unfold SitePlan.construct at made
  obtain ⟨loads, loaded, made⟩ := bind_eq_ok.mp made
  cases made
  refine hasNoJumps_append.mpr ⟨hasNoJumps_append.mpr ⟨by simp [Instruction.targets], ?_⟩,
    by simp [Instruction.targets]⟩
  intro instruction member
  obtain ⟨load, isLoad, inLoad⟩ := List.mem_flatten.mp member
  obtain ⟨capture, _, isCode⟩ := exists_mem_of_forall₂ (forall₂_of_mapM_eq_ok loaded) isLoad
  have noJumps : HasNoJumps load := by
    unfold MethodPlan.loadCapture at isCode
    split at isCode
    · cases isCode
      simp [Instruction.targets]
    · split at isCode <;> cases isCode <;> simp [Instruction.targets]
    · cases isCode
  exact noJumps instruction inLoad

end NoJumps

/-! ## Rewritten methods -/

namespace MethodPlan

/-- The box of the variable that an instruction accesses, if it has one. -/
def boxAccessed? (plan : MethodPlan) (method : Method) (index : Nat)
    (instruction : Instruction Nat) : Option BoxedLocal :=
  (method.variableKeyAt? index instruction).bind (boxOf? plan.boxes)

/-- Whether a variable is declared outside the sites. -/
def keepsVariable (plan : MethodPlan) (entry : LocalVariable Nat) : Bool :=
  !plan.outermost.any fun site => site.declares entry.start

/-- A variable that is kept, in its box if it has one, where positions go elsewhere. -/
def movedVariable {Label : Type} (plan : MethodPlan) (position : Nat → Label)
    (entry : LocalVariable Nat) : LocalVariable Label :=
  match boxOf? plan.boxes (.local entry.slot entry.start) with
  | some boxed =>
      { entry.map position with slot := boxed.boxSlot, type := entry.type.arrayOf }
  | none => entry.map position

end MethodPlan

/-- A rewritten method is the method with its positions moved: boxes are made first, the
instructions outside the sites that nest in no other one follow in order, and for each of these
sites there is the construction of its closure. -/
structure IsRepositioned (plan : MethodPlan) (method : Method) (position : Nat → Nat)
    (rewritten : Method) : Prop where
  increasing : ∀ first second, IsUncut plan.lambdaSites none first →
    IsUncut plan.lambdaSites none second → first < second →
    second ≤ method.instructions.size → position first < position second
  endUncut : IsUncut plan.lambdaSites none method.instructions.size
  last : position method.instructions.size = rewritten.instructions.size
  inside : ∀ site ∈ plan.lambdaSites, site.parent = none → ∀ index, site.start < index →
    index < site.stop → position index = position site.stop
  prologue : instructionsIn rewritten.instructions ⟨0, position 0⟩ =
    plan.boxes.flatMap MethodPlan.makeBox
  instruction : ∀ index instruction, method.instructions[index]? = some instruction →
    IsOutside plan.lambdaSites index → plan.boxAccessed? method index instruction = none →
    rewritten.instructions[position index]? = some (instruction.map position) ∧
      position (index + 1) = position index + 1
  access : ∀ index instruction boxed, method.instructions[index]? = some instruction →
    IsOutside plan.lambdaSites index →
    plan.boxAccessed? method index instruction = some boxed →
    instructionsIn rewritten.instructions ⟨position index, position (index + 1)⟩ =
      (MethodPlan.boxOperation instruction).code [.load .reference boxed.boxSlot] boxed.type
  construction : ∀ sitePlan ∈ plan.sites, sitePlan.site.parent = none →
    ∃ code, sitePlan.construct plan.loadCapture = .ok code ∧
      instructionsIn rewritten.instructions
        ⟨position sitePlan.site.start, position sitePlan.site.stop⟩ = code
  nothingElse : ∀ place, place < rewritten.instructions.size →
    place < position 0 ∨
      (∃ index, index < method.instructions.size ∧ IsOutside plan.lambdaSites index ∧
        position index ≤ place ∧ place < position (index + 1)) ∨
      ∃ site ∈ plan.lambdaSites, site.parent = none ∧
        position site.start ≤ place ∧ place < position site.stop
  afterPrologue : (∀ instruction ∈ rewritten.instructions, ∀ target ∈ instruction.targets,
      position 0 ≤ target) ∧
    ∀ range ∈ rewritten.handlers, ∀ label ∈ range.labels, position 0 ≤ label
  handlers : rewritten.handlers =
    (method.handlers.filter fun range => !plan.movedAway range).map fun range =>
      range.map position
  scopes : rewritten.localVariables =
    (method.localVariables.filter plan.keepsVariable).map (plan.movedVariable position)
  lines : rewritten.lines.toList =
    ((List.range method.instructions.size).filter fun index =>
      decide (IsUncut plan.lambdaSites none index)).filterMap fun index =>
        (method.lines.find? fun line => line.start = index).map fun line =>
          ⟨position index, line.line⟩

section Rewritten

variable {plan : MethodPlan} {method : Method}

/-- What replaces the code of a method: code for each piece, one after another. -/
structure AreReplacements (plan : MethodPlan) (method : Method) (replacements : List Replacement) :
    Prop where
  forPieces : List.Forall₂ (fun piece replacement => replacement.span = piece.span ∧
      plan.pieceCode method piece = .ok replacement.code)
    (piecesOf plan.lambdaSites none ⟨0, method.instructions.size⟩) replacements
  tiles : Tiles 0 (replacements.map Replacement.span) method.instructions.size
  nonempty : ∀ replacement ∈ replacements, replacement.span.start < replacement.span.stop

theorem areReplacements_of_replacements_eq_ok
    {replacements : List Replacement}
    (apart : AreApart plan.lambdaSites none)
    (within : ∀ site ∈ plan.lambdaSites, site.stop ≤ method.instructions.size)
    (computed : plan.replacements method = .ok replacements) :
    AreReplacements plan method replacements := by
  have each := forall₂_of_replacements_eq_ok computed
  obtain ⟨spans, nonempty, _⟩ := tiles_of_forall₂ (each.imp fun _ _ isFor => isFor.1)
  refine ⟨each, ?_, nonempty⟩
  rw [spans]
  exact tiles_piecesFrom apart within (Nat.zero_le _)

namespace AreReplacements

variable {replacements front back : List Replacement} {replacement : Replacement}

/-- The first position of a piece is placed where its code begins, and all others up to its stop
where its code ends. -/
theorem place_eq
    (areReplacements : AreReplacements plan method (front ++ replacement :: back))
    (next : Nat) :
    (Relocation.ofReplacements 0 next (front ++ replacement :: back)).place
        replacement.span.start = next + (front.flatMap Replacement.code).length ∧
      ∀ index, replacement.span.start < index → index ≤ replacement.span.stop →
        (Relocation.ofReplacements 0 next (front ++ replacement :: back)).place index =
          next + (front.flatMap Replacement.code).length + replacement.code.length := by
  refine ⟨Relocation.place_ofReplacements (Nat.zero_le _)
    (getElem?_placesFrom next areReplacements.tiles areReplacements.nonempty).1, ?_⟩
  intro index afterStart upToStop
  have tiles := areReplacements.tiles
  rw [List.map_append, List.map_cons] at tiles
  obtain ⟨middle, tilesFront, starts, _⟩ := tiles.split
  rw [← starts] at tilesFront
  exact Relocation.place_ofReplacements (Nat.zero_le _) (getElem?_placesFrom_inside tilesFront
    (fun other member => areReplacements.nonempty other (List.mem_append_left _ member))
    afterStart upToStop)

theorem place_mono
    (areReplacements : AreReplacements plan method replacements)
    (next : Nat)
    {first second : Nat}
    (ordered : first ≤ second)
    (within : second ≤ method.instructions.size) :
    (Relocation.ofReplacements 0 next replacements).place first ≤
      (Relocation.ofReplacements 0 next replacements).place second := by
  have length := length_placesFrom next areReplacements.tiles areReplacements.nonempty
  have hasPlace {index : Nat} (inside : index ≤ method.instructions.size) :
      ∃ below : index < (placesFrom next replacements).length,
        (Relocation.ofReplacements 0 next replacements).place index =
          (placesFrom next replacements)[index] := by
    have below : index < (placesFrom next replacements).length := by omega
    exact ⟨below, Relocation.place_ofReplacements (Nat.zero_le _)
      (List.getElem?_eq_getElem below)⟩
  obtain ⟨firstBelow, firstPlace⟩ := hasPlace (Nat.le_trans ordered within)
  obtain ⟨secondBelow, secondPlace⟩ := hasPlace within
  rw [firstPlace, secondPlace]
  rcases Nat.eq_or_lt_of_le ordered with rfl | before
  · exact Nat.le_refl _
  · exact List.pairwise_iff_getElem.mp (pairwise_placesFrom next replacements) first second
      firstBelow secondBelow before

/-- The prologue ends where the first position is placed. -/
theorem place_zero
    (next : Nat)
    (replacements : List Replacement) :
    (Relocation.ofReplacements 0 next replacements).place 0 = next :=
  Relocation.place_ofReplacements (Nat.le_refl 0) getElem?_placesFrom_zero

theorem place_size
    (areReplacements : AreReplacements plan method replacements)
    (next : Nat) :
    (Relocation.ofReplacements 0 next replacements).place method.instructions.size =
      next + (replacements.flatMap Replacement.code).length := by
  have dropped := drop_placesFrom next areReplacements.tiles areReplacements.nonempty []
  rw [List.append_nil, Nat.sub_zero] at dropped
  refine Relocation.place_ofReplacements (Nat.zero_le _) ?_
  rw [Nat.sub_zero, ← Nat.add_zero method.instructions.size, ← List.getElem?_drop, dropped]
  rfl

/-- A piece is a site that nests in no other one, or an instruction outside all sites. -/
theorem piece_cases
    {firstId : Nat}
    {sorted : List LambdaSite}
    (detected : IsDetected firstId sorted plan.lambdaSites)
    (areReplacements : AreReplacements plan method replacements)
    (member : replacement ∈ replacements) :
    (∃ sitePlan ∈ plan.sites, sitePlan.site.parent = none ∧
        replacement.span = sitePlan.site.span ∧
        sitePlan.construct plan.loadCapture = .ok replacement.code) ∨
      ∃ index instruction, replacement.span = ⟨index, index + 1⟩ ∧
        method.instructions[index]? = some instruction ∧ IsOutside plan.lambdaSites index ∧
        replacement.code = plan.instructionCode method index instruction := by
  obtain ⟨piece, isPiece, sameSpan, isCode⟩ :=
    exists_mem_of_forall₂ areReplacements.forPieces member
  have apart := detected.areApart none
  obtain ⟨isUncut, below, isPieceAt⟩ := start_of_mem_piecesFrom apart
    (fun _ _ _ => by simp [LambdaSite.isCutAt]) isPiece
  rcases pieceAt_eq apart piece.span.start with ⟨number, site, isSite, isOuter, _, equal⟩ |
    ⟨noneStarts, equal⟩
  · left
    obtain rfl := isPieceAt.symm.trans equal
    rw [MethodPlan.lambdaSites, List.getElem?_map, Option.map_eq_some_iff] at isSite
    obtain ⟨sitePlan, isPlan, rfl⟩ := isSite
    rw [MethodPlan.pieceCode, isPlan] at isCode
    exact ⟨sitePlan, List.mem_of_getElem? isPlan, isOuter, sameSpan, isCode⟩
  · right
    have isInstruction := isPieceAt.symm.trans equal
    generalize piece.span.start = index at isInstruction noneStarts below isUncut
    obtain rfl := isInstruction
    have found : method.instructions[index]? = some method.instructions[index] :=
      Array.getElem?_eq_getElem below
    rw [MethodPlan.pieceCode, found] at isCode
    refine ⟨index, _, sameSpan, found, ?_, (Except.ok.inj isCode).symm⟩
    intro site isSite
    obtain ⟨position, isAt⟩ := List.getElem?_of_mem isSite
    obtain ⟨outer, isOuterSite, isOuter, isWithin⟩ := detected.exists_outermost position isAt
    rw [Span.isWithin_iff] at isWithin
    have notCut := LambdaSite.isCutAt_eq_false_iff.mp (isUncut outer isOuterSite isOuter)
    have notStart := noneStarts outer isOuterSite isOuter
    rw [← Bool.not_eq_true, LambdaSite.contains_iff]
    simp only [LambdaSite.span] at isWithin
    omega

theorem code_ne_nil
    {firstId : Nat}
    {sorted : List LambdaSite}
    (detected : IsDetected firstId sorted plan.lambdaSites)
    (areReplacements : AreReplacements plan method replacements)
    (member : replacement ∈ replacements) :
    replacement.code ≠ [] := by
  rcases areReplacements.piece_cases detected member with ⟨sitePlan, _, _, _, made⟩ |
    ⟨index, instruction, _, _, _, isCode⟩
  · obtain ⟨loads, _, made⟩ := bind_eq_ok.mp made
    rw [← Except.ok.inj made]
    exact List.append_ne_nil_of_left_ne_nil
      (List.append_ne_nil_of_left_ne_nil (List.cons_ne_nil _ _) _) _
  · rw [isCode]
    unfold MethodPlan.instructionCode
    split
    · exact List.cons_ne_nil _ _
    · exact List.cons_ne_nil _ _

/-- Where no site is cut, positions stay in order. -/
theorem place_lt_place
    {firstId : Nat}
    {sorted : List LambdaSite}
    (detected : IsDetected firstId sorted plan.lambdaSites)
    (areReplacements : AreReplacements plan method replacements)
    (next : Nat)
    {first second : Nat}
    (firstUncut : IsUncut plan.lambdaSites none first)
    (secondUncut : IsUncut plan.lambdaSites none second)
    (before : first < second)
    (within : second ≤ method.instructions.size) :
    (Relocation.ofReplacements 0 next replacements).place first <
      (Relocation.ofReplacements 0 next replacements).place second := by
  have apart := detected.areApart none
  have isPiece := pieceAt_mem_piecesFrom apart (fun _ _ _ => by simp [LambdaSite.isCutAt])
    firstUncut (Nat.zero_le first) (Nat.lt_of_lt_of_le before within)
  obtain ⟨replacement, member, sameSpan, _⟩ :=
    exists_mem_of_forall₂ areReplacements.forPieces.flip isPiece
  have codeNonempty := List.length_pos_of_ne_nil (areReplacements.code_ne_nil detected member)
  have stopUpTo : (pieceAt plan.lambdaSites none first).span.stop ≤ second := by
    by_contra isBefore
    exact not_isUncut_of_lt_stop_pieceAt apart before (Nat.not_le.mp isBefore) secondUncut
  obtain ⟨front, back, rfl⟩ := List.append_of_mem member
  obtain ⟨startPlace, insidePlace⟩ := areReplacements.place_eq next
  rw [sameSpan, start_pieceAt] at startPlace
  have stopPlace := insidePlace replacement.span.stop
    (areReplacements.nonempty replacement member) (Nat.le_refl _)
  rw [sameSpan] at stopPlace
  have upTo := areReplacements.place_mono next stopUpTo within
  omega

end AreReplacements

/-- What a rewritten method is made of. -/
structure IsMadeFrom (plan : MethodPlan) (method : Method) (replacements : List Replacement)
    (relocation : Relocation) (rewritten : Method) : Prop where
  isRelocation : relocation =
    .ofReplacements 0 (plan.boxes.flatMap MethodPlan.makeBox).length replacements
  instructions : rewritten.instructions =
    (plan.boxes.flatMap MethodPlan.makeBox ++ relocation.code replacements).toArray
  handlers : rewritten.handlers =
    (method.handlers.filter fun range => !plan.movedAway range).map fun range =>
      range.map relocation.place
  scopes : rewritten.localVariables =
    (method.localVariables.filter plan.keepsVariable).map (plan.movedVariable relocation.place)
  lines : rewritten.lines = (relocation.lines method.lines replacements).toArray

/-- A variable moves as it does where the method is rewritten, if it is kept. -/
theorem MethodPlan.moveVariable?_eq
    (relocation : Relocation)
    (entry : LocalVariable Nat) :
    plan.moveVariable? relocation entry =
      if plan.keepsVariable entry then some (plan.movedVariable relocation.place entry)
      else none := by
  unfold moveVariable? keepsVariable movedVariable
  cases plan.outermost.any fun site => site.declares entry.start with
  | true => rfl
  | false =>
      simp only [Bool.false_eq_true, if_false, Bool.not_false, if_true]
      cases boxOf? plan.boxes (.local entry.slot entry.start) <;> rfl

theorem isMadeFrom_of_rewrite_eq_ok
    {place : Place}
    {rewritten : Method}
    (computed : method.rewrite plan place = .ok rewritten) :
    ∃ replacements relocation, plan.replacements method = .ok replacements ∧
      IsMadeFrom plan method replacements relocation rewritten := by
  unfold Method.rewrite at computed
  obtain ⟨replacements, isReplaced, computed⟩ := bind_eq_ok.mp computed
  dsimp only at computed
  split at computed
  · cases computed
  · cases computed
    refine ⟨replacements, _, mapError_eq_ok.mp isReplaced, rfl, rfl, rfl, ?_, rfl⟩
    dsimp only
    rw [funext (MethodPlan.moveVariable?_eq _), ← Array.filterMap_eq_map', Array.filterMap_filter]
    rfl

section MadeFrom

variable {replacements : List Replacement} {relocation : Relocation} {rewritten : Method}
  {firstId : Nat} {sorted : List LambdaSite}

/-- Between the places of its ends there stands what replaces a piece. -/
theorem IsMadeFrom.instructionsIn_eq
    (isMadeFrom : IsMadeFrom plan method replacements relocation rewritten)
    (areReplacements : AreReplacements plan method replacements)
    {replacement : Replacement}
    (member : replacement ∈ replacements) :
    relocation.place replacement.span.stop =
        relocation.place replacement.span.start + replacement.code.length ∧
      instructionsIn rewritten.instructions ⟨relocation.place replacement.span.start,
          relocation.place replacement.span.stop⟩ =
        replacement.code.map fun instruction => instruction.map relocation.place := by
  obtain ⟨front, back, rfl⟩ := List.append_of_mem member
  obtain ⟨startPlace, insidePlace⟩ :=
    areReplacements.place_eq (plan.boxes.flatMap MethodPlan.makeBox).length
  rw [← isMadeFrom.isRelocation] at startPlace insidePlace
  refine ⟨?_, ?_⟩
  · rw [startPlace]
    exact insidePlace _ (areReplacements.nonempty replacement member) (Nat.le_refl _)
  · rw [isMadeFrom.instructions]
    exact Relocation.instructionsIn_code areReplacements.tiles areReplacements.nonempty
      isMadeFrom.isRelocation

/-- The replacement of an instruction outside the sites. -/
theorem AreReplacements.exists_of_isOutside
    (apart : AreApart plan.lambdaSites none)
    (areReplacements : AreReplacements plan method replacements)
    {index : Nat}
    {instruction : Instruction Nat}
    (isInstruction : method.instructions[index]? = some instruction)
    (isOutside : IsOutside plan.lambdaSites index) :
    ∃ replacement ∈ replacements, replacement.span = ⟨index, index + 1⟩ ∧
      replacement.code = plan.instructionCode method index instruction := by
  obtain ⟨below, _⟩ := Array.getElem?_eq_some_iff.mp isInstruction
  have isPiece := pieceAt_mem_piecesFrom apart (fun _ _ _ => by simp [LambdaSite.isCutAt])
    isOutside.isUncut (Nat.zero_le index) below
  rw [pieceAt_of_isOutside apart isOutside] at isPiece
  obtain ⟨replacement, member, sameSpan, isCode⟩ :=
    exists_mem_of_forall₂ areReplacements.forPieces.flip isPiece
  rw [MethodPlan.pieceCode, isInstruction] at isCode
  exact ⟨replacement, member, sameSpan, (Except.ok.inj isCode).symm⟩

/-- The replacement of a site that nests in no other one. -/
theorem AreReplacements.exists_of_outermost
    (apart : AreApart plan.lambdaSites none)
    (within : ∀ site ∈ plan.lambdaSites, site.stop ≤ method.instructions.size)
    (areReplacements : AreReplacements plan method replacements)
    {sitePlan : SitePlan}
    (isPlan : sitePlan ∈ plan.sites)
    (isOuter : sitePlan.site.parent = none) :
    ∃ replacement ∈ replacements, replacement.span = sitePlan.site.span ∧
      sitePlan.construct plan.loadCapture = .ok replacement.code := by
  obtain ⟨number, isAt⟩ := List.getElem?_of_mem isPlan
  have isSite : plan.lambdaSites[number]? = some sitePlan.site := by
    rw [MethodPlan.lambdaSites, List.getElem?_map, isAt]
    rfl
  have member := List.mem_of_getElem? isSite
  have isPiece := pieceAt_mem_piecesFrom apart (fun _ _ _ => by simp [LambdaSite.isCutAt])
    (isUncut_start apart isSite isOuter) (Nat.zero_le _)
    (Nat.lt_of_lt_of_le (apart.nonempty _ member) (within _ member))
  rw [pieceAt_start apart isSite isOuter] at isPiece
  obtain ⟨replacement, isReplacement, sameSpan, isCode⟩ :=
    exists_mem_of_forall₂ areReplacements.forPieces.flip isPiece
  rw [MethodPlan.pieceCode, isAt] at isCode
  exact ⟨replacement, isReplacement, sameSpan, isCode⟩

/-- The only instructions with jumps are those that are taken over from outside the sites. -/
theorem AreReplacements.targets_cases
    (detected : IsDetected firstId sorted plan.lambdaSites)
    (areReplacements : AreReplacements plan method replacements)
    {replacement : Replacement}
    (member : replacement ∈ replacements)
    {instruction : Instruction Nat}
    (isCode : instruction ∈ replacement.code) :
    instruction.targets = [] ∨
      ∃ index : Nat, method.instructions[index]? = some instruction := by
  rcases areReplacements.piece_cases detected member with ⟨sitePlan, _, _, _, made⟩ |
    ⟨index, original, _, isInstruction, _, equal⟩
  · exact .inl (hasNoJumps_construct made instruction isCode)
  · rw [equal] at isCode
    unfold MethodPlan.instructionCode at isCode
    split at isCode
    · exact .inl (hasNoJumps_boxCode (by simp [Instruction.targets]) _ _ instruction isCode)
    · obtain rfl := List.mem_singleton.mp isCode
      exact .inr ⟨index, isInstruction⟩

/-- No jump leads to the code that makes the boxes. -/
theorem IsMadeFrom.le_of_mem_targets
    (isMadeFrom : IsMadeFrom plan method replacements relocation rewritten)
    (inside : method.TargetsInside)
    (detected : IsDetected firstId sorted plan.lambdaSites)
    (areReplacements : AreReplacements plan method replacements)
    {instruction : Instruction Nat}
    (member : instruction ∈ rewritten.instructions)
    {target : Nat}
    (isTarget : target ∈ instruction.targets) :
    relocation.place 0 ≤ target := by
  rw [isMadeFrom.instructions, List.mem_toArray, List.mem_append] at member
  rcases member with inPrologue | inCode
  · obtain ⟨boxed, _, isMaking⟩ := List.mem_flatMap.mp inPrologue
    rw [hasNoJumps_makeBox boxed instruction isMaking] at isTarget
    cases isTarget
  · obtain ⟨replacement, isReplacement, isMoved⟩ := List.mem_flatMap.mp inCode
    obtain ⟨part, isPart, rfl⟩ := List.mem_map.mp isMoved
    obtain ⟨label, isLabel, rfl⟩ := Instruction.mem_targets_map isTarget
    rcases areReplacements.targets_cases detected isReplacement isPart with noTargets |
      ⟨index, isInstruction⟩
    · rw [noTargets] at isLabel
      cases isLabel
    · rw [isMadeFrom.isRelocation]
      exact areReplacements.place_mono _ (Nat.zero_le label)
        (Nat.le_of_lt (inside.instructions isInstruction label isLabel))

theorem instructionsIn_singleton
    {code : Array (Instruction Nat)}
    {start : Nat}
    {instruction : Instruction Nat}
    (stands : instructionsIn code ⟨start, start + 1⟩ = [instruction]) :
    code[start]? = some instruction := by
  have first : (instructionsIn code ⟨start, start + 1⟩)[0]? = some instruction := by
    rw [stands]
    rfl
  unfold instructionsIn at first
  rw [Array.getElem?_toList, Array.getElem?_extract] at first
  split at first
  · exact first
  · cases first

/-- The lines of a rewritten method, one for each index that begins a piece and a line. -/
theorem AreReplacements.lines_eq
    (apart : AreApart plan.lambdaSites none)
    (within : ∀ site ∈ plan.lambdaSites, site.stop ≤ method.instructions.size)
    (areReplacements : AreReplacements plan method replacements)
    (relocation : Relocation)
    (lines : Array (SourceLine Nat)) :
    relocation.lines lines replacements =
      ((List.range method.instructions.size).filter fun index =>
        decide (IsUncut plan.lambdaSites none index)).filterMap fun index =>
          (lines.find? fun line => line.start = index).map fun line =>
            ⟨relocation.place index, line.line⟩ := by
  have starts : replacements.map (fun replacement => replacement.span.start) =
      (List.range method.instructions.size).filter fun index =>
        decide (IsUncut plan.lambdaSites none index) := by
    have sameStarts : replacements.map (fun replacement => replacement.span.start) =
        (piecesOf plan.lambdaSites none ⟨0, method.instructions.size⟩).map
          fun piece => piece.span.start := by
      rw [← List.forall₂_eq_eq_eq, List.forall₂_map_left_iff, List.forall₂_map_right_iff]
      exact areReplacements.forPieces.flip.imp fun _ _ isFor => congrArg Span.start isFor.1
    rw [sameStarts, List.range_eq_range']
    exact map_start_piecesFrom apart within (fun _ _ _ => by simp [LambdaSite.isCutAt])
  rw [← starts, List.filterMap_map]
  rfl

/-- Every method that was rewritten is the method with its positions moved. -/
theorem IsMadeFrom.isRepositioned
    (isMadeFrom : IsMadeFrom plan method replacements relocation rewritten)
    (inside : method.TargetsInside)
    (detected : IsDetected firstId sorted plan.lambdaSites)
    (within : ∀ site ∈ plan.lambdaSites, site.stop ≤ method.instructions.size)
    (areReplacements : AreReplacements plan method replacements) :
    IsRepositioned plan method relocation.place rewritten := by
  have apart := detected.areApart none
  have zeroPlace : relocation.place 0 = (plan.boxes.flatMap MethodPlan.makeBox).length := by
    rw [isMadeFrom.isRelocation]
    exact AreReplacements.place_zero _ _
  have mono {first second : Nat} (ordered : first ≤ second)
      (upToEnd : second ≤ method.instructions.size) :
      relocation.place first ≤ relocation.place second := by
    rw [isMadeFrom.isRelocation]
    exact areReplacements.place_mono _ ordered upToEnd
  have codeLength : (relocation.code replacements).length =
      (replacements.flatMap Replacement.code).length := by
    unfold Relocation.code
    simp only [List.length_flatMap, List.length_map]
  have size : rewritten.instructions.size = (plan.boxes.flatMap MethodPlan.makeBox).length +
      (replacements.flatMap Replacement.code).length := by
    rw [isMadeFrom.instructions, List.size_toArray, List.length_append, codeLength]
  constructor
  case increasing =>
    intro first second firstUncut secondUncut before upToEnd
    rw [isMadeFrom.isRelocation]
    exact areReplacements.place_lt_place detected _ firstUncut secondUncut before upToEnd
  case endUncut =>
    intro site member _
    exact LambdaSite.isCutAt_eq_false_iff.mpr fun _ => within site member
  case last =>
    rw [size, isMadeFrom.isRelocation]
    exact areReplacements.place_size _
  case inside =>
    intro site member isOuter index afterStart beforeStop
    obtain ⟨sitePlan, isPlan, rfl⟩ := List.mem_map.mp member
    obtain ⟨replacement, isReplacement, sameSpan, _⟩ :=
      areReplacements.exists_of_outermost apart within isPlan isOuter
    obtain ⟨front, back, rfl⟩ := List.append_of_mem isReplacement
    have insidePlace := (areReplacements.place_eq
      (plan.boxes.flatMap MethodPlan.makeBox).length).2
    rw [← isMadeFrom.isRelocation, sameSpan] at insidePlace
    exact (insidePlace index afterStart (Nat.le_of_lt beforeStop)).trans
      (insidePlace _ (Nat.lt_trans afterStart beforeStop) (Nat.le_refl _)).symm
  case prologue =>
    unfold instructionsIn
    rw [zeroPlace, isMadeFrom.instructions]
    simp
  case instruction =>
    intro index instruction isInstruction isOutside isUnboxed
    obtain ⟨replacement, member, sameSpan, isCode⟩ :=
      areReplacements.exists_of_isOutside apart isInstruction isOutside
    obtain ⟨stopPlace, stands⟩ := isMadeFrom.instructionsIn_eq areReplacements member
    have isSingle : plan.instructionCode method index instruction = [instruction] := by
      unfold MethodPlan.instructionCode
      unfold MethodPlan.boxAccessed? at isUnboxed
      rw [isUnboxed]
    rw [sameSpan, isCode, isSingle] at stopPlace stands
    change relocation.place (index + 1) = relocation.place index + 1 at stopPlace
    refine ⟨instructionsIn_singleton ?_, stopPlace⟩
    rw [← stopPlace]
    exact stands
  case access =>
    intro index instruction boxed isInstruction isOutside isBoxed
    obtain ⟨replacement, member, sameSpan, isCode⟩ :=
      areReplacements.exists_of_isOutside apart isInstruction isOutside
    obtain ⟨_, stands⟩ := isMadeFrom.instructionsIn_eq areReplacements member
    have isAccess : plan.instructionCode method index instruction =
        (MethodPlan.boxOperation instruction).code [.load .reference boxed.boxSlot]
          boxed.type := by
      unfold MethodPlan.instructionCode
      unfold MethodPlan.boxAccessed? at isBoxed
      rw [isBoxed]
    rw [sameSpan, isCode, isAccess] at stands
    exact stands.trans
      ((hasNoJumps_boxCode (by simp [Instruction.targets]) _ _).map_eq relocation.place)
  case construction =>
    intro sitePlan isPlan isOuter
    obtain ⟨replacement, member, sameSpan, made⟩ :=
      areReplacements.exists_of_outermost apart within isPlan isOuter
    obtain ⟨_, stands⟩ := isMadeFrom.instructionsIn_eq areReplacements member
    rw [sameSpan] at stands
    exact ⟨replacement.code, made,
      stands.trans ((hasNoJumps_construct made).map_eq relocation.place)⟩
  case nothingElse =>
    intro place below
    by_cases inPrologue : place < relocation.place 0
    · exact .inl inPrologue
    · right
      have inCode : place - relocation.place 0 <
          (replacements.flatMap Replacement.code).length := by
        omega
      obtain ⟨front, replacement, back, rfl, fromStart, beforeStop⟩ :=
        exists_of_lt_length_code inCode
      have member : replacement ∈ front ++ replacement :: back := by simp
      have startPlace := (areReplacements.place_eq
        (plan.boxes.flatMap MethodPlan.makeBox).length).1
      rw [← isMadeFrom.isRelocation] at startPlace
      obtain ⟨stopPlace, _⟩ := isMadeFrom.instructionsIn_eq areReplacements member
      rcases areReplacements.piece_cases detected member with
        ⟨sitePlan, isPlan, isOuter, sameSpan, _⟩ |
        ⟨index, instruction, sameSpan, isInstruction, isOutside, _⟩
      · right
        rw [sameSpan] at startPlace stopPlace
        change relocation.place sitePlan.site.start = _ at startPlace
        change relocation.place sitePlan.site.stop = relocation.place sitePlan.site.start + _
          at stopPlace
        exact ⟨sitePlan.site, List.mem_map_of_mem isPlan, isOuter, by omega, by omega⟩
      · left
        rw [sameSpan] at startPlace stopPlace
        change relocation.place index = _ at startPlace
        change relocation.place (index + 1) = relocation.place index + _ at stopPlace
        obtain ⟨inCode, _⟩ := Array.getElem?_eq_some_iff.mp isInstruction
        exact ⟨index, inCode, isOutside, by omega, by omega⟩
  case afterPrologue =>
    refine ⟨fun instruction member target isTarget =>
      isMadeFrom.le_of_mem_targets inside detected areReplacements member isTarget, ?_⟩
    intro range member label isLabel
    rw [isMadeFrom.handlers] at member
    obtain ⟨original, isKept, rfl⟩ := Array.mem_map.mp member
    have bounds := inside.handlers original
      (Array.mem_toList_iff.mpr (Array.mem_filter.mp isKept).1)
    simp only [ExceptionRange.labels, ExceptionRange.map, List.mem_cons, List.not_mem_nil,
      or_false] at isLabel
    rcases isLabel with rfl | rfl | rfl
    · exact mono (Nat.zero_le _) (Nat.le_trans bounds.1 bounds.2.1)
    · exact mono (Nat.zero_le _) bounds.2.1
    · exact mono (Nat.zero_le _) (Nat.le_of_lt bounds.2.2)
  case handlers => exact isMadeFrom.handlers
  case scopes => exact isMadeFrom.scopes
  case lines =>
    rw [isMadeFrom.lines]
    exact areReplacements.lines_eq apart within relocation method.lines

end MadeFrom

end Rewritten

end ClosureConversion
