import ClosureConversion.Proofs.StackMap.DeadRuns
import ClosureConversion.Proofs.StackMap.Points

/-!
Contract: the exception ranges of a method, cut around what control never reaches.

Owns:
- that dead runs are apart, in order, and hold every instruction that is never reached;
- the pieces of a range: they are apart, in order, lead to its handler, and cover the live
  instructions of the range and no others;
- that a range is only left out where it covers no live instruction, and that exceptions of live
  instructions go to the same handlers as before, in the same order.

Does not own: the positions of the pieces in the code that is written.
-/

namespace ClosureConversion

/-! ## Runs -/

/-- An instruction is in the run. -/
def DeadRun.Contains (run : DeadRun) (index : Nat) : Prop :=
  run.start ≤ index ∧ index < run.stop

namespace FlowAnalysis

variable {analysis : FlowAnalysis}

/-- A run begins where the open one does, or after the index. -/
theorem le_start_of_mem_deadRunsFrom
    {index count : Nat}
    (open? : Option Nat)
    (openBefore : open?.getD index ≤ index)
    {run : DeadRun}
    (member : run ∈ analysis.deadRunsFrom index count open?) :
    open?.getD index ≤ run.start := by
  induction count generalizing index open? with
  | zero =>
      cases open? with
      | none => cases member
      | some start =>
          rw [List.mem_singleton.mp member]
          exact Nat.le_refl _
  | succ count inductionHypothesis =>
      rw [deadRunsFrom] at member
      split at member
      · rcases List.mem_append.mp member with isClosed | isLater
        · cases open? with
          | none => cases isClosed
          | some start =>
              rw [List.mem_singleton.mp isClosed]
              exact Nat.le_refl _
        · have later := inductionHypothesis none (Nat.le_refl _) isLater
          exact Nat.le_trans openBefore (Nat.le_of_succ_le later)
      · exact inductionHypothesis (some (open?.getD index))
          (Nat.le_succ_of_le openBefore) member

/-- Between two runs there is a live instruction. -/
theorem pairwise_deadRunsFrom
    (index count : Nat)
    (open? : Option Nat) :
    (analysis.deadRunsFrom index count open?).Pairwise fun run next => run.stop < next.start := by
  induction count generalizing index open? with
  | zero =>
      cases open? with
      | none => exact .nil
      | some start => exact List.pairwise_singleton _ _
  | succ count inductionHypothesis =>
      rw [deadRunsFrom]
      split
      · refine List.pairwise_append.mpr
          ⟨?_, inductionHypothesis _ _, fun run isClosed next isLater => ?_⟩
        · cases open? with
          | none => exact .nil
          | some start => exact List.pairwise_singleton _ _
        · have later := le_start_of_mem_deadRunsFrom none (Nat.le_refl _) isLater
          cases open? with
          | none => cases isClosed
          | some start =>
              rw [List.mem_singleton.mp isClosed]
              exact later
      · exact inductionHypothesis _ _

/-- Whatever is never reached is in a run, as is all of a run that is open. -/
theorem exists_contains_of_unreachable
    {index count position : Nat}
    (open? : Option Nat)
    (notBefore : open?.getD index ≤ position)
    (inside : position < index + count)
    (unreachable : index ≤ position → analysis.isReachable position = false) :
    ∃ run ∈ analysis.deadRunsFrom index count open?, run.Contains position := by
  induction count generalizing index open? with
  | zero =>
      cases open? with
      | none => exact absurd inside (Nat.not_lt.mpr notBefore)
      | some start => exact ⟨⟨start, index⟩, List.mem_singleton.mpr rfl, notBefore, inside⟩
  | succ count inductionHypothesis =>
      rw [deadRunsFrom]
      split
      · rename_i reachable
        by_cases isClosed : position < index
        · cases open? with
          | none => exact absurd isClosed (Nat.not_lt.mpr notBefore)
          | some start => exact ⟨⟨start, index⟩, List.mem_cons_self, notBefore, isClosed⟩
        · have differs : position ≠ index := by
            rintro rfl
            rw [unreachable (Nat.le_refl _)] at reachable
            cases reachable
          have isLater : index + 1 ≤ position := by omega
          obtain ⟨run, member, contains⟩ := inductionHypothesis none isLater (by omega)
            fun _ => unreachable (by omega)
          exact ⟨run, List.mem_append_right _ member, contains⟩
      · exact inductionHypothesis (some (open?.getD index)) notBefore (by omega)
          fun later => unreachable (by omega)

/-- The runs hold exactly the instructions that are never reached. -/
theorem exists_contains_iff
    {index : Nat}
    (inside : index < analysis.frames.size) :
    (∃ run ∈ analysis.deadRuns, run.Contains index) ↔ analysis.isReachable index = false := by
  constructor
  · rintro ⟨run, member, notBefore, before⟩
    exact (isDead_of_mem_deadRuns member).2.2 index notBefore before
  · intro unreachable
    exact exists_contains_of_unreachable none (Nat.zero_le _) (by omega) fun _ => unreachable

end FlowAnalysis

/-! ## Pieces -/

namespace ExceptionRange

theorem covers_iff
    {range : ExceptionRange Nat}
    {index : Nat} :
    range.covers index = true ↔ range.start ≤ index ∧ index < range.stop := by
  rw [covers, Bool.and_eq_true, decide_eq_true_eq, decide_eq_true_eq]

/-- Where exceptions of the range go, and which of them. -/
def destination (range : ExceptionRange Nat) : Nat × Option BinaryName :=
  (range.handler, range.catchType)

/-- The pieces are what a range covers of live code. They are not empty, in order and apart from
each other, and lead where the range leads. -/
structure IsCutInto (range : ExceptionRange Nat) (analysis : FlowAnalysis)
    (pieces : List (ExceptionRange Nat)) : Prop where
  notEmpty : ∀ piece ∈ pieces, piece.start < piece.stop
  ordered : pieces.Pairwise fun piece next => piece.stop < next.start
  leads : ∀ piece ∈ pieces, piece.destination = range.destination
  covers : ∀ index, (∃ piece ∈ pieces, piece.covers index = true) ↔
    range.covers index = true ∧ analysis.isReachable index = true

/-- Runs that are not empty and come one after another. -/
structure AreApart (runs : List DeadRun) : Prop where
  notEmpty : ∀ run ∈ runs, run.start < run.stop
  ordered : runs.Pairwise fun run next => run.stop < next.start

theorem AreApart.tail
    {run : DeadRun}
    {runs : List DeadRun}
    (apart : AreApart (run :: runs)) :
    AreApart runs :=
  ⟨fun other member => apart.notEmpty other (List.mem_cons_of_mem _ member),
    apart.ordered.of_cons⟩

/-- A piece is not empty, lies within its range and leads where the range leads. -/
theorem within_of_mem_outside
    {range piece : ExceptionRange Nat}
    {runs : List DeadRun}
    (notEmpty : ∀ run ∈ runs, run.start < run.stop)
    (member : piece ∈ range.outside runs) :
    range.start ≤ piece.start ∧ piece.start < piece.stop ∧ piece.stop ≤ range.stop ∧
      piece.destination = range.destination := by
  induction runs generalizing range with
  | nil =>
      rw [outside] at member
      split at member
      · rename_i isRange
        rw [List.mem_singleton.mp member]
        exact ⟨Nat.le_refl _, isRange, Nat.le_refl _, rfl⟩
      · cases member
  | cons run runs inductionHypothesis =>
      have notEmptyRest := fun other isOther => notEmpty other (List.mem_cons_of_mem _ isOther)
      rw [outside] at member
      split at member
      · exact inductionHypothesis notEmptyRest member
      · rename_i meets
        simp only [Bool.or_eq_true, decide_eq_true_eq, not_or, Nat.not_le] at meets
        have later : piece ∈ ({ range with start := run.stop } : ExceptionRange Nat).outside runs →
            range.start ≤ piece.start ∧ piece.start < piece.stop ∧ piece.stop ≤ range.stop ∧
              piece.destination = range.destination := by
          intro isLater
          obtain ⟨after, isOpen, before, leads⟩ := inductionHypothesis notEmptyRest isLater
          exact ⟨Nat.le_trans (Nat.le_of_lt meets.1) after, isOpen, before, leads⟩
        dsimp only at member
        split at member
        · rename_i begins
          rcases List.mem_cons.mp member with rfl | isLater
          · exact ⟨Nat.le_refl _, begins, Nat.le_of_lt meets.2, rfl⟩
          · exact later isLater
        · exact later member

/-- Between two pieces there is all of a run. -/
theorem pairwise_outside
    {range : ExceptionRange Nat}
    {runs : List DeadRun}
    (notEmpty : ∀ run ∈ runs, run.start < run.stop) :
    (range.outside runs).Pairwise fun piece next => piece.stop < next.start := by
  induction runs generalizing range with
  | nil =>
      rw [outside]
      split
      · exact List.pairwise_singleton _ _
      · exact .nil
  | cons run runs inductionHypothesis =>
      have notEmptyRest := fun other isOther => notEmpty other (List.mem_cons_of_mem _ isOther)
      rw [outside]
      split
      · exact inductionHypothesis notEmptyRest
      · dsimp only
        split
        · refine List.pairwise_cons.mpr ⟨fun next isNext => ?_, inductionHypothesis notEmptyRest⟩
          have after := (within_of_mem_outside notEmptyRest isNext).1
          exact Nat.lt_of_lt_of_le (notEmpty run List.mem_cons_self) after
        · exact inductionHypothesis notEmptyRest

/-- Nothing that a piece covers is in a run. -/
theorem not_contains_of_mem_outside
    {range piece : ExceptionRange Nat}
    {runs : List DeadRun}
    (apart : AreApart runs)
    (member : piece ∈ range.outside runs)
    {index : Nat}
    (covered : piece.covers index = true) :
    ∀ run ∈ runs, ¬ run.Contains index := by
  rw [covers_iff] at covered
  induction runs generalizing range with
  | nil => exact fun run isRun => (List.not_mem_nil isRun).elim
  | cons run runs inductionHypothesis =>
      have inThis : ∀ {wider : ExceptionRange Nat}, piece ∈ wider.outside runs →
          run.stop ≤ wider.start ∨ wider.stop ≤ run.start →
            ∀ other ∈ run :: runs, ¬ other.Contains index := by
        intro wider isPiece misses other isOther
        rcases List.mem_cons.mp isOther with rfl | isLater
        · obtain ⟨after, _, before, _⟩ := within_of_mem_outside apart.tail.notEmpty isPiece
          unfold DeadRun.Contains
          omega
        · exact inductionHypothesis apart.tail isPiece other isLater
      rw [outside] at member
      split at member
      · rename_i misses
        rw [Bool.or_eq_true, decide_eq_true_eq, decide_eq_true_eq] at misses
        exact inThis member misses
      · dsimp only at member
        split at member
        · rcases List.mem_cons.mp member with rfl | isLater
          · -- The first piece ends where the run begins, and all others begin after that.
            intro other isOther
            rcases List.mem_cons.mp isOther with rfl | isLater
            · exact fun contains => Nat.not_lt.mpr contains.1 covered.2
            · have begins := (List.pairwise_cons.mp apart.ordered).1 other isLater
              have notEmpty := apart.notEmpty run List.mem_cons_self
              have before : index < run.start := covered.2
              unfold DeadRun.Contains
              omega
          · exact inThis isLater (.inl (Nat.le_refl _))
        · exact inThis member (.inl (Nat.le_refl _))

/-- The pieces cover what the range covers outside the runs. -/
theorem exists_covers_outside_iff
    {range : ExceptionRange Nat}
    {runs : List DeadRun}
    (apart : AreApart runs)
    {index : Nat} :
    (∃ piece ∈ range.outside runs, piece.covers index = true) ↔
      range.covers index = true ∧ ∀ run ∈ runs, ¬ run.Contains index := by
  constructor
  · rintro ⟨piece, member, covered⟩
    refine ⟨?_, not_contains_of_mem_outside apart member covered⟩
    obtain ⟨after, _, before, _⟩ := within_of_mem_outside apart.notEmpty member
    rw [covers_iff] at covered ⊢
    omega
  · rintro ⟨covered, inNone⟩
    refine exists_mem_outside covered fun run isRun notBefore => ?_
    exact Nat.le_of_not_lt fun before => inNone run isRun ⟨notBefore, before⟩

/-- The dead runs of an analysis are apart. -/
theorem areApart_deadRuns
    (analysis : FlowAnalysis) :
    AreApart analysis.deadRuns :=
  ⟨fun _ member => (FlowAnalysis.isDead_of_mem_deadRuns member).1,
    FlowAnalysis.pairwise_deadRunsFrom _ _ _⟩

/-- A range inside the code is cut into what lies outside dead runs. -/
theorem isCutInto_outside
    {range : ExceptionRange Nat}
    {analysis : FlowAnalysis}
    (inside : range.stop ≤ analysis.frames.size) :
    range.IsCutInto analysis (range.outside analysis.deadRuns) := by
  have apart := areApart_deadRuns analysis
  refine ⟨fun piece member => (within_of_mem_outside apart.notEmpty member).2.1,
    pairwise_outside apart.notEmpty,
    fun piece member => (within_of_mem_outside apart.notEmpty member).2.2.2, fun index => ?_⟩
  rw [exists_covers_outside_iff apart, and_congr_right_iff]
  intro covered
  have below := Nat.lt_of_lt_of_le (covers_iff.mp covered).2 inside
  rw [← Bool.not_eq_false, ← FlowAnalysis.exists_contains_iff below]
  simp only [not_exists, not_and]

/-- A live instruction that a range covers is covered by one of its pieces. -/
theorem IsCutInto.filter_covers
    {range : ExceptionRange Nat}
    {analysis : FlowAnalysis}
    {pieces : List (ExceptionRange Nat)}
    (isCut : range.IsCutInto analysis pieces)
    {index : Nat}
    (live : analysis.isReachable index = true) :
    (pieces.filter (·.covers index)).map destination =
      if range.covers index then [range.destination] else [] := by
  have apart := isCut.ordered.filter (·.covers index)
  have covering : ∀ piece ∈ pieces.filter (·.covers index),
      piece ∈ pieces ∧ piece.covers index = true := fun piece member => List.mem_filter.mp member
  have inPiece := isCut.covers index
  cases found : pieces.filter (·.covers index) with
  | nil =>
      rw [if_neg]
      · rfl
      · intro covered
        obtain ⟨piece, member, inThis⟩ := inPiece.mpr ⟨covered, live⟩
        have isFound : piece ∈ pieces.filter (·.covers index) :=
          List.mem_filter.mpr ⟨member, inThis⟩
        rw [found] at isFound
        cases isFound
  | cons piece others =>
      rw [found] at apart covering
      obtain ⟨member, inThis⟩ := covering piece List.mem_cons_self
      rw [if_pos (inPiece.mp ⟨piece, member, inThis⟩).1]
      cases others with
      | nil => exact congrArg ([·]) (isCut.leads piece member)
      | cons next rest =>
          have begins := (List.pairwise_cons.mp apart).1 next List.mem_cons_self
          have inNext := (covering next (by simp)).2
          rw [covers_iff] at inThis inNext
          omega

end ExceptionRange

/-! ## Handlers -/

/-- Every range whose handler is live is cut into its pieces, which follow those of the ranges
before it. -/
theorem exists_pieces_of_splitRanges
    {analysis : FlowAnalysis}
    {ranges : List (ExceptionRange Nat)}
    (inside : ∀ range ∈ ranges, range.stop ≤ analysis.frames.size) :
    ∃ pieces : List (List (ExceptionRange Nat)),
      splitRanges ranges analysis = pieces.flatten ∧
        List.Forall₂ (fun range parts => range.IsCutInto analysis parts)
          (ranges.filter fun range => analysis.isReachable range.handler) pieces := by
  refine ⟨_, rfl, ?_⟩
  rw [List.forall₂_map_right_iff, List.forall₂_same]
  exact fun range member =>
    ExceptionRange.isCutInto_outside (inside range (List.mem_filter.mp member).1)

/-- The ranges of a method are cut around dead code: each one whose handler is live into its
pieces. Others cover no live instruction, so exceptions of live instructions go where they went,
and what was tried first is. -/
structure Method.CutsRanges (method : Method) (analysis : FlowAnalysis) : Prop where
  pieces : ∀ ranges : List (ExceptionRange Nat),
    (∀ range ∈ ranges, misplaced? method.instructions.size range = none) →
      ∃ pieces : List (List (ExceptionRange Nat)),
        splitRanges ranges analysis = pieces.flatten ∧
          List.Forall₂ (fun range parts => range.IsCutInto analysis parts)
            (ranges.filter fun range => analysis.isReachable range.handler) pieces
  dropped : ∀ range ∈ method.handlers.toList, analysis.isReachable range.handler = false →
    ∀ index, range.covers index = true → analysis.isReachable index = false
  handled : ∀ index, analysis.isReachable index = true →
    ((splitRanges method.handlers.toList analysis).filter (·.covers index)).map
        ExceptionRange.destination =
      (method.handlers.toList.filter (·.covers index)).map ExceptionRange.destination

/-- Of the ranges whose handler is live the pieces cover a live instruction just as the ranges do,
and of no others is there anything to cover. -/
theorem filter_covers_splitRanges
    {analysis : FlowAnalysis}
    {ranges : List (ExceptionRange Nat)}
    (inside : ∀ range ∈ ranges, range.stop ≤ analysis.frames.size)
    (reaches : ∀ range ∈ ranges, ∀ index, range.covers index = true →
      analysis.isReachable index = true → analysis.isReachable range.handler = true)
    {index : Nat}
    (live : analysis.isReachable index = true) :
    ((splitRanges ranges analysis).filter (·.covers index)).map ExceptionRange.destination =
      (ranges.filter (·.covers index)).map ExceptionRange.destination := by
  unfold splitRanges
  dsimp only
  induction ranges with
  | nil => rfl
  | cons range ranges inductionHypothesis =>
      have others := inductionHypothesis
        (fun other member => inside other (List.mem_cons_of_mem _ member))
        (fun other member => reaches other (List.mem_cons_of_mem _ member))
      have isCut := ExceptionRange.isCutInto_outside (inside range List.mem_cons_self)
      have parts := isCut.filter_covers live
      by_cases isLive : analysis.isReachable range.handler = true
      · rw [List.filter_cons, if_pos isLive, List.flatMap_cons, List.filter_append,
          List.map_append, parts, others, List.filter_cons]
        by_cases covered : range.covers index = true
        · rw [if_pos covered, if_pos covered]
          rfl
        · rw [if_neg covered, if_neg covered]
          rfl
      · have notCovered : ¬ range.covers index = true :=
          fun covered => isLive (reaches range List.mem_cons_self index covered live)
        rw [List.filter_cons, if_neg isLive, others, List.filter_cons, if_neg notCovered]

/-- The handler of a range over a live instruction is live. -/
theorem FlowAnalysis.FollowsControl.isReachable_handler
    {method : Method}
    {analysis : FlowAnalysis}
    (follows : analysis.FollowsControl method)
    {range : ExceptionRange Nat}
    (member : range ∈ method.handlers.toList)
    {index : Nat}
    (covered : range.covers index = true)
    (live : analysis.isReachable index = true) :
    analysis.isReachable range.handler = true := by
  have below := FlowAnalysis.lt_size_of_isReachable live
  rw [follows.size] at below
  exact follows.leaves live ⟨method.instructions[index], Array.getElem?_eq_getElem below,
    .inr (.inr ⟨range, member, covered, rfl⟩)⟩

/-- Ranges that are not empty stay whole where there is no dead code. -/
theorem splitRanges_of_deadRuns_eq_nil
    {analysis : FlowAnalysis}
    (noRuns : analysis.deadRuns = [])
    {ranges : List (ExceptionRange Nat)}
    (notEmpty : ∀ range ∈ ranges, range.start < range.stop)
    (handled : ∀ range ∈ ranges, analysis.isReachable range.handler = true) :
    splitRanges ranges analysis = ranges := by
  unfold splitRanges
  rw [noRuns, List.filter_eq_self.mpr handled]
  dsimp only
  induction ranges with
  | nil => rfl
  | cons range ranges inductionHypothesis =>
      rw [List.flatMap_cons, ExceptionRange.outside, if_pos (notEmpty range List.mem_cons_self),
        inductionHypothesis (fun other member => notEmpty other (List.mem_cons_of_mem _ member))
          (fun other member => handled other (List.mem_cons_of_mem _ member))]
      rfl

/-- The ranges of every method that is analysed are cut around dead code. -/
theorem Method.cutsRanges_of_analyze_eq_ok
    {method : Method}
    {hierarchy : Hierarchy}
    {analysis : FlowAnalysis}
    (accepted : method.analyze hierarchy = .ok analysis) :
    method.CutsRanges analysis := by
  have follows := FlowAnalysis.followsControl_of_analyze_eq_ok accepted
  obtain ⟨_, targetsInside, _⟩ := exists_run_of_analyze_eq_ok accepted
  refine ⟨fun ranges placed => exists_pieces_of_splitRanges fun range member => ?_,
    fun range member isDead index covered => ?_,
    fun index live => filter_covers_splitRanges ?_
      (fun range member _ => follows.isReachable_handler member) live⟩
  · have isPlaced := placed range member
    rw [misplaced?] at isPlaced
    split at isPlaced
    · cases isPlaced
    · rename_i inOrder
      rw [Bool.or_eq_true, decide_eq_true_eq, decide_eq_true_eq, not_or] at inOrder
      rw [follows.size]
      exact Nat.le_of_not_lt inOrder.2
  · rw [← Bool.not_eq_true]
    intro live
    rw [follows.isReachable_handler member covered live] at isDead
    cases isDead
  · intro range member
    rw [follows.size]
    exact (targetsInside.handlers range member).2.1

namespace GuardedJumps

/-- Two instructions are jumped over, and two ranges cover them: all of the jumps, and one of these
instructions, the handler of which is never reached. -/
def method : Method where
  instructions := #[.goto 2, .op .pushNull, .goto 4, .op .pushNull, .op (.leave none),
    .op (.leave none), .op .throw]
  handlers := #[⟨0, 5, 6, none⟩, ⟨1, 2, 5, some .exception⟩]
  owner := .object
  flags := MethodFlags.accStatic
  name := ⟨"leap", by decide⟩
  type := ⟨[], none⟩
  hasVariableTable := false
  maxLocals := 0

/-- What is jumped over has no frame, nor has the handler that only covers such. -/
def frames : FlowAnalysis where
  frames := #[some ⟨[], []⟩, none, some ⟨[], []⟩, none, some ⟨[], []⟩, none, some .deadCode]
  maxStack := 1
  maxLocals := 0

theorem analyze_eq_ok :
    method.analyze .core = .ok frames := by
  decide +kernel

end GuardedJumps

open GuardedJumps in
/-- A range over two jumps and what they jump over is cut into three pieces, and the one over what
is never reached is left out. -/
theorem guardedJumps_areCut :
    method.analyze .core = .ok frames ∧ method.CutsRanges frames ∧
      splitRanges method.handlers.toList frames =
        [⟨0, 1, 6, none⟩, ⟨2, 3, 6, none⟩, ⟨4, 5, 6, none⟩] :=
  ⟨analyze_eq_ok, Method.cutsRanges_of_analyze_eq_ok analyze_eq_ok, by decide +kernel⟩

end ClosureConversion
