import ClosureConversion.Method.Assembly

/-!
Contract: the runs of instructions that are never reached.

Owns:
- that a run is not empty and holds unreachable instructions only, and that every
  unreachable instruction before which there is none begins one;
- the parts of an exception range between runs, and that a range of a reachable handler
  that covers a reachable instruction has one.

Does not own: the frames with which runs begin.
-/

namespace ClosureConversion

namespace FlowAnalysis

variable {analysis : FlowAnalysis}

/-- No instruction from an index up to but without another one is reached. -/
def IsDead (analysis : FlowAnalysis) (start stop : Nat) : Prop :=
  ∀ index, start ≤ index → index < stop → analysis.isReachable index = false

theorem IsDead.snoc
    {start stop : Nat}
    (dead : analysis.IsDead start stop)
    (unreachable : analysis.isReachable stop = false) :
    analysis.IsDead start (stop + 1) := by
  intro index notBefore before
  rcases Nat.lt_succ_iff_lt_or_eq.mp before with inside | rfl
  · exact dead index notBefore inside
  · exact unreachable

/-- A run is not empty and holds unreachable instructions, whether it was open before or
begins at the index or after it. -/
theorem isDead_of_mem_deadRunsFrom
    {index count : Nat}
    {open? : Option Nat}
    (openIsDead : ∀ start, open? = some start → start < index ∧ analysis.IsDead start index)
    {run : DeadRun}
    (member : run ∈ analysis.deadRunsFrom index count open?) :
    run.start < run.stop ∧ run.stop ≤ index + count ∧ analysis.IsDead run.start run.stop := by
  induction count generalizing index open? with
  | zero =>
      cases open? with
      | none => cases member
      | some start =>
          obtain ⟨before, dead⟩ := openIsDead start rfl
          rw [List.mem_singleton.mp member]
          exact ⟨before, Nat.le_refl _, dead⟩
  | succ count inductionHypothesis =>
      rw [deadRunsFrom] at member
      split at member
      · rcases List.mem_append.mp member with isClosed | isLater
        · cases open? with
          | none => cases isClosed
          | some start =>
              obtain ⟨before, dead⟩ := openIsDead start rfl
              rw [List.mem_singleton.mp isClosed]
              exact ⟨before, Nat.le_add_right _ _, dead⟩
        · have later := inductionHypothesis (fun _ isOpen => by cases isOpen) isLater
          rw [Nat.add_assoc, Nat.add_comm 1] at later
          exact later
      · rename_i unreachable
        have isUnreachable := Bool.eq_false_iff.mpr unreachable
        have later := inductionHypothesis (by
          intro start isOpen
          cases open? with
          | none =>
              cases isOpen
              have empty : analysis.IsDead index index := by
                intro other notBefore before
                omega
              exact ⟨Nat.lt_succ_self _, empty.snoc isUnreachable⟩
          | some first =>
              cases isOpen
              obtain ⟨before, dead⟩ := openIsDead first rfl
              exact ⟨Nat.lt_succ_of_lt before, dead.snoc isUnreachable⟩) member
        rw [Nat.add_assoc, Nat.add_comm 1] at later
        exact later

/-- A run that is open is one of the runs. -/
theorem exists_run_of_open
    (analysis : FlowAnalysis)
    (index count start : Nat) :
    ∃ run ∈ analysis.deadRunsFrom index count (some start), run.start = start := by
  induction count generalizing index with
  | zero => exact ⟨⟨start, index⟩, List.mem_singleton.mpr rfl, rfl⟩
  | succ count inductionHypothesis =>
      rw [deadRunsFrom]
      split
      · exact ⟨⟨start, index⟩, List.mem_cons_self, rfl⟩
      · exact inductionHypothesis (index + 1)

/-- An unreachable instruction begins a run if it is the first one or comes after a reachable
one. -/
theorem exists_run_of_unreachable
    {index count position : Nat}
    {open? : Option Nat}
    (notBefore : index ≤ position)
    (inside : position < index + count)
    (unreachable : analysis.isReachable position = false)
    (closed : position = index → open? = none)
    (begins : index < position → analysis.isReachable (position - 1) = true) :
    ∃ run ∈ analysis.deadRunsFrom index count open?, run.start = position := by
  induction count generalizing index open? with
  | zero => omega
  | succ count inductionHypothesis =>
      rw [deadRunsFrom]
      rcases Nat.eq_or_lt_of_le notBefore with rfl | after
      · rw [unreachable, closed rfl]
        exact exists_run_of_open analysis (index + 1) count index
      · split
        · obtain ⟨run, member, starts⟩ := @inductionHypothesis (index + 1) none after
            (by omega) (fun _ => rfl) (fun later => begins after)
          exact ⟨run, List.mem_append_right _ member, starts⟩
        · rename_i isUnreachable
          apply inductionHypothesis after (by omega)
          · intro isNext
            have reachable := begins after
            rw [isNext] at reachable
            exact absurd reachable isUnreachable
          · intro _
            exact begins after

/-- Every run is a part of the code that is never reached. -/
theorem isDead_of_mem_deadRuns
    {run : DeadRun}
    (member : run ∈ analysis.deadRuns) :
    run.start < run.stop ∧ run.stop ≤ analysis.frames.size ∧
      analysis.IsDead run.start run.stop := by
  have dead := isDead_of_mem_deadRunsFrom (fun _ isOpen => by cases isOpen) member
  rw [Nat.zero_add] at dead
  exact dead

/-- The first instruction of a run is not reached. -/
theorem frame?_start_of_mem_deadRuns
    {run : DeadRun}
    (member : run ∈ analysis.deadRuns) :
    analysis.frame? run.start = none := by
  obtain ⟨notEmpty, _, dead⟩ := isDead_of_mem_deadRuns member
  have unreachable := dead run.start (Nat.le_refl _) notEmpty
  rw [isReachable, Option.isSome_eq_false_iff, Option.isNone_iff_eq_none] at unreachable
  exact unreachable

/-- Where control stops being reachable, a run begins. -/
theorem exists_run_after
    {index : Nat}
    (inside : index + 1 < analysis.frames.size)
    (reachable : analysis.isReachable index = true)
    (unreachable : analysis.isReachable (index + 1) = false) :
    ∃ run ∈ analysis.deadRuns, run.start = index + 1 := by
  apply exists_run_of_unreachable (Nat.zero_le _) (by omega) unreachable
  · intro isFirst
    cases isFirst
  · intro _
    exact reachable

/-- Where every instruction is reached there are no runs. -/
theorem deadRuns_eq_nil
    (live : ∀ index < analysis.frames.size, analysis.isReachable index = true) :
    analysis.deadRuns = [] := by
  rw [List.eq_nil_iff_forall_not_mem]
  intro run member
  obtain ⟨notEmpty, inside, dead⟩ := isDead_of_mem_deadRuns member
  have unreachable := dead run.start (Nat.le_refl _) notEmpty
  rw [live run.start (Nat.lt_of_lt_of_le notEmpty inside)] at unreachable
  cases unreachable

/-- Nor is anything overwritten. -/
theorem overwriteDead_of_live
    {instructions : Array (Instruction Nat)}
    (live : ∀ index < instructions.size, analysis.isReachable index = true) :
    analysis.overwriteDead instructions = instructions := by
  unfold overwriteDead
  apply Array.ext Array.size_mapIdx
  intro index _ inside
  rw [Array.getElem_mapIdx, if_pos (live index inside)]

end FlowAnalysis

/-! ## Exception ranges -/

/-- The parts of a range lead to its handler. -/
theorem ExceptionRange.handler_of_mem_outside
    {range part : ExceptionRange Nat}
    {runs : List DeadRun}
    (member : part ∈ range.outside runs) :
    part.handler = range.handler := by
  induction runs generalizing range with
  | nil =>
      rw [outside] at member
      split at member
      · rw [List.mem_singleton.mp member]
      · cases member
  | cons run runs inductionHypothesis =>
      rw [outside] at member
      split at member
      · exact inductionHypothesis member
      · dsimp only at member
        split at member
        · rcases List.mem_cons.mp member with rfl | isLater
          · rfl
          · have later := inductionHypothesis isLater
            exact later
        · have later := inductionHypothesis member
          exact later

/-- An instruction of a range that is in none of the runs is in one of the parts. -/
theorem ExceptionRange.exists_mem_outside
    {range : ExceptionRange Nat}
    {runs : List DeadRun}
    {index : Nat}
    (covers : range.covers index = true)
    (inNone : ∀ run ∈ runs, run.start ≤ index → run.stop ≤ index) :
    ∃ part ∈ range.outside runs, part.covers index = true := by
  induction runs generalizing range with
  | nil =>
      rw [outside, if_pos]
      · exact ⟨range, List.mem_singleton.mpr rfl, covers⟩
      · simp only [ExceptionRange.covers, Bool.and_eq_true, decide_eq_true_eq] at covers
        omega
  | cons run runs inductionHypothesis =>
      have inNoneOfRest : ∀ other ∈ runs, other.start ≤ index → other.stop ≤ index :=
        fun other member => inNone other (List.mem_cons_of_mem _ member)
      have notInRun := inNone run List.mem_cons_self
      simp only [ExceptionRange.covers, Bool.and_eq_true, decide_eq_true_eq] at covers
      rw [outside]
      split
      · apply inductionHypothesis _ inNoneOfRest
        simp only [ExceptionRange.covers, Bool.and_eq_true, decide_eq_true_eq]
        exact covers
      · dsimp only
        by_cases before : index < run.start
        · rw [if_pos (by omega)]
          refine ⟨_, List.mem_cons_self, ?_⟩
          simp only [ExceptionRange.covers, Bool.and_eq_true, decide_eq_true_eq]
          exact ⟨covers.1, before⟩
        · have after : ({ range with start := run.stop } : ExceptionRange Nat).covers index =
              true := by
            simp only [ExceptionRange.covers, Bool.and_eq_true, decide_eq_true_eq]
            omega
          obtain ⟨part, member, isCovered⟩ := inductionHypothesis after inNoneOfRest
          split
          · exact ⟨part, List.mem_cons_of_mem _ member, isCovered⟩
          · exact ⟨part, member, isCovered⟩

/-- Ranges whose handler is never reached are left out. -/
theorem isReachable_of_mem_splitRanges
    {ranges : List (ExceptionRange Nat)}
    {analysis : FlowAnalysis}
    {part : ExceptionRange Nat}
    (member : part ∈ splitRanges ranges analysis) :
    analysis.isReachable part.handler = true := by
  obtain ⟨range, isRange, isPart⟩ := List.mem_flatMap.mp member
  rw [ExceptionRange.handler_of_mem_outside isPart]
  exact (List.mem_filter.mp isRange).2

/-- The handler of a range that covers a reachable instruction is still the handler of one. -/
theorem exists_mem_splitRanges
    {ranges : List (ExceptionRange Nat)}
    {analysis : FlowAnalysis}
    {range : ExceptionRange Nat}
    (member : range ∈ ranges)
    (handlerReachable : analysis.isReachable range.handler = true)
    {index : Nat}
    (reachable : analysis.isReachable index = true)
    (covers : range.covers index = true) :
    ∃ part ∈ splitRanges ranges analysis, part.handler = range.handler := by
  have inNone : ∀ run ∈ analysis.deadRuns, run.start ≤ index → run.stop ≤ index := by
    intro run isRun notBefore
    obtain ⟨_, _, dead⟩ := FlowAnalysis.isDead_of_mem_deadRuns isRun
    apply Nat.le_of_not_lt
    intro inside
    rw [dead index notBefore inside] at reachable
    cases reachable
  obtain ⟨part, isPart, _⟩ := ExceptionRange.exists_mem_outside covers inNone
  refine ⟨part, ?_, ExceptionRange.handler_of_mem_outside isPart⟩
  exact List.mem_flatMap.mpr
    ⟨range, List.mem_filter.mpr ⟨member, handlerReachable⟩, isPart⟩

end ClosureConversion
