import ClosureConversion.Proofs.Flow.Alone
import ClosureConversion.Proofs.Site.Crossings

/-!
Contract: evaluating the arguments of a detected site on their own.

Owns:
- how many values are on the operand stack where an argument begins and ends;
- an argument of a detected site can be evaluated on its own exactly if it has instructions
  and they find their operands among the values that it pushes itself;
- an argument that uses a value pushed before it.

Does not own: what the code of an argument is moved to.
-/

namespace ClosureConversion

/-! ## The stack at the ends of arguments -/

namespace FlowAnalysis

theorem stackDepth?_of_lastAtDepth?
    {analysis : FlowAnalysis}
    {depth index found : Nat}
    (isLast : analysis.lastAtDepth? depth index = some found) :
    analysis.stackDepth? found = some depth := by
  induction index with
  | zero => cases isLast
  | succ index inductionHypothesis =>
      unfold lastAtDepth? at isLast
      split at isLast
      · rename_i atDepth
        cases isLast
        exact atDepth
      · exact inductionHypothesis isLast

theorem stackDepth?_of_lastAtDepth
    {analysis : FlowAnalysis}
    {depth index found : Nat}
    (isLast : analysis.lastAtDepth depth index = .ok found) :
    analysis.stackDepth? found = some depth := by
  unfold lastAtDepth at isLast
  split at isLast
  · rename_i last foundLast
    cases isLast
    exact stackDepth?_of_lastAtDepth? foundLast
  · cases isLast

end FlowAnalysis

variable {code : Array (Instruction Nat)} {analysis : FlowAnalysis} {depth : Nat}

theorem stackDepth?_of_earliestOperand
    {start found : Nat}
    {branches : List Nat}
    (atStart : analysis.stackDepth? start = some depth)
    (isEarliest : earliestOperand analysis depth start branches = .ok found) :
    analysis.stackDepth? found = some depth := by
  refine foldlM_preserves (fun _ earliest => analysis.stackDepth? earliest = some depth) ?_
    atStart isEarliest
  intro _ branch earliest next _ atEarliest stepped
  obtain ⟨operand, isOperand, isNext⟩ := bind_eq_ok.mp stepped
  cases isNext
  rcases Nat.le_total earliest operand with isLess | isMore
  · rw [Nat.min_eq_left isLess]
    exact atEarliest
  · rw [Nat.min_eq_right isMore]
    exact FlowAnalysis.stackDepth?_of_lastAtDepth isOperand

theorem stackDepth?_of_extendArgument
    {stop start found : Nat}
    (atStart : analysis.stackDepth? start = some depth)
    (extended : extendArgument code analysis stop depth start = .ok found) :
    analysis.stackDepth? found = some depth := by
  fun_induction extendArgument code analysis stop depth start with
  | case1 => cases extended
  | case2 =>
      cases extended
      exact atStart
  | case3 => cases extended
  | case4 start branch branches _ earliest earliestFound _ inductionHypothesis =>
      exact inductionHypothesis (stackDepth?_of_earliestOperand atStart earliestFound) extended
  | case5 => cases extended

theorem stackDepth?_of_argumentStart
    {stop start : Nat}
    (found : argumentStart code analysis stop depth = .ok start) :
    analysis.stackDepth? start = some depth := by
  unfold argumentStart at found
  obtain ⟨last, isLast, found⟩ := bind_eq_ok.mp found
  obtain ⟨extended, isExtended, found⟩ := bind_eq_ok.mp found
  have atStart :=
    stackDepth?_of_extendArgument (FlowAnalysis.stackDepth?_of_lastAtDepth isLast) isExtended
  split at found
  · cases found
  · cases found
    exact atStart

/-- Over a span the operand stack grows by one value. -/
def FlowAnalysis.GrowsByOne (analysis : FlowAnalysis) (span : Span) : Prop :=
  ∃ depth, analysis.stackDepth? span.start = some depth ∧
    analysis.stackDepth? span.stop = some (depth + 1)

/-- Over each argument of a call the operand stack grows by one value. -/
theorem growsByOne_of_argumentSpans
    {count stop : Nat}
    {spans : List Span}
    (atStop : analysis.stackDepth? stop = some (depth + count))
    (found : argumentSpans code analysis depth count stop = .ok spans) :
    ∀ span ∈ spans, analysis.GrowsByOne span := by
  induction count generalizing stop spans with
  | zero =>
      cases found
      exact nofun
  | succ count inductionHypothesis =>
      unfold argumentSpans at found
      obtain ⟨start, startFound, found⟩ := bind_eq_ok.mp found
      obtain ⟨before, beforeFound, found⟩ := bind_eq_ok.mp found
      cases found
      have atStart := stackDepth?_of_argumentStart startFound
      intro span member
      rw [List.mem_append, List.mem_singleton] at member
      rcases member with earlier | rfl
      · exact inductionHypothesis atStart beforeFound span earlier
      · exact ⟨depth + count, atStart, atStop⟩

theorem growsByOne_of_callArguments
    {method : Method}
    {call : Nat}
    {factory : MethodRef}
    {spans : List Span}
    (found : callArguments method analysis call factory = .ok spans) :
    ∀ span ∈ spans, analysis.GrowsByOne span := by
  unfold callArguments at found
  dsimp only at found
  split at found
  · cases found
  · rename_i depth atCall
    split at found
    · cases found
    · rename_i notShallow
      refine growsByOne_of_argumentSpans ?_ found
      rw [atCall]
      congr 1
      omega

/-! ## Sites -/

theorem FlowAnalysis.GrowsByOne.exists_recorded
    {span : Span}
    (grows : analysis.GrowsByOne span) :
    ∃ recorded, analysis.frame? span.start = some recorded ∧
      analysis.stackDepth? span.stop = some (recorded.stack.length + 1) := by
  obtain ⟨depth, atStart, atStop⟩ := grows
  obtain ⟨recorded, isRecorded, rfl⟩ := Option.map_eq_some_iff.mp atStart
  exact ⟨recorded, isRecorded, atStop⟩

/-- No jump leaves an argument of a call. -/
theorem keepsJumps_of_callArguments
    {method : Method}
    {call : Nat}
    {factory : MethodRef}
    {spans : List Span}
    (found : callArguments method analysis call factory = .ok spans)
    {span : Span}
    (member : span ∈ spans) :
    method.KeepsJumps span := by
  intro index target instruction inside isInstruction isTarget
  have staysOnSide := staysOnSide_of_crossingJump?_eq_none
    (crossingJump?_of_callArguments found span member) isInstruction isTarget
  unfold ClosureConversion.staysOnSide at staysOnSide
  rwa [if_pos inside] at staysOnSide

/-- The call that arguments are found for is reached. -/
theorem exists_recorded_of_callArguments
    {method : Method}
    {call : Nat}
    {factory : MethodRef}
    {spans : List Span}
    (found : callArguments method analysis call factory = .ok spans) :
    ∃ recorded, analysis.frame? call = some recorded := by
  unfold callArguments at found
  dsimp only at found
  split at found
  · cases found
  · rename_i depth atCall
    obtain ⟨recorded, isRecorded, _⟩ := Option.map_eq_some_iff.mp atCall
    exact ⟨recorded, isRecorded⟩

/-- An empty span pushes no value. -/
theorem Method.not_evaluatesAlone_of_empty
    {method : Method}
    {span : Span}
    (empty : span.stop ≤ span.start)
    (locals : List VType) :
    ¬method.EvaluatesAlone span locals := by
  intro alone
  have outside : span.contains span.start = false := by
    simp only [Span.contains, Bool.and_eq_false_iff, decide_eq_false_iff_not]
    omega
  obtain ⟨_, locals', value, followed⟩ := alone.leaves .start outside
  have sameStack := congrArg (fun position => position.2.stack) (Except.ok.inj followed)
  cases sameStack

/-- Each argument of a detected site begins with a recorded frame, and it can be evaluated on
its own, with the local variables of that frame, if and only if it has instructions and they
find all their operands among the values that the argument itself pushes. -/
theorem detectSites_evaluatesAlone_iff
    {Memory : Type}
    {method : Method}
    {calls : List Nat}
    {firstId : Nat}
    {hierarchy : Hierarchy}
    {convention : Convention Memory}
    {place : Place}
    {before after : Memory}
    {sites : List LambdaSite}
    (accepted : method.analyze hierarchy = .ok analysis)
    (detected : detectSites method analysis calls firstId hierarchy convention place before =
      .ok sites after)
    {site : LambdaSite}
    (member : site ∈ sites)
    {span : Span}
    (isArgument : span ∈ site.arguments) :
    ∃ recorded, analysis.frame? span.start = some recorded ∧
      (method.EvaluatesAlone span recorded.locals ↔
        span.start < span.stop ∧
          method.SpanFindsOperands analysis recorded.stack.length span) := by
  obtain ⟨call, _, raw, _, _, read, rawEq⟩ := exists_readSite_of_mem detected member
  obtain ⟨_, spans, _, _, spansFound, argumentsEq, _, _⟩ := readSite_eq_ok read
  have isSpan : span ∈ raw.arguments := by
    rw [rawEq] at isArgument
    exact isArgument
  rw [argumentsEq] at isSpan
  by_cases empty : spans = []
  · rw [if_pos empty, List.mem_singleton] at isSpan
    subst isSpan
    obtain ⟨recorded, isRecorded⟩ := exists_recorded_of_callArguments spansFound
    refine ⟨recorded, isRecorded, ?_⟩
    constructor
    · intro alone
      exact absurd alone (Method.not_evaluatesAlone_of_empty (Nat.le_refl call) _)
    · rintro ⟨nonempty, _⟩
      exact absurd nonempty (Nat.lt_irrefl call)
  · rw [if_neg empty] at isSpan
    have nonempty : span.start < span.stop := (callArguments_tile spansFound).2.1 span isSpan
    obtain ⟨recorded, isRecorded, grows⟩ :=
      (growsByOne_of_callArguments spansFound span isSpan).exists_recorded
    refine ⟨recorded, isRecorded, ?_⟩
    rw [and_iff_right nonempty]
    exact Method.evaluatesAlone_iff
      (Method.isSettled_of_analyze_eq_ok Frame.mergeOrder_servesAs accepted)
      (keepsJumps_of_callArguments spansFound isSpan) (Nat.le_of_lt nonempty) isRecorded grows

/-! ## An argument that uses a value pushed before it -/

namespace ValueBelow

/-- The parameter that the first argument binds. -/
def parameter : FieldRef where
  owner := ⟨"below/Library", by decide⟩
  name := ⟨"initial", by decide⟩
  type := .base .int

/-- The type of the closure. -/
def operator : BinaryName := ⟨"below/Operator", by decide⟩

/-- A factory with a parameter and a body. -/
def factory : MethodRef where
  owner := .object parameter.owner
  name := ⟨"function", by decide⟩
  type := ⟨[.base .int, .base .int], some (.ref (.object operator))⟩
  ofInterface := false

/-- A method that subtracts its arguments. Between pushing them and subtracting them it makes a
closure and drops it; the default value of its parameter is what an instruction pushes. -/
def method (default : Instruction Nat) : Method where
  instructions := #[
    .load .int 0,
    .load .int 1,
    default,
    .op (.stack .dup),
    .field .putStatic parameter,
    .field .getStatic parameter,
    .invoke .static factory,
    .op (.stack .pop),
    .op (.arithmetic .subtract .int),
    .op (.leave (some .int))]
  localVariables := #[⟨0, 10, ⟨"first", by decide⟩, .base .int, 0⟩,
    ⟨0, 10, ⟨"second", by decide⟩, .base .int, 1⟩]
  lines := #[⟨0, 10⟩]
  owner := ⟨"below/Demo", by decide⟩
  flags := MethodFlags.accStatic
  name := ⟨"subtract", by decide⟩
  type := ⟨[.base .int, .base .int], some (.base .int)⟩
  hasVariableTable := true
  maxLocals := 2

/-- The frames of the method, if the instruction pushes an integer. -/
def frames : FlowAnalysis where
  frames := #[
    some ⟨[.int, .int], []⟩,
    some ⟨[.int, .int], [.int]⟩,
    some ⟨[.int, .int], [.int, .int]⟩,
    some ⟨[.int, .int], [.int, .int, .int]⟩,
    some ⟨[.int, .int], [.int, .int, .int, .int]⟩,
    some ⟨[.int, .int], [.int, .int, .int]⟩,
    some ⟨[.int, .int], [.int, .int, .int, .int]⟩,
    some ⟨[.int, .int], [.object (.object operator), .int, .int]⟩,
    some ⟨[.int, .int], [.int, .int]⟩,
    some ⟨[.int, .int], [.int]⟩]
  maxStack := 4
  maxLocals := 2

/-- The convention that takes every method for a factory and every field for a parameter. -/
def convention : Convention Unit := ⟨fun _ _ _ _ => pure true, fun _ _ _ => pure true⟩

/-- The site, whose first argument begins with the instruction. -/
def site : LambdaSite where
  id := 0
  line := some 10
  factory := factory
  target := operator
  parameters := [⟨some parameter, ⟨2, 5⟩, some ⟨2, 3⟩⟩]
  body := ⟨5, 6⟩
  call := 6
  stop := 7
  parent := none

end ValueBelow

open ValueBelow in
/-- A default value that is loaded can be evaluated on its own. -/
theorem loadedDefault_evaluatesAlone :
    (method (.load .int 1)).analyze .core = .ok frames ∧
      detectSites (method (.load .int 1)) frames [6] 0 .core convention .unknown () =
        .ok [site] () ∧
      (method (.load .int 1)).EvaluatesAlone ⟨2, 5⟩ [.int, .int] := by
  have analyzed : (method (.load .int 1)).analyze .core = .ok frames := by decide +kernel
  have detected : detectSites (method (.load .int 1)) frames [6] 0 .core convention .unknown () =
      .ok [site] () := by
    cbv
  obtain ⟨recorded, isRecorded, aloneIff⟩ := detectSites_evaluatesAlone_iff analyzed detected
    List.mem_cons_self (show (⟨2, 5⟩ : Span) ∈ site.arguments from List.mem_cons_self)
  cases isRecorded
  refine ⟨analyzed, detected, aloneIff.mpr ⟨by decide, ?_⟩⟩
  intro departures index _ inside instruction recorded isInstruction isRecorded
  obtain ⟨after, before⟩ := Span.contains_iff.mp inside
  have inArgument : index = 2 ∨ index = 3 ∨ index = 4 := by
    dsimp only at after before
    omega
  rcases inArgument with rfl | rfl | rfl <;> cases isInstruction <;> cases isRecorded <;> decide

open ValueBelow in
/-- One that copies a value below it cannot, and its site is detected all the same. -/
theorem copiedDefault_notEvaluatesAlone :
    (method (.op (.stack .dupX1))).analyze .core = .ok frames ∧
      detectSites (method (.op (.stack .dupX1))) frames [6] 0 .core convention .unknown () =
        .ok [site] () ∧
      ⟨2, 5⟩ ∈ site.arguments ∧ frames.frame? 2 = some ⟨[.int, .int], [.int, .int]⟩ ∧
      ¬(method (.op (.stack .dupX1))).EvaluatesAlone ⟨2, 5⟩ [.int, .int] := by
  refine ⟨by decide +kernel, by cbv, List.mem_cons_self, rfl, ?_⟩
  intro alone
  obtain ⟨frame, after, followed, executed⟩ := alone.executes .start rfl
  cases followed
  cases executed

end ClosureConversion
