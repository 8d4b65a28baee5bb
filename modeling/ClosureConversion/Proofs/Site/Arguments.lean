import ClosureConversion.Closure.SiteDetection
import ClosureConversion.Proofs.Computation

/-!
Contract: the instructions of a site, argument by argument.

Owns:
- spans that follow each other without gap or overlap;
- what the search for the arguments of a call finds: such spans up to the call, each with
  at least one instruction;
- the same for a site as it is read from one call.

Does not own: how the sites of several calls stand to each other.
-/

namespace ClosureConversion

/-- The spans follow each other from an index to another one, without gap or overlap. -/
def Tiles (start : Nat) : List Span → Nat → Prop
  | [], stop => start = stop
  | span :: spans, stop => span.start = start ∧ Tiles span.stop spans stop

theorem Tiles.append
    {start middle stop : Nat}
    {front back : List Span}
    (before : Tiles start front middle)
    (after : Tiles middle back stop) :
    Tiles start (front ++ back) stop := by
  induction front generalizing start with
  | nil =>
      have equal : start = middle := before
      rw [equal]
      exact after
  | cons span front inductionHypothesis =>
      exact ⟨before.1, inductionHypothesis before.2⟩

theorem Tiles.split
    {start stop : Nat}
    {front back : List Span}
    (tiles : Tiles start (front ++ back) stop) :
    ∃ middle, Tiles start front middle ∧ Tiles middle back stop := by
  induction front generalizing start with
  | nil => exact ⟨start, rfl, tiles⟩
  | cons span front inductionHypothesis =>
      obtain ⟨middle, before, after⟩ := inductionHypothesis tiles.2
      exact ⟨middle, ⟨tiles.1, before⟩, after⟩

/-- Each of the spans lies between the indices, if none of them ends before its start. -/
theorem Tiles.within
    {start stop : Nat}
    {spans : List Span}
    (tiles : Tiles start spans stop)
    (forward : ∀ span ∈ spans, span.start ≤ span.stop) :
    start ≤ stop ∧ ∀ span ∈ spans, start ≤ span.start ∧ span.stop ≤ stop := by
  induction spans generalizing start with
  | nil => exact ⟨Nat.le_of_eq tiles, by simp⟩
  | cons first spans inductionHypothesis =>
      obtain ⟨firstStart, rest⟩ := tiles
      have firstForward : first.start ≤ first.stop := forward first (by simp)
      obtain ⟨restLe, restWithin⟩ := inductionHypothesis rest
        fun other member => forward other (by simp [member])
      refine ⟨by omega, ?_⟩
      intro span member
      rcases List.mem_cons.mp member with isFirst | isOther
      · rw [isFirst]
        omega
      · have within := restWithin span isOther
        omega

/-- The last of the spans ends where they all end. -/
theorem Tiles.stop_of_getLast?
    {start stop : Nat}
    {spans : List Span}
    {last : Span}
    (tiles : Tiles start spans stop)
    (isLast : spans.getLast? = some last) :
    last.stop = stop := by
  induction spans generalizing start with
  | nil => simp at isLast
  | cons span spans inductionHypothesis =>
      cases spans with
      | nil =>
          have equal : span = last := by simpa using isLast
          rw [← equal]
          exact tiles.2
      | cons next others =>
          rw [List.getLast?_cons_cons] at isLast
          exact inductionHypothesis tiles.2 isLast

/-! ## The search for arguments -/

theorem FlowAnalysis.lt_of_lastAtDepth?
    {analysis : FlowAnalysis}
    {depth index found : Nat}
    (isLast : analysis.lastAtDepth? depth index = some found) :
    found < index := by
  induction index with
  | zero => simp [FlowAnalysis.lastAtDepth?] at isLast
  | succ index inductionHypothesis =>
      unfold FlowAnalysis.lastAtDepth? at isLast
      split at isLast
      · have equal : index = found := by simpa using isLast
        omega
      · have below := inductionHypothesis isLast
        omega

theorem FlowAnalysis.lt_of_lastAtDepth
    {analysis : FlowAnalysis}
    {depth index found : Nat}
    (isLast : analysis.lastAtDepth depth index = .ok found) :
    found < index := by
  unfold FlowAnalysis.lastAtDepth at isLast
  split at isLast
  · rename_i last foundLast
    have equal : last = found := by simpa using isLast
    rw [← equal]
    exact FlowAnalysis.lt_of_lastAtDepth? foundLast
  · cases isLast

/-- An argument is only ever extended to the front. -/
theorem le_of_extendArgument
    {code : Array (Instruction Nat)}
    {analysis : FlowAnalysis}
    {stop depth start found : Nat}
    (extended : extendArgument code analysis stop depth start = .ok found) :
    found ≤ start := by
  fun_induction extendArgument code analysis stop depth start with
  | case1 => cases extended
  | case2 =>
      cases extended
      exact Nat.le_refl _
  | case3 => cases extended
  | case4 start branch branches branchesFound earliest earliestFound earlier
      inductionHypothesis =>
      exact Nat.le_of_lt (Nat.lt_of_le_of_lt (inductionHypothesis extended) earlier)
  | case5 => cases extended

/-- An argument has at least one instruction. -/
theorem lt_of_argumentStart
    {code : Array (Instruction Nat)}
    {analysis : FlowAnalysis}
    {stop depth start : Nat}
    (found : argumentStart code analysis stop depth = .ok start) :
    start < stop := by
  unfold argumentStart at found
  obtain ⟨last, isLast, found⟩ := bind_eq_ok.mp found
  obtain ⟨extended, extendedFound, found⟩ := bind_eq_ok.mp found
  have lastLt : last < stop := FlowAnalysis.lt_of_lastAtDepth isLast
  have extendedLe : extended ≤ last := le_of_extendArgument extendedFound
  split at found
  · cases found
  · cases found
    omega

/-- The arguments of a call follow each other up to the call, and none of them is
empty. -/
theorem argumentSpans_tile
    {code : Array (Instruction Nat)}
    {analysis : FlowAnalysis}
    {depth count stop : Nat}
    {spans : List Span}
    (found : argumentSpans code analysis depth count stop = .ok spans) :
    spans.length = count ∧ (∀ span ∈ spans, span.start < span.stop) ∧
      ∃ start, Tiles start spans stop := by
  induction count generalizing stop spans with
  | zero =>
      cases found
      exact ⟨rfl, by simp, stop, rfl⟩
  | succ count inductionHypothesis =>
      unfold argumentSpans at found
      obtain ⟨start, startFound, found⟩ := bind_eq_ok.mp found
      obtain ⟨before, beforeFound, found⟩ := bind_eq_ok.mp found
      cases found
      obtain ⟨length, nonempty, first, tiles⟩ := inductionHypothesis beforeFound
      refine ⟨by simp [length], ?_, first, tiles.append ⟨rfl, rfl⟩⟩
      intro span member
      rw [List.mem_append, List.mem_singleton] at member
      rcases member with earlier | last
      · exact nonempty span earlier
      · rw [last]
        exact lt_of_argumentStart startFound

theorem callArguments_tile
    {method : Method}
    {analysis : FlowAnalysis}
    {call : Nat}
    {factory : MethodRef}
    {spans : List Span}
    (found : callArguments method analysis call factory = .ok spans) :
    spans.length = factory.type.parameters.length ∧
      (∀ span ∈ spans, span.start < span.stop) ∧ ∃ start, Tiles start spans call := by
  unfold callArguments at found
  dsimp only at found
  split at found
  · cases found
  · split at found
    · cases found
    · exact argumentSpans_tile found

/-! ## What arguments bind -/

theorem readParameter_span
    {Memory : Type}
    {method : Method}
    {hierarchy : Hierarchy}
    {convention : Convention Memory}
    {span : Span}
    {before after : Memory}
    {parameter : SiteParameter}
    (read : readParameter method hierarchy convention span before = .ok parameter after) :
    parameter.span = span := by
  unfold readParameter at read
  cases shape : bindingShape? method.instructions span with
  | none =>
      rw [shape] at read
      obtain ⟨equal, _⟩ := run_pure_eq_ok.mp read
      rw [← equal]
  | some binding =>
      rw [shape] at read
      obtain ⟨isParameter, between, _, read⟩ := run_bind_eq_ok.mp read
      cases isParameter with
      | true =>
          obtain ⟨equal, _⟩ := run_pure_eq_ok.mp read
          rw [← equal]
      | false =>
          obtain ⟨equal, _⟩ := run_pure_eq_ok.mp read
          rw [← equal]

/-- Every argument is read as one parameter, in order. -/
theorem readParameters_spans
    {Memory : Type}
    {method : Method}
    {hierarchy : Hierarchy}
    {convention : Convention Memory}
    {place : Place}
    {spans : List Span}
    {before after : Memory}
    {parameters : List SiteParameter}
    (read : readParameters method hierarchy convention place spans before =
      .ok parameters after) :
    parameters.map SiteParameter.span = spans := by
  unfold readParameters at read
  refine run_foldlM_preserves
    (fun done parameters => parameters.map SiteParameter.span = done) ?_ rfl read
  intro done span parameters extended earlier later spansEq extendedRead
  obtain ⟨parameter, between, parameterRead, extendedRead⟩ := run_bind_eq_ok.mp extendedRead
  cases rebound : rebinds? parameters parameter with
  | some field =>
      rw [rebound] at extendedRead
      cases extendedRead
  | none =>
      rw [rebound] at extendedRead
      obtain ⟨equal, _⟩ := run_pure_eq_ok.mp extendedRead
      rw [← equal, List.map_append, spansEq]
      simp [readParameter_span parameterRead]

/-! ## Sites -/

/-- The arguments of a site fill it up to the call of the factory, which belongs to it,
and none of them is empty unless the factory takes none. -/
structure LambdaSite.IsTiled (site : LambdaSite) : Prop where
  tiles : Tiles site.start site.arguments site.call
  forward : ∀ span ∈ site.arguments, span.start ≤ span.stop
  nonempty : site.factory.type.parameters ≠ [] →
    ∀ span ∈ site.arguments, span.start < span.stop
  call_lt_stop : site.call < site.stop

namespace LambdaSite.IsTiled

variable {site : LambdaSite}

theorem start_le_call
    (tiled : site.IsTiled) :
    site.start ≤ site.call :=
  (tiled.tiles.within tiled.forward).1

theorem start_lt_stop
    (tiled : site.IsTiled) :
    site.start < site.stop :=
  Nat.lt_of_le_of_lt tiled.start_le_call tiled.call_lt_stop

theorem body_stop
    (tiled : site.IsTiled) :
    site.body.stop = site.call :=
  tiled.tiles.stop_of_getLast? (by simp [arguments])

theorem start_le_body
    (tiled : site.IsTiled) :
    site.start ≤ site.body.start :=
  ((tiled.tiles.within tiled.forward).2 site.body (by simp [arguments])).1

/-- The arguments for parameters end before the body begins. -/
theorem stop_le_body
    (tiled : site.IsTiled)
    {parameter : SiteParameter}
    (member : parameter ∈ site.parameters) :
    parameter.span.stop ≤ site.body.start := by
  obtain ⟨middle, tilesFront, tilesBody⟩ := tiled.tiles.split
  have forward : ∀ span ∈ site.parameters.map SiteParameter.span, span.start ≤ span.stop :=
    fun span isSpan => tiled.forward span (List.mem_append_left _ isSpan)
  have within := ((tilesFront.within forward).2 parameter.span (List.mem_map_of_mem member)).2
  exact Nat.le_trans within (Nat.le_of_eq tilesBody.1.symm)

end LambdaSite.IsTiled

/-- A site begins where the first of its arguments begins. -/
theorem LambdaSite.head_arguments
    (site : LambdaSite) :
    (site.arguments.head?).map Span.start = some site.start := by
  unfold LambdaSite.arguments LambdaSite.start
  cases site.parameters with
  | nil => rfl
  | cons first others => rfl

/-- What is read for the parameters and the body of a site are its arguments, but for the
empty body of a factory without arguments. -/
theorem dropLast_append_getLastD
    (spans : List Span)
    (missing : Span) :
    spans.dropLast ++ [spans.getLast?.getD missing] = if spans = [] then [missing] else spans := by
  by_cases empty : spans = []
  · rw [empty]
    rfl
  · rw [if_neg empty, List.getLast?_eq_getLast_of_ne_nil empty]
    exact List.dropLast_append_getLast empty

/-- What a site is that is read from a call: its arguments are those of the call, and it
ends after the call or after the cast that tells its type. -/
theorem readSite_eq_ok
    {Memory : Type}
    {method : Method}
    {analysis : FlowAnalysis}
    {hierarchy : Hierarchy}
    {convention : Convention Memory}
    {place : Place}
    {call : Nat}
    {before after : Memory}
    {site : LambdaSite}
    (read : readSite method analysis hierarchy convention place call before =
      .ok site after) :
    ∃ absorbsCast spans,
      factoryAt method call = .ok site.factory ∧
      producedType? site.factory method.instructions[call + 1]? =
        some (site.target, absorbsCast) ∧
      callArguments method analysis call site.factory = .ok spans ∧
      site.arguments = (if spans = [] then [⟨call, call⟩] else spans) ∧
      site.call = call ∧
      site.stop = if absorbsCast then call + 2 else call + 1 := by
  unfold readSite at read
  dsimp only at read
  obtain ⟨factory, _, factoryFound, read⟩ := run_bind_eq_ok.mp read
  obtain ⟨_, _, _, read⟩ := run_bind_eq_ok.mp read
  cases produced : producedType? factory method.instructions[call + 1]? with
  | none =>
      rw [produced] at read
      cases read
  | some product =>
      rw [produced] at read
      obtain ⟨spans, _, spansFound, read⟩ := run_bind_eq_ok.mp read
      obtain ⟨parameters, _, parametersRead, read⟩ := run_bind_eq_ok.mp read
      obtain ⟨equal, _⟩ := run_pure_eq_ok.mp read
      subst equal
      refine ⟨product.2, spans, mapError_eq_ok.mp (run_ofExcept_eq_ok.mp factoryFound).1,
        produced, mapError_eq_ok.mp (run_ofExcept_eq_ok.mp spansFound).1, ?_, rfl, rfl⟩
      rw [← dropLast_append_getLastD, ← readParameters_spans parametersRead]
      rfl

theorem readSite_isTiled
    {Memory : Type}
    {method : Method}
    {analysis : FlowAnalysis}
    {hierarchy : Hierarchy}
    {convention : Convention Memory}
    {place : Place}
    {call : Nat}
    {before after : Memory}
    {site : LambdaSite}
    (read : readSite method analysis hierarchy convention place call before =
      .ok site after) :
    site.IsTiled := by
  obtain ⟨absorbsCast, spans, _, _, spansFound, argumentsEq, callEq, stopEq⟩ :=
    readSite_eq_ok read
  obtain ⟨length, nonempty, first, tiles⟩ := callArguments_tile spansFound
  have startEq := site.head_arguments
  rw [argumentsEq] at startEq
  have callLt : site.call < site.stop := by
    rw [callEq, stopEq]
    split
    · omega
    · omega
  by_cases empty : spans = []
  · rw [if_pos empty] at argumentsEq startEq
    have startIsCall : call = site.start := by simpa using startEq
    refine ⟨?_, ?_, ?_, callLt⟩
    · rw [argumentsEq, callEq]
      exact ⟨startIsCall, rfl⟩
    · intro span member
      rw [argumentsEq, List.mem_singleton] at member
      subst member
      exact Nat.le_refl call
    · intro takesArguments
      rw [empty] at length
      exact absurd (List.length_eq_zero_iff.mp length.symm) takesArguments
  · rw [if_neg empty] at argumentsEq startEq
    obtain ⟨span, others, spansEq⟩ := List.exists_cons_of_ne_nil empty
    rw [spansEq] at tiles startEq
    have startIsFirst : span.start = site.start := by simpa using startEq
    refine ⟨?_, ?_, ?_, callLt⟩
    · rw [argumentsEq, callEq, spansEq]
      exact ⟨startIsFirst, tiles.2⟩
    · intro other member
      rw [argumentsEq] at member
      exact Nat.le_of_lt (nonempty other member)
    · intro _ other member
      rw [argumentsEq] at member
      exact nonempty other member

end ClosureConversion
