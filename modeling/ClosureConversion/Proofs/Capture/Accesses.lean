import ClosureConversion.Closure.Capture
import ClosureConversion.Proofs.Computation

/-!
Contract: where captures come from.

Owns: every variable of a method that a site captures is in a slot that some instruction of the
method accesses.

Does not own: which of the accesses are in the site.
-/

namespace ClosureConversion

namespace Method

/-- Some instruction of the method accesses a slot. -/
def HasAccess (method : Method) (slot : UInt16) : Prop :=
  ∃ (index : Nat) (instruction : Instruction Nat) (access : LocalAccess),
    method.instructions[index]? = some instruction ∧ instruction.localAccess? = some access ∧
      access.slot = slot

/-- The variable of a method that an access means is one of the slot. -/
theorem slot_of_variableUse
    {method : Method}
    {slot other : UInt16}
    {index start : Nat}
    {mode : AccessMode}
    (isLocal : (method.variableUse slot index mode).key? = some (.local other start)) :
    other = slot := by
  have slotAt : ∀ place entry, method.variableAt? slot place = some entry → entry.slot = slot := by
    intro place entry found
    have isEntry := Array.find?_some found
    simp only [Bool.and_eq_true, decide_eq_true_eq] at isEntry
    exact isEntry.1.1
  unfold variableUse at isLocal
  split at isLocal
  · cases isLocal
  · split at isLocal
    · rename_i entry found
      cases isLocal
      cases mode with
      | load => exact slotAt _ _ found
      | increment => exact slotAt _ _ found
      | store =>
          unfold variableFor? variableStoredAt? at found
          cases here : method.variableAt? slot index with
          | some earlier =>
              rw [here] at found
              obtain rfl := Option.some.inj found
              exact slotAt _ _ here
          | none =>
              rw [here] at found
              exact slotAt _ _ found
    · split at isLocal
      · cases isLocal
        rfl
      · cases isLocal

end Method

/-- What a site captures of the variables of a method is in slots that the method accesses. -/
def SiteUse.IsAccessed (method : Method) (use : SiteUse) : Prop :=
  ∀ capture ∈ use.captures, ∀ slot start, capture.key = .local slot start → method.HasAccess slot

namespace SiteUse

variable {method : Method} {use : SiteUse}

theorem isAccessed_empty :
    IsAccessed method {} := by
  intro capture member
  cases member

theorem IsAccessed.capture
    (isAccessed : use.IsAccessed method)
    {captured : Capture}
    (hasAccess : ∀ slot start, captured.key = .local slot start → method.HasAccess slot) :
    (use.capture captured).IsAccessed method := by
  unfold SiteUse.capture
  split
  · exact isAccessed
  · intro other member
    rw [List.mem_append, List.mem_singleton] at member
    rcases member with isOld | rfl
    · exact isAccessed other isOld
    · exact hasAccess

theorem IsAccessed.provide
    (isAccessed : use.IsAccessed method)
    (key : VariableKey) :
    (use.provide key).IsAccessed method := by
  unfold SiteUse.provide
  split <;> exact isAccessed

theorem IsAccessed.foldCapture
    (isAccessed : use.IsAccessed method)
    {site : LambdaSite}
    {number : Nat}
    {captured : Capture}
    (hasAccess : ∀ slot start, captured.key = .local slot start → method.HasAccess slot) :
    (use.foldCapture site number captured).IsAccessed method := by
  unfold SiteUse.foldCapture
  split
  · split
    · exact isAccessed.provide _
    · exact isAccessed.capture hasAccess
  · split
    · exact isAccessed.provide _
    · exact isAccessed.capture hasAccess
  · exact isAccessed.capture hasAccess

theorem IsAccessed.foldNested
    (isAccessed : use.IsAccessed method)
    {site : LambdaSite}
    {number : Nat}
    {nested : SiteUse}
    (nestedAccessed : nested.IsAccessed method) :
    (use.foldNested site number nested).IsAccessed method := by
  unfold SiteUse.foldNested SiteUse.IsAccessed at *
  generalize nested.captures = captures at nestedAccessed
  induction captures generalizing use with
  | nil => exact isAccessed
  | cons captured captures inductionHypothesis =>
      exact inductionHypothesis
        (IsAccessed.foldCapture isAccessed (nestedAccessed captured List.mem_cons_self))
        fun other member => nestedAccessed other (List.mem_cons_of_mem _ member)

theorem IsAccessed.useLocal
    (isAccessed : use.IsAccessed method)
    {site : LambdaSite}
    {index : Nat}
    {access : LocalAccess}
    {next : SiteUse}
    (hasAccess : method.HasAccess access.slot)
    (used : useLocal method site index access use = .ok next) :
    next.IsAccessed method := by
  unfold ClosureConversion.useLocal at used
  have slotEq : ∀ slot start,
      (method.variableUse access.slot index access.mode).key? = some (.local slot start) →
        method.HasAccess slot :=
    fun slot start isLocal => Method.slot_of_variableUse isLocal ▸ hasAccess
  split at used
  · cases used
    exact isAccessed.capture fun slot start isLocal => by cases isLocal
  · rename_i entry means
    rw [means] at slotEq
    split at used
    · split at used
      · cases used
      · cases used
        exact isAccessed
    · cases used
      exact isAccessed.capture fun slot start isLocal => slotEq slot start (congrArg some isLocal)
  · rename_i slot means
    rw [means] at slotEq
    split at used
    · cases used
      exact isAccessed.capture fun slot start isLocal => slotEq slot start (congrArg some isLocal)
    · cases used
  · split at used
    · cases used
      exact isAccessed
    · cases used

theorem IsAccessed.useParameter
    (isAccessed : use.IsAccessed method)
    {sites : List LambdaSite}
    {number : Nat}
    {inDefault isWrite : Bool}
    {field : FieldRef}
    {next : SiteUse}
    (used : useParameter sites number inDefault field isWrite use = .ok next) :
    next.IsAccessed method := by
  unfold ClosureConversion.useParameter at used
  split at used
  · cases used
  · rename_i binder _
    split at used
    · cases used
    · have bound : SiteUse.IsAccessed method
          (if binder = number then use else use.capture (boundCapture binder field)) := by
        split
        · exact isAccessed
        · exact isAccessed.capture fun slot start isLocal => by cases isLocal
      cases used
      split
      · exact bound
      · exact bound

end SiteUse

section Walk

variable {Memory : Type} {method : Method} {sites : List LambdaSite} {hierarchy : Hierarchy}
  {convention : Convention Memory} {site : LambdaSite} {number : Nat} {place : Place}
  {before after : Memory} {use next : SiteUse}

/-- Notes the parameter that an instruction of a site uses through its field, if any. -/
def useField (sites : List LambdaSite) (hierarchy : Hierarchy) (convention : Convention Memory)
    (number : Nat) (inDefault : Bool) (place : Place) (instruction : Instruction Nat)
    (use : SiteUse) : Deciding Memory SiteUse := do
  match staticField? instruction with
  | some (field, isWrite) =>
      if ← convention.isParameter hierarchy field.owner field.name then
        MonadExcept.ofExcept
          ((useParameter sites number inDefault field isWrite use).mapError place.malformed)
      else
        return use
  | none =>
      if isReturn instruction then throw (place.malformed .returnInside)
      return use

/-- An instruction uses a slot first, and then a field. -/
theorem useInstruction_eq
    {inDefault : Bool}
    {index : Nat}
    {instruction : Instruction Nat}
    (isInstruction : method.instructions[index]? = some instruction) :
    useInstruction method sites hierarchy convention site number inDefault place use index =
      (match instruction.localAccess? with
        | some access =>
            MonadExcept.ofExcept
              ((place.atLine (method.lineAt? index)).locate (useLocal method site index access use))
        | none => pure use) >>=
      useField sites hierarchy convention number inDefault
        (place.atLine (method.lineAt? index)) instruction := by
  unfold useInstruction
  rw [isInstruction]
  dsimp only
  cases instruction.localAccess? <;> rfl

theorem SiteUse.IsAccessed.useField
    (isAccessed : use.IsAccessed method)
    {inDefault : Bool}
    {instruction : Instruction Nat}
    (used : useField sites hierarchy convention number inDefault place instruction use before =
      .ok next after) :
    next.IsAccessed method := by
  unfold ClosureConversion.useField at used
  cases isField : staticField? instruction with
  | some access =>
      obtain ⟨field, isWrite⟩ := access
      rw [isField] at used
      obtain ⟨decided, later, _, used⟩ := run_bind_eq_ok.mp used
      cases decided with
      | true => exact isAccessed.useParameter (mapError_eq_ok.mp (run_ofExcept_eq_ok.mp used).1)
      | false =>
          obtain ⟨rfl, _⟩ := run_pure_eq_ok.mp used
          exact isAccessed
  | none =>
      rw [isField] at used
      cases leaves : isReturn instruction with
      | true =>
          rw [leaves] at used
          cases used
      | false =>
          rw [leaves] at used
          obtain ⟨rfl, _⟩ := run_pure_eq_ok.mp used
          exact isAccessed

theorem SiteUse.IsAccessed.useInstruction
    (isAccessed : use.IsAccessed method)
    {inDefault : Bool}
    {index : Nat}
    (used : useInstruction method sites hierarchy convention site number inDefault place use index
      before = .ok next after) :
    next.IsAccessed method := by
  cases isInstruction : method.instructions[index]? with
  | none =>
      unfold ClosureConversion.useInstruction at used
      rw [isInstruction] at used
      obtain ⟨rfl, _⟩ := run_pure_eq_ok.mp used
      exact isAccessed
  | some instruction =>
      rw [useInstruction_eq isInstruction] at used
      obtain ⟨first, between, isFirst, used⟩ := run_bind_eq_ok.mp used
      have firstAccessed : first.IsAccessed method := by
        cases isAccess : instruction.localAccess? with
        | some access =>
            rw [isAccess] at isFirst
            exact isAccessed.useLocal ⟨index, instruction, access, isInstruction, isAccess, rfl⟩
              (mapError_eq_ok.mp (run_ofExcept_eq_ok.mp isFirst).1)
        | none =>
            rw [isAccess] at isFirst
            obtain ⟨rfl, _⟩ := run_pure_eq_ok.mp isFirst
            exact isAccessed
      exact firstAccessed.useField used

theorem SiteUse.IsAccessed.useSpan
    (isAccessed : use.IsAccessed method)
    {known : Array SiteUse}
    (knownAccessed : ∀ position, (known.getD position {}).IsAccessed method)
    {inDefault : Bool}
    {span : Span}
    (used : useSpan method sites hierarchy convention known site number inDefault place use span
      before = .ok next after) :
    next.IsAccessed method := by
  refine run_foldlM_preserves (fun _ (reached : SiteUse) => reached.IsAccessed method) ?_
    isAccessed used
  intro done piece reached next earlier later reachedAccessed stepped
  cases piece with
  | instruction index => exact reachedAccessed.useInstruction stepped
  | site nested span =>
      obtain ⟨rfl, _⟩ := run_pure_eq_ok.mp stepped
      exact reachedAccessed.foldNested (knownAccessed nested)

theorem isAccessed_of_useOfSite
    {known : Array SiteUse}
    (knownAccessed : ∀ position, (known.getD position {}).IsAccessed method)
    (used : useOfSite method sites hierarchy convention known site number place before =
      .ok next after) :
    next.IsAccessed method := by
  obtain ⟨defaults, _, isDefaults, used⟩ := run_bind_eq_ok.mp used
  obtain ⟨whole, _, isWhole, used⟩ := run_bind_eq_ok.mp used
  have defaultsAccessed : defaults.IsAccessed method := by
    refine run_foldlM_preserves (fun _ (reached : SiteUse) => reached.IsAccessed method) ?_
      SiteUse.isAccessed_empty isDefaults
    intro done span reached next earlier later reachedAccessed stepped
    exact reachedAccessed.useSpan knownAccessed stepped
  have wholeAccessed := defaultsAccessed.useSpan knownAccessed isWhole
  cases unbound : site.parameters.findIdx? fun parameter => parameter.field.isNone with
  | some position =>
      rw [unbound] at used
      cases used
  | none =>
      rw [unbound] at used
      obtain ⟨rfl, _⟩ := run_pure_eq_ok.mp used
      exact wholeAccessed

theorem isAccessed_of_usesOfSites
    {uses : Array SiteUse}
    (found : usesOfSites method sites hierarchy convention place before = .ok uses after) :
    ∀ use ∈ uses, use.IsAccessed method := by
  refine run_foldlM_preserves
    (fun _ (known : Array SiteUse) => ∀ use ∈ known, use.IsAccessed method) ?_ ?_ found
  · rintro done ⟨site, number⟩ known next earlier later knownAccessed stepped
    obtain ⟨use, _, isUse, stepped⟩ := run_bind_eq_ok.mp stepped
    obtain ⟨rfl, _⟩ := run_pure_eq_ok.mp stepped
    have useAccessed : use.IsAccessed method := by
      refine isAccessed_of_useOfSite (fun position => ?_) isUse
      rw [Array.getD_eq_getD_getElem?]
      cases isKnown : known[position]? with
      | none => exact SiteUse.isAccessed_empty
      | some nested => exact knownAccessed nested (Array.mem_of_getElem? isKnown)
    intro other member
    rcases Array.mem_or_eq_of_mem_setIfInBounds member with isOld | rfl
    · exact knownAccessed other isOld
    · exact useAccessed
  · intro use member
    rw [(Array.mem_replicate.mp member).2]
    exact SiteUse.isAccessed_empty

end Walk

/-- What a site captures in the end is what it was found to use, marked by what its variable
is. -/
theorem exists_mem_of_settle_eq_ok
    {use : SiteUse}
    {mutable : VariableKey → Bool}
    {settled : SiteCaptures}
    (computed : use.settle mutable = .ok settled)
    {capture : Capture}
    (member : capture ∈ settled.captures) :
    ∃ unmarked ∈ use.captures, capture = { unmarked with mutable := mutable unmarked.key } := by
  unfold SiteUse.settle at computed
  obtain ⟨captures, marked, computed⟩ := bind_eq_ok.mp computed
  obtain ⟨boxed, _, computed⟩ := bind_eq_ok.mp computed
  cases computed
  have isMarked : capture ∈ captures := by
    unfold constructorOrder at member
    rcases List.mem_append.mp member with isFirst | isLater
    · exact (List.mem_filter.mp isFirst).1
    · exact (List.mem_filter.mp isLater).1
  obtain ⟨unmarked, isUnmarked, isCopy⟩ :=
    exists_mem_of_forall₂ (forall₂_of_mapM_eq_ok marked) isMarked
  dsimp only at isCopy
  split at isCopy
  · cases isCopy
  · cases isCopy
    exact ⟨unmarked, isUnmarked, rfl⟩

/-- A variable of the method that a site captures is in a slot that the method accesses. -/
theorem hasAccess_of_analyzeCaptures
    {Memory : Type}
    {method : Method}
    {sites : List LambdaSite}
    {hierarchy : Hierarchy}
    {convention : Convention Memory}
    {place : Place}
    {before after : Memory}
    {captures : MethodCaptures}
    (analyzed : analyzeCaptures method sites hierarchy convention place before =
      .ok captures after)
    {site : SiteCaptures}
    (isSite : site ∈ captures.sites)
    {capture : Capture}
    (isCaptured : capture ∈ site.captures)
    {slot : UInt16}
    {start : Nat}
    (isLocal : capture.key = .local slot start) :
    method.HasAccess slot := by
  unfold analyzeCaptures at analyzed
  split at analyzed
  · obtain ⟨rfl, _⟩ := run_pure_eq_ok.mp analyzed
    cases isSite
  · dsimp only at analyzed
    split at analyzed
    · cases analyzed
    · obtain ⟨uses, _, found, analyzed⟩ := run_bind_eq_ok.mp analyzed
      obtain ⟨settled, _, settledAll, analyzed⟩ := run_bind_eq_ok.mp analyzed
      obtain ⟨boxes, _, _, analyzed⟩ := run_bind_eq_ok.mp analyzed
      obtain ⟨rfl, _⟩ := run_pure_eq_ok.mp analyzed
      obtain ⟨⟨lambda, use⟩, isUse, _, _, isSettled⟩ :=
        exists_mem_of_forall₂ (forall₂_of_run_mapM_eq_ok settledAll) isSite
      have used := isAccessed_of_usesOfSites found use
        (Array.mem_toList_iff.mp (List.of_mem_zip isUse).2)
      obtain ⟨unmarked, isUnmarked, rfl⟩ := exists_mem_of_settle_eq_ok
        (mapError_eq_ok.mp (run_ofExcept_eq_ok.mp isSettled).1) isCaptured
      exact used unmarked isUnmarked slot start isLocal

end ClosureConversion
