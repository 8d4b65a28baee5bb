import ClosureConversion.Proofs.Capture.Accesses
import ClosureConversion.Proofs.Rewriting.Layout
import ClosureConversion.Proofs.Site.Bindings

/-!
Contract: the walk over the code of the sites of a method misses nothing.

Owns:
- what the code of a site needs: captured variables, slots of its own, and parameters of closures
  around it that are known to be assigned;
- each step of the walk notes what is needed, and forgets nothing;
- the parameters that a site is found to capture are those of sites around it.

Does not own: what is settled about a site in the end.
-/

namespace ClosureConversion

/-! ## Needs -/

/-- What code of a site needs. -/
inductive Need where
  | capture (key : VariableKey)
  | keep (slot : UInt16)
  /-- That a parameter of a closure around this one is known to be assigned. -/
  | write (binder : Nat) (field : FieldRef)
deriving DecidableEq, Repr

/-- What an access to a slot needs. -/
def accessNeed (method : Method) (site : LambdaSite) (index : Nat) (access : LocalAccess) : Need :=
  match method.variableUse access.slot index access.mode with
  | .this => .capture .this
  | .declared entry =>
      if site.declares entry.start then .keep access.slot
      else .capture (.local entry.slot entry.start)
  | .parameter slot => .capture (.local slot 0)
  | .unknown => .keep access.slot

/-- What an access to the field that stands for a parameter needs. -/
def parameterNeeds (sites : List LambdaSite) (number : Nat) (field : FieldRef) (isWrite : Bool) :
    List Need :=
  match binder? sites number field with
  | none => []
  | some binder =>
      if binder = number then []
      else .capture (.parameter binder field) :: if isWrite then [.write binder field] else []

/-- What an instruction needs for the field that it uses. -/
def fieldNeeds (sites : List LambdaSite) (number : Nat) (instruction : Instruction Nat) :
    List Need :=
  match staticField? instruction with
  | some (field, isWrite) => parameterNeeds sites number field isWrite
  | none => []

/-- What an instruction needs. -/
def instructionNeeds (sites : List LambdaSite) (method : Method) (site : LambdaSite)
    (number index : Nat) (instruction : Instruction Nat) : List Need :=
  (instruction.localAccess?.map (accessNeed method site index)).toList ++
    fieldNeeds sites number instruction

/-- What a site needs for a variable that a site inside it captures. Its own parameters are
there. -/
def nestedNeed? (site : LambdaSite) (number : Nat) (key : VariableKey) : Option Need :=
  match key with
  | .parameter binder _ => if binder = number then none else some (.capture key)
  | .local slot start => some (if site.declares start then .keep slot else .capture key)
  | .this => some (.capture key)

/-- What a piece of a site needs, given what the sites inside it capture. -/
def pieceNeeds (sites : List LambdaSite) (method : Method) (captured : Nat → List VariableKey)
    (site : LambdaSite) (number : Nat) : Piece → List Need
  | .instruction index =>
      match method.instructions[index]? with
      | some instruction => instructionNeeds sites method site number index instruction
      | none => []
  | .site nested _ => (captured nested).filterMap (nestedNeed? site number)

/-- What a span of a site needs. -/
def spanNeeds (sites : List LambdaSite) (method : Method) (captured : Nat → List VariableKey)
    (site : LambdaSite) (number : Nat) (span : Span) : List Need :=
  (piecesOf sites (some number) span).flatMap (pieceNeeds sites method captured site number)

/-- The code of a site that becomes code of its closure: default values, and the body. -/
def LambdaSite.code (site : LambdaSite) : List Span :=
  site.parameters.filterMap SiteParameter.default ++ [site.body]

/-- What a site needs. -/
def siteNeeds (sites : List LambdaSite) (method : Method) (captured : Nat → List VariableKey)
    (site : LambdaSite) (number : Nat) : List Need :=
  site.code.flatMap (spanNeeds sites method captured site number)

/-! ## What a site uses -/

namespace SiteUse

/-- The variables that the site captures. -/
def keys (use : SiteUse) : List VariableKey :=
  use.captures.map Capture.key

/-- The site was found to use something that is needed. -/
def Meets (use : SiteUse) : Need → Prop
  | .capture key => key ∈ use.keys
  | .keep slot => slot ∈ use.internal.map Prod.fst
  | .write binder field => .parameter binder field ∈ use.written

theorem mem_insertSlot
    {slot other : UInt16}
    {wide : Bool}
    {slots : List (UInt16 × Bool)} :
    other ∈ (insertSlot slot wide slots).map Prod.fst ↔
      other ∈ slots.map Prod.fst ∨ other = slot := by
  fun_induction insertSlot slot wide slots with
  | case1 => simp
  | case2 => simp [or_comm]
  | case3 firstWide rest notBefore =>
      simp only [List.map_cons, List.mem_cons]
      tauto
  | case4 first firstWide rest notBefore different inductionHypothesis =>
      simp only [List.map_cons, List.mem_cons, inductionHypothesis, or_assoc]

section Noting

variable {use : SiteUse} {need : Need}

/-- Capturing a variable once more changes nothing else. -/
theorem meets_capture
    {captured : Capture} :
    (use.capture captured).Meets need ↔ use.Meets need ∨ need = .capture captured.key := by
  unfold SiteUse.capture
  split
  · rename_i isKnown
    rw [List.any_eq_true] at isKnown
    obtain ⟨other, member, sameKey⟩ := isKnown
    refine ⟨Or.inl, ?_⟩
    rintro (isMet | rfl)
    · exact isMet
    · exact List.mem_map.mpr ⟨other, member, of_decide_eq_true sameKey⟩
  · cases need with
    | capture key => simp [Meets, keys]
    | keep slot => simp [Meets]
    | write binder field => simp [Meets]

theorem meets_provide
    {key : VariableKey} :
    (use.provide key).Meets need ↔ use.Meets need := by
  unfold provide
  split
  · exact Iff.rfl
  · cases need <;> exact Iff.rfl

theorem meets_keep
    {slot : UInt16}
    {wide : Bool} :
    (use.keep slot wide).Meets need ↔ use.Meets need ∨ need = .keep slot := by
  cases need with
  | capture key => simp [Meets, keys, keep]
  | keep other =>
      rw [Need.keep.injEq]
      exact mem_insertSlot
  | write binder field => simp [Meets, keep]

theorem meets_write
    {binder : Nat}
    {field : FieldRef} :
    (use.write (.parameter binder field)).Meets need ↔
      use.Meets need ∨ need = .write binder field := by
  cases need with
  | capture key => simp [Meets, keys, write]
  | keep slot => simp [Meets, write]
  | write other otherField => simp [Meets, write, or_comm]

end Noting

end SiteUse

/-! ## Steps of the walk -/

namespace SiteUse

/-- The parameters that a site captures are bound by sites around it, not by itself. -/
def IsBound (use : SiteUse) (sites : List LambdaSite) (number : Nat) : Prop :=
  ∀ binder field, use.Meets (.capture (.parameter binder field)) →
    binder ≠ number ∧ BindsAround sites number binder field

/-- What was found is kept, and the parameters among it stay bound. -/
structure Grows (sites : List LambdaSite) (number : Nat) (use next : SiteUse) : Prop where
  meets : ∀ need, use.Meets need → next.Meets need
  bound : use.IsBound sites number → next.IsBound sites number

variable {method : Method} {sites : List LambdaSite} {site : LambdaSite} {number : Nat}
  {use next last : SiteUse}

theorem Grows.refl
    (use : SiteUse) :
    Grows sites number use use :=
  ⟨fun _ => id, id⟩

theorem Grows.trans
    (first : Grows sites number use next)
    (second : Grows sites number next last) :
    Grows sites number use last :=
  ⟨fun need isMet => second.meets need (first.meets need isMet), second.bound ∘ first.bound⟩

/-- What is noted besides is no parameter that is not bound. -/
theorem grows_of_meets
    {added : Need}
    (meets : ∀ {need}, next.Meets need ↔ use.Meets need ∨ need = added)
    (bound : ∀ binder field, added = .capture (.parameter binder field) →
      binder ≠ number ∧ BindsAround sites number binder field) :
    Grows sites number use next where
  meets := fun _ isMet => meets.mpr (.inl isMet)
  bound := fun isBound binder field isMet =>
    (meets.mp isMet).elim (isBound binder field) fun isAdded => bound binder field isAdded.symm

theorem grows_provide
    (key : VariableKey) :
    Grows sites number use (use.provide key) :=
  ⟨fun _ => meets_provide.mpr, fun isBound binder field isMet =>
    isBound binder field (meets_provide.mp isMet)⟩

theorem grows_foldCapture
    (use : SiteUse)
    (site : LambdaSite)
    {captured : Capture}
    (bound : ∀ binder field, captured.key = .parameter binder field → binder ≠ number →
      BindsAround sites number binder field) :
    Grows sites number use (use.foldCapture site number captured) ∧
      ∀ need, nestedNeed? site number captured.key = some need →
        (use.foldCapture site number captured).Meets need := by
  unfold foldCapture nestedNeed?
  cases isKey : captured.key with
  | this =>
      refine ⟨grows_of_meets meets_capture (by simp [isKey]), ?_⟩
      rintro need isNeed
      cases isNeed
      exact meets_capture.mpr (.inr (by rw [isKey]))
  | «local» slot start =>
      dsimp only
      split
      · refine ⟨(grows_provide _).trans (grows_of_meets meets_keep (by simp)), ?_⟩
        rintro need isNeed
        cases isNeed
        exact meets_keep.mpr (.inr rfl)
      · refine ⟨grows_of_meets meets_capture (by simp [isKey]), ?_⟩
        rintro need isNeed
        cases isNeed
        exact meets_capture.mpr (.inr (by rw [isKey]))
  | parameter binder field =>
      dsimp only
      split
      · exact ⟨grows_provide _, by simp⟩
      · rename_i different
        refine ⟨grows_of_meets meets_capture ?_, ?_⟩
        · rw [isKey]
          rintro other otherField equal
          cases equal
          exact ⟨different, bound binder field isKey different⟩
        · rintro need isNeed
          cases isNeed
          exact meets_capture.mpr (.inr (by rw [isKey]))

theorem grows_foldNested
    (use : SiteUse)
    (site : LambdaSite)
    {nested : SiteUse}
    (bound : ∀ binder field, nested.Meets (.capture (.parameter binder field)) →
      binder ≠ number → BindsAround sites number binder field) :
    Grows sites number use (use.foldNested site number nested) ∧
      ∀ need ∈ nested.keys.filterMap (nestedNeed? site number),
        (use.foldNested site number nested).Meets need := by
  unfold foldNested keys
  have boundEach : ∀ captured ∈ nested.captures, ∀ binder field,
      captured.key = .parameter binder field → binder ≠ number →
        BindsAround sites number binder field :=
    fun captured member binder field isKey =>
      bound binder field (List.mem_map.mpr ⟨captured, member, isKey⟩)
  generalize nested.captures = captures at boundEach
  clear bound
  induction captures generalizing use with
  | nil => exact ⟨.refl _, by simp⟩
  | cons captured captures inductionHypothesis =>
      obtain ⟨grows, meets⟩ :=
        grows_foldCapture use site (boundEach captured List.mem_cons_self)
      obtain ⟨growsRest, meetsRest⟩ :=
        inductionHypothesis (use.foldCapture site number captured)
          fun other member => boundEach other (List.mem_cons_of_mem _ member)
      refine ⟨grows.trans growsRest, ?_⟩
      intro need member
      obtain ⟨key, isKey, isNeed⟩ := List.mem_filterMap.mp member
      rcases List.mem_cons.mp isKey with rfl | isLater
      · exact growsRest.meets need (meets need isNeed)
      · exact meetsRest need (List.mem_filterMap.mpr ⟨key, isLater, isNeed⟩)

theorem grows_useLocal
    {index : Nat}
    {access : LocalAccess}
    (used : useLocal method site index access use = .ok next) :
    Grows sites number use next ∧ next.Meets (accessNeed method site index access) := by
  unfold useLocal at used
  unfold accessNeed
  cases means : method.variableUse access.slot index access.mode with
  | this =>
      rw [means] at used
      cases used
      exact ⟨grows_of_meets meets_capture (by simp [receiverCapture]), meets_capture.mpr (.inr rfl)⟩
  | declared entry =>
      rw [means] at used
      dsimp only at used ⊢
      split at used
      · rw [if_pos ‹_›]
        split at used
        · cases used
        · cases used
          exact ⟨grows_of_meets meets_keep (by simp), meets_keep.mpr (.inr rfl)⟩
      · rw [if_neg ‹_›]
        cases used
        exact ⟨grows_of_meets meets_capture (by simp [declaredCapture]),
          meets_capture.mpr (.inr rfl)⟩
  | parameter slot =>
      rw [means] at used
      dsimp only at used
      split at used
      · cases used
        exact ⟨grows_of_meets meets_capture (by simp [parameterCapture]),
          meets_capture.mpr (.inr rfl)⟩
      · cases used
  | unknown =>
      rw [means] at used
      dsimp only at used
      split at used
      · cases used
        exact ⟨grows_of_meets meets_keep (by simp), meets_keep.mpr (.inr rfl)⟩
      · cases used

theorem grows_useParameter
    {inDefault isWrite : Bool}
    {field : FieldRef}
    (used : useParameter sites number inDefault field isWrite use = .ok next) :
    Grows sites number use next ∧
      ∀ need ∈ parameterNeeds sites number field isWrite, next.Meets need := by
  unfold useParameter at used
  unfold parameterNeeds
  cases isBinder : binder? sites number field with
  | none =>
      rw [isBinder] at used
      cases used
  | some binder =>
      rw [isBinder] at used
      dsimp only at used ⊢
      split at used
      · cases used
      · cases used
        have grows : Grows sites number use
            (if binder = number then use else use.capture (boundCapture binder field)) := by
          split
          · exact .refl _
          · rename_i different
            refine grows_of_meets meets_capture ?_
            rintro other otherField equal
            cases equal
            exact ⟨different, bindsAround_of_binder? isBinder⟩
        have meets : binder ≠ number →
            (if binder = number then use else use.capture (boundCapture binder field)).Meets
              (.capture (.parameter binder field)) := by
          intro different
          rw [if_neg different]
          exact meets_capture.mpr (.inr rfl)
        revert grows meets
        generalize (if binder = number then use else use.capture (boundCapture binder field)) =
          captured
        intro grows meets
        have growsWrite : Grows sites number captured
            (if isWrite then captured.write (.parameter binder field) else captured) := by
          split
          · exact grows_of_meets meets_write (by simp)
          · exact .refl _
        refine ⟨grows.trans growsWrite, ?_⟩
        intro need member
        split at member
        · cases member
        · rename_i different
          rcases List.mem_cons.mp member with rfl | isWritten
          · exact growsWrite.meets _ (meets different)
          · split at isWritten
            · rw [List.mem_singleton] at isWritten
              rw [if_pos ‹_›, isWritten]
              exact meets_write.mpr (.inr rfl)
            · cases isWritten

end SiteUse

/-! ## The walk -/

section Walk

variable {Memory : Type} {method : Method} {sites : List LambdaSite} {hierarchy : Hierarchy}
  {convention : Convention Memory} {Knows : Memory → BinaryName → UnqualifiedName → Prop}
  {site : LambdaSite} {number : Nat} {place : Place} {before between after : Memory}
  {use next last : SiteUse}

/-- The variables that sites capture, as far as they are known. -/
def keysIn (known : Array SiteUse) (number : Nat) : List VariableKey :=
  (known.getD number {}).keys

/-- What is known after sites were detected: the fields that they bind. -/
def AreKnown (Knows : Memory → BinaryName → UnqualifiedName → Prop) (sites : List LambdaSite)
    (memory : Memory) : Prop :=
  ∀ site ∈ sites, ∀ parameter ∈ site.parameters, parameter.IsKnown Knows memory

/-- A part of the walk noted what the code needs that it went over, and what is known is still
known. -/
structure Notes (Knows : Memory → BinaryName → UnqualifiedName → Prop) (sites : List LambdaSite)
    (number : Nat) (needs : List Need) (use next : SiteUse) (after : Memory) : Prop where
  grows : use.Grows sites number next
  meets : ∀ need ∈ needs, next.Meets need
  known : AreKnown Knows sites after

theorem Notes.nil
    (areKnown : AreKnown Knows sites after)
    (use : SiteUse) :
    Notes Knows sites number [] use use after :=
  ⟨.refl use, by simp, areKnown⟩

theorem Notes.append
    {first second : List Need}
    (notesFirst : Notes Knows sites number first use next between)
    (notesSecond : Notes Knows sites number second next last after) :
    Notes Knows sites number (first ++ second) use last after where
  grows := notesFirst.grows.trans notesSecond.grows
  meets := by
    intro need member
    rcases List.mem_append.mp member with isFirst | isSecond
    · exact notesSecond.grows.meets need (notesFirst.meets need isFirst)
    · exact notesSecond.meets need isSecond
  known := notesSecond.known

/-- A walk along a list notes what all of its elements need if each step does for its own. -/
theorem notes_foldlM
    {α : Type}
    {values : List α}
    {step : SiteUse → α → Deciding Memory SiteUse}
    {needs : α → List Need}
    (each : ∀ value ∈ values, ∀ (use next : SiteUse) (earlier later : Memory),
      AreKnown Knows sites earlier → step use value earlier = .ok next later →
        Notes Knows sites number (needs value) use next later)
    (areKnown : AreKnown Knows sites before)
    (computed : values.foldlM step use before = .ok next after) :
    Notes Knows sites number (values.flatMap needs) use next after := by
  refine run_foldlM_induction (fun done reached memory =>
    Notes Knows sites number (done.flatMap needs) use reached memory) ?_ (.nil areKnown use) computed
  intro done value rest reached next earlier later split notes stepped
  have member : value ∈ values := by simp [split]
  rw [List.flatMap_append, List.flatMap_singleton]
  exact notes.append (each value member reached next earlier later notes.known stepped)

/-- What is bound by no site around stands for no parameter of one. -/
theorem parameterNeeds_eq_nil
    (remembers : convention.Remembers hierarchy Knows)
    (areKnown : AreKnown Knows sites before)
    {field : FieldRef}
    (denied : convention.isParameter hierarchy field.owner field.name before = .ok false after)
    (isWrite : Bool) :
    parameterNeeds sites number field isWrite = [] := by
  unfold parameterNeeds
  cases isBinder : binder? sites number field with
  | none => rfl
  | some binder =>
      obtain ⟨site, member, parameter, isParameter, isField⟩ :=
        (bindsAround_of_binder? isBinder).exists_parameter
      cases remembers.repeats ((areKnown site member parameter isParameter).known field isField)
        denied

theorem notes_useField
    (remembers : convention.Remembers hierarchy Knows)
    (areKnown : AreKnown Knows sites before)
    {inDefault : Bool}
    {instruction : Instruction Nat}
    (used : useField sites hierarchy convention number inDefault place instruction use before =
      .ok next after) :
    Notes Knows sites number (fieldNeeds sites number instruction) use next after := by
  unfold useField at used
  cases isField : staticField? instruction with
  | some access =>
      obtain ⟨field, isWrite⟩ := access
      have needs : fieldNeeds sites number instruction =
          parameterNeeds sites number field isWrite := by simp only [fieldNeeds, isField]
      rw [isField] at used
      obtain ⟨decided, later, asked, used⟩ := run_bind_eq_ok.mp used
      have keeps : AreKnown Knows sites later := fun other member parameter isParameter =>
        (areKnown other member parameter isParameter).keep fun _ _ => remembers.keeps asked
      cases decided with
      | true =>
          obtain ⟨isUse, rfl⟩ := run_ofExcept_eq_ok.mp used
          obtain ⟨grows, meets⟩ := SiteUse.grows_useParameter (mapError_eq_ok.mp isUse)
          exact ⟨grows, needs ▸ meets, keeps⟩
      | false =>
          obtain ⟨rfl, rfl⟩ := run_pure_eq_ok.mp used
          rw [needs, parameterNeeds_eq_nil remembers areKnown asked]
          exact .nil keeps use
  | none =>
      have needs : fieldNeeds sites number instruction = [] := by simp only [fieldNeeds, isField]
      rw [isField] at used
      cases leaves : isReturn instruction with
      | true =>
          rw [leaves] at used
          cases used
      | false =>
          rw [leaves] at used
          obtain ⟨rfl, rfl⟩ := run_pure_eq_ok.mp used
          rw [needs]
          exact .nil areKnown use

theorem notes_useInstruction
    (remembers : convention.Remembers hierarchy Knows)
    (areKnown : AreKnown Knows sites before)
    {inDefault : Bool}
    {index : Nat}
    {instruction : Instruction Nat}
    (isInstruction : method.instructions[index]? = some instruction)
    (used : useInstruction method sites hierarchy convention site number inDefault place use index
      before = .ok next after) :
    Notes Knows sites number (instructionNeeds sites method site number index instruction) use next
      after := by
  rw [useInstruction_eq isInstruction] at used
  obtain ⟨first, between, isFirst, used⟩ := run_bind_eq_ok.mp used
  have notesLocal : Notes Knows sites number
      (instruction.localAccess?.map (accessNeed method site index)).toList use first between := by
    cases isAccess : instruction.localAccess? with
    | some access =>
        rw [isAccess] at isFirst
        obtain ⟨isUse, rfl⟩ := run_ofExcept_eq_ok.mp isFirst
        obtain ⟨grows, meets⟩ := SiteUse.grows_useLocal (mapError_eq_ok.mp isUse)
        exact ⟨grows, by simpa using meets, areKnown⟩
    | none =>
        rw [isAccess] at isFirst
        obtain ⟨rfl, rfl⟩ := run_pure_eq_ok.mp isFirst
        exact .nil areKnown use
  exact notesLocal.append (notes_useField remembers notesLocal.known used)

/-- A site notes what the sites that nest in it capture. -/
theorem notes_foldNested
    (ordered : ParentsFirst sites)
    (areKnown : AreKnown Knows sites before)
    {nested : Nat}
    {inner : LambdaSite}
    (isNested : sites[nested]? = some inner)
    (isParent : inner.parent = some number)
    {innerUse : SiteUse}
    (isBound : innerUse.IsBound sites nested) :
    Notes Knows sites number (innerUse.keys.filterMap (nestedNeed? site number)) use
      (use.foldNested site number innerUse) before := by
  obtain ⟨grows, meets⟩ := SiteUse.grows_foldNested use site
    fun binder field isMet (_ : binder ≠ number) =>
      have ⟨different, binds⟩ := isBound binder field isMet
      binds.ofNested ordered isNested isParent different
  exact ⟨grows, meets, areKnown⟩

variable {known : Array SiteUse} {inDefault : Bool}

theorem notes_useSpan
    (remembers : convention.Remembers hierarchy Knows)
    (ordered : ParentsFirst sites)
    (knownBound : ∀ position, (known.getD position {}).IsBound sites position)
    (areKnown : AreKnown Knows sites before)
    {span : Span}
    (used : useSpan method sites hierarchy convention known site number inDefault place use span
      before = .ok next after) :
    Notes Knows sites number (spanNeeds sites method (keysIn known) site number span) use next
      after := by
  refine notes_foldlM ?_ areKnown used
  intro piece member reached next earlier later earlierKnown stepped
  cases piece with
  | instruction index =>
      cases isInstruction : method.instructions[index]? with
      | some instruction =>
          simp only [pieceNeeds, isInstruction]
          exact notes_useInstruction remembers earlierKnown isInstruction stepped
      | none =>
          simp only [usePiece, useInstruction, isInstruction, run_pure_eq_ok] at stepped
          obtain ⟨rfl, rfl⟩ := stepped
          simp only [pieceNeeds, isInstruction]
          exact .nil earlierKnown reached
  | site nested inner =>
      obtain ⟨rfl, rfl⟩ := run_pure_eq_ok.mp stepped
      obtain ⟨nestedSite, isNested, isParent, _, _⟩ := exists_site_of_mem_piecesFrom member
      exact notes_foldNested ordered earlierKnown isNested isParent (knownBound nested)

theorem notes_useOfSite
    (remembers : convention.Remembers hierarchy Knows)
    (ordered : ParentsFirst sites)
    (knownBound : ∀ position, (known.getD position {}).IsBound sites position)
    (areKnown : AreKnown Knows sites before)
    (used : useOfSite method sites hierarchy convention known site number place before =
      .ok next after) :
    Notes Knows sites number (siteNeeds sites method (keysIn known) site number) {} next after ∧
      ∀ parameter ∈ site.parameters, parameter.field.isSome = true := by
  obtain ⟨defaults, between, isDefaults, used⟩ := run_bind_eq_ok.mp used
  obtain ⟨whole, later, isWhole, used⟩ := run_bind_eq_ok.mp used
  have notesDefaults : Notes Knows sites number ((site.parameters.filterMap SiteParameter.default).flatMap
      (spanNeeds sites method (keysIn known) site number)) {} defaults between := by
    refine notes_foldlM ?_ areKnown isDefaults
    intro span _ reached next earlier later earlierKnown stepped
    exact notes_useSpan remembers ordered knownBound earlierKnown stepped
  have notesBody := notes_useSpan remembers ordered knownBound notesDefaults.known isWhole
  cases unbound : site.parameters.findIdx? fun parameter => parameter.field.isNone with
  | some position =>
      rw [unbound] at used
      cases used
  | none =>
      rw [unbound] at used
      obtain ⟨rfl, rfl⟩ := run_pure_eq_ok.mp used
      refine ⟨?_, ?_⟩
      · unfold siteNeeds LambdaSite.code
        rw [List.flatMap_append, List.flatMap_singleton]
        exact notesDefaults.append notesBody
      · intro parameter member
        rw [List.findIdx?_eq_none_iff] at unbound
        simpa using unbound parameter member

/-- What a site needs depends on the sites that nest in it, which come after it. -/
theorem siteNeeds_congr
    (ordered : ParentsFirst sites)
    {captured others : Nat → List VariableKey}
    (same : ∀ nested, number < nested → captured nested = others nested) :
    siteNeeds sites method captured site number = siteNeeds sites method others site number := by
  unfold siteNeeds
  congr 1
  funext span
  unfold spanNeeds
  refine List.flatMap_congr fun piece member => ?_
  cases piece with
  | instruction index => rfl
  | site nested inner =>
      obtain ⟨nestedSite, isNested, isParent, _, _⟩ := exists_site_of_mem_piecesFrom member
      simp only [pieceNeeds, same nested (ordered nested nestedSite number isNested isParent)]

/-- What was found out about a site: it uses what it needs, the parameters that it captures are
bound around it, and its own parameters stand for fields. -/
structure IsTracked (sites : List LambdaSite) (method : Method) (known : Array SiteUse)
    (site : LambdaSite) (number : Nat) : Prop where
  meets : ∀ need ∈ siteNeeds sites method (keysIn known) site number,
    (known.getD number {}).Meets need
  bound : (known.getD number {}).IsBound sites number
  binds : ∀ parameter ∈ site.parameters, parameter.field.isSome = true

theorem IsTracked.congr
    (ordered : ParentsFirst sites)
    {later : Array SiteUse}
    (tracked : IsTracked sites method known site number)
    (same : ∀ nested, number ≤ nested → known.getD nested {} = later.getD nested {}) :
    IsTracked sites method later site number where
  meets := by
    have sameKeys : ∀ nested, number < nested → keysIn known nested = keysIn later nested :=
      fun nested after => congrArg SiteUse.keys (same nested (Nat.le_of_lt after))
    rw [← same number (Nat.le_refl _), ← siteNeeds_congr ordered sameKeys]
    exact tracked.meets
  bound := same number (Nat.le_refl _) ▸ tracked.bound
  binds := tracked.binds

theorem SiteUse.isBound_empty :
    SiteUse.IsBound {} sites number := by
  intro binder field isMet
  cases isMet

/-- Sites are looked at from the last one backwards. -/
theorem pairwise_reverse_zipIdx
    (sites : List LambdaSite) :
    sites.zipIdx.reverse.Pairwise fun earlier later => later.2 < earlier.2 := by
  rw [List.pairwise_reverse, List.pairwise_iff_getElem]
  intro i j _ _ below
  simpa using below

theorem getD_setIfInBounds
    {position : Nat} :
    (known.setIfInBounds number use).getD position {} =
      if position = number ∧ number < known.size then use else known.getD position {} := by
  simp only [Array.getD_eq_getD_getElem?, Array.getElem?_setIfInBounds]
  split_ifs <;> simp_all

/-- The walk finds out everything about every site. -/
theorem isTracked_of_usesOfSites
    (remembers : convention.Remembers hierarchy Knows)
    (ordered : ParentsFirst sites)
    (areKnown : AreKnown Knows sites before)
    {uses : Array SiteUse}
    (found : usesOfSites method sites hierarchy convention place before = .ok uses after) :
    ∀ entry ∈ sites.zipIdx, IsTracked sites method uses entry.1 entry.2 := by
  suffices invariant : (∀ entry ∈ sites.zipIdx.reverse,
        IsTracked sites method uses entry.1 entry.2) ∧
      uses.size = sites.length ∧ (∀ position, (uses.getD position {}).IsBound sites position) ∧
      AreKnown Knows sites after from
    fun entry member => invariant.1 entry (List.mem_reverse.mpr member)
  refine run_foldlM_induction (fun done (known : Array SiteUse) memory =>
    (∀ entry ∈ done, IsTracked sites method known entry.1 entry.2) ∧
      known.size = sites.length ∧ (∀ position, (known.getD position {}).IsBound sites position) ∧
      AreKnown Knows sites memory) ?_ ⟨by simp, by simp, ?_, areKnown⟩ found
  · rintro done ⟨site, number⟩ rest known next earlier later split
      ⟨tracked, size, knownBound, earlierKnown⟩ stepped
    obtain ⟨use, between, isUse, stepped⟩ := run_bind_eq_ok.mp stepped
    obtain ⟨rfl, rfl⟩ := run_pure_eq_ok.mp stepped
    obtain ⟨notes, binds⟩ := notes_useOfSite remembers ordered knownBound earlierKnown isUse
    have useBound : use.IsBound sites number := notes.grows.bound SiteUse.isBound_empty
    have nextBound : ∀ position,
        ((known.setIfInBounds number use).getD position {}).IsBound sites position := by
      intro position
      rw [getD_setIfInBounds]
      split
      · rename_i isHere
        exact isHere.1 ▸ useBound
      · exact knownBound position
    have unchanged : ∀ position, number < position →
        known.getD position {} = (known.setIfInBounds number use).getD position {} := by
      intro position after
      rw [getD_setIfInBounds, if_neg fun isHere => Nat.ne_of_gt after isHere.1]
    have isHere : (known.setIfInBounds number use).getD number {} = use := by
      have isEntry : (site, number) ∈ sites.zipIdx := by
        rw [← List.mem_reverse, split]
        exact List.mem_append_right done List.mem_cons_self
      have below := (List.mem_zipIdx isEntry).2.1
      rw [getD_setIfInBounds, if_pos ⟨rfl, by omega⟩]
    refine ⟨?_, by simp [size], nextBound, notes.known⟩
    intro entry member
    rcases List.mem_append.mp member with isEarlier | isLast
    · have descending := pairwise_reverse_zipIdx sites
      rw [split] at descending
      have isBefore := (List.pairwise_append.mp descending).2.2 entry isEarlier (site, number)
        List.mem_cons_self
      exact (tracked entry isEarlier).congr ordered fun nested isAfter =>
        unchanged nested (Nat.lt_of_lt_of_le isBefore isAfter)
    · rw [List.mem_singleton] at isLast
      subst isLast
      refine ⟨?_, nextBound number, binds⟩
      have sameKeys : ∀ nested, number < nested →
          keysIn known nested = keysIn (known.setIfInBounds number use) nested :=
        fun nested after => congrArg SiteUse.keys (unchanged nested after)
      rw [← siteNeeds_congr ordered sameKeys]
      simpa only [isHere] using notes.meets
  · intro position
    rw [Array.getD_eq_getD_getElem?, Array.getElem?_replicate]
    split <;> exact SiteUse.isBound_empty

end Walk

end ClosureConversion
