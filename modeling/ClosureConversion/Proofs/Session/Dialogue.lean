import ClosureConversion.Proofs.Session.Preparation

/-!
Contract: preparing a class asks a convention questions, and uses nothing of it but the answers.

Owns:
- dialogues, which ask one question after another and go by the answers;
- programs that are dialogues, and that sequences and loops of them are;
- every step of planning and preparing a class is a dialogue.

Does not own: how a convention finds its answers.
-/

namespace ClosureConversion

/-- What a convention may be asked about a class. -/
inductive Question where
  | factory (owner : BinaryName) (name : UnqualifiedName) (type : MethodType)
  | parameter (owner : BinaryName) (name : UnqualifiedName)
deriving DecidableEq, Repr

/-- An answer, or the reason why there is none. -/
abbrev Answer := Except ClosureError Bool

/-- The answer of a convention. -/
def Convention.answer {Memory : Type} (convention : Convention Memory) (hierarchy : Hierarchy) :
    Question → Deciding Memory Bool
  | .factory owner name type => convention.isFactory hierarchy owner name type
  | .parameter owner name => convention.isParameter hierarchy owner name

/-- A computation that asks questions. What it does after a question depends on the answer
alone. -/
inductive Dialogue (α : Type) where
  | ended (result : Except ClosureError α)
  | asking (question : Question) (next : Answer → Dialogue α)

namespace Dialogue

variable {α β : Type}

/-- Asks the questions of a convention. -/
def run {Memory : Type} (hierarchy : Hierarchy) (convention : Convention Memory) :
    Dialogue α → Deciding Memory α
  | .ended result => MonadExcept.ofExcept result
  | .asking question next => fun memory =>
      match convention.answer hierarchy question memory with
      | .ok answer memory => (next (.ok answer)).run hierarchy convention memory
      | .error error memory => (next (.error error)).run hierarchy convention memory

/-- Goes on with the result. -/
def bind (next : α → Dialogue β) : Dialogue α → Dialogue β
  | .ended (.ok value) => next value
  | .ended (.error error) => .ended (.error error)
  | .asking question go => .asking question fun answer => (go answer).bind next

/-- Turns the error that a dialogue may end with into another one. -/
def mapError (wrap : ClosureError → ClosureError) : Dialogue α → Dialogue α
  | .ended result => .ended (result.mapError wrap)
  | .asking question next => .asking question fun answer => (next answer).mapError wrap

variable {Memory : Type} {hierarchy : Hierarchy} {convention : Convention Memory}

theorem run_asking
    (question : Question)
    (next : Answer → Dialogue α)
    (memory : Memory) :
    (Dialogue.asking question next).run hierarchy convention memory =
      match convention.answer hierarchy question memory with
      | .ok answer memory => (next (.ok answer)).run hierarchy convention memory
      | .error error memory => (next (.error error)).run hierarchy convention memory := by
  rw [run]

theorem run_bind
    (dialogue : Dialogue α)
    (next : α → Dialogue β) :
    (dialogue.bind next).run hierarchy convention =
      (dialogue.run hierarchy convention >>= fun value =>
        (next value).run hierarchy convention) := by
  induction dialogue with
  | ended result => cases result <;> rfl
  | asking question go inductionHypothesis =>
      funext memory
      rw [bind, ClosureConversion.run_bind, run_asking, run_asking]
      cases convention.answer hierarchy question memory with
      | ok answer between =>
          dsimp only
          rw [inductionHypothesis, ClosureConversion.run_bind]
      | error error between =>
          dsimp only
          rw [inductionHypothesis, ClosureConversion.run_bind]

theorem run_mapError
    (place : Place)
    (dialogue : Dialogue α) :
    (dialogue.mapError (·.within place)).run hierarchy convention =
      withinPlace place (dialogue.run hierarchy convention) := by
  induction dialogue with
  | ended result => cases result <;> rfl
  | asking question go inductionHypothesis =>
      funext memory
      unfold withinPlace
      rw [mapError, run_asking, run_asking]
      cases convention.answer hierarchy question memory with
      | ok answer between =>
          dsimp only
          rw [inductionHypothesis]
          rfl
      | error error between =>
          dsimp only
          rw [inductionHypothesis]
          rfl

end Dialogue

/-! ## Programs that are dialogues -/

/-- A program uses nothing of a convention but its answers. -/
def IsDialogue {α : Type} (hierarchy : Hierarchy)
    (program : (Memory : Type) → Convention Memory → Deciding Memory α) : Prop :=
  ∃ dialogue : Dialogue α, ∀ (Memory : Type) (convention : Convention Memory),
    program Memory convention = dialogue.run hierarchy convention

section Programs

variable {α β : Type} {hierarchy : Hierarchy}

theorem isDialogue_ofExcept
    (result : Except ClosureError α) :
    IsDialogue hierarchy fun _ _ => MonadExcept.ofExcept result :=
  ⟨.ended result, fun _ _ => rfl⟩

theorem isDialogue_pure
    (value : α) :
    IsDialogue hierarchy fun _ _ => pure value :=
  ⟨.ended (.ok value), fun _ _ => rfl⟩

theorem isDialogue_throw
    (error : ClosureError) :
    IsDialogue (α := α) hierarchy fun _ _ => throw error :=
  ⟨.ended (.error error), fun _ _ => rfl⟩

theorem isDialogue_answer
    (question : Question) :
    IsDialogue hierarchy fun _ convention => convention.answer hierarchy question := by
  refine ⟨.asking question .ended, fun Memory convention => ?_⟩
  funext memory
  rw [Dialogue.run_asking]
  dsimp only
  cases convention.answer hierarchy question memory <;> rfl

theorem IsDialogue.bind
    {first : (Memory : Type) → Convention Memory → Deciding Memory α}
    {next : α → (Memory : Type) → Convention Memory → Deciding Memory β}
    (isFirst : IsDialogue hierarchy first)
    (isNext : ∀ value, IsDialogue hierarchy (next value)) :
    IsDialogue hierarchy fun Memory convention =>
      first Memory convention >>= fun value => next value Memory convention := by
  obtain ⟨dialogue, runs⟩ := isFirst
  choose others othersRun using isNext
  refine ⟨dialogue.bind others, fun Memory convention => ?_⟩
  dsimp only
  rw [Dialogue.run_bind, runs Memory convention]
  congr 1
  funext value
  exact othersRun value Memory convention

theorem isDialogue_bind_ofExcept
    {result : Except ClosureError α}
    {next : α → (Memory : Type) → Convention Memory → Deciding Memory β}
    (isNext : ∀ value, result = .ok value → IsDialogue hierarchy (next value)) :
    IsDialogue hierarchy fun Memory convention =>
      MonadExcept.ofExcept result >>= fun value => next value Memory convention := by
  cases result with
  | error error => exact isDialogue_throw error
  | ok value => exact isNext value rfl

theorem IsDialogue.withinPlace
    {program : (Memory : Type) → Convention Memory → Deciding Memory α}
    (isDialogue : IsDialogue hierarchy program)
    (place : Place) :
    IsDialogue hierarchy fun Memory convention =>
      ClosureConversion.withinPlace place (program Memory convention) := by
  obtain ⟨dialogue, runs⟩ := isDialogue
  refine ⟨dialogue.mapError (·.within place), fun Memory convention => ?_⟩
  dsimp only
  rw [Dialogue.run_mapError, runs Memory convention]

theorem isDialogue_mapM
    {step : α → (Memory : Type) → Convention Memory → Deciding Memory β}
    (isStep : ∀ value, IsDialogue hierarchy (step value))
    (values : List α) :
    IsDialogue hierarchy fun Memory convention =>
      values.mapM fun value => step value Memory convention := by
  induction values with
  | nil => exact isDialogue_pure []
  | cons value values inductionHypothesis =>
      simp only [List.mapM_cons]
      exact (isStep value).bind fun result =>
        inductionHypothesis.bind fun results => isDialogue_pure (result :: results)

theorem isDialogue_filterMapM
    {step : α → (Memory : Type) → Convention Memory → Deciding Memory (Option β)}
    (isStep : ∀ value, IsDialogue hierarchy (step value))
    (values : List α) :
    IsDialogue hierarchy fun Memory convention =>
      values.filterMapM fun value => step value Memory convention := by
  induction values with
  | nil => exact isDialogue_pure []
  | cons value values inductionHypothesis =>
      simp only [List.filterMapM_cons]
      refine (isStep value).bind fun result => ?_
      cases result with
      | none => exact inductionHypothesis
      | some result =>
          exact inductionHypothesis.bind fun results => isDialogue_pure (result :: results)

theorem isDialogue_foldlM
    {step : β → α → (Memory : Type) → Convention Memory → Deciding Memory β}
    (isStep : ∀ reached value, IsDialogue hierarchy (step reached value))
    (start : β)
    (values : List α) :
    IsDialogue hierarchy fun Memory convention =>
      values.foldlM (fun reached value => step reached value Memory convention) start := by
  induction values generalizing start with
  | nil => exact isDialogue_pure start
  | cons value values inductionHypothesis =>
      simp only [List.foldlM_cons]
      exact (isStep start value).bind fun reached => inductionHypothesis reached

end Programs

/-! ## Planning -/

section Planning

variable {hierarchy : Hierarchy}

theorem isDialogue_factoryCalls
    (method : Method) :
    IsDialogue hierarchy fun _ convention => factoryCalls method hierarchy convention := by
  refine isDialogue_filterMapM (fun (instruction, index) => ?_) _
  dsimp only
  cases staticCall? instruction with
  | none => exact isDialogue_pure none
  | some called =>
      refine (isDialogue_answer (.factory called.1 called.2.name called.2.type)).bind
        fun answer => ?_
      cases answer with
      | true => exact isDialogue_pure (some index)
      | false => exact isDialogue_pure none

theorem isDialogue_readParameter
    (method : Method)
    (span : Span) :
    IsDialogue hierarchy fun _ convention => readParameter method hierarchy convention span := by
  unfold readParameter
  cases bindingShape? method.instructions span with
  | none => exact isDialogue_pure _
  | some shape =>
      refine (isDialogue_answer (.parameter shape.1.owner shape.1.name)).bind fun answer => ?_
      cases answer with
      | true => exact isDialogue_pure _
      | false => exact isDialogue_pure _

theorem isDialogue_readParameters
    (method : Method)
    (place : Place)
    (spans : List Span) :
    IsDialogue hierarchy fun _ convention =>
      readParameters method hierarchy convention place spans := by
  refine isDialogue_foldlM (fun parameters span => ?_) [] spans
  refine (isDialogue_readParameter method span).bind fun parameter => ?_
  cases rebinds? parameters parameter with
  | some field => exact isDialogue_throw _
  | none => exact isDialogue_pure _

theorem isDialogue_readSite
    (method : Method)
    (analysis : FlowAnalysis)
    (place : Place)
    (call : Nat) :
    IsDialogue hierarchy fun _ convention =>
      readSite method analysis hierarchy convention place call := by
  unfold readSite
  refine (isDialogue_ofExcept _).bind fun factory => ?_
  refine (isDialogue_ofExcept _).bind fun _ => ?_
  cases producedType? factory method.instructions[call + 1]? with
  | none => exact isDialogue_throw _
  | some produced =>
      refine (isDialogue_ofExcept _).bind fun spans => ?_
      exact (isDialogue_readParameters method place spans.dropLast).bind fun _ => isDialogue_pure _

theorem isDialogue_detectSites
    (method : Method)
    (analysis : FlowAnalysis)
    (calls : List Nat)
    (firstId : Nat)
    (place : Place) :
    IsDialogue hierarchy fun _ convention =>
      detectSites method analysis calls firstId hierarchy convention place := by
  unfold detectSites
  refine (isDialogue_mapM (fun call => isDialogue_readSite method analysis _ call) calls).bind
    fun sites => ?_
  exact (isDialogue_ofExcept _).bind fun linked =>
    (isDialogue_ofExcept _).bind fun _ => isDialogue_pure _

theorem isDialogue_useInstruction
    (method : Method)
    (sites : List LambdaSite)
    (site : LambdaSite)
    (number : Nat)
    (inDefault : Bool)
    (place : Place)
    (use : SiteUse)
    (index : Nat) :
    IsDialogue hierarchy fun _ convention =>
      useInstruction method sites hierarchy convention site number inDefault place use index := by
  unfold useInstruction
  cases method.instructions[index]? with
  | none => exact isDialogue_pure use
  | some instruction =>
      dsimp only
      cases staticField? instruction with
      | none =>
          have continues (used : SiteUse) :
              IsDialogue hierarchy fun Memory _ => (do
                if isReturn instruction then
                  throw ((place.atLine (method.lineAt? index)).malformed .returnInside)
                return used : Deciding Memory SiteUse) := by
            cases isReturn instruction with
            | true => exact isDialogue_throw _
            | false => exact isDialogue_pure used
          cases instruction.localAccess? with
          | none => exact continues use
          | some access => exact (isDialogue_ofExcept _).bind continues
      | some access =>
          have continues (used : SiteUse) :
              IsDialogue hierarchy fun Memory convention => (do
                if ← convention.isParameter hierarchy access.1.owner access.1.name then
                  MonadExcept.ofExcept ((useParameter sites number inDefault access.1 access.2
                    used).mapError (place.atLine (method.lineAt? index)).malformed)
                else
                  return used : Deciding Memory SiteUse) := by
            refine (isDialogue_answer (.parameter access.1.owner access.1.name)).bind
              fun answer => ?_
            cases answer with
            | true => exact isDialogue_ofExcept _
            | false => exact isDialogue_pure used
          cases instruction.localAccess? with
          | none => exact continues use
          | some stored => exact (isDialogue_ofExcept _).bind continues

theorem isDialogue_usePiece
    (method : Method)
    (sites : List LambdaSite)
    (known : Array SiteUse)
    (site : LambdaSite)
    (number : Nat)
    (inDefault : Bool)
    (place : Place)
    (use : SiteUse)
    (piece : Piece) :
    IsDialogue hierarchy fun _ convention =>
      usePiece method sites hierarchy convention known site number inDefault place use piece := by
  cases piece with
  | instruction index =>
      exact isDialogue_useInstruction method sites site number inDefault place use index
  | site nested stop => exact isDialogue_pure _

theorem isDialogue_useSpan
    (method : Method)
    (sites : List LambdaSite)
    (known : Array SiteUse)
    (site : LambdaSite)
    (number : Nat)
    (inDefault : Bool)
    (place : Place)
    (use : SiteUse)
    (span : Span) :
    IsDialogue hierarchy fun _ convention =>
      useSpan method sites hierarchy convention known site number inDefault place use span :=
  isDialogue_foldlM
    (fun reached piece =>
      isDialogue_usePiece method sites known site number inDefault place reached piece) use _

theorem isDialogue_useOfSite
    (method : Method)
    (sites : List LambdaSite)
    (known : Array SiteUse)
    (site : LambdaSite)
    (number : Nat)
    (place : Place) :
    IsDialogue hierarchy fun _ convention =>
      useOfSite method sites hierarchy convention known site number place := by
  unfold useOfSite
  refine (isDialogue_foldlM (fun reached span =>
    isDialogue_useSpan method sites known site number true place reached span) {} _).bind
    fun use => ?_
  refine (isDialogue_useSpan method sites known site number false place use site.body).bind
    fun used => ?_
  cases site.parameters.findIdx? fun parameter => parameter.field.isNone with
  | some position => exact isDialogue_throw _
  | none => exact isDialogue_pure used

theorem isDialogue_usesOfSites
    (method : Method)
    (sites : List LambdaSite)
    (place : Place) :
    IsDialogue hierarchy fun _ convention =>
      usesOfSites method sites hierarchy convention place :=
  isDialogue_foldlM (fun known (site, number) =>
    (isDialogue_useOfSite method sites known site number (place.atLine site.line)).bind
      fun _ => isDialogue_pure _) _ _

theorem isDialogue_analyzeCaptures
    (method : Method)
    (sites : List LambdaSite)
    (place : Place) :
    IsDialogue hierarchy fun _ convention =>
      analyzeCaptures method sites hierarchy convention place := by
  unfold analyzeCaptures
  cases sites with
  | nil => exact isDialogue_pure ({} : MethodCaptures)
  | cons first others =>
      dsimp only
      have continues : IsDialogue hierarchy fun Memory convention =>
          (do
            let uses ← usesOfSites method (first :: others) hierarchy convention place
            let isMutable := isMutable method method.writtenVariables
              (uses.toList.flatMap SiteUse.written)
            let settled ← ((first :: others).zip uses.toList).mapM fun entry =>
              MonadExcept.ofExcept
                ((entry.2.settle isMutable).mapError (place.atLine entry.1.line).malformed)
            let boxes ← MonadExcept.ofExcept (place.locate (boxesFor method settled))
            return ⟨settled, boxes⟩ : Deciding Memory MethodCaptures) := by
        refine (isDialogue_usesOfSites method (first :: others) place).bind fun uses => ?_
        refine (isDialogue_mapM (fun _ => isDialogue_ofExcept _) _).bind fun settled => ?_
        exact (isDialogue_ofExcept _).bind fun _ => isDialogue_pure _
      by_cases lacks : (!method.hasVariableTable && 0 < method.maxLocals) = true
      · simp only [if_pos lacks]
        exact (isDialogue_throw _).bind fun _ => continues
      · simp only [if_neg lacks]
        exact continues

theorem isDialogue_planMethod
    (method : Method)
    (calls : List Nat)
    (firstId : Nat)
    (settings : Settings)
    (place : Place) :
    IsDialogue hierarchy fun _ convention =>
      planMethod method calls firstId settings hierarchy convention place := by
  unfold planMethod
  refine (isDialogue_ofExcept _).bind fun analysis => ?_
  refine (isDialogue_detectSites method analysis calls firstId place).bind fun sites => ?_
  refine (isDialogue_analyzeCaptures method sites place).bind fun captures => ?_
  exact (isDialogue_ofExcept _).bind fun methods =>
    (isDialogue_ofExcept _).bind fun names => isDialogue_pure _

theorem isDialogue_planMember
    (settings : Settings)
    (file : ClassFile)
    (index firstId : Nat)
    (member : Member .method) :
    IsDialogue hierarchy fun _ convention =>
      planMember settings hierarchy convention file index firstId member := by
  unfold planMember
  refine (isDialogue_ofExcept _).bind fun method? => ?_
  cases method? with
  | none => exact isDialogue_pure none
  | some method =>
      refine IsDialogue.withinPlace ?_ (Place.ofMethod method)
      refine (isDialogue_factoryCalls method).bind fun calls => ?_
      cases calls with
      | nil => exact isDialogue_pure none
      | cons call calls =>
          exact (isDialogue_planMethod method (call :: calls) firstId settings _).bind
            fun plan => isDialogue_pure _

theorem isDialogue_planMembers
    (settings : Settings)
    (file : ClassFile)
    (index firstId : Nat)
    (members : List (Member .method)) :
    IsDialogue hierarchy fun _ convention =>
      planMembers settings hierarchy convention file index firstId members := by
  induction members generalizing index firstId with
  | nil => exact isDialogue_pure []
  | cons member members inductionHypothesis =>
      unfold planMembers
      refine (isDialogue_planMember settings file index firstId member).bind fun planned? => ?_
      cases planned? with
      | none => exact inductionHypothesis (index + 1) firstId
      | some planned =>
          exact (inductionHypothesis (index + 1) (firstId + planned.plan.sites.length)).bind
            fun rest => isDialogue_pure _

end Planning

/-- The classes that are known while a class is planned: those of the hierarchy, and the class
itself, unless the hierarchy declares one of its name. -/
def Hierarchy.withClass (hierarchy : Hierarchy) (input : Bytes) : Hierarchy :=
  match ClassDeclaration.ofBytes input with
  | .ok owner => hierarchy.declare owner
  | .error _ => hierarchy

/-- All questions about a class are asked with the class itself among those that are known. -/
theorem isDialogue_prepareClass
    (settings : Settings)
    (hierarchy : Hierarchy)
    (input : Bytes) :
    IsDialogue (hierarchy.withClass input) fun _ convention =>
      prepareClass settings hierarchy convention input := by
  unfold prepareClass
  refine isDialogue_bind_ofExcept fun file isFile => ?_
  refine isDialogue_bind_ofExcept fun name _ => ?_
  cases settings.filter.accepts name with
  | false => exact isDialogue_pure _
  | true =>
      refine IsDialogue.withinPlace ?_ (Place.ofClass name)
      unfold prepareFile
      refine isDialogue_bind_ofExcept fun owner isOwner => ?_
      have isDeclared : ClassDeclaration.ofBytes input = .ok owner :=
        bind_eq_ok.mpr ⟨file, mapError_eq_ok.mp isFile, mapError_eq_ok.mp isOwner⟩
      rw [Hierarchy.withClass, isDeclared]
      refine (isDialogue_planMembers settings file 0 0 file.methods).bind fun planned => ?_
      cases planned with
      | nil => exact isDialogue_pure _
      | cons first others => exact isDialogue_ofExcept _

end ClosureConversion
