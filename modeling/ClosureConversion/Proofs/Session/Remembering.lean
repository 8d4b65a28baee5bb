import ClosureConversion.Proofs.Session.Dialogue

/-!
Contract: what a session asks about a class, and what it remembers of the answers.

Owns:
- which questions a dialogue asks for given answers, and that no others matter;
- conventions that write down what they are asked;
- a session goes by the answers that it remembers, and remembers all that it is given;
- a class is prepared as if nothing were remembered if what is remembered is what it would be told.

Does not own: why two classes are told different things.
-/

namespace ClosureConversion

/-! ## What is asked -/

namespace Dialogue

variable {α : Type}

/-- The result for given answers. -/
def result (answers : Question → Answer) : Dialogue α → Except ClosureError α
  | .ended result => result
  | .asking question next => (next (answers question)).result answers

/-- The questions that are asked for given answers. -/
def questions (answers : Question → Answer) : Dialogue α → List Question
  | .ended _ => []
  | .asking question next => question :: (next (answers question)).questions answers

/-- Only answers to questions that are asked matter. -/
theorem result_congr
    {answers others : Question → Answer}
    (dialogue : Dialogue α)
    (agree : ∀ question ∈ dialogue.questions answers, others question = answers question) :
    dialogue.result others = dialogue.result answers ∧
      dialogue.questions others = dialogue.questions answers := by
  induction dialogue with
  | ended result => exact ⟨rfl, rfl⟩
  | asking question next inductionHypothesis =>
      have same : others question = answers question := agree question List.mem_cons_self
      obtain ⟨sameResult, sameQuestions⟩ := inductionHypothesis (answers question)
        fun other member => agree other (List.mem_cons_of_mem _ member)
      unfold result questions
      rw [same]
      exact ⟨sameResult, congrArg (question :: ·) sameQuestions⟩

end Dialogue

/-- The convention that gives certain answers, and writes down what it was asked. -/
def Convention.logging (answers : Hierarchy → Question → Answer) :
    Convention (List (Question × Answer)) where
  isFactory hierarchy owner name type := fun log =>
    let answer := answers hierarchy (.factory owner name type)
    (MonadExcept.ofExcept answer : Deciding _ Bool)
      (log ++ [(.factory owner name type, answer)])
  isParameter hierarchy owner name := fun log =>
    let answer := answers hierarchy (.parameter owner name)
    (MonadExcept.ofExcept answer : Deciding _ Bool) (log ++ [(.parameter owner name, answer)])

namespace Settings

variable (settings : Settings)

/-- The answer to a question by the annotations of the settings. -/
def decide (hierarchy : Hierarchy) : Question → Answer
  | .factory owner name type => unmarkedIfMissing (settings.marksFactory hierarchy owner name type)
  | .parameter owner name => unmarkedIfMissing (settings.marksParameter hierarchy owner name)

/-- What is asked about a class, with the answers by the annotations of the settings. -/
def asked (hierarchy : Hierarchy) (input : Bytes) : List (Question × Answer) :=
  match prepareClass settings hierarchy (.logging settings.decide) input [] with
  | .ok _ log => log
  | .error _ log => log

/-- A class, prepared by the annotations of the settings alone. -/
def prepared (hierarchy : Hierarchy) (input : Bytes) : Except ClosureError PreparedClass :=
  match prepareClass settings hierarchy (.logging settings.decide) input [] with
  | .ok prepared _ => .ok prepared
  | .error error _ => .error error

end Settings

/-- The result of a computation that remembers, with what is remembered. -/
def remembering {Memory α : Type} (result : Except ClosureError α) (memory : Memory) :
    EStateM.Result ClosureError Memory α :=
  match result with
  | .ok value => .ok value memory
  | .error error => .error error memory

theorem remembering_eq_ok
    {Memory α : Type}
    {result : Except ClosureError α}
    {memory after : Memory}
    {value : α} :
    remembering result memory = .ok value after ↔ result = .ok value ∧ memory = after := by
  cases result with
  | error error => simp [remembering]
  | ok other => simp [remembering]

section Logging

variable {answers : Hierarchy → Question → Answer} {hierarchy : Hierarchy} {α : Type}

theorem answer_logging
    (question : Question)
    (log : List (Question × Answer)) :
    (Convention.logging answers).answer hierarchy question log =
      remembering (answers hierarchy question)
        (log ++ [(question, answers hierarchy question)]) := by
  cases question with
  | factory owner name type =>
      unfold Convention.answer Convention.logging remembering
      dsimp only
      cases answers hierarchy (.factory owner name type) <;> rfl
  | parameter owner name =>
      unfold Convention.answer Convention.logging remembering
      dsimp only
      cases answers hierarchy (.parameter owner name) <;> rfl

/-- The log of a dialogue holds all questions with their answers. -/
theorem run_logging
    (answers : Hierarchy → Question → Answer)
    (hierarchy : Hierarchy)
    (dialogue : Dialogue α)
    (log : List (Question × Answer)) :
    dialogue.run hierarchy (.logging answers) log =
      remembering (dialogue.result (answers hierarchy))
        (log ++ (dialogue.questions (answers hierarchy)).map
          fun question => (question, answers hierarchy question)) := by
  induction dialogue generalizing log with
  | ended result =>
      change _ = remembering result (log ++ [])
      rw [List.append_nil]
      cases result <;> rfl
  | asking question next inductionHypothesis =>
      rw [Dialogue.run_asking, answer_logging, Dialogue.result, Dialogue.questions, List.map_cons,
        List.append_cons log _ (List.map _ _)]
      cases isAnswer : answers hierarchy question with
      | ok answer => exact inductionHypothesis (.ok answer) _
      | error error => exact inductionHypothesis (.error error) _

/-- A dialogue ends the same for all conventions that would answer what was asked of one of
them alike. -/
theorem IsDialogue.logging_congr
    {program : (Memory : Type) → Convention Memory → Deciding Memory α}
    (isDialogue : IsDialogue hierarchy program)
    {value : α}
    {log : List (Question × Answer)}
    (logged : program _ (.logging answers) [] = .ok value log)
    (others : Hierarchy → Question → Answer)
    (agree : ∀ entry ∈ log, others hierarchy entry.1 = entry.2) :
    program _ (.logging others) [] = .ok value log := by
  obtain ⟨dialogue, runs⟩ := isDialogue
  rw [runs, run_logging, List.nil_append] at logged ⊢
  obtain ⟨isResult, isLog⟩ := remembering_eq_ok.mp logged
  have same : ∀ question ∈ dialogue.questions (answers hierarchy),
      others hierarchy question = answers hierarchy question := by
    intro question member
    exact agree (question, answers hierarchy question)
      (isLog ▸ List.mem_map.mpr ⟨question, member, rfl⟩)
  obtain ⟨sameResult, sameQuestions⟩ := dialogue.result_congr same
  rw [sameResult, sameQuestions, List.map_congr_left fun question member => by
    rw [same question member]]
  exact logged

end Logging

/-- Preparing a class is one dialogue, which is what is asked about it and what becomes of it. -/
theorem exists_dialogue
    (settings : Settings)
    (hierarchy : Hierarchy)
    (input : Bytes) :
    ∃ dialogue : Dialogue PreparedClass,
      (∀ (Memory : Type) (convention : Convention Memory),
        prepareClass settings hierarchy convention input =
          dialogue.run (hierarchy.withClass input) convention) ∧
      settings.prepared hierarchy input =
        dialogue.result (settings.decide (hierarchy.withClass input)) ∧
      settings.asked hierarchy input =
        (dialogue.questions (settings.decide (hierarchy.withClass input))).map
          fun question => (question, settings.decide (hierarchy.withClass input) question) := by
  obtain ⟨dialogue, runs⟩ := isDialogue_prepareClass settings hierarchy input
  have logged := run_logging settings.decide (hierarchy.withClass input) dialogue []
  have prepares : prepareClass settings hierarchy (.logging settings.decide) input =
      dialogue.run (hierarchy.withClass input) (.logging settings.decide) := runs _ _
  refine ⟨dialogue, runs, ?_, ?_⟩
  · unfold Settings.prepared
    rw [prepares, logged]
    cases dialogue.result (settings.decide (hierarchy.withClass input)) <;> rfl
  · unfold Settings.asked
    rw [prepares, logged]
    cases dialogue.result (settings.decide (hierarchy.withClass input)) <;> rfl

/-- Questions about a class are answered by the annotations, with the class itself among those
that are known. -/
theorem eq_decide_of_mem_asked
    {settings : Settings}
    {hierarchy : Hierarchy}
    {input : Bytes}
    {question : Question}
    {answer : Answer}
    (isAsked : (question, answer) ∈ settings.asked hierarchy input) :
    answer = settings.decide (hierarchy.withClass input) question := by
  obtain ⟨_, _, _, areAsked⟩ := exists_dialogue settings hierarchy input
  obtain ⟨_, _, equal⟩ := List.mem_map.mp (areAsked ▸ isAsked)
  obtain ⟨rfl, rfl⟩ := Prod.mk.inj equal
  rfl

/-! ## What is remembered -/

namespace Decisions

/-- What was decided about a question. -/
def find? (decisions : Decisions) : Question → Option Bool
  | .factory owner name type => decisions.factories.lookup (owner, name, type)
  | .parameter owner name => decisions.parameters.lookup (owner, name)

/-- Remembers what was decided about a question. -/
def note (decisions : Decisions) (answer : Bool) : Question → Decisions
  | .factory owner name type =>
      { decisions with factories := ((owner, name, type), answer) :: decisions.factories }
  | .parameter owner name =>
      { decisions with parameters := ((owner, name), answer) :: decisions.parameters }

theorem find?_note
    (decisions : Decisions)
    (answer : Bool)
    (question other : Question) :
    (decisions.note answer question).find? other =
      if other = question then some answer else decisions.find? other := by
  cases question with
  | factory owner name type =>
      cases other with
      | factory otherOwner otherName otherType =>
          change List.lookup (otherOwner, otherName, otherType)
            (((owner, name, type), answer) :: decisions.factories) = _
          rw [List.lookup_cons]
          by_cases same : (otherOwner, otherName, otherType) = (owner, name, type)
          · cases same
            rw [if_pos rfl, beq_self_eq_true]
          · rw [if_neg (by simpa using same), beq_false_of_ne same]
            rfl
      | parameter otherOwner otherName => rfl
  | parameter owner name =>
      cases other with
      | factory otherOwner otherName otherType => rfl
      | parameter otherOwner otherName =>
          change List.lookup (otherOwner, otherName)
            (((owner, name), answer) :: decisions.parameters) = _
          rw [List.lookup_cons]
          by_cases same : (otherOwner, otherName) = (owner, name)
          · cases same
            rw [if_pos rfl, beq_self_eq_true]
          · rw [if_neg (by simpa using same), beq_false_of_ne same]
            rfl

/-- The answer to a question, as decided before or now. -/
def reply (decisions : Decisions) (settings : Settings) (hierarchy : Hierarchy)
    (question : Question) : Answer :=
  match decisions.find? question with
  | some known => .ok known
  | none => settings.decide hierarchy question

end Decisions

section Remembering

variable {settings : Settings} {hierarchy : Hierarchy} {decisions : Decisions} {α : Type}

theorem answer_convention_of_some
    {question : Question}
    {known : Bool}
    (isKnown : decisions.find? question = some known) :
    settings.convention.answer hierarchy question decisions = .ok known decisions := by
  cases question with
  | factory owner name type =>
      refine run_bind_eq_ok.mpr ⟨decisions, decisions, rfl, ?_⟩
      rw [show decisions.factories.lookup (owner, name, type) = some known from isKnown]
      rfl
  | parameter owner name =>
      refine run_bind_eq_ok.mpr ⟨decisions, decisions, rfl, ?_⟩
      rw [show decisions.parameters.lookup (owner, name) = some known from isKnown]
      rfl

theorem answer_convention_of_none
    {question : Question}
    (isOpen : decisions.find? question = none) :
    settings.convention.answer hierarchy question decisions =
      match settings.decide hierarchy question with
      | .ok answer => .ok answer (decisions.note answer question)
      | .error error => .error error decisions := by
  cases question with
  | factory owner name type =>
      change settings.decideFactory hierarchy owner name type decisions = _
      unfold Settings.decideFactory Settings.decide
      rw [run_bind]
      change (match decisions.factories.lookup (owner, name, type) with
        | some known => _
        | none => _ : Deciding Decisions Bool) decisions = _
      rw [show decisions.factories.lookup (owner, name, type) = none from isOpen]
      dsimp only
      cases Settings.unmarkedIfMissing (settings.marksFactory hierarchy owner name type) <;> rfl
  | parameter owner name =>
      change settings.decideParameter hierarchy owner name decisions = _
      unfold Settings.decideParameter Settings.decide
      rw [run_bind]
      change (match decisions.parameters.lookup (owner, name) with
        | some known => _
        | none => _ : Deciding Decisions Bool) decisions = _
      rw [show decisions.parameters.lookup (owner, name) = none from isOpen]
      dsimp only
      cases Settings.unmarkedIfMissing (settings.marksParameter hierarchy owner name) <;> rfl

/-- Remembering an answer changes no answer. -/
theorem reply_note
    {question : Question}
    {answer : Bool}
    (isOpen : decisions.find? question = none)
    (isAnswer : settings.decide hierarchy question = .ok answer) :
    (decisions.note answer question).reply settings hierarchy =
      decisions.reply settings hierarchy := by
  funext other
  unfold Decisions.reply
  rw [Decisions.find?_note]
  by_cases same : other = question
  · subst same
    rw [if_pos rfl, isOpen, isAnswer]
  · rw [if_neg same]

/-- A dialogue goes by what was decided before it, and all that it asked is remembered after
it. -/
theorem run_convention
    (settings : Settings)
    (hierarchy : Hierarchy)
    (dialogue : Dialogue α)
    (decisions : Decisions) :
    ∃ after, dialogue.run hierarchy settings.convention decisions =
        remembering (dialogue.result (decisions.reply settings hierarchy)) after ∧
      ∀ question answer, after.find? question = some answer ↔
        decisions.find? question = some answer ∨
          (question ∈ dialogue.questions (decisions.reply settings hierarchy) ∧
            decisions.reply settings hierarchy question = .ok answer) := by
  induction dialogue generalizing decisions with
  | ended result =>
      refine ⟨decisions, ?_, fun question answer => ⟨.inl, ?_⟩⟩
      · cases result <;> rfl
      · rintro (found | ⟨isAsked, _⟩)
        · exact found
        · cases isAsked
  | asking question next inductionHypothesis =>
      rw [Dialogue.run_asking, Dialogue.result, Dialogue.questions]
      cases isKnown : decisions.find? question with
      | some known =>
          have isReply : decisions.reply settings hierarchy question = .ok known := by
            rw [Decisions.reply, isKnown]
          obtain ⟨after, runs, each⟩ := inductionHypothesis (.ok known) decisions
          rw [answer_convention_of_some isKnown, isReply]
          refine ⟨after, runs, fun other answer => (each other answer).trans ?_⟩
          rw [List.mem_cons]
          constructor
          · exact Or.imp_right fun isAsked => ⟨.inr isAsked.1, isAsked.2⟩
          · rintro (found | ⟨rfl | isAsked, isAnswered⟩)
            · exact .inl found
            · exact .inl (isKnown.trans (congrArg Except.toOption (isReply.symm.trans isAnswered)))
            · exact .inr ⟨isAsked, isAnswered⟩
      | none =>
          have isReply : decisions.reply settings hierarchy question =
              settings.decide hierarchy question := by
            rw [Decisions.reply, isKnown]
          rw [answer_convention_of_none isKnown, isReply]
          cases isAnswer : settings.decide hierarchy question with
          | error error =>
              obtain ⟨after, runs, each⟩ := inductionHypothesis (.error error) decisions
              refine ⟨after, runs, fun other answer => (each other answer).trans ?_⟩
              rw [List.mem_cons]
              constructor
              · exact Or.imp_right fun isAsked => ⟨.inr isAsked.1, isAsked.2⟩
              · rintro (found | ⟨rfl | isAsked, isAnswered⟩)
                · exact .inl found
                · cases isAnswered.symm.trans (isReply.trans isAnswer)
                · exact .inr ⟨isAsked, isAnswered⟩
          | ok decided =>
              obtain ⟨after, runs, each⟩ :=
                inductionHypothesis (.ok decided) (decisions.note decided question)
              rw [reply_note isKnown isAnswer] at runs each
              refine ⟨after, runs, fun other answer => (each other answer).trans ?_⟩
              rw [List.mem_cons, Decisions.find?_note]
              by_cases same : other = question
              · subst same
                rw [if_pos rfl, isKnown, isReply, isAnswer]
                simp
              · rw [if_neg same]
                simp only [same, false_or]

/-- A dialogue ends for what was decided before as it does for a convention that answers what it
asks alike. -/
theorem IsDialogue.convention_congr
    {program : (Memory : Type) → Convention Memory → Deciding Memory α}
    (isDialogue : IsDialogue hierarchy program)
    {answers : Hierarchy → Question → Answer}
    {value : α}
    {log : List (Question × Answer)}
    (logged : program _ (.logging answers) [] = .ok value log)
    (agree : ∀ entry ∈ log, decisions.reply settings hierarchy entry.1 = entry.2) :
    ∃ after, program _ settings.convention decisions = .ok value after := by
  have replied :=
    isDialogue.logging_congr logged (fun _ => decisions.reply settings hierarchy) agree
  obtain ⟨dialogue, runs⟩ := isDialogue
  rw [runs, run_logging] at replied
  obtain ⟨after, isRun, _⟩ := run_convention settings hierarchy dialogue decisions
  rw [runs, isRun, (remembering_eq_ok.mp replied).1]
  exact ⟨after, rfl⟩

/-- A class is prepared as if nothing had been decided before if nothing else was decided before
about what is asked. -/
theorem prepareClass_of_agree
    {input : Bytes}
    (agree : ∀ question known answer, decisions.find? question = some known →
      (question, answer) ∈ settings.asked hierarchy input → answer = .ok known) :
    ∃ after, prepareClass settings hierarchy settings.convention input decisions =
        remembering (settings.prepared hierarchy input) after ∧
      ∀ question answer, after.find? question = some answer ↔
        decisions.find? question = some answer ∨
          (question, .ok answer) ∈ settings.asked hierarchy input := by
  obtain ⟨dialogue, runs, isPrepared, isAsked⟩ := exists_dialogue settings hierarchy input
  have replies : ∀ question ∈ dialogue.questions (settings.decide (hierarchy.withClass input)),
      decisions.reply settings (hierarchy.withClass input) question =
        settings.decide (hierarchy.withClass input) question := by
    intro question member
    unfold Decisions.reply
    cases isKnown : decisions.find? question with
    | none => rfl
    | some known =>
        refine (agree question known _ isKnown ?_).symm
        rw [isAsked]
        exact List.mem_map.mpr ⟨question, member, rfl⟩
  obtain ⟨sameResult, sameQuestions⟩ := dialogue.result_congr replies
  obtain ⟨after, isRun, each⟩ :=
    run_convention settings (hierarchy.withClass input) dialogue decisions
  rw [sameResult] at isRun
  rw [sameQuestions] at each
  refine ⟨after, by rw [runs, isRun, isPrepared], fun question answer => ?_⟩
  rw [each, isAsked, List.mem_map]
  refine or_congr_right ⟨?_, ?_⟩
  · rintro ⟨member, isAnswer⟩
    exact ⟨question, member, by rw [← replies question member, isAnswer]⟩
  · rintro ⟨other, member, equal⟩
    obtain ⟨rfl, isAnswer⟩ := Prod.mk.inj equal
    exact ⟨member, (replies other member).trans isAnswer⟩

end Remembering

end ClosureConversion
