import Mathlib.Logic.Function.Basic
import ClosureConversion.Proofs.Session.Caching
import ClosureConversion.Proofs.Session.Preparation

/-!
Contract: conversions that run at the same time share the classes of closures safely.

Owns:
- calls that convert classes in steps, each of which looks one class up or keeps one;
- all interleavings of the steps of any number of calls;
- what a call leaves behind, and that a call without others at its side does what a session does.

Does not own: what the conventions of the calls remember. A call may be given any answers, so those
that other calls bring about are among them.
-/

namespace ClosureConversion

/-! ## Calls in steps -/

/-- A call that converts a class, with all that it goes by but the classes of closures. -/
structure Call where
  Memory : Type
  settings : Settings
  hierarchy : Hierarchy
  convention : Convention Memory
  memory : Memory
  input : Bytes

/-- What was found out about the class of a closure: it was kept before, or it was built. -/
inductive Finding where
  | kept (name : BinaryName) (bytes : Bytes)
  | built (name : BinaryName) (bytes : Bytes)

/-- How far a call is. It looks all classes of closures up, and builds those that are not there,
before it keeps any. -/
inductive Stage where
  | looking (prepared : PreparedClass) (found : List Finding) (rest : List ClassDefinition)
  | keeping (prepared : PreparedClass) (closures : List (BinaryName × Bytes)) (rest : List Finding)
  | ended (result : Except ClosureError ConvertedClass)

namespace Call

/-- The class, prepared. -/
def prepared (call : Call) : Except ClosureError PreparedClass :=
  match prepareClass call.settings call.hierarchy call.convention call.input call.memory with
  | .ok prepared _ => .ok prepared
  | .error error _ => .error error

/-- A call before its first step. -/
def start (call : Call) : Stage :=
  match call.prepared with
  | .ok prepared => .looking prepared [] prepared.closures
  | .error error => .ended (.error error)

end Call

namespace Stage

/-- One step of a call, which looks at the classes of closures at most once. -/
def step : Stage → ClosureCache → Stage × ClosureCache
  | .looking prepared found [], cache => (.keeping prepared [] found, cache)
  | .looking prepared found (definition :: rest), cache =>
      match cache.get? definition.name with
      | some bytes => (.looking prepared (found ++ [.kept definition.name bytes]) rest, cache)
      | none =>
          match prepared.build definition with
          | .ok bytes => (.looking prepared (found ++ [.built definition.name bytes]) rest, cache)
          | .error error => (.ended (.error error), cache)
  | .keeping prepared closures [], cache =>
      (.ended (.ok ⟨prepared.name, prepared.bytes, closures⟩), cache)
  | .keeping prepared closures (.kept name bytes :: rest), cache =>
      (.keeping prepared (closures ++ [(name, bytes)]) rest, cache)
  | .keeping prepared closures (.built name bytes :: rest), cache =>
      let (kept, cache) := cache.insert name bytes
      (.keeping prepared (closures ++ [(name, kept)]) rest, cache)
  | .ended result, cache => (.ended result, cache)

/-- Whether a call is going to have a result, as it has built all classes. -/
def commits : Stage → Bool
  | .looking _ _ _ => false
  | .keeping _ _ _ => true
  | .ended (.ok _) => true
  | .ended (.error _) => false

/-- A cache keeps all that a call has found there, and all that the call says is kept. -/
def IsKeptIn (stage : Stage) (cache : ClosureCache) : Prop :=
  match stage with
  | .looking _ found _ => ∀ name bytes, .kept name bytes ∈ found → cache.get? name = some bytes
  | .keeping _ closures rest =>
      (∀ entry ∈ closures, cache.get? entry.1 = some entry.2) ∧
        ∀ name bytes, .kept name bytes ∈ rest → cache.get? name = some bytes
  | .ended (.ok converted) => ∀ entry ∈ converted.closures, cache.get? entry.1 = some entry.2
  | .ended (.error _) => True

end Stage

/-- Any number of calls that share the classes of closures. -/
structure SharedCalls (ι : Type) where
  stages : ι → Stage
  cache : ClosureCache

namespace SharedCalls

variable {ι : Type} [DecidableEq ι]

/-- The calls before their first steps. -/
def start (calls : ι → Call) (cache : ClosureCache) : SharedCalls ι where
  stages := fun call => (calls call).start
  cache := cache

/-- One of the calls takes a step. -/
def step (state : SharedCalls ι) (call : ι) : SharedCalls ι :=
  let (stage, cache) := (state.stages call).step state.cache
  { stages := Function.update state.stages call stage, cache }

/-- The calls take their steps in an order. -/
def run (state : SharedCalls ι) (schedule : List ι) : SharedCalls ι :=
  schedule.foldl step state

/-- Two states differ in nothing but in how far one of the calls is. -/
structure AgreesExcept (call : ι) (state other : SharedCalls ι) : Prop where
  cache : other.cache = state.cache
  stages : ∀ different, different ≠ call → other.stages different = state.stages different

end SharedCalls

/-! ## One step -/

namespace Stage

/-- A call that is not going to have a result yet has kept nothing. -/
theorem step_cache_of_not_commits
    {stage : Stage}
    {cache : ClosureCache}
    (waits : (stage.step cache).1.commits = false) :
    (stage.step cache).2 = cache := by
  unfold step at waits ⊢
  split at waits <;> try rfl
  · rename_i definition rest
    cases cache.get? definition.name with
    | some bytes => rfl
    | none =>
        dsimp only
        split <;> rfl
  · cases waits

/-- A call that has begun to keep classes is going to have a result. -/
theorem commits_step
    {stage : Stage}
    (commits : stage.commits = true)
    (cache : ClosureCache) :
    (stage.step cache).1.commits = true := by
  unfold step
  split
  · cases commits
  · cases commits
  · rfl
  · rfl
  · rfl
  · exact commits

theorem step_cache_grows
    (stage : Stage)
    (cache : ClosureCache) :
    (stage.step cache).2.Grows cache := by
  unfold step
  split
  · exact .refl cache
  · split
    · exact .refl cache
    · split <;> exact .refl cache
  · exact .refl cache
  · exact .refl cache
  · exact ClosureCache.grows_insert cache _ _
  · exact .refl cache

theorem IsKeptIn.mono
    {stage : Stage}
    {cache later : ClosureCache}
    (kept : stage.IsKeptIn cache)
    (grows : later.Grows cache) :
    stage.IsKeptIn later := by
  match stage, kept with
  | .looking _ _ _, kept => exact fun name bytes member => grows _ _ (kept name bytes member)
  | .keeping _ _ _, kept =>
      exact ⟨fun entry member => grows _ _ (kept.1 entry member),
        fun name bytes member => grows _ _ (kept.2 name bytes member)⟩
  | .ended (.ok _), kept => exact fun entry member => grows _ _ (kept entry member)
  | .ended (.error _), _ => exact trivial

/-- A step of a call finds only what is kept, and says so only of what is kept. -/
theorem IsKeptIn.step
    {stage : Stage}
    {cache : ClosureCache}
    (kept : stage.IsKeptIn cache) :
    (stage.step cache).1.IsKeptIn (stage.step cache).2 := by
  match stage, kept with
  | .looking prepared found [], kept => exact ⟨by simp, kept⟩
  | .looking prepared found (definition :: rest), kept =>
      unfold Stage.step
      dsimp only
      split
      · rename_i bytes isKept
        intro name other member
        rcases List.mem_append.mp member with isEarlier | isLast
        · exact kept name other isEarlier
        · cases List.mem_singleton.mp isLast
          exact isKept
      · split
        · intro name other member
          rcases List.mem_append.mp member with isEarlier | isLast
          · exact kept name other isEarlier
          · cases List.mem_singleton.mp isLast
        · exact trivial
  | .keeping prepared closures [], kept => exact kept.1
  | .keeping prepared closures (.kept name bytes :: rest), kept =>
      refine ⟨?_, fun other bytes member => kept.2 other bytes (List.mem_cons_of_mem _ member)⟩
      intro entry member
      rcases List.mem_append.mp member with isEarlier | isLast
      · exact kept.1 entry isEarlier
      · cases List.mem_singleton.mp isLast
        exact kept.2 name bytes List.mem_cons_self
  | .keeping prepared closures (.built name bytes :: rest), kept =>
      have grows := ClosureCache.grows_insert cache name bytes
      refine ⟨?_, fun other bytes member =>
        grows _ _ (kept.2 other bytes (List.mem_cons_of_mem _ member))⟩
      intro entry member
      rcases List.mem_append.mp member with isEarlier | isLast
      · exact grows _ _ (kept.1 entry isEarlier)
      · cases List.mem_singleton.mp isLast
        exact ClosureCache.get?_insert_self cache name bytes
  | .ended result, kept => exact kept

end Stage

theorem Call.isKeptIn_start
    (call : Call)
    (cache : ClosureCache) :
    call.start.IsKeptIn cache := by
  unfold start
  split
  · exact fun _ _ member => nomatch member
  · exact trivial

/-! ## All steps -/

namespace SharedCalls

variable {ι : Type} [DecidableEq ι]

theorem run_cons
    (state : SharedCalls ι)
    (call : ι)
    (schedule : List ι) :
    state.run (call :: schedule) = (state.step call).run schedule :=
  rfl

theorem run_append
    (state : SharedCalls ι)
    (schedule later : List ι) :
    state.run (schedule ++ later) = (state.run schedule).run later :=
  List.foldl_append

theorem step_stages_self
    (state : SharedCalls ι)
    (call : ι) :
    (state.step call).stages call = ((state.stages call).step state.cache).1 :=
  Function.update_self ..

theorem step_stages_of_ne
    (state : SharedCalls ι)
    {call other : ι}
    (different : other ≠ call) :
    (state.step call).stages other = state.stages other :=
  Function.update_of_ne different ..

/-- A call stays where it is while others take steps. -/
theorem run_stages_of_not_mem
    (state : SharedCalls ι)
    {call : ι}
    {schedule : List ι}
    (rests : call ∉ schedule) :
    (state.run schedule).stages call = state.stages call := by
  induction schedule generalizing state with
  | nil => rfl
  | cons next schedule inductionHypothesis =>
      rw [run_cons, inductionHypothesis _ (List.not_mem_of_not_mem_cons rests),
        step_stages_of_ne state (List.ne_of_not_mem_cons rests)]

theorem run_cache_grows
    (state : SharedCalls ι)
    (schedule : List ι) :
    (state.run schedule).cache.Grows state.cache := by
  induction schedule generalizing state with
  | nil => exact .refl state.cache
  | cons call schedule inductionHypothesis =>
      exact (inductionHypothesis (state.step call)).trans
        (Stage.step_cache_grows (state.stages call) state.cache)

/-- A step of a call leaves what all calls have found and kept as it is. -/
theorem isKeptIn_run
    {state : SharedCalls ι}
    (kept : ∀ call, (state.stages call).IsKeptIn state.cache)
    (schedule : List ι)
    (call : ι) :
    ((state.run schedule).stages call).IsKeptIn (state.run schedule).cache := by
  induction schedule generalizing state with
  | nil => exact kept call
  | cons next schedule inductionHypothesis =>
      refine inductionHypothesis fun other => ?_
      by_cases same : other = next
      · subst same
        rw [step_stages_self]
        exact (kept other).step
      · rw [step_stages_of_ne state same]
        exact (kept other).mono (Stage.step_cache_grows (state.stages next) state.cache)

/-- A call that has begun to keep classes never fails. -/
theorem commits_run
    {state : SharedCalls ι}
    {call : ι}
    (commits : (state.stages call).commits = true)
    (schedule : List ι) :
    ((state.run schedule).stages call).commits = true := by
  induction schedule generalizing state with
  | nil => exact commits
  | cons next schedule inductionHypothesis =>
      refine inductionHypothesis ?_
      by_cases same : call = next
      · subst same
        rw [step_stages_self]
        exact Stage.commits_step commits state.cache
      · rw [step_stages_of_ne state same]
        exact commits

/-- The steps of a call that fails can be left out. -/
theorem agreesExcept_run
    {call : ι}
    {state other : SharedCalls ι}
    (agrees : AgreesExcept call state other)
    {schedule : List ι}
    (fails : ((state.run schedule).stages call).commits = false) :
    AgreesExcept call (state.run schedule) (other.run (schedule.filter (· ≠ call))) := by
  induction schedule generalizing state other with
  | nil => exact agrees
  | cons next schedule inductionHypothesis =>
      rw [run_cons] at fails ⊢
      by_cases same : next = call
      · -- A step that is left out has kept nothing, or the call would have a result.
        subst same
        rw [List.filter_cons_of_neg (by simp)]
        refine inductionHypothesis ⟨?_, fun different isOther => ?_⟩ fails
        · have waits : ((state.stages next).step state.cache).1.commits = false := by
            rw [← step_stages_self]
            exact Bool.eq_false_iff.mpr fun commits =>
              Bool.false_ne_true (fails.symm.trans (commits_run commits schedule))
          exact agrees.cache.trans (Stage.step_cache_of_not_commits waits).symm
        · rw [step_stages_of_ne state isOther]
          exact agrees.stages different isOther
      · rw [List.filter_cons_of_pos (by simpa using same), run_cons]
        have sameStep : (other.stages next).step other.cache =
            (state.stages next).step state.cache := by
          rw [agrees.stages next same, agrees.cache]
        refine inductionHypothesis ⟨congrArg Prod.snd sameStep, fun different isOther => ?_⟩ fails
        by_cases isNext : different = next
        · subst isNext
          rw [step_stages_self, step_stages_self, sameStep]
        · rw [step_stages_of_ne other isNext, step_stages_of_ne state isNext]
          exact agrees.stages different isOther

end SharedCalls

/-- **Sharing**: however the steps of several calls are interleaved, a call that fails leaves
everything as if it had not been made, what is kept for a name stays, and what a call with a result
says of the classes of its closures is kept from then on. -/
theorem interleavedCalls_share
    {ι : Type}
    [DecidableEq ι]
    (calls : ι → Call)
    (cache : ClosureCache)
    (schedule : List ι) :
    let start := SharedCalls.start calls cache
    let reached := start.run schedule
    (∀ call error, reached.stages call = .ended (.error error) →
        reached.AgreesExcept call (start.run (schedule.filter (· ≠ call)))) ∧
      ∀ later : List ι, (reached.run later).cache.Grows reached.cache ∧
        ∀ call converted, reached.stages call = .ended (.ok converted) →
          ∀ entry ∈ converted.closures, (reached.run later).cache.get? entry.1 = some entry.2 := by
  intro start reached
  refine ⟨fun call error failed => ?_, fun later => ⟨reached.run_cache_grows later, ?_⟩⟩
  · refine SharedCalls.agreesExcept_run ⟨rfl, fun _ _ => rfl⟩ ?_
    change (reached.stages call).commits = false
    rw [failed]
    rfl
  · intro call converted succeeded entry member
    have kept : (reached.stages call).IsKeptIn reached.cache :=
      SharedCalls.isKeptIn_run (fun other => (calls other).isKeptIn_start cache) schedule call
    rw [succeeded] at kept
    exact reached.run_cache_grows later _ _ (kept entry member)

/-! ## One call alone -/

/-- What a call finds out about the class of a closure if the cache stays as it is. -/
def Finding.ofEntry (cache : ClosureCache) (entry : BinaryName × Bytes) : Finding :=
  match cache.get? entry.1 with
  | some _ => .kept entry.1 entry.2
  | none => .built entry.1 entry.2

namespace Stage

/-- Several steps of a call without steps of others between them. -/
def steps : Nat → Stage → ClosureCache → Stage × ClosureCache
  | 0, stage, cache => (stage, cache)
  | count + 1, stage, cache =>
      let (stage, cache) := stage.step cache
      steps count stage cache

theorem steps_trans
    {stage middle last : Stage}
    {cache between final : ClosureCache}
    {count others : Nat}
    (first : stage.steps count cache = (middle, between))
    (second : middle.steps others between = (last, final)) :
    stage.steps (count + others) cache = (last, final) := by
  induction count generalizing stage cache with
  | zero =>
      cases first
      rw [Nat.zero_add]
      exact second
  | succ count inductionHypothesis =>
      rw [Nat.succ_add]
      exact inductionHypothesis first

/-- Looking the class of a closure up, and building it if it is not there. -/
theorem step_looking
    (prepared : PreparedClass)
    (cache : ClosureCache)
    (found : List Finding)
    (definition : ClassDefinition)
    (rest : List ClassDefinition) :
    (Stage.looking prepared found (definition :: rest)).step cache =
      match prepared.closureEntry cache definition with
      | .ok entry => (.looking prepared (found ++ [Finding.ofEntry cache entry]) rest, cache)
      | .error error => (.ended (.error error), cache) := by
  unfold PreparedClass.closureEntry
  cases isKept : cache.get? definition.name with
  | some bytes => simp only [step, Finding.ofEntry, isKept]
  | none =>
      cases isBuilt : prepared.build definition with
      | ok bytes => simp only [step, Finding.ofEntry, isKept, isBuilt, bind, Except.bind, pure,
          Except.pure]
      | error error => simp only [step, isKept, isBuilt, bind, Except.bind]

/-- A call alone looks up or builds all classes of closures, or fails on the way. -/
theorem steps_looking
    (prepared : PreparedClass)
    (cache : ClosureCache)
    (found : List Finding)
    (rest : List ClassDefinition) :
    match rest.mapM (prepared.closureEntry cache) with
    | .ok entries =>
        (Stage.looking prepared found rest).steps rest.length cache =
          (.looking prepared (found ++ entries.map (Finding.ofEntry cache)) [], cache)
    | .error error =>
        ∃ count, (Stage.looking prepared found rest).steps count cache =
          (.ended (.error error), cache) := by
  induction rest generalizing found with
  | nil =>
      change _ = (Stage.looking prepared (found ++ []) [], cache)
      rw [List.append_nil]
      rfl
  | cons definition rest inductionHypothesis =>
      have first := step_looking prepared cache found definition rest
      rw [List.mapM_cons]
      cases isEntry : prepared.closureEntry cache definition with
      | error error =>
          rw [isEntry] at first
          exact ⟨1, first⟩
      | ok entry =>
          rw [isEntry] at first
          have others := inductionHypothesis (found ++ [Finding.ofEntry cache entry])
          cases computed : rest.mapM (prepared.closureEntry cache) with
          | error error =>
              rw [computed] at others
              obtain ⟨count, reached⟩ := others
              exact ⟨1 + count, steps_trans first reached⟩
          | ok entries =>
              rw [computed] at others
              dsimp only at others
              rw [List.append_assoc] at others
              change (Stage.looking prepared found (definition :: rest)).steps (rest.length + 1)
                cache = _
              rw [Nat.add_comm]
              exact steps_trans first others

/-- A call alone keeps all classes of closures. -/
theorem steps_keeping
    (prepared : PreparedClass)
    {earlier cache : ClosureCache}
    (grows : cache.Grows earlier)
    (closures : List (BinaryName × Bytes))
    {entries : List (BinaryName × Bytes)}
    (found : ∀ entry ∈ entries, ∀ bytes, earlier.get? entry.1 = some bytes → bytes = entry.2) :
    (Stage.keeping prepared closures (entries.map (Finding.ofEntry earlier))).steps
        entries.length cache =
      (.keeping prepared (closures ++ (cache.insertAll entries).1) [],
        (cache.insertAll entries).2) := by
  induction entries generalizing closures cache with
  | nil =>
      change _ = (Stage.keeping prepared (closures ++ []) [], cache)
      rw [List.append_nil]
      rfl
  | cons entry entries inductionHypothesis =>
      have first :
          (Stage.keeping prepared closures (Finding.ofEntry earlier entry ::
            entries.map (Finding.ofEntry earlier))).step cache =
            (.keeping prepared (closures ++ [(entry.1, (cache.insert entry.1 entry.2).1)])
              (entries.map (Finding.ofEntry earlier)), (cache.insert entry.1 entry.2).2) := by
        unfold Finding.ofEntry
        cases isKept : earlier.get? entry.1 with
        | some bytes =>
            obtain rfl := found entry List.mem_cons_self bytes isKept
            rw [ClosureCache.insert_of_some (grows _ _ isKept)]
            rfl
        | none => rfl
      have others := inductionHypothesis
        ((ClosureCache.grows_insert cache entry.1 entry.2).trans grows)
        (closures ++ [(entry.1, (cache.insert entry.1 entry.2).1)])
        fun other member => found other (List.mem_cons_of_mem _ member)
      rw [List.append_assoc] at others
      change (Stage.keeping prepared closures (Finding.ofEntry earlier entry ::
        entries.map (Finding.ofEntry earlier))).steps (entries.length + 1) cache = _
      rw [Nat.add_comm]
      exact steps_trans first others

end Stage

namespace SharedCalls

variable {ι : Type} [DecidableEq ι]

theorem run_replicate
    (state : SharedCalls ι)
    (call : ι)
    (count : Nat) :
    ((state.run (List.replicate count call)).stages call,
      (state.run (List.replicate count call)).cache) =
        (state.stages call).steps count state.cache := by
  induction count generalizing state with
  | zero => rfl
  | succ count inductionHypothesis =>
      rw [List.replicate_succ, run_cons, inductionHypothesis, step_stages_self]
      rfl

end SharedCalls

/-- A call alone ends with what is made of its class, and keeps the classes of closures of that. -/
theorem Call.exists_steps
    {call : Call}
    {prepared : PreparedClass}
    (isPrepared : call.prepared = .ok prepared)
    (cache : ClosureCache) :
    ∃ count, call.start.steps count cache =
      match prepared.finish cache with
      | .error error => (.ended (.error error), cache)
      | .ok (converted, after) => (.ended (.ok converted), after) := by
  have looked := Stage.steps_looking prepared cache [] prepared.closures
  unfold start
  rw [isPrepared]
  unfold PreparedClass.finish PreparedClass.complete
  cases computed : prepared.closures.mapM (prepared.closureEntry cache) with
  | error error =>
      rw [computed] at looked
      exact looked
  | ok entries =>
      rw [computed] at looked
      have found : ∀ entry ∈ entries, ∀ bytes, cache.get? entry.1 = some bytes →
          bytes = entry.2 := by
        intro entry member bytes isKept
        obtain ⟨definition, _, isEntry⟩ :=
          exists_mem_of_forall₂ (forall₂_of_mapM_eq_ok computed) member
        unfold PreparedClass.closureEntry at isEntry
        split at isEntry
        · rename_i kept isFound
          cases isEntry
          exact Option.some.inj (isKept.symm.trans isFound)
        · rename_i isFree
          obtain ⟨built, _, equal⟩ := bind_eq_ok.mp isEntry
          cases equal
          cases isFree.symm.trans isKept
      have kept := Stage.steps_keeping prepared (.refl cache) [] found
      have turned : (Stage.looking prepared ([] ++ entries.map (Finding.ofEntry cache)) []).steps 1
          cache = (.keeping prepared [] (entries.map (Finding.ofEntry cache)), cache) := rfl
      have ended : (Stage.keeping prepared ([] ++ (cache.insertAll entries).1) []).steps 1
          (cache.insertAll entries).2 =
            (.ended (.ok ⟨prepared.name, prepared.bytes, (cache.insertAll entries).1⟩),
              (cache.insertAll entries).2) := rfl
      exact ⟨_, Stage.steps_trans looked (Stage.steps_trans turned (Stage.steps_trans kept ended))⟩

namespace SharedCalls

variable {ι : Type} [DecidableEq ι]

/-- A call that takes all its steps without others between them. -/
theorem exists_run_replicate
    {state : SharedCalls ι}
    {call : ι}
    {calls : ι → Call}
    {prepared : PreparedClass}
    (begins : state.stages call = (calls call).start)
    (isPrepared : (calls call).prepared = .ok prepared)
    {converted : ConvertedClass}
    {after : ClosureCache}
    (finishes : prepared.finish state.cache = .ok (converted, after)) :
    ∃ count, (state.run (List.replicate count call)).stages call = .ended (.ok converted) ∧
      (state.run (List.replicate count call)).cache = after := by
  obtain ⟨count, steps⟩ := Call.exists_steps isPrepared state.cache
  rw [finishes] at steps
  refine ⟨count, ?_⟩
  rw [← Prod.mk.injEq, run_replicate, begins]
  exact steps

/-- Two calls one after the other. -/
theorem exists_run_of_finish_eq_ok
    (calls : ι → Call)
    {first second : ι}
    (different : first ≠ second)
    {prepared preparedNext : PreparedClass}
    (isPrepared : (calls first).prepared = .ok prepared)
    (isPreparedNext : (calls second).prepared = .ok preparedNext)
    {converted convertedNext : ConvertedClass}
    {cache between after : ClosureCache}
    (finishes : prepared.finish cache = .ok (converted, between))
    (finishesNext : preparedNext.finish between = .ok (convertedNext, after)) :
    ∃ schedule,
      ((start calls cache).run schedule).stages first = .ended (.ok converted) ∧
        ((start calls cache).run schedule).stages second = .ended (.ok convertedNext) := by
  have begins : (start calls cache).stages first = (calls first).start := rfl
  obtain ⟨count, ended, isKept⟩ := exists_run_replicate begins isPrepared finishes
  have waits : ((start calls cache).run (List.replicate count first)).stages second =
      (calls second).start :=
    run_stages_of_not_mem _ fun member => different (List.eq_of_mem_replicate member).symm
  rw [← isKept] at finishesNext
  obtain ⟨countNext, endedNext, _⟩ := exists_run_replicate waits isPreparedNext finishesNext
  refine ⟨List.replicate count first ++ List.replicate countNext second, ?_, ?_⟩
  all_goals rw [run_append]
  · rw [run_stages_of_not_mem _ fun member => different (List.eq_of_mem_replicate member)]
    exact ended
  · exact endedNext

end SharedCalls

/-- The call that a session makes to convert a class. -/
def Session.call (session : Session) (input : Bytes) : Call where
  Memory := Decisions
  settings := session.settings
  hierarchy := session.hierarchy
  convention := session.settings.convention
  memory := session.decisions
  input := input

/-- A call that takes all its steps without others between them does what the session does. -/
theorem run_replicate_eq_convert
    {ι : Type}
    [DecidableEq ι]
    {state : SharedCalls ι}
    {call : ι}
    {session : Session}
    {input : Bytes}
    (begins : state.stages call = (session.call input).start)
    (shares : state.cache = session.cache) :
    ∃ count, (state.run (List.replicate count call)).stages call =
        .ended (session.convert input).1 ∧
      (state.run (List.replicate count call)).cache = (session.convert input).2.cache := by
  suffices reached : ∃ count, (session.call input).start.steps count session.cache =
      (.ended (session.convert input).1, (session.convert input).2.cache) by
    obtain ⟨count, steps⟩ := reached
    refine ⟨count, ?_⟩
    rw [← Prod.mk.injEq, SharedCalls.run_replicate, begins, shares]
    exact steps
  rw [Session.convert_eq]
  cases prepares : prepareClass session.settings session.hierarchy session.settings.convention
      input session.decisions with
  | error error decisions =>
      refine ⟨0, ?_⟩
      unfold Call.start Call.prepared Session.call
      dsimp only
      rw [prepares]
      rfl
  | ok prepared decisions =>
      have isPrepared : (session.call input).prepared = .ok prepared := by
        unfold Call.prepared Session.call
        dsimp only
        rw [prepares]
      obtain ⟨count, steps⟩ := Call.exists_steps isPrepared session.cache
      refine ⟨count, steps.trans ?_⟩
      unfold PreparedClass.finish
      dsimp only
      cases prepared.complete session.cache <;> rfl

end ClosureConversion
