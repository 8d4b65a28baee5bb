import Mathlib.Data.Finset.Card
import Mathlib.Data.List.Sigma
import ClosureConversion.Closure.Plan
import ClosureConversion.Proofs.Capture.Accesses
import ClosureConversion.Proofs.Capture.Boxes

/-!
Contract: which captured variables are shared through boxes.

Owns:
- the instructions that assign a variable, and how many there are;
- a captured variable counts as mutable if it is assigned more often than it is initialised,
  and exactly the mutable variables of a method have boxes;
- when this misses an assignment: the only one there is does not initialise the variable.

Does not own: what else closures capture.
-/

namespace ClosureConversion

namespace Method

/-- The instruction of an index assigns a variable: it stores or increments the slot that holds
the variable there. -/
def Assigns (method : Method) (key : VariableKey) (index : Nat) : Prop :=
  ∃ instruction access, method.instructions[index]? = some instruction ∧
    instruction.localAccess? = some access ∧ access.mode ≠ .load ∧
    (method.variableUse access.slot index access.mode).key? = some key

/-- A variable of the method is only given its first value: a parameter by the caller, another
variable by the instruction just before its scope. -/
def OnlyInitialises (method : Method) (slot : UInt16) (start : Nat) : Prop :=
  ∀ index, method.Assigns (.local slot start) index →
    method.isFormalParameter slot start = false ∧ index + 1 = start

/-- A variable of the method that is no parameter is assigned once, and not just before its
scope. -/
def AssignsOnlyLate (method : Method) (slot : UInt16) (start : Nat) : Prop :=
  method.isFormalParameter slot start = false ∧
    ∃ index, method.Assigns (.local slot start) index ∧ index + 1 ≠ start ∧
      ∀ other, method.Assigns (.local slot start) other → other = index

/-! ## Counting assignments -/

/-- The variable that an instruction assigns. -/
def assigned? (method : Method) (index : Nat) (instruction : Instruction Nat) :
    Option VariableKey :=
  match instruction.localAccess? with
  | some access =>
      if access.mode = .load then none
      else (method.variableUse access.slot index access.mode).key?
  | none => none

/-- The instructions that assign a variable, in order. -/
def assignments (method : Method) (key : VariableKey) : List Nat :=
  (method.instructions.toList.zipIdx.filter fun (instruction, index) =>
    method.assigned? index instruction = some key).map Prod.snd

variable {method : Method} {key : VariableKey}

theorem assigned?_eq_some
    {index : Nat}
    {instruction : Instruction Nat} :
    method.assigned? index instruction = some key ↔
      ∃ access, instruction.localAccess? = some access ∧ access.mode ≠ .load ∧
        (method.variableUse access.slot index access.mode).key? = some key := by
  unfold assigned?
  cases instruction.localAccess? with
  | none => simp
  | some access => by_cases isLoad : access.mode = .load <;> simp [isLoad]

theorem mem_assignments
    {index : Nat} :
    index ∈ method.assignments key ↔ method.Assigns key index := by
  unfold assignments Assigns
  rw [List.mem_map]
  constructor
  · rintro ⟨⟨instruction, place⟩, member, rfl⟩
    obtain ⟨listed, isAssigned⟩ := List.mem_filter.mp member
    rw [List.mem_zipIdx_iff_getElem?, Array.getElem?_toList] at listed
    obtain ⟨access, isAccess, assigns⟩ := assigned?_eq_some.mp (of_decide_eq_true isAssigned)
    exact ⟨instruction, access, listed, isAccess, assigns⟩
  · rintro ⟨instruction, access, isInstruction, isAccess, assigns⟩
    refine ⟨(instruction, index), List.mem_filter.mpr ⟨?_, ?_⟩, rfl⟩
    · rw [List.mem_zipIdx_iff_getElem?, Array.getElem?_toList]
      exact isInstruction
    · exact decide_eq_true (assigned?_eq_some.mpr ⟨access, isAccess, assigns⟩)

theorem nodup_assignments :
    (method.assignments key).Nodup :=
  (List.nodup_zipIdx_map_snd method.instructions.toList).sublist
    (List.filter_sublist.map Prod.snd)

theorem count_writtenVariables :
    method.writtenVariables.count key = (method.assignments key).length := by
  have written : method.writtenVariables = method.instructions.toList.zipIdx.filterMap
      fun (instruction, index) => method.assigned? index instruction := rfl
  rw [written, assignments, List.length_map]
  induction method.instructions.toList.zipIdx with
  | nil => rfl
  | cons entry rest inductionHypothesis =>
      obtain ⟨instruction, index⟩ := entry
      rw [List.filterMap_cons, List.filter_cons]
      cases assigned : method.assigned? index instruction with
      | none => simpa [assigned] using inductionHypothesis
      | some other =>
          by_cases isKey : other = key
          · simpa [assigned, isKey] using inductionHypothesis
          · simpa [assigned, isKey] using inductionHypothesis

theorem count_eq_zero_iff :
    method.writtenVariables.count key = 0 ↔ ∀ index, ¬method.Assigns key index := by
  rw [count_writtenVariables, List.length_eq_zero_iff, List.eq_nil_iff_forall_not_mem]
  simp only [mem_assignments]

theorem count_le_one_iff :
    method.writtenVariables.count key ≤ 1 ↔
      ∀ index other, method.Assigns key index → method.Assigns key other → index = other := by
  rw [count_writtenVariables, ← List.toFinset_card_of_nodup nodup_assignments,
    Finset.card_le_one]
  simp only [List.mem_toFinset, mem_assignments]
  exact ⟨fun unique index other isIndex isOther => unique index isIndex other isOther,
    fun unique index isIndex other isOther => unique index other isIndex isOther⟩

end Method

/-! ## Captures -/

/-- What is counted for a variable of a method. -/
theorem isMutable_local_eq_false_iff
    {method : Method}
    {written : List VariableKey}
    {slot : UInt16}
    {start : Nat} :
    isMutable method method.writtenVariables written (.local slot start) = false ↔
      method.writtenVariables.count (.local slot start) <
        if method.isFormalParameter slot start then 1 else 2 := by
  unfold isMutable
  simp

/-- Every capture of a site is marked by what its variable is. -/
theorem mutable_of_settle_eq_ok
    {use : SiteUse}
    {mutable : VariableKey → Bool}
    {settled : SiteCaptures}
    (computed : use.settle mutable = .ok settled)
    {capture : Capture}
    (member : capture ∈ settled.captures) :
    capture.mutable = mutable capture.key := by
  obtain ⟨unmarked, _, rfl⟩ := exists_mem_of_settle_eq_ok computed member
  rfl

/-- The captures and the boxes of a method are found from one decision about its variables. -/
theorem exists_mutable_of_analyzeCaptures
    {Memory : Type}
    {method : Method}
    {sites : List LambdaSite}
    {hierarchy : Hierarchy}
    {convention : Convention Memory}
    {place : Place}
    {before after : Memory}
    {captures : MethodCaptures}
    (analyzed : analyzeCaptures method sites hierarchy convention place before =
      .ok captures after) :
    ∃ written, boxesFor method captures.sites = .ok captures.boxes ∧
      ∀ site ∈ captures.sites, ∀ capture ∈ site.captures,
        capture.mutable = isMutable method method.writtenVariables written capture.key := by
  unfold analyzeCaptures at analyzed
  split at analyzed
  · obtain ⟨rfl, _⟩ := run_pure_eq_ok.mp analyzed
    exact ⟨[], rfl, by simp⟩
  · dsimp only at analyzed
    split at analyzed
    · cases analyzed
    · obtain ⟨uses, _, _, analyzed⟩ := run_bind_eq_ok.mp analyzed
      obtain ⟨settled, _, settledAll, analyzed⟩ := run_bind_eq_ok.mp analyzed
      obtain ⟨boxes, _, boxesFound, analyzed⟩ := run_bind_eq_ok.mp analyzed
      obtain ⟨rfl, _⟩ := run_pure_eq_ok.mp analyzed
      refine ⟨uses.toList.flatMap SiteUse.written,
        mapError_eq_ok.mp (run_ofExcept_eq_ok.mp boxesFound).1, ?_⟩
      intro site isSite capture isCaptured
      obtain ⟨⟨lambda, use⟩, _, _, _, isSettled⟩ :=
        exists_mem_of_forall₂ (forall₂_of_run_mapM_eq_ok settledAll) isSite
      exact mutable_of_settle_eq_ok (mapError_eq_ok.mp (run_ofExcept_eq_ok.mp isSettled).1)
        isCaptured

section Captured

variable {method : Method} {written : List VariableKey} {slot : UInt16} {start : Nat}

/-- A parameter counts as mutable if it is assigned at all. -/
theorem isMutable_parameter_eq_false_iff
    (isParameter : method.isFormalParameter slot start = true) :
    isMutable method method.writtenVariables written (.local slot start) = false ↔
      ∀ index, ¬method.Assigns (.local slot start) index := by
  rw [isMutable_local_eq_false_iff, if_pos isParameter, Nat.lt_one_iff,
    Method.count_eq_zero_iff]

/-- Another variable counts as mutable if it is assigned twice. -/
theorem isMutable_variable_eq_false_iff
    (noParameter : method.isFormalParameter slot start = false) :
    isMutable method method.writtenVariables written (.local slot start) = false ↔
      ∀ index other, method.Assigns (.local slot start) index →
        method.Assigns (.local slot start) other → index = other := by
  rw [isMutable_local_eq_false_iff, if_neg (by rw [noParameter]; exact Bool.false_ne_true),
    Nat.lt_succ_iff, Method.count_le_one_iff]

/-- Counting misses no assignment but the only one, in another place than just before the
scope. -/
theorem onlyInitialises_iff_not_assignsOnlyLate :
    (isMutable method method.writtenVariables written (.local slot start) = false →
      method.OnlyInitialises slot start) ↔ ¬method.AssignsOnlyLate slot start := by
  constructor
  · rintro initialises ⟨noParameter, index, assigns, isLate, isOnly⟩
    refine isLate (initialises ?_ index assigns).2
    refine (isMutable_variable_eq_false_iff noParameter).mpr fun first second isFirst isSecond => ?_
    exact (isOnly first isFirst).trans (isOnly second isSecond).symm
  · intro notLate notMutable index assigns
    cases isParameter : method.isFormalParameter slot start with
    | true =>
        exact absurd assigns ((isMutable_parameter_eq_false_iff isParameter).mp notMutable index)
    | false =>
        refine ⟨rfl, by_contra fun isLate => notLate ⟨isParameter, index, assigns, isLate, ?_⟩⟩
        intro other otherAssigns
        exact (isMutable_variable_eq_false_iff isParameter).mp notMutable other index otherAssigns
          assigns

end Captured

/-- A variable of the method that a site captures without a box is never assigned but to
initialise it, unless its only assignment does something else. Exactly the variables that are
captured as mutable have a box, which all their captures share. -/
theorem analyzeCaptures_mutable_iff
    {Memory : Type}
    {method : Method}
    {sites : List LambdaSite}
    {hierarchy : Hierarchy}
    {convention : Convention Memory}
    {place : Place}
    {before after : Memory}
    {captures : MethodCaptures}
    (analyzed : analyzeCaptures method sites hierarchy convention place before =
      .ok captures after)
    {site : SiteCaptures}
    (isSite : site ∈ captures.sites)
    {capture : Capture}
    (isCaptured : capture ∈ site.captures)
    {slot : UInt16}
    {start : Nat}
    (isLocal : capture.key = .local slot start) :
    ((capture.mutable = false → method.OnlyInitialises slot start) ↔
        ¬method.AssignsOnlyLate slot start) ∧
      (capture.mutable = true ↔ ∃ boxed, boxOf? captures.boxes capture.key = some boxed) := by
  obtain ⟨written, boxesFound, decided⟩ := exists_mutable_of_analyzeCaptures analyzed
  have boxesOf := boxesOf_boxesFor boxesFound
  refine ⟨?_, ?_⟩
  · rw [decided site isSite capture isCaptured, isLocal]
    exact onlyInitialises_iff_not_assignsOnlyLate
  · rw [← Option.isSome_iff_exists]
    constructor
    · intro isMutable
      exact boxesOf.complete capture (List.mem_flatMap.mpr ⟨site, isSite, isCaptured⟩) isMutable
        slot start isLocal
    · intro isBoxed
      obtain ⟨boxed, isBox, sameKey⟩ := isSome_boxOf?.mp isBoxed
      obtain ⟨other, otherCaptured, isMutable, otherKey, _⟩ := boxesOf.captured boxed isBox
      obtain ⟨otherSite, isOtherSite, isOther⟩ := List.mem_flatMap.mp otherCaptured
      rw [decided site isSite capture isCaptured, ← sameKey, ← otherKey,
        ← decided otherSite isOtherSite other isOther]
      exact isMutable

/-! ## A variable with two scopes -/

namespace TwoScopes

/-- The type of the closure. -/
def counter : BinaryName := ⟨"counting/Counter", by decide⟩

/-- The name of the variable. -/
def total : UnqualifiedName := ⟨"total", by decide⟩

/-- A factory of closures. -/
def factory : MethodRef where
  owner := .object ⟨"counting/Factories", by decide⟩
  name := ⟨"supply", by decide⟩
  type := ⟨[.base .int], some (.ref (.object counter))⟩
  ofInterface := false

/-- A variable that is initialised in one of two branches, the other of which throws. After
the branches, where its second scope begins, a closure captures it, and then it is incremented
a few times. -/
def method (increments : Nat) : Method where
  instructions := #[
    .load .int 0,
    .branch (.zero .equal) 5,
    .pushInt 1,
    .store .int 1,
    .goto 7,
    .op .pushNull,
    .op .throw,
    .load .int 1,
    .invoke .static factory] ++
    Array.replicate increments (.increment 1 1) ++ #[.op (.leave (some .reference))]
  localVariables := #[
    ⟨0, 10 + increments, ⟨"isCounted", by decide⟩, .base .boolean, 0⟩,
    ⟨4, 5, total, .base .int, 1⟩,
    ⟨7, 10 + increments, total, .base .int, 1⟩]
  lines := #[⟨0, 10⟩]
  owner := ⟨"counting/Demo", by decide⟩
  flags := MethodFlags.accStatic
  name := ⟨"count", by decide⟩
  type := ⟨[.base .boolean], some (.ref (.object counter))⟩
  hasVariableTable := true
  maxLocals := 2

/-- The convention that takes every method for a factory and no field for a parameter. -/
def convention : Convention Unit := ⟨fun _ _ _ _ => pure true, fun _ _ _ => pure false⟩

/-- The frames of the method. -/
def frames (increments : Nat) : FlowAnalysis where
  frames := #[
    some ⟨[.int], []⟩,
    some ⟨[.int], [.int]⟩,
    some ⟨[.int], []⟩,
    some ⟨[.int], [.int]⟩,
    some ⟨[.int, .int], []⟩,
    some ⟨[.int], []⟩,
    some ⟨[.int], [.null]⟩,
    some ⟨[.int, .int], []⟩,
    some ⟨[.int, .int], [.int]⟩] ++
    Array.replicate (increments + 1)
      (some ⟨[.int, .int], [.object (.object counter)]⟩)
  maxStack := 1
  maxLocals := 2

/-- The site of the closure. -/
def site : LambdaSite where
  id := 0
  line := some 10
  factory := factory
  target := counter
  parameters := []
  body := ⟨7, 8⟩
  call := 8
  stop := 9
  parent := none

/-- The capture of the variable. -/
def capture (mutable : Bool) : Capture where
  key := .local 1 7
  name := total
  type := .base .int
  origin := .outerLocal
  mutable := mutable

/-- The box of the variable. -/
def box : BoxedLocal where
  key := .local 1 7
  slot := 1
  boxSlot := 2
  type := .base .int
  isParameter := false

end TwoScopes

open TwoScopes in
/-- With two increments the variable is shared. -/
theorem twoScopes_shared :
    analyzeCaptures (method 2) [site] .core convention .unknown () =
        .ok ⟨[{ captures := [capture true] }], [box]⟩ () ∧
      ((capture true).mutable = false → (method 2).OnlyInitialises 1 7) ∧
      ∃ boxed, boxOf? [box] (capture true).key = some boxed := by
  have analyzed : analyzeCaptures (method 2) [site] .core convention .unknown () =
      .ok ⟨[{ captures := [capture true] }], [box]⟩ () := by
    with_unfolding_all rfl
  obtain ⟨initialises, shares⟩ := analyzeCaptures_mutable_iff analyzed List.mem_cons_self
    List.mem_cons_self rfl
  refine ⟨analyzed, initialises.mpr ?_, shares.mp rfl⟩
  rintro ⟨_, index, _, _, isOnly⟩
  have first : (method 2).Assigns (.local 1 7) 9 := ⟨_, _, rfl, rfl, by decide, rfl⟩
  have second : (method 2).Assigns (.local 1 7) 10 := ⟨_, _, rfl, rfl, by decide, rfl⟩
  exact absurd ((isOnly 9 first).trans (isOnly 10 second).symm) (by decide)

open TwoScopes in
/-- With one increment the variable is not shared, although that is no initialisation. -/
theorem twoScopes_notShared :
    (method 1).analyze .core = .ok (frames 1) ∧
      detectSites (method 1) (frames 1) [8] 0 .core convention .unknown () = .ok [site] () ∧
      analyzeCaptures (method 1) [site] .core convention .unknown () =
        .ok ⟨[{ captures := [capture false] }], []⟩ () ∧
      (method 1).Assigns (.local 1 7) 9 ∧
      ¬(method 1).OnlyInitialises 1 7 := by
  have increments : (method 1).Assigns (.local 1 7) 9 := ⟨_, _, rfl, rfl, by decide, rfl⟩
  refine ⟨by decide +kernel, by with_unfolding_all rfl, by with_unfolding_all rfl, increments, ?_⟩
  intro initialises
  exact absurd (initialises 9 increments).2 (by decide)

end ClosureConversion
