import ClosureConversion.Proofs.Capture.Mutability
import ClosureConversion.Proofs.Capture.Tracking

/-!
Contract: what is settled about the sites of a method covers their code.

Owns:
- settling keeps what was found, and rejects a receiver that is assigned;
- every site captures, keeps and shares what its code and the sites that nest in it need.

Does not own: how the needs are found.
-/

namespace ClosureConversion

/-! ## Settling -/

namespace SiteCaptures

/-- The variables that the closure captures. -/
def keys (captures : SiteCaptures) : List VariableKey :=
  captures.captures.map Capture.key

/-- What was settled provides something that is needed: a parameter that is assigned is kept in a
box. -/
def Meets (captures : SiteCaptures) : Need → Prop
  | .capture key => key ∈ captures.keys
  | .keep slot => slot ∈ captures.internal.map Prod.fst
  | .write binder field => ∀ captured ∈ captures.captures,
      captured.key = .parameter binder field → captured.mutable = true

end SiteCaptures

section Settled

variable {use : SiteUse} {mutable : VariableKey → Bool} {settled : SiteCaptures}

theorem mem_constructorOrder
    {capture : Capture}
    {captures : List Capture} :
    capture ∈ constructorOrder captures ↔ capture ∈ captures := by
  simp only [constructorOrder, List.mem_append, List.mem_filter, ← and_or_left, decide_eq_true_eq,
    em, and_true]

/-- The receiver is marked as mutable only if the marking fails. -/
theorem markMutable_eq_ok
    {captures marked : List Capture}
    (computed : markMutable mutable captures = .ok marked) :
    List.Forall₂ (fun capture result => result = { capture with mutable := mutable capture.key } ∧
      (capture.key = .this → mutable .this = false)) captures marked := by
  refine (forall₂_of_mapM_eq_ok computed).imp ?_
  intro capture result isResult
  dsimp only at isResult
  split at isResult
  · cases isResult
  · rename_i allowed
    cases isResult
    refine ⟨rfl, fun isThis => ?_⟩
    simpa [isThis] using allowed

/-- Settling what a site uses changes neither the variables nor the slots, and the receiver is
captured only if it is not mutable. -/
theorem settle_eq_ok
    (computed : use.settle mutable = .ok settled) :
    (∀ key, key ∈ settled.keys ↔ key ∈ use.keys) ∧ settled.internal = use.internal ∧
      (.this ∈ use.keys → mutable .this = false) := by
  unfold SiteUse.settle at computed
  obtain ⟨marked, isMarked, computed⟩ := bind_eq_ok.mp computed
  obtain ⟨boxed, _, computed⟩ := bind_eq_ok.mp computed
  cases computed
  have related := markMutable_eq_ok isMarked
  have sameKeys : use.captures.map Capture.key = marked.map Capture.key := by
    refine List.forall₂_eq_eq_eq ▸ List.forall₂_map_left_iff.mpr (List.forall₂_map_right_iff.mpr ?_)
    exact related.imp fun _ _ isResult => by rw [isResult.1]
  refine ⟨fun key => ?_, rfl, fun isThis => ?_⟩
  · unfold SiteCaptures.keys SiteUse.keys
    rw [sameKeys]
    simp only [List.mem_map, mem_constructorOrder]
  · obtain ⟨capture, member, isKey⟩ := List.mem_map.mp isThis
    obtain ⟨position, found⟩ := List.getElem?_of_mem member
    have below : position < marked.length := by
      rw [← related.length_eq]
      exact (List.getElem?_eq_some_iff.mp found).1
    exact (related_of_getElem? related found (List.getElem?_eq_getElem below)).2 isKey

end Settled

section Covered

variable {Memory : Type} {method : Method} {sites : List LambdaSite} {hierarchy : Hierarchy}
  {convention : Convention Memory} {Knows : Memory → BinaryName → UnqualifiedName → Prop}
  {site : LambdaSite} {number : Nat} {place : Place} {before after : Memory}

/-- The variables that the closures of sites capture. -/
def MethodCaptures.keysOf (captures : MethodCaptures) (number : Nat) : List VariableKey :=
  (captures.sites[number]?.map SiteCaptures.keys).getD []

/-- What was settled for a site, given what the sites inside it capture: it provides what the code
of the site needs, the parameters that it captures are bound around the site, its own parameters
stand for fields, and it captures the receiver only if the method never assigns that. -/
structure IsCovered (sites : List LambdaSite) (method : Method) (captured : Nat → List VariableKey)
    (site : LambdaSite) (number : Nat) (own : SiteCaptures) : Prop where
  meets : ∀ need ∈ siteNeeds sites method captured site number, own.Meets need
  bound : ∀ binder field, .parameter binder field ∈ own.keys →
    binder ≠ number ∧ BindsAround sites number binder field
  binds : ∀ parameter ∈ site.parameters, parameter.field.isSome = true
  readsThis : .this ∈ own.keys → ∀ index, ¬method.Assigns .this index

theorem mem_siteNeeds_of_subset
    {captured others : Nat → List VariableKey}
    (subset : ∀ nested, ∀ key ∈ captured nested, key ∈ others nested)
    {need : Need}
    (member : need ∈ siteNeeds sites method captured site number) :
    need ∈ siteNeeds sites method others site number := by
  obtain ⟨span, isSpan, member⟩ := List.mem_flatMap.mp member
  obtain ⟨piece, isPiece, member⟩ := List.mem_flatMap.mp member
  refine List.mem_flatMap.mpr ⟨span, isSpan, List.mem_flatMap.mpr ⟨piece, isPiece, ?_⟩⟩
  cases piece with
  | instruction index => exact member
  | site nested inner =>
      obtain ⟨key, isKey, isNeed⟩ := List.mem_filterMap.mp member
      exact List.mem_filterMap.mpr ⟨key, subset nested key isKey, isNeed⟩

/-- The variables that the analysis of a method finds for a site cover the code of the site. -/
theorem isCovered_of_analyzeCaptures
    (remembers : convention.Remembers hierarchy Knows)
    (ordered : ParentsFirst sites)
    (areKnown : AreKnown Knows sites before)
    {captures : MethodCaptures}
    (analyzed : analyzeCaptures method sites hierarchy convention place before =
      .ok captures after)
    (isSite : sites[number]? = some site)
    {own : SiteCaptures}
    (isOwn : captures.sites[number]? = some own) :
    IsCovered sites method captures.keysOf site number own := by
  unfold analyzeCaptures at analyzed
  split at analyzed
  · cases isSite
  · dsimp only at analyzed
    split at analyzed
    · cases analyzed
    · obtain ⟨uses, _, found, analyzed⟩ := run_bind_eq_ok.mp analyzed
      obtain ⟨settled, _, settledAll, analyzed⟩ := run_bind_eq_ok.mp analyzed
      obtain ⟨boxes, _, _, analyzed⟩ := run_bind_eq_ok.mp analyzed
      obtain ⟨rfl, _⟩ := run_pure_eq_ok.mp analyzed
      have related := forall₂_of_run_mapM_eq_ok settledAll
      -- What was settled for any site comes from what the walk found for it.
      have settledFrom : ∀ (position : Nat) (other : SiteCaptures),
          settled[position]? = some other →
            (uses.getD position {}).settle (isMutable method method.writtenVariables
              (uses.toList.flatMap SiteUse.written)) = .ok other ∧
              uses.getD position {} ∈ uses.toList := by
        intro position other isOther
        obtain ⟨⟨lambda, use⟩, isZipped, _, _, isSettled⟩ :=
          exists_related_of_getElem? related isOther
        have isUse := (List.getElem?_zip_eq_some.mp isZipped).2
        rw [Array.getElem?_toList] at isUse
        rw [Array.getD_eq_getD_getElem?, isUse]
        exact ⟨mapError_eq_ok.mp (run_ofExcept_eq_ok.mp isSettled).1,
          Array.mem_toList_iff.mpr (Array.mem_of_getElem? isUse)⟩
      have tracked := isTracked_of_usesOfSites remembers ordered areKnown found (site, number)
        (List.mk_mem_zipIdx_iff_getElem?.mpr isSite)
      obtain ⟨isSettled, isListed⟩ := settledFrom number own isOwn
      obtain ⟨sameKeys, sameInternal, readsThis⟩ := settle_eq_ok isSettled
      refine ⟨?_, ?_, tracked.binds, ?_⟩
      · intro need member
        have isMet := tracked.meets need <| mem_siteNeeds_of_subset (fun nested key isKey => by
          cases isNested : settled[nested]? with
          | none => simp [MethodCaptures.keysOf, isNested] at isKey
          | some inner =>
              simp only [MethodCaptures.keysOf, isNested, Option.map_some, Option.getD_some] at isKey
              exact ((settle_eq_ok (settledFrom nested inner isNested).1).1 key).mp isKey) member
        cases need with
        | capture key => exact (sameKeys key).mpr isMet
        | keep slot => exact (congrArg (slot ∈ List.map Prod.fst ·) sameInternal).mpr isMet
        | write binder field =>
            intro captured isCaptured isKey
            rw [mutable_of_settle_eq_ok isSettled isCaptured, isKey]
            exact List.contains_iff_mem.mpr (List.mem_flatMap.mpr ⟨_, isListed, isMet⟩)
      · exact fun binder field isKey => tracked.bound binder field ((sameKeys _).mp isKey)
      · intro isKey
        have isFree := readsThis ((sameKeys _).mp isKey)
        rw [isMutable, List.contains_eq_mem, decide_eq_false_iff_not] at isFree
        exact Method.count_eq_zero_iff.mp (List.count_eq_zero.mpr isFree)

end Covered

end ClosureConversion
