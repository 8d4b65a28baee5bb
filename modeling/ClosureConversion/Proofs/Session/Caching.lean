import ClosureConversion.Closure.Session

/-!
Contract: what is kept for the name of a class stays.

Owns:
- caches that keep everything that another one keeps;
- what is kept once a class was offered to the cache, or several of them.

Does not own: which classes are offered.
-/

namespace ClosureConversion

namespace ClosureCache

/-- The later cache keeps the same for every name that the earlier one keeps anything for. -/
def Grows (later earlier : ClosureCache) : Prop :=
  ∀ name bytes, earlier.get? name = some bytes → later.get? name = some bytes

theorem Grows.refl
    (cache : ClosureCache) :
    cache.Grows cache :=
  fun _ _ kept => kept

theorem Grows.trans
    {last later earlier : ClosureCache}
    (grows : last.Grows later)
    (grew : later.Grows earlier) :
    last.Grows earlier :=
  fun name bytes kept => grows name bytes (grew name bytes kept)

variable {cache : ClosureCache}

theorem insert_of_some
    {name : BinaryName}
    {bytes kept : Bytes}
    (isKept : cache.get? name = some kept) :
    cache.insert name bytes = (kept, cache) := by
  unfold insert
  rw [isKept]

theorem insert_of_none
    {name : BinaryName}
    {bytes : Bytes}
    (isFree : cache.get? name = none) :
    cache.insert name bytes = (bytes, ⟨(name, bytes) :: cache.entries⟩) := by
  unfold insert
  rw [isFree]

/-- What was kept before is said to be kept, and otherwise what is offered. -/
theorem fst_insert
    (cache : ClosureCache)
    (name : BinaryName)
    (bytes : Bytes) :
    (cache.insert name bytes).1 = (cache.get? name).getD bytes := by
  cases isKept : cache.get? name with
  | some kept => rw [insert_of_some isKept, Option.getD_some]
  | none => rw [insert_of_none isKept, Option.getD_none]

/-- What is said to be kept is kept. -/
theorem get?_insert_self
    (cache : ClosureCache)
    (name : BinaryName)
    (bytes : Bytes) :
    (cache.insert name bytes).2.get? name = some (cache.insert name bytes).1 := by
  cases isKept : cache.get? name with
  | some kept =>
      rw [insert_of_some isKept]
      exact isKept
  | none =>
      rw [insert_of_none isKept]
      exact List.lookup_cons_self

theorem get?_insert_of_ne
    {name other : BinaryName}
    (different : other ≠ name)
    (bytes : Bytes) :
    (cache.insert name bytes).2.get? other = cache.get? other := by
  cases isKept : cache.get? name with
  | some kept => rw [insert_of_some isKept]
  | none =>
      rw [insert_of_none isKept]
      change List.lookup other ((name, bytes) :: cache.entries) = _
      rw [List.lookup_cons, beq_false_of_ne different]
      rfl

theorem grows_insert
    (cache : ClosureCache)
    (name : BinaryName)
    (bytes : Bytes) :
    (cache.insert name bytes).2.Grows cache := by
  intro other kept isKept
  by_cases same : other = name
  · subst same
    rw [insert_of_some isKept]
    exact isKept
  · rw [get?_insert_of_ne same]
    exact isKept

theorem grows_insertAll
    (cache : ClosureCache)
    (offered : List (BinaryName × Bytes)) :
    (cache.insertAll offered).2.Grows cache := by
  induction offered generalizing cache with
  | nil => exact .refl cache
  | cons entry offered inductionHypothesis =>
      exact (inductionHypothesis (cache.insert entry.1 entry.2).2).trans
        (grows_insert cache entry.1 entry.2)

/-- Something is kept for the name of every class that was offered. -/
theorem map_fst_insertAll
    (cache : ClosureCache)
    (offered : List (BinaryName × Bytes)) :
    (cache.insertAll offered).1.map Prod.fst = offered.map Prod.fst := by
  induction offered generalizing cache with
  | nil => rfl
  | cons entry offered inductionHypothesis =>
      exact congrArg (entry.1 :: ·) (inductionHypothesis (cache.insert entry.1 entry.2).2)

/-- What is said to be kept for several classes is kept. -/
theorem get?_of_mem_insertAll
    {offered : List (BinaryName × Bytes)}
    {entry : BinaryName × Bytes}
    (member : entry ∈ (cache.insertAll offered).1) :
    (cache.insertAll offered).2.get? entry.1 = some entry.2 := by
  induction offered generalizing cache with
  | nil => cases member
  | cons first offered inductionHypothesis =>
      rcases List.mem_cons.mp member with rfl | isLater
      · exact grows_insertAll _ offered _ _ (get?_insert_self cache first.1 first.2)
      · exact inductionHypothesis isLater

/-- What is kept after several classes were offered was kept before, or is said to be kept. -/
theorem mem_insertAll_of_get?
    {offered : List (BinaryName × Bytes)}
    {name : BinaryName}
    {bytes : Bytes}
    (isKept : (cache.insertAll offered).2.get? name = some bytes) :
    cache.get? name = some bytes ∨ (name, bytes) ∈ (cache.insertAll offered).1 := by
  induction offered generalizing cache with
  | nil => exact .inl isKept
  | cons entry offered inductionHypothesis =>
      rcases inductionHypothesis isKept with isEarlier | isLater
      · replace isEarlier : (cache.insert entry.1 entry.2).2.get? name = some bytes := isEarlier
        by_cases same : name = entry.1
        · subst same
          rw [get?_insert_self] at isEarlier
          cases isEarlier
          exact .inr List.mem_cons_self
        · rw [get?_insert_of_ne same] at isEarlier
          exact .inl isEarlier
      · exact .inr (List.mem_cons_of_mem _ isLater)

/-- Two caches that keep the same of each class that is offered keep the same of all of them. -/
theorem insertAll_congr
    {other : ClosureCache}
    {offered : List (BinaryName × Bytes)}
    (same : ∀ entry ∈ offered,
      (cache.insert entry.1 entry.2).1 = (other.insert entry.1 entry.2).1) :
    (cache.insertAll offered).1 = (other.insertAll offered).1 := by
  induction offered generalizing cache other with
  | nil => rfl
  | cons first offered inductionHypothesis =>
      have sameFirst := same first List.mem_cons_self
      have sameOthers : ∀ entry ∈ offered,
          ((cache.insert first.1 first.2).2.insert entry.1 entry.2).1 =
            ((other.insert first.1 first.2).2.insert entry.1 entry.2).1 := by
        intro entry member
        by_cases isFirst : entry.1 = first.1
        · rw [isFirst, insert_of_some (get?_insert_self cache first.1 first.2),
            insert_of_some (get?_insert_self other first.1 first.2)]
          exact sameFirst
        · rw [fst_insert, fst_insert, get?_insert_of_ne isFirst, get?_insert_of_ne isFirst,
            ← fst_insert, ← fst_insert]
          exact same entry (List.mem_cons_of_mem _ member)
      change (first.1, (cache.insert first.1 first.2).1) ::
        ((cache.insert first.1 first.2).2.insertAll offered).1 = _
      rw [sameFirst, inductionHypothesis sameOthers]
      rfl

end ClosureCache

end ClosureConversion
