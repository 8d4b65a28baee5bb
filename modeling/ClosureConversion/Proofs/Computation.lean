import Mathlib.Data.List.Forall2

/-!
Contract: taking apart computations that may fail.

Owns: what the parts of a computation with a result did, for computations with and
without a state, and for those that run once for every element of a list.

Does not own: what any particular computation does.
-/

namespace ClosureConversion

universe u

/-- What is related to the elements of a list element by element comes from one of them. -/
theorem exists_mem_of_forall₂
    {α β : Type u}
    {Related : α → β → Prop}
    {values : List α}
    {results : List β}
    (related : List.Forall₂ Related values results)
    {result : β}
    (member : result ∈ results) :
    ∃ value ∈ values, Related value result := by
  induction related with
  | nil => cases member
  | @cons value head values results headRelated _ inductionHypothesis =>
      rcases List.mem_cons.mp member with isHead | inTail
      · exact ⟨value, by simp, isHead ▸ headRelated⟩
      · obtain ⟨origin, originMember, originRelated⟩ := inductionHypothesis inTail
        exact ⟨origin, List.mem_cons_of_mem _ originMember, originRelated⟩

/-- If something is related to each element of a list, then a list is so element by element. -/
theorem exists_forall₂_of_forall
    {α β : Type u}
    {Related : α → β → Prop}
    {results : List β}
    (each : ∀ result ∈ results, ∃ value, Related value result) :
    ∃ values, List.Forall₂ Related values results := by
  induction results with
  | nil => exact ⟨[], .nil⟩
  | cons result results inductionHypothesis =>
      obtain ⟨value, related⟩ := each result List.mem_cons_self
      obtain ⟨values, othersRelated⟩ := inductionHypothesis fun other member =>
        each other (List.mem_cons_of_mem _ member)
      exact ⟨value :: values, .cons related othersRelated⟩

/-- Relations that compose do so element by element. -/
theorem forall₂_comp
    {α β γ : Type}
    {Lower : α → β → Prop}
    {Upper : β → γ → Prop}
    {Whole : α → γ → Prop}
    (composed : ∀ first second third, Lower first second → Upper second third →
      Whole first third)
    {first : List α}
    {second : List β}
    {third : List γ}
    (lower : List.Forall₂ Lower first second)
    (upper : List.Forall₂ Upper second third) :
    List.Forall₂ Whole first third := by
  induction lower generalizing third with
  | nil =>
      cases upper
      exact .nil
  | cons headLower _ inductionHypothesis =>
      cases upper with
      | cons headUpper tailUpper =>
          exact .cons (composed _ _ _ headLower headUpper) (inductionHypothesis tailUpper)

/-- What is related through something is related through a list of that. -/
theorem exists_between_of_forall₂
    {α β γ : Type}
    {Lower : α → β → Prop}
    {Upper : β → γ → Prop}
    {values : List α}
    {results : List γ}
    (related : List.Forall₂ (fun value result => ∃ between, Lower value between ∧
      Upper between result) values results) :
    ∃ betweens, List.Forall₂ Lower values betweens ∧ List.Forall₂ Upper betweens results := by
  induction related with
  | nil => exact ⟨[], .nil, .nil⟩
  | cons headRelated _ inductionHypothesis =>
      obtain ⟨between, lower, upper⟩ := headRelated
      obtain ⟨betweens, lowers, uppers⟩ := inductionHypothesis
      exact ⟨between :: betweens, .cons lower lowers, .cons upper uppers⟩

/-- What is related element by element is related at every place. -/
theorem related_of_getElem?
    {α β : Type u}
    {Related : α → β → Prop}
    {values : List α}
    {results : List β}
    (related : List.Forall₂ Related values results)
    {position : Nat}
    {value : α}
    {result : β}
    (isValue : values[position]? = some value)
    (isResult : results[position]? = some result) :
    Related value result := by
  obtain ⟨below, rfl⟩ := List.getElem?_eq_some_iff.mp isValue
  obtain ⟨resultBelow, rfl⟩ := List.getElem?_eq_some_iff.mp isResult
  exact related.get below resultBelow

/-- What is related element by element comes from the element at its place. -/
theorem exists_related_of_getElem?
    {α β : Type u}
    {Related : α → β → Prop}
    {values : List α}
    {results : List β}
    (related : List.Forall₂ Related values results)
    {position : Nat}
    {result : β}
    (isResult : results[position]? = some result) :
    ∃ value, values[position]? = some value ∧ Related value result := by
  have below : position < values.length := by
    rw [related.length_eq]
    exact (List.getElem?_eq_some_iff.mp isResult).1
  exact ⟨values[position], List.getElem?_eq_getElem below,
    related_of_getElem? related (List.getElem?_eq_getElem below) isResult⟩

section Failing

variable {ε α β : Type u}

/-- A sequence of two computations has a result exactly if both have one. -/
theorem bind_eq_ok
    {first : Except ε α}
    {next : α → Except ε β}
    {result : β} :
    (first >>= next) = .ok result ↔ ∃ value, first = .ok value ∧ next value = .ok result := by
  cases first with
  | error failure => simp [bind, Except.bind]
  | ok value => simp [bind, Except.bind]

theorem map_eq_ok
    {first : Except ε α}
    {f : α → β}
    {result : β} :
    (f <$> first) = .ok result ↔ ∃ value, first = .ok value ∧ f value = result := by
  cases first with
  | error failure => simp [Functor.map, Except.map]
  | ok value => simp [Functor.map, Except.map]

theorem mapError_eq_ok
    {ε' : Type u}
    {first : Except ε α}
    {f : ε → ε'}
    {result : α} :
    first.mapError f = .ok result ↔ first = .ok result := by
  cases first with
  | error failure => simp [Except.mapError]
  | ok value => simp [Except.mapError]

theorem mapError_bind
    {ε' : Type u}
    {first : Except ε α}
    {next : α → Except ε β}
    {wrap : ε → ε'} :
    (first >>= next).mapError wrap =
      (first.mapError wrap >>= fun value => (next value).mapError wrap) := by
  cases first <;> rfl

theorem mapError_mapM
    {ε' : Type u}
    {f : α → Except ε β}
    {wrap : ε → ε'}
    (values : List α) :
    (values.mapM f).mapError wrap = values.mapM fun value => (f value).mapError wrap := by
  induction values with
  | nil => rfl
  | cons value values inductionHypothesis =>
      simp only [List.mapM_cons, mapError_bind, inductionHypothesis]
      rfl

/-- Every result of a computation over a list comes from the element at its place. -/
theorem forall₂_of_mapM_eq_ok
    {f : α → Except ε β}
    {values : List α}
    {results : List β}
    (computed : values.mapM f = .ok results) :
    List.Forall₂ (fun value result => f value = .ok result) values results := by
  induction values generalizing results with
  | nil =>
      simp only [List.mapM_nil, pure, Except.pure, Except.ok.injEq] at computed
      subst computed
      exact .nil
  | cons value values inductionHypothesis =>
      rw [List.mapM_cons, bind_eq_ok] at computed
      obtain ⟨result, headComputed, computed⟩ := computed
      rw [bind_eq_ok] at computed
      obtain ⟨others, tailComputed, equal⟩ := computed
      cases equal
      exact .cons headComputed (inductionHypothesis tailComputed)

/-- A computation over a list whose steps all have results has them as its result. -/
theorem mapM_eq_ok_of_forall₂
    {f : α → Except ε β}
    {values : List α}
    {results : List β}
    (computed : List.Forall₂ (fun value result => f value = .ok result) values results) :
    values.mapM f = .ok results := by
  induction computed with
  | nil => rfl
  | cons headComputed _ inductionHypothesis =>
      rw [List.mapM_cons, headComputed]
      exact bind_eq_ok.mpr ⟨_, rfl, bind_eq_ok.mpr ⟨_, inductionHypothesis, rfl⟩⟩

theorem mapM_congr
    {f g : α → Except ε β}
    {values : List α}
    (same : ∀ value ∈ values, f value = g value) :
    values.mapM f = values.mapM g := by
  induction values with
  | nil => rfl
  | cons value values inductionHypothesis =>
      rw [List.mapM_cons, List.mapM_cons, same value List.mem_cons_self,
        inductionHypothesis fun other member => same other (List.mem_cons_of_mem _ member)]

/-- A test that never fails lets through what it holds of. -/
theorem filterM_eq_ok_of_forall
    {ε α : Type}
    {test : α → Except ε Bool}
    {holds : α → Bool}
    {values : List α}
    (each : ∀ value ∈ values, test value = .ok (holds value)) :
    values.filterM test = .ok (values.filter holds) := by
  have general : ∀ passed : List α, values.filterAuxM test passed =
      .ok ((values.filter holds).reverse ++ passed) := by
    induction values with
    | nil => exact fun passed => rfl
    | cons value values inductionHypothesis =>
        intro passed
        have others := inductionHypothesis fun other member =>
          each other (List.mem_cons_of_mem _ member)
        rw [List.filterAuxM, each value List.mem_cons_self]
        change values.filterAuxM test (cond (holds value) (value :: passed) passed) = _
        rw [others]
        cases isHeld : holds value with
        | false => rw [List.filter_cons_of_neg (by simp [isHeld])]; rfl
        | true =>
            rw [List.filter_cons_of_pos isHeld, List.reverse_cons, List.append_assoc]
            rfl
  rw [List.filterM, general, List.append_nil]
  exact congrArg Except.ok (List.reverse_reverse _)

/-- What a test that may fail lets through has passed it. -/
theorem forall_of_filterM_eq_ok
    {ε α : Type}
    {test : α → Except ε Bool}
    {values results : List α}
    (computed : values.filterM test = .ok results) :
    ∀ result ∈ results, test result = .ok true := by
  suffices general : ∀ (values passed results : List α),
      values.filterAuxM test passed = .ok results → (∀ value ∈ passed, test value = .ok true) →
        ∀ result ∈ results, test result = .ok true by
    obtain ⟨reversed, isFiltered, equal⟩ := bind_eq_ok.mp computed
    cases equal
    exact fun result member =>
      general values [] reversed isFiltered (by simp) result (List.mem_reverse.mp member)
  intro values
  induction values with
  | nil =>
      intro passed results computed each
      cases computed
      exact each
  | cons value values inductionHypothesis =>
      intro passed results computed each
      obtain ⟨answer, isAnswer, computed⟩ := bind_eq_ok.mp computed
      refine inductionHypothesis _ results computed ?_
      intro other member
      cases answer with
      | false => exact each other member
      | true =>
          rcases List.mem_cons.mp member with rfl | isEarlier
          · exact isAnswer
          · exact each other isEarlier

/-- What a test that may fail lets through was there to be tested. -/
theorem mem_of_filterM_eq_ok
    {ε α : Type}
    {test : α → Except ε Bool}
    {values results : List α}
    (computed : values.filterM test = .ok results) :
    ∀ result ∈ results, result ∈ values := by
  suffices general : ∀ (values passed results : List α),
      values.filterAuxM test passed = .ok results →
        ∀ result ∈ results, result ∈ passed ∨ result ∈ values by
    obtain ⟨reversed, isFiltered, equal⟩ := bind_eq_ok.mp computed
    cases equal
    intro result member
    simpa using general values [] reversed isFiltered result (List.mem_reverse.mp member)
  intro values
  induction values with
  | nil =>
      intro passed results computed result member
      cases computed
      exact .inl member
  | cons value values inductionHypothesis =>
      intro passed results computed result member
      obtain ⟨answer, _, computed⟩ := bind_eq_ok.mp computed
      rcases inductionHypothesis _ results computed result member with isPassed | isLater
      · cases answer with
        | false => exact .inl isPassed
        | true =>
            rcases List.mem_cons.mp isPassed with rfl | isEarlier
            · exact .inr List.mem_cons_self
            · exact .inl isEarlier
      · exact .inr (List.mem_cons_of_mem _ isLater)

/-- A check of a list that passes passes for every element. -/
theorem eq_ok_of_forM_eq_ok
    {ε α : Type}
    {check : α → Except ε Unit}
    {values : List α}
    (passed : values.forM check = .ok ())
    {value : α}
    (member : value ∈ values) :
    check value = .ok () := by
  induction values with
  | nil => cases member
  | cons first rest inductionHypothesis =>
      change (check first >>= fun _ => rest.forM check) = .ok () at passed
      obtain ⟨_, firstPassed, restPassed⟩ := bind_eq_ok.mp passed
      rcases List.mem_cons.mp member with rfl | isLater
      · exact firstPassed
      · exact inductionHypothesis restPassed isLater

/-- Every result of a computation over an array with its indices comes from the element at
its place. -/
theorem mapIdxM_eq_ok
    {f : Nat → α → Except ε β}
    {values : Array α}
    {results : Array β}
    (computed : values.mapIdxM f = .ok results) :
    results.size = values.size ∧
      ∀ index value, values[index]? = some value →
        ∃ result, results[index]? = some result ∧ f index value = .ok result := by
  suffices general : ∀ (rest : List α) (done : Array β) (results : List β),
      List.mapIdxM.go f rest done = .ok results →
        ∃ added, results = done.toList ++ added ∧ added.length = rest.length ∧
          ∀ index value, rest[index]? = some value →
            ∃ result, added[index]? = some result ∧
              f (done.size + index) value = .ok result by
    have listed : values.toList.mapIdxM f = .ok results.toList := by
      rw [← Array.toList_mapIdxM, computed]
      rfl
    obtain ⟨added, isAdded, sameLength, each⟩ := general values.toList #[] results.toList listed
    rw [List.nil_append] at isAdded
    subst isAdded
    refine ⟨by simpa using sameLength, ?_⟩
    intro index value stands
    obtain ⟨result, isResult, done⟩ := each index value (by simpa using stands)
    exact ⟨result, by simpa using isResult, by simpa using done⟩
  intro rest
  induction rest with
  | nil =>
      intro done results computed
      cases computed
      exact ⟨[], by simp, rfl, by simp⟩
  | cons value rest inductionHypothesis =>
      intro done results computed
      rw [List.mapIdxM.go] at computed
      obtain ⟨result, headComputed, computed⟩ := bind_eq_ok.mp computed
      obtain ⟨added, rfl, sameLength, each⟩ := inductionHypothesis _ _ computed
      refine ⟨result :: added, by simp, by simp [sameLength], ?_⟩
      intro index other stands
      cases index with
      | zero =>
          rw [List.getElem?_cons_zero, Option.some.injEq] at stands
          subst stands
          exact ⟨result, rfl, headComputed⟩
      | succ index =>
          obtain ⟨next, isNext, nextComputed⟩ := each index other stands
          rw [Array.size_push, Nat.add_right_comm, Nat.add_assoc] at nextComputed
          exact ⟨next, isNext, nextComputed⟩

/-- A computation over an array with its indices has a result if it has one for every element. -/
theorem exists_mapIdxM_eq_ok
    {f : Nat → α → Except ε β}
    {values : Array α}
    (each : ∀ index value, values[index]? = some value → ∃ result, f index value = .ok result) :
    ∃ results, values.mapIdxM f = .ok results := by
  suffices general : ∀ (rest : List α) (done : Array β), (∀ index value, rest[index]? = some value →
      ∃ result, f (done.size + index) value = .ok result) →
        ∃ results, List.mapIdxM.go f rest done = .ok results by
    obtain ⟨results, listed⟩ := general values.toList #[] (by simpa using each)
    have isMap : Array.toList <$> values.mapIdxM f = .ok results := by
      rw [Array.toList_mapIdxM]
      exact listed
    obtain ⟨array, isArray, _⟩ := map_eq_ok.mp isMap
    exact ⟨array, isArray⟩
  intro rest
  induction rest with
  | nil => exact fun done _ => ⟨done.toList, rfl⟩
  | cons value rest inductionHypothesis =>
      intro done each
      obtain ⟨result, computed⟩ := each 0 value rfl
      obtain ⟨results, restComputed⟩ := inductionHypothesis (done.push result)
        fun index other stands => by
          obtain ⟨next, isNext⟩ := each (index + 1) other stands
          refine ⟨next, ?_⟩
          rw [Array.size_push, Nat.add_right_comm, Nat.add_assoc]
          exact isNext
      refine ⟨results, ?_⟩
      rw [List.mapIdxM.go]
      exact bind_eq_ok.mpr ⟨result, computed, restComputed⟩

/-- A computation over an array with its indices has the results that it has for its elements. -/
theorem mapIdxM_eq_ok_of_forall
    {f : Nat → α → Except ε β}
    {values : Array α}
    {results : Array β}
    (sameSize : results.size = values.size)
    (each : ∀ index value, values[index]? = some value →
      ∃ result, results[index]? = some result ∧ f index value = .ok result) :
    values.mapIdxM f = .ok results := by
  obtain ⟨computed, isComputed⟩ := exists_mapIdxM_eq_ok fun index value stands =>
    (each index value stands).imp fun _ => And.right
  obtain ⟨computedSize, eachComputed⟩ := mapIdxM_eq_ok isComputed
  have same : computed = results := by
    refine Array.ext (computedSize.trans sameSize.symm) fun index inside insideResults => ?_
    have stands := Array.getElem?_eq_getElem (show index < values.size by omega)
    obtain ⟨first, isFirst, firstComputed⟩ := eachComputed index _ stands
    obtain ⟨second, isSecond, secondComputed⟩ := each index _ stands
    rw [Array.getElem?_eq_getElem inside, Option.some.injEq] at isFirst
    rw [Array.getElem?_eq_getElem insideResults, Option.some.injEq] at isSecond
    rw [isFirst, isSecond]
    exact Except.ok.inj (firstComputed.symm.trans secondComputed)
  rw [isComputed, same]

/-- What one step of a computation along a list preserves holds of the whole computation. -/
theorem foldlM_preserves
    {step : β → α → Except ε β}
    (Holds : List α → β → Prop)
    {values : List α}
    (preserved : ∀ done value reached next, value ∈ values → Holds done reached →
      step reached value = .ok next → Holds (done ++ [value]) next)
    {start result : β}
    (initial : Holds [] start)
    (computed : values.foldlM step start = .ok result) :
    Holds values result := by
  suffices general : ∀ (rest done : List α) (reached : β), (∀ value ∈ rest, value ∈ values) →
      Holds done reached → rest.foldlM step reached = .ok result → Holds (done ++ rest) result from
    general values [] start (fun _ member => member) initial computed
  clear computed initial
  intro rest
  induction rest with
  | nil =>
      intro done reached _ holds computed
      cases computed
      rw [List.append_nil]
      exact holds
  | cons value rest inductionHypothesis =>
      intro done reached members holds computed
      rw [List.foldlM_cons] at computed
      obtain ⟨next, stepped, computed⟩ := bind_eq_ok.mp computed
      have holdsNext :=
        preserved done value reached next (members value List.mem_cons_self) holds stepped
      have holdsAll := inductionHypothesis (done ++ [value]) next
        (fun other member => members other (List.mem_cons_of_mem _ member)) holdsNext computed
      rw [List.append_assoc] at holdsAll
      exact holdsAll

/-- A computation has a result whenever the other one has, and the results are related. -/
def Refines
    (Related : α → β → Prop)
    (special : Except ε α)
    (general : Except ε β) : Prop :=
  ∀ result, general = .ok result → ∃ value, special = .ok value ∧ Related value result

/-- What holds of the result of a computation, if it has one. -/
def Ensures
    (Holds : α → Prop)
    (computation : Except ε α) : Prop :=
  ∀ result, computation = .ok result → Holds result

/-- A computation has a result whenever the other one has, and the results are related, unless
the failure of the former is excused. -/
def RefinesUnless
    (Excused : ε → Prop)
    (Related : α → β → Prop)
    (special : Except ε α)
    (general : Except ε β) : Prop :=
  ∀ result, general = .ok result →
    (∃ failure, special = .error failure ∧ Excused failure) ∨
      ∃ value, special = .ok value ∧ Related value result

section RefinesUnless

variable {Excused : ε → Prop}

theorem refinesUnless_ok
    {Related : α → β → Prop}
    {value : α}
    {result : β}
    (related : Related value result) :
    RefinesUnless Excused Related (.ok value) (.ok result) := by
  intro other isResult
  cases isResult
  exact .inr ⟨value, rfl, related⟩

theorem refinesUnless_error
    {Related : α → β → Prop}
    {special : Except ε α}
    {failure : ε} :
    RefinesUnless Excused Related special (.error failure) := by
  intro result isResult
  cases isResult

theorem Refines.unless
    {Related : α → β → Prop}
    {special : Except ε α}
    {general : Except ε β}
    (refines : Refines Related special general) :
    RefinesUnless Excused Related special general :=
  fun result isResult => .inr (refines result isResult)

/-- Where no failure is excused, there is none. -/
theorem RefinesUnless.refines
    {Related : α → β → Prop}
    {special : Except ε α}
    {general : Except ε β}
    (refines : RefinesUnless Excused Related special general)
    (noneExcused : ∀ failure, ¬Excused failure) :
    Refines Related special general := by
  intro result isResult
  rcases refines result isResult with ⟨failure, _, excused⟩ | found
  · exact absurd excused (noneExcused failure)
  · exact found

theorem RefinesUnless.bind
    {γ δ : Type u}
    {Related : α → β → Prop}
    {RelatedNext : γ → δ → Prop}
    {special : Except ε α}
    {general : Except ε β}
    {specialNext : α → Except ε γ}
    {generalNext : β → Except ε δ}
    (refines : RefinesUnless Excused Related special general)
    (refinesNext : ∀ value result, Related value result →
      RefinesUnless Excused RelatedNext (specialNext value) (generalNext result)) :
    RefinesUnless Excused RelatedNext (special >>= specialNext) (general >>= generalNext) := by
  intro last computed
  obtain ⟨result, isResult, isLast⟩ := bind_eq_ok.mp computed
  rcases refines result isResult with ⟨failure, rfl, excused⟩ | ⟨value, rfl, related⟩
  · exact .inl ⟨failure, rfl, excused⟩
  · exact refinesNext value result related last isLast

theorem RefinesUnless.map
    {γ δ : Type u}
    {Related : α → β → Prop}
    {RelatedNext : γ → δ → Prop}
    {special : Except ε α}
    {general : Except ε β}
    {f : α → γ}
    {g : β → δ}
    (refines : RefinesUnless Excused Related special general)
    (relatedNext : ∀ value result, Related value result → RelatedNext (f value) (g result)) :
    RefinesUnless Excused RelatedNext (f <$> special) (g <$> general) := by
  intro last computed
  obtain ⟨result, isResult, rfl⟩ := map_eq_ok.mp computed
  rcases refines result isResult with ⟨failure, rfl, excused⟩ | ⟨value, rfl, related⟩
  · exact .inl ⟨failure, rfl, excused⟩
  · exact .inr ⟨f value, rfl, relatedNext value result related⟩

/-- A computation on a condition refines one on a condition that implies it. -/
theorem refinesUnless_if
    {Related : α → β → Prop}
    {specialCondition generalCondition : Prop}
    [Decidable specialCondition]
    [Decidable generalCondition]
    {special : Except ε α}
    {general : Except ε β}
    {specialFailure generalFailure : ε}
    (implied : generalCondition → specialCondition)
    (refines : RefinesUnless Excused Related special general) :
    RefinesUnless Excused Related (if specialCondition then special else throw specialFailure)
      (if generalCondition then general else throw generalFailure) := by
  by_cases holds : generalCondition
  · rw [if_pos holds, if_pos (implied holds)]
    exact refines
  · rw [if_neg holds]
    exact refinesUnless_error

end RefinesUnless

theorem ensures_ok
    {Holds : α → Prop}
    {value : α}
    (holds : Holds value) :
    Ensures Holds (.ok value : Except ε α) := by
  intro result isResult
  cases isResult
  exact holds

theorem ensures_error
    {Holds : α → Prop}
    {failure : ε} :
    Ensures Holds (.error failure : Except ε α) := by
  intro result isResult
  cases isResult

theorem Ensures.bind
    {Holds : α → Prop}
    {HoldsNext : β → Prop}
    {first : Except ε α}
    {next : α → Except ε β}
    (ensures : Ensures Holds first)
    (ensuresNext : ∀ value, Holds value → Ensures HoldsNext (next value)) :
    Ensures HoldsNext (first >>= next) := by
  intro result computed
  obtain ⟨value, isValue, isResult⟩ := bind_eq_ok.mp computed
  exact ensuresNext value (ensures value isValue) result isResult

/-- Whatever the first of two computations gives, the result is that of the second one. -/
theorem ensures_bind
    {Holds : β → Prop}
    {first : Except ε α}
    {next : α → Except ε β}
    (ensures : ∀ value, Ensures Holds (next value)) :
    Ensures Holds (first >>= next) := by
  intro result computed
  obtain ⟨value, _, isResult⟩ := bind_eq_ok.mp computed
  exact ensures value result isResult

theorem ensures_mapM
    {Holds : β → Prop}
    {f : α → Except ε β}
    {values : List α}
    (each : ∀ value ∈ values, Ensures Holds (f value)) :
    Ensures (fun results => ∀ result ∈ results, Holds result) (values.mapM f) := by
  intro results computed result member
  obtain ⟨value, isValue, isResult⟩ := exists_mem_of_forall₂ (forall₂_of_mapM_eq_ok computed) member
  exact each value isValue result isResult

/-- A computation that fails does so for no bad reason. -/
def Avoids
    (Bad : ε → Prop)
    (computation : Except ε α) : Prop :=
  ∀ failure, computation = .error failure → ¬Bad failure

section Avoiding

variable {Bad : ε → Prop}

theorem avoids_ok
    {value : α} :
    Avoids Bad (.ok value : Except ε α) := by
  intro failure isFailure
  cases isFailure

theorem avoids_error
    {failure : ε}
    (harmless : ¬Bad failure) :
    Avoids Bad (.error failure : Except ε α) := by
  intro other isFailure
  cases isFailure
  exact harmless

theorem Avoids.bind
    {first : Except ε α}
    {next : α → Except ε β}
    (avoids : Avoids Bad first)
    (avoidsNext : ∀ value, first = .ok value → Avoids Bad (next value)) :
    Avoids Bad (first >>= next) := by
  cases first with
  | error failure => exact avoids_error (avoids failure rfl)
  | ok value => exact avoidsNext value rfl

theorem Avoids.map
    {first : Except ε α}
    (avoids : Avoids Bad first)
    (f : α → β) :
    Avoids Bad (first.map f) := by
  cases first with
  | error failure => exact avoids_error (avoids failure rfl)
  | ok value => exact avoids_ok

theorem Avoids.mapError
    {ε' : Type u}
    {Worse : ε' → Prop}
    {first : Except ε α}
    {f : ε → ε'}
    (avoids : Avoids Bad first)
    (reflects : ∀ failure, Worse (f failure) → Bad failure) :
    Avoids Worse (first.mapError f) := by
  cases first with
  | error failure => exact avoids_error fun isWorse => avoids failure rfl (reflects failure isWorse)
  | ok value => exact avoids_ok

/-- Whatever a computation fails with turns into nothing bad. -/
theorem avoids_mapError
    {ε' : Type u}
    {Worse : ε' → Prop}
    {first : Except ε α}
    {f : ε → ε'}
    (harmless : ∀ failure, ¬Worse (f failure)) :
    Avoids Worse (first.mapError f) := by
  cases first with
  | error failure => exact avoids_error (harmless failure)
  | ok value => exact avoids_ok

/-- A computation over a list avoids what all of its steps avoid. -/
theorem avoids_mapM
    {f : α → Except ε β}
    {values : List α}
    (each : ∀ value ∈ values, Avoids Bad (f value)) :
    Avoids Bad (values.mapM f) := by
  induction values with
  | nil => exact avoids_ok
  | cons value values inductionHypothesis =>
      rw [List.mapM_cons]
      refine (each value List.mem_cons_self).bind fun _ _ => ?_
      refine (inductionHypothesis fun other member =>
        each other (List.mem_cons_of_mem _ member)).bind fun _ _ => ?_
      exact avoids_ok

/-- A fold avoids what all of its steps avoid. -/
theorem avoids_foldlM
    {step : β → α → Except ε β}
    {values : List α}
    (each : ∀ value ∈ values, ∀ reached, Avoids Bad (step reached value))
    (start : β) :
    Avoids Bad (values.foldlM step start) := by
  induction values generalizing start with
  | nil => exact avoids_ok
  | cons value values inductionHypothesis =>
      rw [List.foldlM_cons]
      exact (each value List.mem_cons_self start).bind fun reached _ =>
        inductionHypothesis (fun other member => each other (List.mem_cons_of_mem _ member)) reached

/-- A test of the values of a list avoids what all of its steps avoid. -/
theorem avoids_filterM
    {ε α : Type}
    {Bad : ε → Prop}
    {test : α → Except ε Bool}
    {values : List α}
    (each : ∀ value ∈ values, Avoids Bad (test value)) :
    Avoids Bad (values.filterM test) := by
  have general : ∀ passed : List α, Avoids Bad (values.filterAuxM test passed) := by
    induction values with
    | nil => exact fun _ => avoids_ok
    | cons value values inductionHypothesis =>
        exact fun passed => (each value List.mem_cons_self).bind fun _ _ =>
          inductionHypothesis (fun other member => each other (List.mem_cons_of_mem _ member)) _
  exact (general []).bind fun _ _ => avoids_ok

end Avoiding

end Failing

section Stateful

variable {ε σ α β : Type u}

/-- The second of two computations runs in the state that the first one left. -/
theorem run_bind
    {first : EStateM ε σ α}
    {next : α → EStateM ε σ β}
    {before : σ} :
    (first >>= next) before =
      match first before with
      | .ok value between => next value between
      | .error failure between => .error failure between := by
  change EStateM.bind first next before = _
  unfold EStateM.bind
  cases first before <;> rfl

/-- A sequence of two computations has a result exactly if both have one, the second in
the state that the first one left. -/
theorem run_bind_eq_ok
    {first : EStateM ε σ α}
    {next : α → EStateM ε σ β}
    {before after : σ}
    {result : β} :
    (first >>= next) before = .ok result after ↔
      ∃ value between, first before = .ok value between ∧
        next value between = .ok result after := by
  change EStateM.bind first next before = .ok result after ↔ _
  unfold EStateM.bind
  cases first before with
  | error failure state => simp
  | ok value state => simp [and_assoc]

/-- A computation goes on in the same way after either of two beginnings. -/
theorem run_ite_bind
    {condition : Prop}
    [Decidable condition]
    {first second : EStateM ε σ α}
    {next : α → EStateM ε σ β} :
    ((if condition then first else second) >>= next) =
      if condition then first >>= next else second >>= next := by
  split <;> rfl

theorem run_pure_eq_ok
    {value result : α}
    {before after : σ} :
    (pure value : EStateM ε σ α) before = .ok result after ↔
      value = result ∧ before = after := by
  change EStateM.Result.ok value before = .ok result after ↔ _
  simp

/-- A computation without a state leaves the state alone. -/
theorem run_ofExcept_eq_ok
    {computation : Except ε α}
    {result : α}
    {before after : σ} :
    (MonadExcept.ofExcept computation : EStateM ε σ α) before = .ok result after ↔
      computation = .ok result ∧ before = after := by
  cases computation with
  | error failure =>
      change EStateM.Result.error failure before = .ok result after ↔ _
      simp
  | ok value =>
      change EStateM.Result.ok value before = .ok result after ↔ _
      simp

/-- Every result of a computation over a list comes from the element at its place, in
some state. -/
theorem forall₂_of_run_mapM_eq_ok
    {f : α → EStateM ε σ β}
    {values : List α}
    {results : List β}
    {before after : σ}
    (computed : values.mapM f before = .ok results after) :
    List.Forall₂ (fun value result => ∃ earlier later, f value earlier = .ok result later)
      values results := by
  induction values generalizing results before with
  | nil =>
      rw [List.mapM_nil, run_pure_eq_ok] at computed
      rw [← computed.1]
      exact .nil
  | cons value values inductionHypothesis =>
      rw [List.mapM_cons, run_bind_eq_ok] at computed
      obtain ⟨result, between, headComputed, computed⟩ := computed
      rw [run_bind_eq_ok] at computed
      obtain ⟨others, later, tailComputed, equal⟩ := computed
      obtain ⟨rfl, rfl⟩ := run_pure_eq_ok.mp equal
      exact .cons ⟨before, between, headComputed⟩ (inductionHypothesis tailComputed)

/-- What one step of a computation along a list preserves, of its value and of its state, holds
of the whole computation. -/
theorem run_foldlM_induction
    {step : β → α → EStateM ε σ β}
    {values : List α}
    (Holds : List α → β → σ → Prop)
    (preserved : ∀ done value rest reached next earlier later, values = done ++ value :: rest →
      Holds done reached earlier → step reached value earlier = .ok next later →
      Holds (done ++ [value]) next later)
    {start result : β}
    {before after : σ}
    (initial : Holds [] start before)
    (computed : values.foldlM step start before = .ok result after) :
    Holds values result after := by
  suffices general : ∀ (rest done : List α) (reached : β) (earlier : σ), values = done ++ rest →
      Holds done reached earlier → rest.foldlM step reached earlier = .ok result after →
      Holds values result after from
    general values [] start before rfl initial computed
  clear computed initial
  intro rest
  induction rest with
  | nil =>
      intro done reached earlier split holds computed
      obtain ⟨rfl, rfl⟩ := run_pure_eq_ok.mp computed
      rw [List.append_nil] at split
      exact split ▸ holds
  | cons value rest inductionHypothesis =>
      intro done reached earlier split holds computed
      rw [List.foldlM_cons] at computed
      obtain ⟨next, between, stepped, computed⟩ := run_bind_eq_ok.mp computed
      have holdsNext := preserved done value rest reached next earlier between split holds stepped
      exact inductionHypothesis (done ++ [value]) next between (by simp [split]) holdsNext computed

/-- What one step of a computation along a list preserves holds of the whole computation. -/
theorem run_foldlM_preserves
    {step : β → α → EStateM ε σ β}
    (Holds : List α → β → Prop)
    (preserved : ∀ done value reached next earlier later, Holds done reached →
      step reached value earlier = .ok next later → Holds (done ++ [value]) next)
    {values : List α}
    {start result : β}
    {before after : σ}
    (initial : Holds [] start)
    (computed : values.foldlM step start before = .ok result after) :
    Holds values result :=
  run_foldlM_induction (fun done reached _ => Holds done reached)
    (fun done value _ reached next earlier later _ => preserved done value reached next earlier later)
    initial computed

/-- What holds of a result when it is computed, and in every later state, holds of all results
of a computation over a list at its end. -/
theorem forall_of_run_mapM_eq_ok
    {f : α → EStateM ε σ β}
    {values : List α}
    {results : List β}
    {before after : σ}
    (Holds : β → σ → Prop)
    (computes : ∀ value result earlier later, f value earlier = .ok result later →
      Holds result later)
    (keeps : ∀ value result earlier later, f value earlier = .ok result later →
      ∀ other, Holds other earlier → Holds other later)
    (computed : values.mapM f before = .ok results after) :
    (∀ result ∈ results, Holds result after) ∧ ∀ other, Holds other before → Holds other after := by
  induction values generalizing results before with
  | nil =>
      rw [List.mapM_nil, run_pure_eq_ok] at computed
      obtain ⟨rfl, rfl⟩ := computed
      exact ⟨by simp, fun _ holds => holds⟩
  | cons value values inductionHypothesis =>
      rw [List.mapM_cons, run_bind_eq_ok] at computed
      obtain ⟨result, between, headComputed, computed⟩ := computed
      rw [run_bind_eq_ok] at computed
      obtain ⟨others, later, tailComputed, equal⟩ := computed
      obtain ⟨rfl, rfl⟩ := run_pure_eq_ok.mp equal
      obtain ⟨tailHolds, tailKeeps⟩ := inductionHypothesis tailComputed
      refine ⟨?_, fun other holds => tailKeeps other (keeps _ _ _ _ headComputed other holds)⟩
      intro other member
      rcases List.mem_cons.mp member with rfl | isLater
      · exact tailKeeps other (computes _ _ _ _ headComputed)
      · exact tailHolds other isLater

end Stateful

section Reading

variable {ε σ α β : Type u}

/-- A sequence of two computations whose first one has a result goes on from there. -/
theorem read_bind_of_eq_ok
    {first : StateT σ (Except ε) α}
    {next : α → StateT σ (Except ε) β}
    {before between : σ}
    {value : α}
    (taken : first before = .ok (value, between)) :
    (first >>= next) before = next value between := by
  change (first before >>= fun pair => next pair.1 pair.2) = _
  rw [taken]
  rfl

/-- A sequence of two computations that hand on a state has a result exactly if both have one,
the second with the state that the first one hands on. -/
theorem thread_bind_eq_ok
    {first : StateT σ (Except ε) α}
    {next : α → StateT σ (Except ε) β}
    {before : σ}
    {result : β × σ} :
    (first >>= next) before = .ok result ↔
      ∃ value between, first before = .ok (value, between) ∧ next value between = .ok result := by
  change (first before >>= fun pair => next pair.1 pair.2) = _ ↔ _
  rw [bind_eq_ok]
  constructor
  · rintro ⟨⟨value, between⟩, isFirst, isNext⟩
    exact ⟨value, between, isFirst, isNext⟩
  · rintro ⟨value, between, isFirst, isNext⟩
    exact ⟨(value, between), isFirst, isNext⟩

theorem thread_pure_eq_ok
    {value : α}
    {before : σ}
    {result : α × σ} :
    (pure value : StateT σ (Except ε) α) before = .ok result ↔ (value, before) = result := by
  change (Except.ok (value, before) : Except ε (α × σ)) = .ok result ↔ _
  rw [Except.ok.injEq]

/-- A computation without a state hands on the state as it is. -/
theorem thread_lift_eq_ok
    {computation : Except ε α}
    {before : σ}
    {result : α × σ} :
    (liftM computation : StateT σ (Except ε) α) before = .ok result ↔
      computation = .ok result.1 ∧ before = result.2 := by
  change (computation >>= fun value => .ok (value, before)) = .ok result ↔ _
  rw [bind_eq_ok]
  constructor
  · rintro ⟨value, isValue, equal⟩
    cases equal
    exact ⟨isValue, rfl⟩
  · rintro ⟨isValue, rfl⟩
    exact ⟨result.1, isValue, rfl⟩

/-- Whatever state the computation starts with, what it gives has a property. -/
def Gives (Holds : α → Prop) (computation : StateT σ (Except ε) α) : Prop :=
  ∀ before, Ensures (fun result => Holds result.1) (computation before)

section Gives

variable {Holds : β → Prop}

theorem gives_any
    (computation : StateT σ (Except ε) α) :
    Gives (fun _ => True) computation :=
  fun _ _ _ => trivial

theorem gives_pure
    {value : β}
    (holds : Holds value) :
    Gives Holds (pure value : StateT σ (Except ε) β) :=
  fun _ => ensures_ok holds

theorem gives_throw
    {failure : ε} :
    Gives Holds (throw failure : StateT σ (Except ε) β) :=
  fun _ => ensures_error

theorem Gives.bind
    {Comes : α → Prop}
    {first : StateT σ (Except ε) α}
    {next : α → StateT σ (Except ε) β}
    (comes : Gives Comes first)
    (gives : ∀ value, Comes value → Gives Holds (next value)) :
    Gives Holds (first >>= next) :=
  fun before => (comes before).bind fun (value, later) isSuch => gives value isSuch later

/-- Whatever the first of two computations gives, the result is that of the second one. -/
theorem gives_bind
    {first : StateT σ (Except ε) α}
    {next : α → StateT σ (Except ε) β}
    (gives : ∀ value, Gives Holds (next value)) :
    Gives Holds (first >>= next) :=
  (gives_any first).bind fun value _ => gives value

theorem Gives.map
    {computation : StateT σ (Except ε) α}
    {convert : α → β}
    (gives : Gives (fun value => Holds (convert value)) computation) :
    Gives Holds (convert <$> computation) := by
  rw [map_eq_pure_bind]
  exact gives.bind fun _ holds => gives_pure holds

theorem gives_lift
    {computation : Except ε β}
    (ensures : Ensures Holds computation) :
    Gives Holds (liftM computation : StateT σ (Except ε) β) := by
  intro before result done
  exact ensures result.1 (thread_lift_eq_ok.mp done).1

end Gives

/-- Every result of a computation over a list comes from the element at its place, with some
state handed on before and after it. -/
theorem forall₂_of_thread_mapM_eq_ok
    {f : α → StateT σ (Except ε) β}
    {values : List α}
    {results : List β}
    {before after : σ}
    (computed : values.mapM f before = .ok (results, after)) :
    List.Forall₂ (fun value result => ∃ earlier later, f value earlier = .ok (result, later))
      values results := by
  induction values generalizing results before with
  | nil =>
      rw [List.mapM_nil, thread_pure_eq_ok] at computed
      cases computed
      exact .nil
  | cons value values inductionHypothesis =>
      rw [List.mapM_cons, thread_bind_eq_ok] at computed
      obtain ⟨result, between, headComputed, computed⟩ := computed
      rw [thread_bind_eq_ok] at computed
      obtain ⟨others, later, tailComputed, equal⟩ := computed
      cases thread_pure_eq_ok.mp equal
      exact .cons ⟨before, between, headComputed⟩ (inductionHypothesis tailComputed)

/-- What every step of a computation over a list does to what the steps after it did, the whole
computation does. -/
theorem thread_mapM_induction
    {f : α → StateT σ (Except ε) β}
    (Holds : List α → List β → σ → σ → Prop)
    (nil : ∀ state, Holds [] [] state state)
    {values : List α}
    (cons : ∀ value rest result results earlier between later, value ∈ values →
      f value earlier = .ok (result, between) → Holds rest results between later →
      Holds (value :: rest) (result :: results) earlier later)
    {results : List β}
    {before after : σ}
    (computed : values.mapM f before = .ok (results, after)) :
    Holds values results before after := by
  induction values generalizing results before with
  | nil =>
      rw [List.mapM_nil, thread_pure_eq_ok] at computed
      cases computed
      exact nil _
  | cons value values inductionHypothesis =>
      rw [List.mapM_cons, thread_bind_eq_ok] at computed
      obtain ⟨result, between, headComputed, computed⟩ := computed
      rw [thread_bind_eq_ok] at computed
      obtain ⟨others, later, tailComputed, equal⟩ := computed
      cases thread_pure_eq_ok.mp equal
      refine cons value values result others _ _ _ List.mem_cons_self headComputed ?_
      refine inductionHypothesis (fun other rest => ?_) tailComputed
      intro result results earlier between later member
      exact cons other rest result results earlier between later (List.mem_cons_of_mem _ member)

section Avoiding

variable {Bad : ε → Prop}

theorem avoids_thread_bind
    {first : StateT σ (Except ε) α}
    {next : α → StateT σ (Except ε) β}
    {before : σ}
    (avoids : Avoids Bad (first before))
    (avoidsNext : ∀ value between, first before = .ok (value, between) →
      Avoids Bad (next value between)) :
    Avoids Bad ((first >>= next) before) :=
  avoids.bind fun pair isPair => avoidsNext pair.1 pair.2 isPair

theorem avoids_thread_lift
    {computation : Except ε α}
    {before : σ}
    (avoids : Avoids Bad computation) :
    Avoids Bad ((liftM computation : StateT σ (Except ε) α) before) :=
  avoids.bind fun _ _ => avoids_ok

theorem avoids_thread_mapM
    {f : α → StateT σ (Except ε) β}
    {values : List α}
    (each : ∀ value ∈ values, ∀ before, Avoids Bad (f value before))
    (before : σ) :
    Avoids Bad (values.mapM f before) := by
  induction values generalizing before with
  | nil => exact avoids_ok
  | cons value values inductionHypothesis =>
      rw [List.mapM_cons]
      refine avoids_thread_bind (each value List.mem_cons_self before) fun _ _ _ => ?_
      refine avoids_thread_bind (inductionHypothesis (fun other member =>
        each other (List.mem_cons_of_mem _ member)) _) fun _ _ _ => ?_
      exact avoids_ok

end Avoiding

end Reading

end ClosureConversion
