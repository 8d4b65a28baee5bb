import ClosureConversion.Closure.AbstractMethod
import ClosureConversion.Proofs.Computation
import ClosureConversion.Proofs.Hierarchy.Searching
import Mathlib.Data.List.TakeWhile

/-!
Contract: the abstract methods that closures implement.

Owns:
- a closure implements the only abstract method of its type that takes all its parameters, if
  there is one;
- what it implements takes all parameters up to the last one without a default value.

Does not own: the code of the method.
-/

namespace ClosureConversion

variable {hierarchy : Hierarchy}

theorem abstractAnswer_eq_none
    {target name : BinaryName}
    {arity : Nat}
    {declaration : ClassDeclaration}
    (hasNone : hierarchy.soleCandidate target arity declaration = .ok none) :
    hierarchy.abstractAnswer target arity name declaration = none := by
  simp only [Hierarchy.abstractAnswer, hasNone]

theorem abstractAnswer_eq_some_ok
    {target name : BinaryName}
    {arity : Nat}
    {declaration : ClassDeclaration}
    {candidate : AbstractMethod} :
    hierarchy.abstractAnswer target arity name declaration = some (.ok candidate) ↔
      hierarchy.soleCandidate target arity declaration = .ok (some candidate) := by
  unfold Hierarchy.abstractAnswer
  split <;> rename_i result <;> simp [result]

/-- The abstract methods of a type itself come before those that it inherits. -/
theorem findAbstract_eq_ok
    {target : BinaryName}
    {arity : Nat}
    {declaration : ClassDeclaration}
    {candidate : AbstractMethod}
    (found : hierarchy.resolve target = .ok declaration)
    (isSole : hierarchy.soleCandidate target arity declaration = .ok (some candidate)) :
    hierarchy.findAbstract target arity = .ok (some candidate) := by
  unfold Hierarchy.findAbstract
  rw [Hierarchy.descend_cons_of_some rfl found (abstractAnswer_eq_some_ok.mpr isSole)]
  rfl

theorem LambdaSite.requiredParameters_le
    (site : LambdaSite) :
    site.requiredParameters ≤ site.parameters.length := by
  unfold requiredParameters
  exact Nat.le_trans (List.length_dropWhile_le _ _) (Nat.le_of_eq List.length_reverse)

/-- A closure implements the only abstract method of its type that takes all its parameters. -/
theorem LambdaSite.abstractMethod_eq_ok
    {site : LambdaSite}
    {declaration : ClassDeclaration}
    {candidate : AbstractMethod}
    (found : hierarchy.resolve site.target = .ok declaration)
    (isSole : hierarchy.soleCandidate site.target site.parameters.length declaration =
      .ok (some candidate)) :
    site.abstractMethod hierarchy = .ok candidate := by
  have count : site.parameters.length + 1 - site.requiredParameters =
      site.parameters.length - site.requiredParameters + 1 := by
    have := site.requiredParameters_le
    omega
  have last : site.requiredParameters + (site.parameters.length - site.requiredParameters) =
      site.parameters.length := Nat.add_sub_of_le site.requiredParameters_le
  unfold abstractMethod
  dsimp only
  rw [count, List.range'_1_concat, last, List.reverse_append, List.reverse_singleton,
    List.singleton_append, abstractMethodAmong, findAbstract_eq_ok found isSole]
  rfl

/-! ## Numbers of parameters -/

theorem arity_of_isCandidate
    {target : BinaryName}
    {arity : Nat}
    {method : MethodDeclaration}
    (isCandidate : hierarchy.isCandidate target arity method = .ok true) :
    method.type.parameters.length = arity := by
  unfold Hierarchy.isCandidate at isCandidate
  split at isCandidate
  · rename_i fits
    simp only [Bool.and_eq_true, decide_eq_true_eq] at fits
    exact fits.2
  · cases isCandidate

/-- The only abstract method of a type that a closure can implement is one that the type
declares. -/
theorem exists_isCandidate_of_soleCandidate
    {target : BinaryName}
    {arity : Nat}
    {declaration : ClassDeclaration}
    {candidate : AbstractMethod}
    (isSole : hierarchy.soleCandidate target arity declaration = .ok (some candidate)) :
    ∃ method ∈ declaration.methods, hierarchy.isCandidate target arity method = .ok true ∧
      candidate = .ofDeclaration declaration method := by
  unfold Hierarchy.soleCandidate at isSole
  obtain ⟨candidates, areCandidates, isSole⟩ := bind_eq_ok.mp isSole
  have isFiltered := mapError_eq_ok.mp areCandidates
  split at isSole
  · cases isSole
  · rename_i method
    cases isSole
    exact ⟨method, mem_of_filterM_eq_ok isFiltered method (by simp),
      forall_of_filterM_eq_ok isFiltered method (by simp), rfl⟩
  · cases isSole

/-- The abstract method that a closure implements is the only one of a type that its target
leads to. -/
theorem exists_soleCandidate_of_findAbstract
    {target : BinaryName}
    {arity : Nat}
    {candidate : AbstractMethod}
    (found : hierarchy.findAbstract target arity = .ok (some candidate)) :
    ∃ name declaration,
      Relation.ReflTransGen (hierarchy.Leads Hierarchy.abstractParents) target name ∧
        hierarchy.resolve name = .ok declaration ∧
        hierarchy.soleCandidate target arity declaration = .ok (some candidate) := by
  unfold Hierarchy.findAbstract at found
  obtain ⟨answer, isAnswer, found⟩ := bind_eq_ok.mp found
  cases answer with
  | none => cases found
  | some result =>
      obtain ⟨method, rfl, equal⟩ := map_eq_ok.mp found
      cases equal
      obtain ⟨first, isFirst, name, declaration, leads, resolved, answers⟩ :=
        Hierarchy.exists_answer_of_descend_eq_ok (mapError_eq_ok.mp isAnswer)
      cases List.mem_singleton.mp isFirst
      exact ⟨name, declaration, leads, resolved, abstractAnswer_eq_some_ok.mp answers⟩

/-- The abstract method that a closure implements is found for one of the numbers of
parameters. -/
theorem exists_findAbstract_of_abstractMethodAmong
    {target : BinaryName}
    {arities : List Nat}
    {candidate : AbstractMethod}
    (found : abstractMethodAmong hierarchy target arities = .ok (some candidate)) :
    ∃ arity ∈ arities, hierarchy.findAbstract target arity = .ok (some candidate) := by
  induction arities with
  | nil => cases found
  | cons arity arities inductionHypothesis =>
      obtain ⟨result, isResult, found⟩ := bind_eq_ok.mp found
      cases result with
      | none =>
          obtain ⟨other, member, isFound⟩ := inductionHypothesis found
          exact ⟨other, List.mem_cons_of_mem _ member, isFound⟩
      | some method =>
          cases found
          exact ⟨arity, List.mem_cons_self, isResult⟩

theorem arity_of_findAbstract
    {target : BinaryName}
    {arity : Nat}
    {candidate : AbstractMethod}
    (found : hierarchy.findAbstract target arity = .ok (some candidate)) :
    candidate.arity = arity := by
  obtain ⟨_, declaration, _, _, isSole⟩ := exists_soleCandidate_of_findAbstract found
  obtain ⟨method, _, isCandidate, rfl⟩ := exists_isCandidate_of_soleCandidate isSole
  exact arity_of_isCandidate isCandidate

namespace LambdaSite

variable {site : LambdaSite}

/-- What a closure implements is found for a number of parameters that the closure can do
with. -/
theorem exists_findAbstract_of_abstractMethod
    {implemented : AbstractMethod}
    (found : site.abstractMethod hierarchy = .ok implemented) :
    ∃ arity, site.requiredParameters ≤ arity ∧
      hierarchy.findAbstract site.target arity = .ok (some implemented) := by
  unfold abstractMethod at found
  dsimp only at found
  obtain ⟨answer, isAnswer, found⟩ := bind_eq_ok.mp found
  cases answer with
  | none => cases found
  | some method =>
      cases found
      obtain ⟨arity, member, isFound⟩ := exists_findAbstract_of_abstractMethodAmong isAnswer
      exact ⟨arity, (List.mem_range'_1.mp (List.mem_reverse.mp member)).1, isFound⟩

/-- What a closure implements takes all parameters that it has to. -/
theorem requiredParameters_le_arity
    {implemented : AbstractMethod}
    (found : site.abstractMethod hierarchy = .ok implemented) :
    site.requiredParameters ≤ implemented.arity := by
  obtain ⟨arity, enough, isFound⟩ := exists_findAbstract_of_abstractMethod found
  rw [arity_of_findAbstract isFound]
  exact enough

/-- The parameters after the last one without a default value. -/
theorem drop_requiredParameters
    (site : LambdaSite) :
    site.parameters.drop site.requiredParameters =
      (site.parameters.reverse.takeWhile fun parameter => parameter.default.isSome).reverse := by
  have parts : (_ ++ site.parameters.reverse.dropWhile
      fun parameter => parameter.default.isSome).reverse =
        site.parameters.reverse.reverse := congrArg List.reverse List.takeWhile_append_dropWhile
  rw [List.reverse_append, List.reverse_reverse] at parts
  conv_lhs => rw [← parts]
  unfold requiredParameters
  rw [← List.length_reverse, List.drop_left]

/-- The parameters for which the implemented method has no argument have default values. -/
theorem isSome_default_of_mem_drop
    {implemented : AbstractMethod}
    (found : site.abstractMethod hierarchy = .ok implemented)
    {parameter : SiteParameter}
    (member : parameter ∈ site.parameters.drop implemented.arity) :
    parameter.default.isSome = true := by
  have isOptional : parameter ∈ site.parameters.drop site.requiredParameters :=
    (List.drop_sublist_drop_left site.parameters (requiredParameters_le_arity found)).subset member
  rw [drop_requiredParameters, List.mem_reverse] at isOptional
  exact List.mem_takeWhile_imp (p := fun other : SiteParameter => other.default.isSome) isOptional

end LambdaSite

end ClosureConversion
