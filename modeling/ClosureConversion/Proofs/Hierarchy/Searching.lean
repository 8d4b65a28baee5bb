import Mathlib.Logic.Relation
import ClosureConversion.Hierarchy.Basic

/-!
Contract: what a search and a descent along superclasses and interfaces find.

Owns:
- one step of a search or of a descent at a time;
- both find the answer of a class that the classes they began with lead to, and a search that
  finds none has seen all of them;
- a search goes by nothing but the declarations that there are.

Does not own: what is searched for.
-/

namespace ClosureConversion

namespace Hierarchy

/-- The other type is among those that a search visits after a type. -/
def Leads
    (hierarchy : Hierarchy)
    (next : ClassDeclaration → List BinaryName)
    (name other : BinaryName) : Prop :=
  ∃ declaration, hierarchy.resolve name = .ok declaration ∧ other ∈ next declaration

variable {hierarchy : Hierarchy}
  {α : Type}
  {answer : BinaryName → ClassDeclaration → Option α}
  {next : ClassDeclaration → List BinaryName}

/-- A search goes past a class that it has visited. -/
theorem search_cons_of_contains
    {name : BinaryName}
    {rest visited : List BinaryName}
    (isVisited : visited.contains name = true) :
    hierarchy.search answer next (name :: rest) visited =
      hierarchy.search answer next rest visited := by
  rw [search]
  split
  · rfl
  · rename_i fresh
    cases isVisited.symm.trans fresh

/-- A search ends at its first class if that has an answer. -/
theorem search_cons_of_some
    {name : BinaryName}
    {rest visited : List BinaryName}
    {declaration : ClassDeclaration}
    {value : α}
    (fresh : visited.contains name = false)
    (found : hierarchy.resolve name = .ok declaration)
    (answers : answer name declaration = some value) :
    hierarchy.search answer next (name :: rest) visited = .ok (some value) := by
  rw [search]
  split
  · rename_i isVisited
    rw [fresh] at isVisited
    cases isVisited
  · split
    · rename_i failure isFailure
      cases found.symm.trans isFailure
    · rename_i other isFound
      cases found.symm.trans isFound
      rw [answers]

/-- A search goes on from its first class if that has no answer. -/
theorem search_cons_of_none
    {name : BinaryName}
    {rest visited : List BinaryName}
    {declaration : ClassDeclaration}
    (fresh : visited.contains name = false)
    (found : hierarchy.resolve name = .ok declaration)
    (silent : answer name declaration = none) :
    hierarchy.search answer next (name :: rest) visited =
      hierarchy.search answer next (next declaration ++ rest) (name :: visited) := by
  rw [search]
  split
  · rename_i isVisited
    rw [fresh] at isVisited
    cases isVisited
  · split
    · rename_i failure isFailure
      cases found.symm.trans isFailure
    · rename_i other isFound
      cases found.symm.trans isFound
      rw [silent]

/-- A search fails at its first class if that cannot be found. -/
theorem search_cons_of_error
    {name : BinaryName}
    {rest visited : List BinaryName}
    {error : BytecodeError}
    (fresh : visited.contains name = false)
    (failed : hierarchy.resolve name = .error error) :
    hierarchy.search answer next (name :: rest) visited = .error error := by
  rw [search]
  split
  · rename_i isVisited
    rw [fresh] at isVisited
    cases isVisited
  · split
    · rename_i failure isFailure
      cases failed.symm.trans isFailure
      rfl
    · rename_i other isFound
      cases failed.symm.trans isFound

/-- What a search finds is the answer of a class that one of the classes it began with leads
to. -/
theorem exists_answer_of_search_eq_ok
    {toVisit visited : List BinaryName}
    {value : α}
    (found : hierarchy.search answer next toVisit visited = .ok (some value)) :
    ∃ first ∈ toVisit, ∃ name declaration,
      Relation.ReflTransGen (hierarchy.Leads next) first name ∧
        hierarchy.resolve name = .ok declaration ∧ answer name declaration = some value := by
  fun_induction search hierarchy answer next toVisit visited with
  | case1 => cases found
  | case2 visited name rest _ inductionHypothesis =>
      obtain ⟨first, member, result⟩ := inductionHypothesis found
      exact ⟨first, List.mem_cons_of_mem _ member, result⟩
  | case3 => cases found
  | case4 visited name rest _ declaration resolved other answers =>
      cases found
      exact ⟨name, List.mem_cons_self, name, declaration, .refl, resolved, answers⟩
  | case5 visited name rest _ declaration resolved _ inductionHypothesis =>
      obtain ⟨first, member, last, answering, leads, result⟩ := inductionHypothesis found
      rcases List.mem_append.mp member with isNext | isLater
      · exact ⟨name, List.mem_cons_self, last, answering,
          .head ⟨declaration, resolved, isNext⟩ leads, result⟩
      · exact ⟨first, List.mem_cons_of_mem _ isLater, last, answering, leads, result⟩

/-- A search fails only as the lookup of a class does that one of the classes it began with leads
to. -/
theorem exists_leads_of_search_eq_error
    {toVisit visited : List BinaryName}
    {error : BytecodeError}
    (failed : hierarchy.search answer next toVisit visited = .error error) :
    ∃ first ∈ toVisit, ∃ name,
      Relation.ReflTransGen (hierarchy.Leads next) first name ∧
        hierarchy.resolve name = .error error := by
  fun_induction search hierarchy answer next toVisit visited with
  | case1 => cases failed
  | case2 visited name rest _ inductionHypothesis =>
      obtain ⟨first, member, result⟩ := inductionHypothesis failed
      exact ⟨first, List.mem_cons_of_mem _ member, result⟩
  | case3 visited name rest _ other isFailure =>
      cases failed
      exact ⟨name, List.mem_cons_self, name, .refl, isFailure⟩
  | case4 => cases failed
  | case5 visited name rest _ declaration resolved _ inductionHypothesis =>
      obtain ⟨first, member, last, leads, result⟩ := inductionHypothesis failed
      rcases List.mem_append.mp member with isNext | isLater
      · exact ⟨name, List.mem_cons_self, last, .head ⟨declaration, resolved, isNext⟩ leads, result⟩
      · exact ⟨first, List.mem_cons_of_mem _ isLater, last, leads, result⟩

/-- A search fails only as the lookup of a class does. -/
theorem exists_resolve_of_search_eq_error
    {toVisit visited : List BinaryName}
    {error : BytecodeError}
    (failed : hierarchy.search answer next toVisit visited = .error error) :
    ∃ name, hierarchy.resolve name = .error error := by
  obtain ⟨_, _, name, _, isFailure⟩ := exists_leads_of_search_eq_error failed
  exact ⟨name, isFailure⟩

/-- A class is found, and a search does not end there. -/
def IsSilent
    (hierarchy : Hierarchy)
    (answer : BinaryName → ClassDeclaration → Option α)
    (name : BinaryName) : Prop :=
  ∃ declaration, hierarchy.resolve name = .ok declaration ∧ answer name declaration = none

/-- A search that ends without an answer does not end at any class that the classes it began with
lead to, if it was to visit all that those lead to that it had visited. -/
theorem isSilent_of_search_eq_none
    {toVisit visited : List BinaryName}
    (nothing : hierarchy.search answer next toVisit visited = .ok none)
    (areSilent : ∀ name ∈ visited, hierarchy.IsSilent answer name)
    (areClosed : ∀ name ∈ visited, ∀ other, hierarchy.Leads next name other →
      other ∈ toVisit ∨ other ∈ visited)
    {first name : BinaryName}
    (member : first ∈ toVisit ∨ first ∈ visited)
    (leads : Relation.ReflTransGen (hierarchy.Leads next) first name) :
    hierarchy.IsSilent answer name := by
  fun_induction search hierarchy answer next toVisit visited with
  | case1 visited =>
      have isVisited : name ∈ visited := by
        induction leads with
        | refl => simpa using member
        | tail _ isNext isVisited => simpa using areClosed _ isVisited _ isNext
      exact areSilent name isVisited
  | case2 visited again rest isVisited inductionHypothesis =>
      have isAgain : again ∈ visited := by simpa using isVisited
      have stays : ∀ other, other ∈ again :: rest ∨ other ∈ visited →
          other ∈ rest ∨ other ∈ visited := by
        rintro other (isToVisit | isBefore)
        · rcases List.mem_cons.mp isToVisit with rfl | isRest
          · exact .inr isAgain
          · exact .inl isRest
        · exact .inr isBefore
      exact inductionHypothesis nothing areSilent
        (fun known isKnown other leadsOn => stays other (areClosed known isKnown other leadsOn))
        (stays first member)
  | case3 => cases nothing
  | case4 => cases nothing
  | case5 visited here rest _ declaration found silent inductionHypothesis =>
      have stays : ∀ other, other ∈ here :: rest ∨ other ∈ visited →
          other ∈ next declaration ++ rest ∨ other ∈ here :: visited := by
        rintro other (isToVisit | isBefore)
        · rcases List.mem_cons.mp isToVisit with rfl | isRest
          · exact .inr List.mem_cons_self
          · exact .inl (List.mem_append_right _ isRest)
        · exact .inr (List.mem_cons_of_mem _ isBefore)
      refine inductionHypothesis nothing ?_ ?_ (stays first member)
      · intro known isKnown
        rcases List.mem_cons.mp isKnown with rfl | isBefore
        · exact ⟨declaration, found, silent⟩
        · exact areSilent known isBefore
      · intro known isKnown other leadsOn
        rcases List.mem_cons.mp isKnown with rfl | isBefore
        · obtain ⟨same, isFound, isNext⟩ := leadsOn
          cases found.symm.trans isFound
          exact .inl (List.mem_append_left _ isNext)
        · exact stays other (areClosed known isBefore other leadsOn)

/-- A search ends alike in hierarchies with the same declarations. -/
theorem search_congr
    {other : Hierarchy}
    (same : ∀ name, other.resolve name = hierarchy.resolve name)
    (toVisit visited : List BinaryName) :
    other.search answer next toVisit visited = hierarchy.search answer next toVisit visited := by
  fun_induction search hierarchy answer next toVisit visited with
  | case1 => rw [search]
  | case2 visited name rest isVisited inductionHypothesis =>
      rw [search]
      split
      · exact inductionHypothesis
      · rename_i fresh
        cases isVisited.symm.trans fresh
  | case3 visited name rest fresh error failed =>
      exact search_cons_of_error fresh ((same name).trans failed)
  | case4 visited name rest fresh declaration found value answers =>
      exact search_cons_of_some fresh ((same name).trans found) answers
  | case5 visited name rest fresh declaration found silent inductionHypothesis =>
      rw [search_cons_of_none fresh ((same name).trans found) silent, inductionHypothesis]

/-! ## Descents -/

/-- A descent fails at a class that led to itself. -/
theorem descend_cons_of_contains
    {name : BinaryName}
    {rest below : List BinaryName}
    (isAgain : below.contains name = true) :
    hierarchy.descend answer next (name :: rest) below =
      .error (.circularHierarchy name.text) := by
  rw [descend]
  split
  · rfl
  · rename_i fresh
    cases isAgain.symm.trans fresh

/-- A descent ends at its first class if that has an answer. -/
theorem descend_cons_of_some
    {name : BinaryName}
    {rest below : List BinaryName}
    {declaration : ClassDeclaration}
    {value : α}
    (fresh : below.contains name = false)
    (found : hierarchy.resolve name = .ok declaration)
    (answers : answer name declaration = some value) :
    hierarchy.descend answer next (name :: rest) below = .ok (some value) := by
  rw [descend]
  split
  · rename_i isBelow
    rw [fresh] at isBelow
    cases isBelow
  · split
    · rename_i failure isFailure
      cases found.symm.trans isFailure
    · rename_i other isFound
      cases found.symm.trans isFound
      rw [answers]

/-- A descent goes on to the other classes if neither its first class nor what that leads to has
an answer. -/
theorem descend_cons_of_none
    {name : BinaryName}
    {rest below : List BinaryName}
    {declaration : ClassDeclaration}
    (fresh : below.contains name = false)
    (found : hierarchy.resolve name = .ok declaration)
    (silent : answer name declaration = none)
    (allSilent : hierarchy.descend answer next (next declaration) (name :: below) = .ok none) :
    hierarchy.descend answer next (name :: rest) below =
      hierarchy.descend answer next rest below := by
  rw [descend]
  split
  · rename_i isBelow
    rw [fresh] at isBelow
    cases isBelow
  · split
    · rename_i failure isFailure
      cases found.symm.trans isFailure
    · rename_i other isFound
      cases found.symm.trans isFound
      simp only [silent, allSilent]

/-- A descent ends with what its first class leads to, if that has an answer or fails. -/
theorem descend_cons_of_ne
    {name : BinaryName}
    {rest below : List BinaryName}
    {declaration : ClassDeclaration}
    (fresh : below.contains name = false)
    (found : hierarchy.resolve name = .ok declaration)
    (silent : answer name declaration = none)
    (ends : hierarchy.descend answer next (next declaration) (name :: below) ≠ .ok none) :
    hierarchy.descend answer next (name :: rest) below =
      hierarchy.descend answer next (next declaration) (name :: below) := by
  rw [descend]
  split
  · rename_i isBelow
    rw [fresh] at isBelow
    cases isBelow
  · split
    · rename_i failure isFailure
      cases found.symm.trans isFailure
    · rename_i other isFound
      cases found.symm.trans isFound
      simp only [silent]

/-- What the first class of a descent leads to has the answer. -/
theorem descend_cons_of_eq_some
    {name : BinaryName}
    {rest below : List BinaryName}
    {declaration : ClassDeclaration}
    {value : α}
    (fresh : below.contains name = false)
    (found : hierarchy.resolve name = .ok declaration)
    (silent : answer name declaration = none)
    (answers : hierarchy.descend answer next (next declaration) (name :: below) =
      .ok (some value)) :
    hierarchy.descend answer next (name :: rest) below = .ok (some value) :=
  (descend_cons_of_ne fresh found silent (by simp [answers])).trans answers

/-- A descent fails at its first class if that cannot be found. -/
theorem descend_cons_of_error
    {name : BinaryName}
    {rest below : List BinaryName}
    {error : BytecodeError}
    (fresh : below.contains name = false)
    (failed : hierarchy.resolve name = .error error) :
    hierarchy.descend answer next (name :: rest) below = .error error := by
  rw [descend]
  split
  · rename_i isBelow
    rw [fresh] at isBelow
    cases isBelow
  · split
    · rename_i failure isFailure
      cases failed.symm.trans isFailure
      rfl
    · rename_i other isFound
      cases failed.symm.trans isFound

/-- What a descent finds is the answer of a class that one of the classes it began with leads
to. -/
theorem exists_answer_of_descend_eq_ok
    {toVisit below : List BinaryName}
    {value : α}
    (found : hierarchy.descend answer next toVisit below = .ok (some value)) :
    ∃ first ∈ toVisit, ∃ name declaration,
      Relation.ReflTransGen (hierarchy.Leads next) first name ∧
        hierarchy.resolve name = .ok declaration ∧ answer name declaration = some value := by
  fun_induction descend hierarchy answer next toVisit below with
  | case1 => cases found
  | case2 => cases found
  | case3 => cases found
  | case4 below name rest _ declaration resolved other answers =>
      cases found
      exact ⟨name, List.mem_cons_self, name, declaration, .refl, resolved, answers⟩
  | case5 below name rest _ declaration _ _ _ _ inductionHypothesis =>
      obtain ⟨first, member, result⟩ := inductionHypothesis found
      exact ⟨first, List.mem_cons_of_mem _ member, result⟩
  | case6 below name rest _ declaration resolved _ _ inductionHypothesis =>
      obtain ⟨first, member, last, answering, leads, result⟩ := inductionHypothesis found
      exact ⟨name, List.mem_cons_self, last, answering,
        .head ⟨declaration, resolved, member⟩ leads, result⟩

end Hierarchy

end ClosureConversion
