import Mathlib.Control.LawfulFix
import ClosureConversion.Proofs.Computation
import ClosureConversion.Proofs.Hierarchy.Searching

/-!
Contract: walks over classes without anything that makes them end.

Owns:
- induction over recursive computations without a bound, which are least fixed points of their
  rounds and have no value where they have no end;
- the three walks: the search, which knows where it was, and the climb along superclasses and the
  descent, which do not;
- the search always ends;
- the other two end exactly where the library's own versions of them do not say that there is no
  end, and they end alike; below classes of which none is above itself there is an end.

Does not own: what a walk finds.
-/

namespace ClosureConversion

open OmegaCompletePartialOrder

/-! ## Answers -/

/-- An error that stands for a computation without an end. -/
def BytecodeError.IsEndless : BytecodeError → Prop
  | .circularHierarchy _ => True
  | .unsettledFrames => True
  | _ => False

/-- A computation comes to an end, with a value or with an error. -/
abbrev Returns {α : Type} (computation : Except BytecodeError α) : Prop :=
  Avoids BytecodeError.IsEndless computation

theorem returns_bind_iff
    {α β : Type}
    {first : Except BytecodeError α}
    {next : α → Except BytecodeError β} :
    Returns (first >>= next) ↔
      Returns first ∧ ∀ value, first = .ok value → Returns (next value) := by
  constructor
  · intro returns
    cases first with
    | error failure =>
        exact ⟨avoids_error (returns failure rfl), fun value isOk => by cases isOk⟩
    | ok value =>
        refine ⟨avoids_ok, fun other isOk => ?_⟩
        cases isOk
        exact returns
  · rintro ⟨returnsFirst, returnsNext⟩
    exact returnsFirst.bind returnsNext

theorem returns_map_iff
    {α β : Type}
    {first : Except BytecodeError α}
    {f : α → β} :
    Returns (f <$> first) ↔ Returns first := by
  cases first with
  | error failure =>
      exact ⟨fun returns => avoids_error (returns failure rfl),
        fun returns => avoids_error (returns failure rfl)⟩
  | ok value => exact ⟨fun _ => avoids_ok, fun _ => avoids_ok⟩

/-! ## Computations without a bound -/

/-- A round that is a recursive call. -/
theorem continuous_call
    {α β : Type}
    (input : α) :
    ωScottContinuous fun calls : α → Part β => calls input :=
  ωScottContinuous.id.apply₂ input

/-- What a recursive computation without a bound ends with is as one round of it makes it, whatever
the recursive calls end with. -/
theorem fix_induction
    {α β : Type}
    {round : (α → Part β) → α → Part β}
    (continuous : ωScottContinuous round)
    {motive : α → β → Prop}
    (step : ∀ calls : α → Part β,
      (∀ input result, result ∈ calls input → motive input result) →
        ∀ input result, result ∈ round calls input → motive input result)
    {input : α}
    {result : β}
    (ends : result ∈ Part.fix round input) :
    motive input result := by
  obtain ⟨depth, reached⟩ :=
    (Part.Fix.mem_iff ⟨round, continuous.monotone⟩ input result).mp ends
  clear ends
  induction depth generalizing input result with
  | zero => exact absurd reached (Part.notMem_none result)
  | succ depth inductionHypothesis =>
      exact step _ (fun _ _ => inductionHypothesis) input result reached

namespace Hierarchy

/-! ## Walks without a bound -/

/-- What the search does with the first class that waits, and then with `roam`. -/
def roamStep {α : Type} (hierarchy : Hierarchy)
    (answer : BinaryName → ClassDeclaration → Option α)
    (next : ClassDeclaration → List BinaryName)
    (roam : List BinaryName × List BinaryName → Part (Except BytecodeError (Option α))) :
    List BinaryName × List BinaryName → Part (Except BytecodeError (Option α))
  | ([], _) => .some (.ok none)
  | (name :: rest, visited) =>
      if visited.contains name then roam (rest, visited)
      else
        match hierarchy.resolve name with
        | .error error => .some (.error error)
        | .ok declaration =>
            match answer name declaration with
            | some value => .some (.ok (some value))
            | none => roam (next declaration ++ rest, name :: visited)

/-- The search, as a loop. -/
def roam {α : Type} (hierarchy : Hierarchy)
    (answer : BinaryName → ClassDeclaration → Option α)
    (next : ClassDeclaration → List BinaryName)
    (toVisit visited : List BinaryName) : Part (Except BytecodeError (Option α)) :=
  Part.fix (hierarchy.roamStep answer next) (toVisit, visited)

/-- What the climb does at a class, and then with `climb`. -/
def climbStep (hierarchy : Hierarchy)
    (climb : BinaryName → Part (Except BytecodeError (List ClassDeclaration)))
    (name : BinaryName) : Part (Except BytecodeError (List ClassDeclaration)) :=
  match hierarchy.resolve name with
  | .error error => .some (.error error)
  | .ok declaration =>
      match declaration.super with
      | none => .some (.ok [declaration])
      | some super => (climb super).map (·.map (declaration :: ·))

/-- The climb from a class along its superclasses, wherever they lead. -/
def climb (hierarchy : Hierarchy) :
    BinaryName → Part (Except BytecodeError (List ClassDeclaration)) :=
  Part.fix hierarchy.climbStep

/-- What the descent does with the first class that waits, and then with `wander`. -/
def wanderStep {α : Type} (hierarchy : Hierarchy)
    (answer : BinaryName → ClassDeclaration → Option α)
    (next : ClassDeclaration → List BinaryName)
    (wander : List BinaryName → Part (Except BytecodeError (Option α))) :
    List BinaryName → Part (Except BytecodeError (Option α))
  | [] => .some (.ok none)
  | name :: rest =>
      match hierarchy.resolve name with
      | .error error => .some (.error error)
      | .ok declaration =>
          match answer name declaration with
          | some value => .some (.ok (some value))
          | none => do
              match ← wander (next declaration) with
              | .ok none => wander rest
              | result => return result

/-- The descent, wherever it leads. -/
def wander {α : Type} (hierarchy : Hierarchy)
    (answer : BinaryName → ClassDeclaration → Option α)
    (next : ClassDeclaration → List BinaryName) :
    List BinaryName → Part (Except BytecodeError (Option α)) :=
  Part.fix (hierarchy.wanderStep answer next)

/-- What a climb goes on to: the superclass. -/
def superParents (declaration : ClassDeclaration) : List BinaryName :=
  declaration.super.toList

/-- A class is, or leads to, a class that leads to itself. -/
def Circles
    (hierarchy : Hierarchy)
    (next : ClassDeclaration → List BinaryName)
    (name : BinaryName) : Prop :=
  ∃ other, Relation.ReflTransGen (hierarchy.Leads next) name other ∧
    Relation.TransGen (hierarchy.Leads next) other other

variable {hierarchy : Hierarchy}
  {α : Type}
  {answer : BinaryName → ClassDeclaration → Option α}
  {next : ClassDeclaration → List BinaryName}

theorem circles_of_leads
    {name parent : BinaryName}
    (leads : hierarchy.Leads next name parent)
    (circles : hierarchy.Circles next parent) :
    hierarchy.Circles next name := by
  obtain ⟨other, below, aboveItself⟩ := circles
  exact ⟨other, .head leads below, aboveItself⟩

/-- What leads to a circle goes on to a class that does. -/
theorem exists_leads_of_circles
    {name : BinaryName}
    (circles : hierarchy.Circles next name) :
    ∃ parent, hierarchy.Leads next name parent ∧ hierarchy.Circles next parent := by
  obtain ⟨other, below, aboveItself⟩ := circles
  cases below using Relation.ReflTransGen.head_induction_on with
  | refl =>
      obtain ⟨parent, leads, others⟩ := Relation.TransGen.head'_iff.mp aboveItself
      exact ⟨parent, leads, name, others, aboveItself⟩
  | head leads others _ => exact ⟨_, leads, other, others, aboveItself⟩

/-! ## The search -/

theorem continuous_roamStep :
    ωScottContinuous (hierarchy.roamStep answer next) := by
  refine .of_apply₂ fun walk => ?_
  obtain ⟨_ | ⟨name, rest⟩, visited⟩ := walk
  · exact .const
  · unfold roamStep
    by_cases isVisited : visited.contains name = true
    · simp only [isVisited, if_true]
      exact continuous_call _
    · simp only [isVisited, Bool.false_eq_true, if_false]
      cases hierarchy.resolve name with
      | error error => exact .const
      | ok declaration =>
          cases answers : answer name declaration with
          | some value =>
              simp only [answers]
              exact .const
          | none =>
              simp only [answers]
              exact continuous_call _

theorem roam_eq
    (toVisit visited : List BinaryName) :
    hierarchy.roam answer next toVisit visited =
      hierarchy.roamStep answer next (fun walk => hierarchy.roam answer next walk.1 walk.2)
        (toVisit, visited) :=
  congrFun (Part.fix_eq_of_ωScottContinuous continuous_roamStep) _

/-- The search always ends. -/
theorem roam_eq_some_search
    (toVisit visited : List BinaryName) :
    hierarchy.roam answer next toVisit visited =
      .some (hierarchy.search answer next toVisit visited) := by
  fun_induction search hierarchy answer next toVisit visited with
  | case1 visited => rw [roam_eq, roamStep]
  | case2 visited name rest isVisited inductionHypothesis =>
      rw [roam_eq, roamStep, if_pos isVisited, inductionHypothesis]
  | case3 visited name rest fresh error failed =>
      rw [roam_eq, roamStep]
      simp only [fresh, Bool.false_eq_true, if_false, failed]
  | case4 visited name rest fresh declaration found value answers =>
      rw [roam_eq, roamStep]
      simp only [fresh, Bool.false_eq_true, if_false, found, answers]
  | case5 visited name rest fresh declaration found silent inductionHypothesis =>
      rw [roam_eq, roamStep]
      simp only [fresh, Bool.false_eq_true, if_false, found, silent, inductionHypothesis]

/-- A search fails only as a lookup does. -/
theorem returns_search
    (lookups : ∀ name, Returns (hierarchy.resolve name))
    (toVisit visited : List BinaryName) :
    Returns (hierarchy.search answer next toVisit visited) := by
  intro error failed
  obtain ⟨name, isFailure⟩ := exists_resolve_of_search_eq_error failed
  exact lookups name error isFailure

/-! ## The climb -/

theorem continuous_climbStep :
    ωScottContinuous hierarchy.climbStep := by
  refine .of_apply₂ fun name => ?_
  unfold climbStep
  cases hierarchy.resolve name with
  | error error => exact .const
  | ok declaration =>
      cases hasSuper : declaration.super with
      | none =>
          simp only [hasSuper]
          exact .const
      | some super =>
          simp only [hasSuper]
          exact ContinuousHom.ωScottContinuous.map (continuous_call super)

theorem climb_eq
    (name : BinaryName) :
    hierarchy.climb name = hierarchy.climbStep hierarchy.climb name :=
  congrFun (Part.fix_eq_of_ωScottContinuous continuous_climbStep) name

theorem climb_eq_of_error
    {name : BinaryName}
    {error : BytecodeError}
    (failed : hierarchy.resolve name = .error error) :
    hierarchy.climb name = .some (.error error) := by
  rw [climb_eq, climbStep]
  simp only [failed]

theorem climb_eq_of_none
    {name : BinaryName}
    {declaration : ClassDeclaration}
    (found : hierarchy.resolve name = .ok declaration)
    (isRoot : declaration.super = none) :
    hierarchy.climb name = .some (.ok [declaration]) := by
  rw [climb_eq, climbStep]
  simp only [found, isRoot]

theorem climb_eq_of_some
    {name super : BinaryName}
    {declaration : ClassDeclaration}
    {result : Except BytecodeError (List ClassDeclaration)}
    (found : hierarchy.resolve name = .ok declaration)
    (hasSuper : declaration.super = some super)
    (climbed : hierarchy.climb super = .some result) :
    hierarchy.climb name = .some (result.map (declaration :: ·)) := by
  rw [climb_eq, climbStep]
  simp only [found, hasSuper, climbed, Part.map_some]

/-- The library's climb ends like the one without a bound, unless it says that there is no end. -/
theorem climb_eq_some_of_chainFrom
    {name : BinaryName}
    {visited : List BinaryName}
    (returns : Returns (hierarchy.chainFrom name visited)) :
    hierarchy.climb name = .some (hierarchy.chainFrom name visited) := by
  fun_induction chainFrom hierarchy name visited with
  | case1 => exact absurd trivial (returns _ rfl)
  | case2 name visited _ error failed => exact climb_eq_of_error failed
  | case3 name visited _ declaration found isRoot => exact climb_eq_of_none found isRoot
  | case4 name visited _ declaration found super hasSuper chain isChain inductionHypothesis =>
      exact climb_eq_of_some found hasSuper (isChain ▸ inductionHypothesis (isChain ▸ avoids_ok))
  | case5 name visited _ declaration found super hasSuper error failed inductionHypothesis =>
      exact climb_eq_of_some found hasSuper
        (failed ▸ inductionHypothesis (failed ▸ avoids_error (returns error rfl)))

/-- The library's climb says that there is no end only below a class that is above itself. -/
theorem returns_chainFrom
    (lookups : ∀ name, Returns (hierarchy.resolve name))
    {name : BinaryName}
    {visited : List BinaryName}
    (below : ∀ other ∈ visited,
      Relation.TransGen (hierarchy.Leads superParents) other name)
    (endsAbove : ¬hierarchy.Circles superParents name) :
    Returns (hierarchy.chainFrom name visited) := by
  fun_induction chainFrom hierarchy name visited with
  | case1 name visited isVisited =>
      exact absurd ⟨name, .refl, below name (by simpa using isVisited)⟩ endsAbove
  | case2 name visited _ error failed => exact avoids_error (lookups name error failed)
  | case3 => exact avoids_ok
  | case4 => exact avoids_ok
  | case5 name visited _ declaration found super hasSuper error failed inductionHypothesis =>
      have leads : hierarchy.Leads superParents name super :=
        ⟨declaration, found, by simp [superParents, hasSuper]⟩
      have returns := inductionHypothesis
        (by
          intro other member
          rcases List.mem_cons.mp member with rfl | isBelow
          · exact .single leads
          · exact (below other isBelow).tail leads)
        fun circles => endsAbove (circles_of_leads leads circles)
      rw [failed] at returns
      exact avoids_error (returns error rfl)

/-- A climb to a class that is above itself has no end. -/
theorem climb_eq_none_of_circles
    {name : BinaryName}
    (circles : hierarchy.Circles superParents name) :
    hierarchy.climb name = .none := by
  rw [Part.eq_none_iff]
  intro result climbed
  refine fix_induction continuous_climbStep
    (motive := fun name _ => ¬hierarchy.Circles superParents name) ?_ climbed circles
  intro continued inductionHypothesis name result climbed circles
  obtain ⟨super, ⟨declaration, found, isSuper⟩, superCircles⟩ := exists_leads_of_circles circles
  have hasSuper : declaration.super = some super := Option.mem_toList.mp isSuper
  simp only [climbStep, found, hasSuper] at climbed
  obtain ⟨chain, isChain, -⟩ := (Part.mem_map_iff _).mp climbed
  exact inductionHypothesis super chain isChain superCircles

/-- The chain of superclasses ends exactly below classes of which none is above itself. -/
theorem returns_superclasses_iff
    (lookups : ∀ name, Returns (hierarchy.resolve name))
    {name : BinaryName} :
    Returns (hierarchy.superclasses name) ↔ ¬hierarchy.Circles superParents name := by
  constructor
  · intro returns circles
    have climbed := climb_eq_some_of_chainFrom returns
    rw [climb_eq_none_of_circles circles] at climbed
    exact Part.some_ne_none _ climbed.symm
  · exact returns_chainFrom lookups (by simp)

/-! ## The descent -/

theorem continuous_wanderStep :
    ωScottContinuous (hierarchy.wanderStep answer next) := by
  refine .of_apply₂ fun toVisit => ?_
  cases toVisit with
  | nil => exact .const
  | cons name rest =>
      unfold wanderStep
      cases found : hierarchy.resolve name with
      | error error =>
          simp only [found]
          exact .const
      | ok declaration =>
          cases answers : answer name declaration with
          | some value =>
              simp only [found, answers]
              exact .const
          | none =>
              simp only [found, answers]
              refine ContinuousHom.ωScottContinuous.bind (continuous_call _)
                (.of_apply₂ fun result => ?_)
              rcases result with error | none | value
              · exact .const
              · exact continuous_call rest
              · exact .const

theorem wander_eq
    (toVisit : List BinaryName) :
    hierarchy.wander answer next toVisit =
      hierarchy.wanderStep answer next (hierarchy.wander answer next) toVisit :=
  congrFun (Part.fix_eq_of_ωScottContinuous continuous_wanderStep) toVisit

/-- The library's descent ends like the one without a bound, unless it says that there is no
end. -/
theorem wander_eq_some_of_descend
    {toVisit below : List BinaryName}
    (returns : Returns (hierarchy.descend answer next toVisit below)) :
    hierarchy.wander answer next toVisit = .some (hierarchy.descend answer next toVisit below) := by
  fun_induction descend hierarchy answer next toVisit below with
  | case1 => rw [wander_eq, wanderStep]
  | case2 => exact absurd trivial (returns _ rfl)
  | case3 below name rest _ error failed =>
      rw [wander_eq, wanderStep]
      simp only [failed]
  | case4 below name rest _ declaration found value answers =>
      rw [wander_eq, wanderStep]
      simp only [found, answers]
  | case5 below name rest _ declaration found silent nothing inParents inRest =>
      rw [wander_eq, wanderStep]
      simp only [found, silent, inParents (nothing ▸ avoids_ok), nothing]
      exact (Part.bind_some _ _).trans (inRest returns)
  | case6 below name rest _ declaration found silent something inParents =>
      rw [wander_eq, wanderStep]
      simp only [found, silent, inParents returns]
      refine (Part.bind_some _ _).trans ?_
      cases result : hierarchy.descend answer next (next declaration) (name :: below) with
      | error error => rfl
      | ok value =>
          cases value with
          | none => exact absurd result something
          | some value => rfl

/-- The library's descent says that there is no end only below a class that is above itself. -/
theorem returns_descend
    (lookups : ∀ name, Returns (hierarchy.resolve name))
    {toVisit below : List BinaryName}
    (isBelow : ∀ other ∈ below, ∀ name ∈ toVisit,
      Relation.TransGen (hierarchy.Leads next) other name)
    (endsAbove : ∀ name ∈ toVisit, ¬hierarchy.Circles next name) :
    Returns (hierarchy.descend answer next toVisit below) := by
  fun_induction descend hierarchy answer next toVisit below with
  | case1 => exact avoids_ok
  | case2 below name rest isAgain =>
      exact absurd ⟨name, .refl, isBelow name (by simpa using isAgain) name List.mem_cons_self⟩
        (endsAbove name List.mem_cons_self)
  | case3 below name rest _ error failed => exact avoids_error (lookups name error failed)
  | case4 => exact avoids_ok
  | case5 below name rest _ declaration found silent nothing inParents inRest =>
      exact inRest
        (fun other member later isLater =>
          isBelow other member later (List.mem_cons_of_mem _ isLater))
        fun later isLater => endsAbove later (List.mem_cons_of_mem _ isLater)
  | case6 below name rest _ declaration found silent something inParents =>
      refine inParents ?_ ?_
      · intro other member parent isParent
        have leads : hierarchy.Leads next name parent := ⟨declaration, found, isParent⟩
        rcases List.mem_cons.mp member with rfl | isOther
        · exact .single leads
        · exact (isBelow other isOther name List.mem_cons_self).tail leads
      · intro parent isParent circles
        exact endsAbove name List.mem_cons_self
          (circles_of_leads ⟨declaration, found, isParent⟩ circles)

theorem not_returns_descend_of_contains
    {name : BinaryName}
    {rest below : List BinaryName}
    (isAgain : below.contains name = true) :
    ¬Returns (hierarchy.descend answer next (name :: rest) below) := by
  rw [descend_cons_of_contains isAgain]
  exact fun returns => returns _ rfl trivial

/-- Where the library's descent says that there is no end although its first class is a new one,
either what the class leads to has no end, or it is silent and the others have none. -/
theorem exists_endless_of_descend_cons
    (lookups : ∀ name, Returns (hierarchy.resolve name))
    {name : BinaryName}
    {rest below : List BinaryName}
    (fresh : below.contains name = false)
    (endless : ¬Returns (hierarchy.descend answer next (name :: rest) below)) :
    ∃ declaration, hierarchy.resolve name = .ok declaration ∧ answer name declaration = none ∧
      (¬Returns (hierarchy.descend answer next (next declaration) (name :: below)) ∨
        hierarchy.descend answer next (next declaration) (name :: below) = .ok none ∧
          ¬Returns (hierarchy.descend answer next rest below)) := by
  cases found : hierarchy.resolve name with
  | error error =>
      rw [descend_cons_of_error fresh found] at endless
      exact absurd (avoids_error (lookups name error found)) endless
  | ok declaration =>
      cases answers : answer name declaration with
      | some value =>
          rw [descend_cons_of_some fresh found answers] at endless
          exact absurd avoids_ok endless
      | none =>
          refine ⟨declaration, rfl, answers, ?_⟩
          by_cases silent :
              hierarchy.descend answer next (next declaration) (name :: below) = .ok none
          · rw [descend_cons_of_none fresh found answers silent] at endless
            exact .inr ⟨silent, endless⟩
          · rw [descend_cons_of_ne fresh found answers silent] at endless
            exact .inl endless

/-- Classes, each of which led to the one before it, from each of which a descent has no end. -/
inductive IsTrail
    (hierarchy : Hierarchy)
    (answer : BinaryName → ClassDeclaration → Option α)
    (next : ClassDeclaration → List BinaryName) : List BinaryName → Prop where
  | nil : IsTrail hierarchy answer next []
  | cons {name : BinaryName} {below : List BinaryName} :
      below.contains name = false →
      ¬Returns (hierarchy.descend answer next [name] below) →
      IsTrail hierarchy answer next below →
      IsTrail hierarchy answer next (name :: below)

theorem IsTrail.exists_of_mem
    {name : BinaryName}
    {below : List BinaryName}
    (trail : hierarchy.IsTrail answer next below)
    (member : name ∈ below) :
    ∃ before, before.contains name = false ∧
      ¬Returns (hierarchy.descend answer next [name] before) ∧
        hierarchy.IsTrail answer next before := by
  induction trail with
  | nil => cases member
  | @cons other below fresh endless trail inductionHypothesis =>
      rcases List.mem_cons.mp member with rfl | isBelow
      · exact ⟨below, fresh, endless, trail⟩
      · exact inductionHypothesis isBelow

/-- What a walk without a bound ends with is what the library's descent ends with, and that has an
end after every trail. -/
def Foretells
    (hierarchy : Hierarchy)
    (answer : BinaryName → ClassDeclaration → Option α)
    (next : ClassDeclaration → List BinaryName)
    (toVisit : List BinaryName)
    (result : Except BytecodeError (Option α)) : Prop :=
  (∀ below, Returns (hierarchy.descend answer next toVisit below) →
    result = hierarchy.descend answer next toVisit below) ∧
  ∀ below, hierarchy.IsTrail answer next below →
    Returns (hierarchy.descend answer next toVisit below)

theorem foretells_nil :
    hierarchy.Foretells answer next [] (.ok none) :=
  ⟨fun below _ => by rw [descend], fun below _ => by rw [descend]; exact avoids_ok⟩

theorem foretells_cons_of_eq
    {name : BinaryName}
    {rest : List BinaryName}
    {result : Except BytecodeError (Option α)}
    (returns : Returns result)
    (ends : ∀ others below, below.contains name = false →
      hierarchy.descend answer next (name :: others) below = result) :
    hierarchy.Foretells answer next (name :: rest) result := by
  constructor
  · intro below descentReturns
    cases fresh : below.contains name with
    | true => exact absurd descentReturns (not_returns_descend_of_contains fresh)
    | false => exact (ends rest below fresh).symm
  · intro below trail
    cases fresh : below.contains name with
    | true =>
        obtain ⟨before, isFirst, endless, _⟩ := trail.exists_of_mem (by simpa using fresh)
        exact absurd (ends [] before isFirst ▸ returns) endless
    | false => exact ends rest below fresh ▸ returns

theorem foretells_cons
    {name : BinaryName}
    {rest : List BinaryName}
    {declaration : ClassDeclaration}
    {inner result : Except BytecodeError (Option α)}
    (lookups : ∀ name, Returns (hierarchy.resolve name))
    (found : hierarchy.resolve name = .ok declaration)
    (silent : answer name declaration = none)
    (inParents : hierarchy.Foretells answer next (next declaration) inner)
    (inRest : inner = .ok none → hierarchy.Foretells answer next rest result)
    (isInner : inner ≠ .ok none → result = inner) :
    hierarchy.Foretells answer next (name :: rest) result := by
  constructor
  · intro below returns
    cases fresh : below.contains name with
    | true => exact absurd returns (not_returns_descend_of_contains fresh)
    | false =>
        by_cases nothing :
            hierarchy.descend answer next (next declaration) (name :: below) = .ok none
        · have isNothing := inParents.1 (name :: below) (nothing ▸ avoids_ok)
          rw [descend_cons_of_none fresh found silent nothing] at returns ⊢
          exact (inRest (isNothing.trans nothing)).1 below returns
        · rw [descend_cons_of_ne fresh found silent nothing] at returns ⊢
          have isSomething := inParents.1 (name :: below) returns
          rw [isInner (isSomething ▸ nothing), isSomething]
  · intro below trail
    by_contra endless
    cases fresh : below.contains name with
    | true =>
        -- The class is reached again: its first visit had no end either.
        obtain ⟨before, isFirst, endlessBefore, trailBefore⟩ :=
          trail.exists_of_mem (by simpa using fresh)
        obtain ⟨other, isOther, _, endlessParents | ⟨_, endlessRest⟩⟩ :=
          exists_endless_of_descend_cons lookups isFirst endlessBefore
        · cases found.symm.trans isOther
          exact endlessParents
            (inParents.2 (name :: before) (.cons isFirst endlessBefore trailBefore))
        · rw [descend] at endlessRest
          exact endlessRest avoids_ok
    | false =>
        obtain ⟨other, isOther, _, endlessParents | ⟨nothing, endlessRest⟩⟩ :=
          exists_endless_of_descend_cons lookups fresh endless
        · cases found.symm.trans isOther
          have something : hierarchy.descend answer next (next declaration) (name :: below) ≠
              .ok none := fun isNone => endlessParents (isNone ▸ avoids_ok)
          have endlessHere : ¬Returns (hierarchy.descend answer next [name] below) := by
            rw [descend_cons_of_ne fresh found silent something]
            exact endlessParents
          exact endlessParents (inParents.2 (name :: below) (.cons fresh endlessHere trail))
        · cases found.symm.trans isOther
          have isNothing := inParents.1 (name :: below) (nothing ▸ avoids_ok)
          exact endlessRest ((inRest (isNothing.trans nothing)).2 below trail)

/-- What a walk without a bound ends with is foretold by the library's descent. -/
theorem foretells_of_wander
    (lookups : ∀ name, Returns (hierarchy.resolve name))
    {toVisit : List BinaryName}
    {result : Except BytecodeError (Option α)}
    (wandered : hierarchy.wander answer next toVisit = .some result) :
    hierarchy.Foretells answer next toVisit result := by
  refine fix_induction continuous_wanderStep (motive := hierarchy.Foretells answer next) ?_
    (Part.eq_some_iff.mp wandered)
  intro continued inductionHypothesis toVisit result wandered
  cases toVisit with
  | nil =>
      cases Part.mem_some_iff.mp wandered
      exact foretells_nil
  | cons name rest =>
      cases found : hierarchy.resolve name with
      | error error =>
          simp only [wanderStep, found] at wandered
          cases Part.mem_some_iff.mp wandered
          exact foretells_cons_of_eq (avoids_error (lookups name error found))
            fun _ _ fresh => descend_cons_of_error fresh found
      | ok declaration =>
          cases answers : answer name declaration with
          | some value =>
              simp only [wanderStep, found, answers] at wandered
              cases Part.mem_some_iff.mp wandered
              exact foretells_cons_of_eq avoids_ok
                fun _ _ fresh => descend_cons_of_some fresh found answers
          | none =>
              simp only [wanderStep, found, answers] at wandered
              obtain ⟨inner, isInner, wandered⟩ := Part.mem_bind_iff.mp wandered
              refine foretells_cons lookups found answers (inductionHypothesis _ _ isInner) ?_ ?_
              · rintro rfl
                exact inductionHypothesis _ _ wandered
              · intro something
                split at wandered
                · exact absurd rfl something
                · exact Part.mem_some_iff.mp wandered

/-- The descent without a bound ends exactly where the library's says that there is an end, and they
end alike. -/
theorem wander_eq_some_iff
    (lookups : ∀ name, Returns (hierarchy.resolve name))
    {toVisit : List BinaryName}
    {result : Except BytecodeError (Option α)} :
    hierarchy.wander answer next toVisit = .some result ↔
      hierarchy.descend answer next toVisit [] = result ∧ Returns result := by
  constructor
  · intro wandered
    obtain ⟨isSame, returns⟩ := foretells_of_wander lookups wandered
    have isResult := isSame [] (returns [] .nil)
    exact ⟨isResult.symm, isResult ▸ returns [] .nil⟩
  · rintro ⟨rfl, returns⟩
    exact wander_eq_some_of_descend returns

/-- The climb without a bound ends exactly where the library's says that there is an end, and they
end alike. -/
theorem climb_eq_some_iff
    (lookups : ∀ name, Returns (hierarchy.resolve name))
    {name : BinaryName}
    {result : Except BytecodeError (List ClassDeclaration)} :
    hierarchy.climb name = some result ↔ hierarchy.superclasses name = result ∧ Returns result := by
  constructor
  · intro climbed
    have returns : Returns (hierarchy.superclasses name) := by
      rw [returns_superclasses_iff lookups]
      intro circles
      rw [climb_eq_none_of_circles circles] at climbed
      exact Part.some_ne_none _ climbed.symm
    have same := Part.some_inj.mp (climbed.symm.trans (climb_eq_some_of_chainFrom returns))
    exact ⟨same.symm, same ▸ returns⟩
  · rintro ⟨rfl, returns⟩
    exact climb_eq_some_of_chainFrom returns

end Hierarchy

end ClosureConversion
