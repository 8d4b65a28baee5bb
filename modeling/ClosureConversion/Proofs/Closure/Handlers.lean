import ClosureConversion.Proofs.Closure.Construction
import ClosureConversion.Proofs.Flow.Worklist

/-!
Contract: what becomes of the exception handlers of a method whose sites are replaced.

Owns:
- an accepted handler lies in the body of a site, or it covers the site or is apart from it;
- the site to which a handler belongs, if it belongs to one;
- the handlers that are kept, in the class of a closure or in the rewritten method, and those
  that are in neither.

Does not own: what handlers do.
-/

namespace ClosureConversion

/-! ## Accepted handlers -/

theorem Span.isWithin_refl
    (span : Span) :
    span.isWithin span = true :=
  Span.isWithin_iff.mpr ⟨Nat.le_refl _, Nat.le_refl _⟩

theorem ExceptionRange.isWithin_iff
    {range : ExceptionRange Nat}
    {span : Span} :
    range.isWithin span = true ↔
      (span.start ≤ range.start ∧ range.stop ≤ span.stop) ∧
        span.start ≤ range.handler ∧ range.handler < span.stop := by
  unfold ExceptionRange.isWithin
  rw [Bool.and_eq_true, Span.isWithin_iff, Span.contains_iff]
  rfl

/-- A handler that does not cross the boundary of a site is inside its body, or it is outside
the site and covers all of it or nothing. -/
theorem isWithin_or_of_crossesSite_eq_false
    {range : ExceptionRange Nat}
    {site : LambdaSite}
    (accepted : crossesSite range site = false) :
    range.isWithin site.body = true ∨ range.stop ≤ site.start ∨ site.stop ≤ range.start ∨
      (range.start ≤ site.start ∧ site.stop ≤ range.stop) := by
  by_cases isWithin : range.isWithin site.body = true
  · exact .inl isWithin
  · right
    unfold crossesSite at accepted
    rw [Bool.not_eq_true] at isWithin
    rw [isWithin, Bool.not_false, Bool.true_and, Bool.or_eq_false_iff, Bool.or_eq_false_iff,
      LambdaSite.isCutAt_eq_false_iff, LambdaSite.isCutAt_eq_false_iff] at accepted
    omega

/-- Detection accepts no handler that crosses the boundary of a site. -/
theorem crossesSite_of_detectSites
    {Memory : Type}
    {method : Method}
    {analysis : FlowAnalysis}
    {calls : List Nat}
    {firstId : Nat}
    {hierarchy : Hierarchy}
    {convention : Convention Memory}
    {place : Place}
    {before after : Memory}
    {sites : List LambdaSite}
    (detected : detectSites method analysis calls firstId hierarchy convention place before =
      .ok sites after)
    {range : ExceptionRange Nat}
    (member : range ∈ method.handlers)
    {site : LambdaSite}
    (isSite : site ∈ sites) :
    crossesSite range site = false := by
  unfold detectSites at detected
  obtain ⟨read, _, _, detected⟩ := run_bind_eq_ok.mp detected
  obtain ⟨linked, _, _, detected⟩ := run_bind_eq_ok.mp detected
  obtain ⟨_, _, checked, detected⟩ := run_bind_eq_ok.mp detected
  obtain ⟨rfl, _⟩ := run_pure_eq_ok.mp detected
  obtain ⟨position, found⟩ := List.getElem?_of_mem isSite
  rw [getElem?_numberFrom, Option.map_eq_some_iff] at found
  obtain ⟨raw, isRaw, rfl⟩ := found
  have passed := eq_ok_of_forM_eq_ok (run_ofExcept_eq_ok.mp checked).1
    (Array.mem_toList_iff.mpr member)
  have noneCrossed : linked.find? (crossesSite range) = none := by
    cases crossed : linked.find? (crossesSite range) with
    | none => rfl
    | some other =>
        rw [crossed] at passed
        cases passed
  have accepted := List.find?_eq_none.mp noneCrossed raw (List.mem_of_getElem? isRaw)
  rw [Bool.not_eq_true] at accepted
  exact accepted

/-! ## Where handlers belong -/

/-- The innermost site whose body has a handler and all that it covers, if there is one. -/
def IsHome (sites : List LambdaSite) (range : ExceptionRange Nat) : Option Nat → Prop
  | none => ∀ site ∈ sites, ¬range.isWithin site.body = true
  | some number =>
      ∃ site, sites[number]? = some site ∧ range.isWithin site.body = true ∧
        ∀ other ∈ sites, range.isWithin other.body = true →
          site.span.isWithin other.span = true

/-- A handler covers exactly the instructions of a site. -/
def CoversSite (sites : List LambdaSite) (range : ExceptionRange Nat) : Prop :=
  ∃ site ∈ sites, range.span = site.span

/-- A site begins with the same instruction as a site around it. -/
def BeginsSiteAround (sites : List LambdaSite) (number : Nat) : Prop :=
  ∃ site outer, sites[number]? = some site ∧ outer ∈ sites ∧
    site.span.isWithin outer.body = true ∧ outer.start = site.start

section Belonging

variable {firstId : Nat} {sorted sites : List LambdaSite} {range : ExceptionRange Nat}

/-- An accepted handler covers nothing but instructions of a site if it lies in its body, or
covers exactly the site. -/
theorem isWithin_span_iff
    {site : LambdaSite}
    (tiled : site.IsTiled)
    (accepted : crossesSite range site = false)
    (nonempty : range.start < range.stop) :
    range.span.isWithin site.span = true ↔
      range.isWithin site.body = true ∨ range.span = site.span := by
  have bodyStart := tiled.start_le_body
  have bodyStop := tiled.body_stop
  have callLt := tiled.call_lt_stop
  constructor
  · intro isWithin
    rw [Span.isWithin_iff] at isWithin
    simp only [ExceptionRange.span, LambdaSite.span] at isWithin ⊢
    rcases isWithin_or_of_crossesSite_eq_false accepted with inBody | isBefore | isAfter | covers
    · exact .inl inBody
    · omega
    · omega
    · right
      rw [Span.mk.injEq]
      omega
  · rintro (inBody | equal)
    · have bounds := ExceptionRange.isWithin_iff.mp inBody
      rw [Span.isWithin_iff]
      simp only [ExceptionRange.span, LambdaSite.span]
      omega
    · rw [equal]
      exact Span.isWithin_refl _

/-- Every site lies in one that nests in no other one, or is such a site itself. -/
theorem IsDetected.exists_outermost
    (detected : IsDetected firstId sorted sites)
    (position : Nat)
    {site : LambdaSite}
    (found : sites[position]? = some site) :
    ∃ outer ∈ sites, outer.parent = none ∧ site.span.isWithin outer.span = true := by
  induction position using Nat.strong_induction_on generalizing site with
  | _ position inductionHypothesis =>
    have around := detected.parents found
    cases parent : site.parent with
    | none =>
        exact ⟨site, List.mem_of_getElem? found, parent, Span.isWithin_refl _⟩
    | some number =>
        rw [parent] at around
        obtain ⟨different, inner, isInner, within, _⟩ := around
        obtain ⟨outer, isOuter, outermost, innerWithin⟩ := inductionHypothesis number
          (detected.lt_of_within found isInner different within) isInner
        rw [Span.isWithin_iff] at within innerWithin
        exact ⟨outer, isOuter, outermost, Span.isWithin_iff.mpr (by omega)⟩

/-- A handler is kept in the rewritten method exactly if it lies in the body of no site and
covers no site exactly. -/
theorem movedAway_eq_false_iff
    {plan : MethodPlan}
    (detected : IsDetected firstId sorted plan.lambdaSites)
    (accepted : ∀ site ∈ plan.lambdaSites, crossesSite range site = false)
    (nonempty : range.start < range.stop) :
    plan.movedAway range = false ↔
      IsHome plan.lambdaSites range none ∧ ¬CoversSite plan.lambdaSites range := by
  have isMoved : plan.movedAway range = true ↔
      ∃ site ∈ plan.lambdaSites, range.span.isWithin site.span = true := by
    unfold MethodPlan.movedAway MethodPlan.outermost
    rw [List.any_eq_true]
    constructor
    · rintro ⟨site, member, isWithin⟩
      exact ⟨site, (List.mem_filter.mp member).1, isWithin⟩
    · rintro ⟨site, member, isWithin⟩
      obtain ⟨position, found⟩ := List.getElem?_of_mem member
      obtain ⟨outer, isOuter, outermost, siteWithin⟩ := detected.exists_outermost position found
      rw [Span.isWithin_iff] at isWithin siteWithin
      exact ⟨outer, List.mem_filter.mpr ⟨isOuter, Option.isNone_iff_eq_none.mpr outermost⟩,
        Span.isWithin_iff.mpr (by omega)⟩
  rw [← Bool.not_eq_true, isMoved, IsHome, CoversSite]
  constructor
  · intro notMoved
    refine ⟨fun site member isWithin => notMoved ⟨site, member, ?_⟩, ?_⟩
    · exact (isWithin_span_iff (detected.isTiled member) (accepted site member) nonempty).mpr
        (.inl isWithin)
    · rintro ⟨site, member, equal⟩
      exact notMoved ⟨site, member,
        (isWithin_span_iff (detected.isTiled member) (accepted site member) nonempty).mpr
          (.inr equal)⟩
  · rintro ⟨inNoBody, coversNone⟩ ⟨site, member, isWithin⟩
    rcases (isWithin_span_iff (detected.isTiled member) (accepted site member) nonempty).mp isWithin
      with inBody | equal
    · exact inNoBody site member inBody
    · exact coversNone ⟨site, member, equal⟩

/-- Two sites that share the instructions of a handler are the same, or one lies in the body of
the other. -/
theorem IsDetected.nested_of_shared
    (detected : IsDetected firstId sorted sites)
    {i j : Nat}
    {first second : LambdaSite}
    (different : i ≠ j)
    (isFirst : sites[i]? = some first)
    (isSecond : sites[j]? = some second)
    (inFirst : range.span.isWithin first.span = true)
    (inSecond : range.span.isWithin second.span = true)
    (nonempty : range.start < range.stop) :
    first.span.isWithin second.body = true ∨ second.span.isWithin first.body = true := by
  refine (detected.laminar different isFirst isSecond).resolve_left ?_
  intro disjoint
  rw [Span.isWithin_iff] at inFirst inSecond
  simp only [ExceptionRange.span] at inFirst inSecond
  exact disjoint range.start
    ⟨Span.contains_iff.mpr (by omega), Span.contains_iff.mpr (by omega)⟩

/-- A site inside another one, by its number, or one that begins with the same instruction. -/
theorem ClosureScope.mem_inner_iff
    {scope : ClosureScope}
    {other : LambdaSite} :
    other ∈ scope.inner ↔ ∃ position, scope.lambdaSites[position]? = some other ∧
      position ≠ scope.number ∧ scope.self.site.contains other.start = true := by
  unfold ClosureScope.inner
  simp only [List.mem_map, List.mem_filter, Prod.exists, List.mk_mem_zipIdx_iff_getElem?,
    Bool.and_eq_true, decide_eq_true_eq, exists_and_right, exists_eq_right]

/-- A site that shares the instructions of a handler with this one and is not inside it is
around it, and begins earlier. -/
theorem ClosureScope.isAround_of_notMem_inner
    {scope : ClosureScope}
    (detected : IsDetected firstId sorted scope.lambdaSites)
    (isSelf : scope.lambdaSites[scope.number]? = some scope.self.site)
    (inSelf : range.span.isWithin scope.self.site.span = true)
    (nonempty : range.start < range.stop)
    {position : Nat}
    {other : LambdaSite}
    (isOther : scope.lambdaSites[position]? = some other)
    (different : position ≠ scope.number)
    (inOther : range.span.isWithin other.span = true)
    (notInner : other ∉ scope.inner) :
    scope.self.site.span.isWithin other.body = true ∧
      other.start ≠ scope.self.site.start := by
  have selfNonempty := (detected.isTiled (List.mem_of_getElem? isSelf)).start_lt_stop
  have outside : scope.self.site.contains other.start = false := by
    by_contra contains
    rw [Bool.not_eq_false] at contains
    exact notInner (ClosureScope.mem_inner_iff.mpr ⟨position, isOther, different, contains⟩)
  have notBetween : ¬(scope.self.site.start ≤ other.start ∧
      other.start < scope.self.site.stop) := by
    intro between
    exact Bool.false_ne_true (outside.symm.trans (LambdaSite.contains_iff.mpr between))
  refine ⟨?_, by omega⟩
  refine (detected.nested_of_shared different isOther isSelf inOther inSelf
    nonempty).resolve_left ?_
  intro within
  have otherNonempty := (detected.isTiled (List.mem_of_getElem? isOther)).start_lt_stop
  have inside := LambdaSite.within_of_isWithin_body
    (detected.isTiled (List.mem_of_getElem? isSelf)) within
  omega

/-- Whether the class of a closure takes a handler. -/
def ClosureScope.keepsHandler (scope : ClosureScope) (range : ExceptionRange Nat) : Bool :=
  range.isWithin scope.self.site.body &&
    !scope.inner.any fun site => range.span.isWithin site.span

/-- The class of a closure takes a handler exactly if it belongs to the site, does not cover
another site exactly, and the site does not begin with a site around it. -/
theorem ClosureScope.keepsHandler_iff
    {scope : ClosureScope}
    (detected : IsDetected firstId sorted scope.lambdaSites)
    (isSelf : scope.lambdaSites[scope.number]? = some scope.self.site)
    (accepted : ∀ site ∈ scope.lambdaSites, crossesSite range site = false)
    (nonempty : range.start < range.stop) :
    scope.keepsHandler range = true ↔
      IsHome scope.lambdaSites range (some scope.number) ∧
        ¬CoversSite scope.lambdaSites range ∧
        ¬BeginsSiteAround scope.lambdaSites scope.number := by
  have selfTiled := detected.isTiled (List.mem_of_getElem? isSelf)
  have bodyStart := selfTiled.start_le_body
  have bodyStop := selfTiled.body_stop
  have callLt := selfTiled.call_lt_stop
  unfold ClosureScope.keepsHandler
  rw [Bool.and_eq_true, Bool.not_eq_true', List.any_eq_false]
  constructor
  · rintro ⟨inBody, notInner⟩
    have inSelf := (isWithin_span_iff selfTiled
      (accepted _ (List.mem_of_getElem? isSelf)) nonempty).mpr (.inl inBody)
    have bounds := ExceptionRange.isWithin_iff.mp inBody
    have isAround := fun (position : Nat) (other : LambdaSite)
        (isOther : scope.lambdaSites[position]? = some other) (different : position ≠ scope.number)
        (inOther : range.span.isWithin other.span = true) =>
      ClosureScope.isAround_of_notMem_inner detected isSelf inSelf nonempty isOther different
        inOther fun isInner => notInner other isInner inOther
    refine ⟨⟨scope.self.site, isSelf, inBody, ?_⟩, ?_, ?_⟩
    · intro other member inOtherBody
      obtain ⟨position, isOther⟩ := List.getElem?_of_mem member
      by_cases same : position = scope.number
      · rw [same, isSelf] at isOther
        rw [Option.some.inj isOther]
        exact Span.isWithin_refl _
      · have otherTiled := detected.isTiled member
        have inOther :=
          (isWithin_span_iff otherTiled (accepted other member) nonempty).mpr (.inl inOtherBody)
        have within := LambdaSite.within_of_isWithin_body otherTiled
          (isAround position other isOther same inOther).1
        exact Span.isWithin_iff.mpr ⟨within.1, Nat.le_of_lt within.2⟩
    · rintro ⟨other, member, equal⟩
      obtain ⟨position, isOther⟩ := List.getElem?_of_mem member
      have stops : range.stop = other.stop := congrArg Span.stop equal
      by_cases same : position = scope.number
      · rw [same, isSelf] at isOther
        rw [← Option.some.inj isOther] at stops
        omega
      · have inOther : range.span.isWithin other.span = true := equal ▸ Span.isWithin_refl _
        have within := LambdaSite.within_of_isWithin_body (detected.isTiled member)
          (isAround position other isOther same inOther).1
        omega
    · rintro ⟨site, outer, isSite, member, within, starts⟩
      obtain rfl : scope.self.site = site := Option.some.inj (isSelf.symm.trans isSite)
      obtain ⟨position, isOuter⟩ := List.getElem?_of_mem member
      have inOuter := LambdaSite.within_of_isWithin_body (detected.isTiled member) within
      have different : position ≠ scope.number := by
        rintro rfl
        rw [isSelf] at isOuter
        rw [Option.some.inj isOuter] at inOuter
        omega
      rw [Span.isWithin_iff] at inSelf
      have inOther : range.span.isWithin outer.span = true :=
        Span.isWithin_iff.mpr ⟨Nat.le_trans inOuter.1 inSelf.1,
          Nat.le_trans inSelf.2 (Nat.le_of_lt inOuter.2)⟩
      exact (isAround position outer isOuter different inOther).2 starts
  · rintro ⟨⟨site, isSite, inBody, innermost⟩, coversNone, notAround⟩
    obtain rfl : scope.self.site = site := Option.some.inj (isSelf.symm.trans isSite)
    refine ⟨inBody, ?_⟩
    intro other isInner inOther
    obtain ⟨position, isOther, different, contains⟩ := ClosureScope.mem_inner_iff.mp isInner
    have member := List.mem_of_getElem? isOther
    have otherTiled := detected.isTiled member
    have inSelf := (isWithin_span_iff selfTiled
      (accepted _ (List.mem_of_getElem? isSelf)) nonempty).mpr (.inl inBody)
    rcases (isWithin_span_iff otherTiled (accepted other member) nonempty).mp inOther with
      inOtherBody | covers
    · have selfWithin := Span.isWithin_iff.mp (innermost other member inOtherBody)
      simp only [LambdaSite.span] at selfWithin
      have starts := LambdaSite.contains_iff.mp contains
      rcases detected.nested_of_shared different isOther isSelf inOther inSelf nonempty with
        otherInside | selfInside
      · have within := LambdaSite.within_of_isWithin_body selfTiled otherInside
        omega
      · exact notAround ⟨_, other, isSelf, member, selfInside, by omega⟩
    · exact coversNone ⟨other, member, covers⟩

end Belonging

/-! ## Where handlers go -/

/-- Of the handlers of a method that cover something, those that belong somewhere are moved
there, in order, and all their positions go to their new places. -/
def Method.MovesHandlers (method : Method) (belongs : ExceptionRange Nat → Prop)
    (relocation : Relocation) (moved : List (ExceptionRange Nat)) : Prop :=
  ∃ keeps : ExceptionRange Nat → Bool,
    (∀ range ∈ method.handlers, range.start < range.stop → (keeps range = true ↔ belongs range)) ∧
    (method.handlers.toList.filter keeps).map relocation.handler? = moved.map some

/-- Where positions go if a body has code that replaces several pieces, one after another from
an index on. -/
def CodeBody.Replaces (body : CodeBody Nat) (pieces : List Piece) (start : Nat)
    (relocation : Relocation) : Prop :=
  ∃ prologue epilogue replacements,
    replacements.map Replacement.span = pieces.map Piece.span ∧
    relocation = .ofReplacements start prologue.length replacements ∧
    body.instructions.toList = prologue ++ relocation.code replacements ++ epilogue

/-- Every handler of a method that covers something is in the class of the closure to whose
site it belongs, or in the rewritten method if it belongs to none. Those that cover a site
exactly, and those that belong to a site which begins with a site around it, are nowhere. -/
structure KeepsHandlers (method : Method) (plan : MethodPlan) (rewritten : Method)
    (definitions : List ClassDefinition) : Prop where
  length : definitions.length = plan.sites.length
  outside : ∃ relocation, plan.relocation method = .ok relocation ∧
    method.MovesHandlers
      (fun range => IsHome plan.lambdaSites range none ∧ ¬CoversSite plan.lambdaSites range)
      relocation rewritten.handlers.toList
  inside : ∀ number site definition, plan.lambdaSites[number]? = some site →
    definitions[number]? = some definition →
    ∃ declaration body relocation,
      definition.methods.getLast? = some ⟨declaration, some body⟩ ∧
      body.Replaces (piecesOf plan.lambdaSites (some number) site.body) site.body.start relocation ∧
      method.MovesHandlers
        (fun range => IsHome plan.lambdaSites range (some number) ∧
          ¬CoversSite plan.lambdaSites range ∧ ¬BeginsSiteAround plan.lambdaSites number)
        relocation body.handlers.toList

section Moving

variable {method : Method} {range : ExceptionRange Nat}

/-- A handler can be moved if all its positions have places. -/
theorem Relocation.handler?_eq_some
    {start last next : Nat}
    {replacements : List Replacement}
    (tiles : Tiles start (replacements.map Replacement.span) last)
    (nonempty : ∀ replacement ∈ replacements, replacement.span.start < replacement.span.stop)
    (within : ∀ position ∈ range.labels, start ≤ position ∧ position ≤ last) :
    (ofReplacements start next replacements).handler? range =
      some (range.map (ofReplacements start next replacements).place) := by
  have hasPlace : ∀ position ∈ range.labels,
      (ofReplacements start next replacements).place? position =
        some ((ofReplacements start next replacements).place position) := by
    intro position isPosition
    obtain ⟨fromStart, upToLast⟩ := within position isPosition
    obtain ⟨place, isPlace⟩ :=
      exists_place?_ofReplacements next tiles nonempty fromStart upToLast
    unfold Relocation.place
    rw [isPlace]
    rfl
  unfold handler? ExceptionRange.map
  rw [hasPlace range.start (by simp [ExceptionRange.labels]),
    hasPlace range.stop (by simp [ExceptionRange.labels]),
    hasPlace range.handler (by simp [ExceptionRange.labels])]
  rfl

/-- What is kept of a list and moved one by one is what is kept, moved. -/
theorem map_filter_eq_map_some
    {α β : Type}
    {keeps : α → Bool}
    {move : α → Option β}
    {values : List α}
    (moves : ∀ value ∈ values, keeps value = true → ∃ moved, move value = some moved) :
    (values.filter keeps).map move =
      (values.filterMap fun value => if keeps value then move value else none).map some := by
  induction values with
  | nil => rfl
  | cons value rest inductionHypothesis =>
      have restEq := inductionHypothesis fun other member =>
        moves other (List.mem_cons_of_mem _ member)
      cases kept : keeps value with
      | false => simp [kept, restEq]
      | true =>
          obtain ⟨moved, isMoved⟩ := moves value List.mem_cons_self kept
          simp [kept, isMoved, restEq]

/-- The rewritten method keeps the handlers that did not move away. -/
theorem exists_handlers_of_rewrite_eq_ok
    {plan : MethodPlan}
    {place : Place}
    {rewritten : Method}
    (rewriting : method.rewrite plan place = .ok rewritten) :
    ∃ replacements relocation, plan.replacements method = .ok replacements ∧
      plan.relocation method = .ok relocation ∧
      relocation = .ofReplacements 0 (plan.boxes.flatMap MethodPlan.makeBox).length replacements ∧
      rewritten.handlers.toList =
        (method.handlers.toList.filter fun range => !plan.movedAway range).map fun range =>
          range.map relocation.place := by
  unfold Method.rewrite at rewriting
  obtain ⟨replacements, isReplaced, rewriting⟩ := bind_eq_ok.mp rewriting
  have replaced := mapError_eq_ok.mp isReplaced
  dsimp only at rewriting
  split at rewriting
  · cases rewriting
  · cases rewriting
    exact ⟨replacements, _, replaced, bind_eq_ok.mpr ⟨replacements, replaced, rfl⟩, rfl, by simp⟩

variable {hierarchy : Hierarchy} {firstId : Nat} {sorted : List LambdaSite} {plan : MethodPlan}

/-- The handlers outside all sites go to the rewritten method. -/
theorem movesHandlers_of_rewrite_eq_ok
    {place : Place}
    {rewritten : Method}
    (inside : method.TargetsInside)
    (detected : IsDetected firstId sorted plan.lambdaSites)
    (accepted : ∀ range ∈ method.handlers, ∀ site ∈ plan.lambdaSites,
      crossesSite range site = false)
    (rewriting : method.rewrite plan place = .ok rewritten) :
    ∃ relocation, plan.relocation method = .ok relocation ∧
      method.MovesHandlers
        (fun range => IsHome plan.lambdaSites range none ∧ ¬CoversSite plan.lambdaSites range)
        relocation rewritten.handlers.toList := by
  obtain ⟨replacements, relocation, replaced, isRelocation, rfl, handlers⟩ :=
    exists_handlers_of_rewrite_eq_ok rewriting
  obtain ⟨_, nonempty, last, reaches, tiles⟩ := tiles_of_forall₂
    ((forall₂_of_replacements_eq_ok replaced).imp fun _ _ isFor => isFor.1)
  refine ⟨_, isRelocation, fun range => !plan.movedAway range, ?_, ?_⟩
  · intro range member covers
    rw [Bool.not_eq_true']
    exact movedAway_eq_false_iff detected (accepted range member) covers
  · rw [handlers, List.map_map]
    refine List.map_congr_left fun range kept => ?_
    have bounds := inside.handlers range (List.mem_filter.mp kept).1
    refine Relocation.handler?_eq_some tiles nonempty fun position isPosition => ?_
    simp only [ExceptionRange.labels, List.mem_cons, List.not_mem_nil, or_false] at isPosition
    dsimp only at reaches
    omega

/-- The handlers that belong to a site go to the class of its closure. -/
theorem movesHandlers_of_closureClass_eq_ok
    {version : Version}
    {place : Place}
    {number : Nat}
    {self : SitePlan}
    {before after : BridgeTable}
    {definition : ClassDefinition}
    (inside : method.TargetsInside)
    (detected : IsDetected firstId sorted plan.lambdaSites)
    (accepted : ∀ range ∈ method.handlers, ∀ site ∈ plan.lambdaSites,
      crossesSite range site = false)
    (isSelf : plan.lambdaSites[number]? = some self.site)
    (made : closureClass method plan.sites number self hierarchy version place before =
      .ok (definition, after)) :
    ∃ declaration body relocation,
      definition.methods.getLast? = some ⟨declaration, some body⟩ ∧
      body.Replaces (piecesOf plan.lambdaSites (some number) self.site.body) self.site.body.start
        relocation ∧
      method.MovesHandlers
        (fun range => IsHome plan.lambdaSites range (some number) ∧
          ¬CoversSite plan.lambdaSites range ∧ ¬BeginsSiteAround plan.lambdaSites number)
        relocation body.handlers.toList := by
  obtain ⟨super, defaults, implemented, between, isClass⟩ := closureClass_eq_ok made
  obtain ⟨fields, body, prologue, adapted, replacements, _, isMethod, isImplementation⟩ :=
    implementation_eq_ok isClass.implementedMade
  obtain ⟨spans, nonempty, last, reaches, tiles⟩ := tiles_of_forall₂
    ((forall₂_of_translate_eq_ok isImplementation.translated).imp fun _ _ isFor => isFor.1)
  refine ⟨declares MethodFlags.accPublic self.method.name self.method.type, body, _, ?_,
    ⟨prologue, adapted ++ [.op (.leave (self.method.type.result.map LocalKind.ofType))],
      replacements, spans, rfl, ?_⟩,
    (ClosureScope.ofSite method plan.sites number self place).keepsHandler, ?_, ?_⟩
  · rw [isClass.methods, isMethod]
    exact List.getLast?_concat
  · rw [isImplementation.instructions, List.append_assoc _ adapted]
    rfl
  · intro range member covers
    exact ClosureScope.keepsHandler_iff detected isSelf (accepted range member) covers
  · rw [isImplementation.handlers]
    refine map_filter_eq_map_some fun range member kept => ?_
    refine ⟨_, Relocation.handler?_eq_some tiles nonempty fun position isPosition => ?_⟩
    have isOrdered := (inside.handlers range member).1
    have within : (self.site.body.start ≤ range.start ∧ range.stop ≤ self.site.body.stop) ∧
        self.site.body.start ≤ range.handler ∧ range.handler < self.site.body.stop :=
      ExceptionRange.isWithin_iff.mp (Bool.and_eq_true_iff.mp kept).1
    have upToLast : self.site.body.stop ≤ last := reaches
    simp only [ExceptionRange.labels, List.mem_cons, List.not_mem_nil, or_false] at isPosition
    change self.site.body.start ≤ position ∧ position ≤ last
    omega

/-- For every method, every convention and every hierarchy: if a planned method is rewritten and
the classes of its closures are made, every exception handler that covers something is in the
class of the closure to whose site it belongs, or in the rewritten method, but for those that
cover a site exactly or belong to a site that begins with a site around it. -/
theorem keepsHandlers_of_planMethod_eq_ok
    {Memory : Type}
    {convention : Convention Memory}
    {calls : List Nat}
    {settings : Settings}
    {place rewritingPlace classPlace : Place}
    {before after : Memory}
    {rewritten : Method}
    {version : Version}
    {made result : ClosureClasses}
    (planned : planMethod method calls firstId settings hierarchy convention place before =
      .ok plan after)
    (rewriting : method.rewrite plan rewritingPlace = .ok rewritten)
    (added : made.addMethod method plan version classPlace = .ok result) :
    ∃ definitions, result.classes = made.classes ++ definitions ∧
      KeepsHandlers method plan rewritten definitions := by
  obtain ⟨analysis, between, analyzed, sitesDetected⟩ :=
    exists_detectSites_of_planMethod_eq_ok planned
  obtain ⟨sorted, detected⟩ := detectSites_isDetected sitesDetected
  obtain ⟨_, inside, _⟩ := Method.exists_run_of_analyze_eq_ok analyzed
  have accepted : ∀ range ∈ method.handlers, ∀ site ∈ plan.lambdaSites,
      crossesSite range site = false :=
    fun range member site isSite => crossesSite_of_detectSites sitesDetected member isSite
  obtain ⟨definitions, classes, each⟩ := addMethod_eq_ok added
  refine ⟨definitions, classes, ?_, ?_, ?_⟩
  · rw [← each.length_eq, List.length_zipIdx]
  · exact movesHandlers_of_rewrite_eq_ok inside detected accepted rewriting
  · intro number site definition isSite isDefinition
    unfold MethodPlan.lambdaSites at isSite
    rw [List.getElem?_map, Option.map_eq_some_iff] at isSite
    obtain ⟨sitePlan, isPlan, rfl⟩ := isSite
    have isEntry : plan.sites.zipIdx[number]? = some (sitePlan, number) := by
      rw [List.getElem?_zipIdx, isPlan]
      simp
    obtain ⟨_, _, _, isMade⟩ := related_of_getElem? each isEntry isDefinition
    refine movesHandlers_of_closureClass_eq_ok inside detected accepted ?_ isMade
    rw [MethodPlan.lambdaSites, List.getElem?_map, isPlan]
    rfl

end Moving

/-! ## Handlers in a closure and around one -/

namespace GuardedClosures

/-- The type of the closures. -/
def supplier : BinaryName := ⟨"guard/Supplier", by decide⟩

/-- The method that the closures implement. -/
def outcome : AbstractMethod := ⟨supplier, ⟨"outcome", by decide⟩, ⟨[], some (.base .int)⟩, true⟩

/-- The classes of the platform, and the type of the closures. -/
def hierarchy : Hierarchy where
  declared := [CoreClass.functional supplier outcome.name outcome.type.parameters
    outcome.type.result]
  loaded := []

/-- A factory that takes the code of a closure. -/
def factory : MethodRef where
  owner := .object ⟨"guard/Factories", by decide⟩
  name := ⟨"defer", by decide⟩
  type := ⟨[.base .int], some (.ref (.object supplier))⟩
  ofInterface := false

/-- The test that turns an exception into a number. -/
def isError : Instruction Nat :=
  .instanceOf (.object .error)

/-- The code that makes a closure, with code for exceptions in its body. -/
def make : List (Instruction Nat) :=
  [.pushInt 1, .goto 3, isError, .invoke .static factory]

/-- The code that returns the closure, or nothing after an exception. -/
def leave : List (Instruction Nat) :=
  [.op (.leave (some .reference)), .op (.stack .pop), .op .pushNull,
    .op (.leave (some .reference))]

/-- The code that makes a closure of the value of a closure. -/
def again : List (Instruction Nat) :=
  [.invoke .interface ⟨.object supplier, outcome.name, outcome.type, true⟩,
    .invoke .static factory]

/-- A method that makes a closure, and perhaps one around it. -/
def method (around : List (Instruction Nat)) (handlers : List (ExceptionRange Nat)) : Method where
  instructions := (make ++ around ++ leave).toArray
  handlers := handlers.toArray
  owner := ⟨"guard/Demo", by decide⟩
  flags := MethodFlags.accStatic
  name := ⟨"guarded", by decide⟩
  type := ⟨[], some (.ref (.object supplier))⟩
  hasVariableTable := false
  maxLocals := 0

/-- A handler in the body of the closure. -/
def inBody : ExceptionRange Nat := ⟨0, 1, 2, none⟩

/-- A handler after the closure, for all instructions up to one. -/
def upTo (stop : Nat) : ExceptionRange Nat := ⟨0, stop, 5, none⟩

/-- The convention that takes every method for a factory and no field for a parameter. -/
def convention : Convention Unit := ⟨fun _ _ _ _ => pure true, fun _ _ _ => pure false⟩

/-- The frames up to the closure. -/
def framesOfMake : List (Option Frame) :=
  [some ⟨[], []⟩, some ⟨[], [.int]⟩, some ⟨[], [.object (.object .throwable)]⟩,
    some ⟨[], [.int]⟩, some ⟨[], [.object (.object supplier)]⟩]

/-- The frames of a method. -/
def framesWith (later : List (Option Frame)) : FlowAnalysis where
  frames := (framesOfMake ++ later).toArray
  maxStack := 1
  maxLocals := 0

/-- The frames of the method that makes one closure. -/
def frames : FlowAnalysis :=
  framesWith [some ⟨[], [.object (.object .throwable)]⟩, some ⟨[], []⟩, some ⟨[], [.null]⟩]

/-- The frames of the method that makes a closure of the value of another one. -/
def nestedFrames : FlowAnalysis :=
  framesWith [some ⟨[], [.int]⟩, some ⟨[], [.object (.object supplier)]⟩, none, none, none]

/-- The site of a closure whose call of the factory has an index. -/
def site (id call : Nat) (parent : Option Nat) : LambdaSite where
  id := id
  line := none
  factory := factory
  target := supplier
  parameters := []
  body := ⟨0, call⟩
  call := call
  stop := call + 1
  parent := parent

/-- The plan of the method that makes one closure. -/
def plan : MethodPlan where
  sites := [⟨site 0 3 none, {}, outcome, ⟨"guard/Demo$Supplier$L0$0", by decide⟩⟩]
  boxes := []

/-- The plan of the method that makes a closure of the value of another one. -/
def nestedPlan : MethodPlan where
  sites := [⟨site 0 5 none, {}, outcome, ⟨"guard/Demo$Supplier$L0$0", by decide⟩⟩,
    ⟨site 1 3 (some 0), {}, outcome, ⟨"guard/Demo$Supplier$L0$1", by decide⟩⟩]
  boxes := []

/-- No classes of closures yet. -/
def nothingMade : ClosureClasses where
  hierarchy := hierarchy
  bridges := ⟨⟨"guard/Demo", by decide⟩, [], [], [], 0, []⟩
  classes := []

theorem abstractMethod_eq
    (id call : Nat)
    (parent : Option Nat) :
    (site id call parent).abstractMethod hierarchy = .ok outcome := by
  have found : hierarchy.resolve supplier =
      .ok (CoreClass.functional supplier outcome.name outcome.type.parameters outcome.type.result) := by
    decide +kernel
  have isSole : hierarchy.soleCandidate supplier 0
      (CoreClass.functional supplier outcome.name outcome.type.parameters outcome.type.result) =
        .ok (some outcome) := by
    decide +kernel
  exact LambdaSite.abstractMethod_eq_ok found isSole

theorem planMethod_eq
    (stop : Nat)
    (analyzed : (method [] [inBody, upTo stop]).analyze hierarchy = .ok frames)
    (detected : detectSites (method [] [inBody, upTo stop]) frames [3] 0 hierarchy convention
      .unknown () = .ok [site 0 3 none] ()) :
    planMethod (method [] [inBody, upTo stop]) [3] 0 .standard hierarchy convention .unknown () =
      .ok plan () := by
  have resolved : abstractMethods [site 0 3 none] hierarchy .unknown = .ok [outcome] := by
    unfold abstractMethods
    rw [List.mapM_cons, abstractMethod_eq]
    rfl
  have named : classNames [site 0 3 none] .standard ⟨"guard/Demo", by decide⟩ =
      .ok [⟨"guard/Demo$Supplier$L0$0", by decide⟩] := by
    decide +kernel
  exact planMethod_eq_ok.mpr ⟨frames, _, ⟨[{}], []⟩, [outcome], _, (), analyzed, detected,
    by with_unfolding_all rfl, resolved, named, rfl⟩

/-- The exception handlers of the methods of a class. -/
def handlersOf (definition : ClassDefinition) : List (ExceptionRange Nat) :=
  definition.methods.flatMap fun method =>
    (method.body.map fun body => body.handlers.toList).getD []

end GuardedClosures

open GuardedClosures in
/-- A handler in the body of the closure and one that covers more than the closure are kept. -/
theorem guardedClosure_keepsHandlers :
    planMethod (method [] [inBody, upTo 5]) [3] 0 .standard hierarchy convention .unknown () =
        .ok plan () ∧
      ∃ rewritten result definitions,
        (method [] [inBody, upTo 5]).rewrite plan .unknown = .ok rewritten ∧
        nothingMade.addMethod (method [] [inBody, upTo 5]) plan .java8 .unknown = .ok result ∧
        result.classes = nothingMade.classes ++ definitions ∧
        KeepsHandlers (method [] [inBody, upTo 5]) plan rewritten definitions ∧
        rewritten.handlers = #[⟨0, 4, 4, none⟩] ∧ definitions.map handlersOf = [[inBody]] := by
  have planned := planMethod_eq 5 (by decide +kernel) (by with_unfolding_all rfl)
  obtain ⟨rewritten, rewriting, kept⟩ : ∃ rewritten,
      (method [] [inBody, upTo 5]).rewrite plan .unknown = .ok rewritten ∧
        rewritten.handlers = #[⟨0, 4, 4, none⟩] :=
    ⟨_, by with_unfolding_all rfl, by with_unfolding_all rfl⟩
  obtain ⟨result, added, taken⟩ : ∃ result,
      nothingMade.addMethod (method [] [inBody, upTo 5]) plan .java8 .unknown = .ok result ∧
        result.classes.map handlersOf = [[inBody]] :=
    ⟨_, by with_unfolding_all rfl, by with_unfolding_all rfl⟩
  obtain ⟨definitions, classes, keeps⟩ := keepsHandlers_of_planMethod_eq_ok planned rewriting added
  rw [classes] at taken
  exact ⟨planned, rewritten, result, definitions, rewriting, added, classes, keeps, kept, taken⟩

open GuardedClosures in
/-- A handler that covers exactly the closure is in neither method. The handler in the body is
in neither either if there is a closure around the closure that begins where it begins. -/
theorem guardedClosure_losesHandlers :
    (planMethod (method [] [inBody, upTo 4]) [3] 0 .standard hierarchy convention .unknown () =
        .ok plan () ∧
      ∃ rewritten result,
        (method [] [inBody, upTo 4]).rewrite plan .unknown = .ok rewritten ∧
        nothingMade.addMethod (method [] [inBody, upTo 4]) plan .java8 .unknown = .ok result ∧
        rewritten.handlers = #[] ∧ result.classes.map handlersOf = [[inBody]]) ∧
      planMethod (method again [inBody]) [3, 5] 0 .standard hierarchy convention .unknown () =
        .ok nestedPlan () ∧
      ∃ rewritten result,
        (method again [inBody]).rewrite nestedPlan .unknown = .ok rewritten ∧
        nothingMade.addMethod (method again [inBody]) nestedPlan .java8 .unknown = .ok result ∧
        rewritten.handlers = #[] ∧ result.classes.map handlersOf = [[], []] := by
  have planned := planMethod_eq 4 (by decide +kernel) (by with_unfolding_all rfl)
  have resolved : abstractMethods [site 0 5 none, site 1 3 (some 0)] hierarchy .unknown =
      .ok [outcome, outcome] := by
    unfold abstractMethods
    rw [List.mapM_cons, List.mapM_cons, abstractMethod_eq, abstractMethod_eq]
    rfl
  have named : classNames [site 0 5 none, site 1 3 (some 0)] .standard
      ⟨"guard/Demo", by decide⟩ =
        .ok [⟨"guard/Demo$Supplier$L0$0", by decide⟩, ⟨"guard/Demo$Supplier$L0$1", by decide⟩] := by
    decide +kernel
  have detected : detectSites (method again [inBody]) nestedFrames [3, 5] 0 hierarchy convention
      .unknown () = .ok [site 0 5 none, site 1 3 (some 0)] () := by
    cbv
  have nestedPlanned :
      planMethod (method again [inBody]) [3, 5] 0 .standard hierarchy convention .unknown () =
        .ok nestedPlan () :=
    planMethod_eq_ok.mpr ⟨nestedFrames, _, ⟨[{}, {}], []⟩, [outcome, outcome], _, (),
      by decide +kernel, detected, by with_unfolding_all rfl, resolved, named, rfl⟩
  refine ⟨⟨planned, _, _, by with_unfolding_all rfl, by with_unfolding_all rfl,
    by with_unfolding_all rfl, by with_unfolding_all rfl⟩, nestedPlanned, _, _,
    by with_unfolding_all rfl, by with_unfolding_all rfl, by with_unfolding_all rfl,
    by with_unfolding_all rfl⟩

end ClosureConversion
