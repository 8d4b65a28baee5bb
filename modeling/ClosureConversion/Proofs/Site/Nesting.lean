import Mathlib.Data.List.Permutation
import Mathlib.Data.List.TakeWhile
import ClosureConversion.Proofs.Site.Arguments

/-!
Contract: how the sites of a method stand to each other.

Owns:
- one pass over sites in the order of their starts, which finds the parent of each among
  the sites that are still open;
- what follows for all pairs of sites: they are apart, or one lies in the body of the
  other;
- the order, the numbers and the parents of the sites that detection gives.

Does not own: the parts of a single site.
-/

namespace ClosureConversion

/-- No index is in both spans. -/
def Span.Disjoint (first second : Span) : Prop :=
  ∀ index, ¬(first.contains index = true ∧ second.contains index = true)

theorem Span.contains_iff
    {span : Span}
    {index : Nat} :
    span.contains index = true ↔ span.start ≤ index ∧ index < span.stop := by
  simp [Span.contains]

/-- Whether one span lies in another one, as inequalities. -/
theorem Span.isWithin_iff
    {inner outer : Span} :
    inner.isWithin outer = true ↔ outer.start ≤ inner.start ∧ inner.stop ≤ outer.stop := by
  simp [Span.isWithin]

theorem Span.disjoint_of_le
    {first second : Span}
    (apart : first.stop ≤ second.start) :
    first.Disjoint second := by
  intro index both
  simp only [Span.contains, Bool.and_eq_true, decide_eq_true_eq] at both
  omega

theorem Span.Disjoint.symm
    {first second : Span}
    (disjoint : first.Disjoint second) :
    second.Disjoint first :=
  fun index both => disjoint index ⟨both.2, both.1⟩

namespace LambdaSite

/-- A site that starts no later than another one is over when that one starts, or has it
in its body. -/
def Precedes (earlier later : LambdaSite) : Prop :=
  earlier.stop ≤ later.start ∨ later.span.isWithin earlier.body = true

/-- A site in the body of a site in the body of a third one is in the body of that one. -/
theorem isWithin_body_trans
    {inner middle outer : LambdaSite}
    (tiled : middle.IsTiled)
    (innerWithin : inner.span.isWithin middle.body = true)
    (middleWithin : middle.span.isWithin outer.body = true) :
    inner.span.isWithin outer.body = true := by
  have bodyStart : middle.start ≤ middle.body.start := tiled.start_le_body
  have bodyStop : middle.body.stop = middle.call := tiled.body_stop
  have callLt : middle.call < middle.stop := tiled.call_lt_stop
  rw [Span.isWithin_iff] at innerWithin middleWithin ⊢
  simp only [span] at innerWithin middleWithin ⊢
  omega

/-- A site in the body of another one lies in that site, and ends before it does. -/
theorem within_of_isWithin_body
    {inner outer : LambdaSite}
    (tiled : outer.IsTiled)
    (within : inner.span.isWithin outer.body = true) :
    outer.start ≤ inner.start ∧ inner.stop < outer.stop := by
  have bodyStart : outer.start ≤ outer.body.start := tiled.start_le_body
  have bodyStop : outer.body.stop = outer.call := tiled.body_stop
  have callLt : outer.call < outer.stop := tiled.call_lt_stop
  rw [Span.isWithin_iff] at within
  simp only [span] at within
  omega

/-- No site contains one that it precedes in no other way than by having it in its body. -/
theorem Precedes.not_within
    {earlier later : LambdaSite}
    (precedes : earlier.Precedes later)
    (tiled : earlier.IsTiled) :
    ¬earlier.span.isWithin later.span = true := by
  intro within
  rw [Span.isWithin_iff] at within
  simp only [span] at within
  have startLt : earlier.start < earlier.stop := tiled.start_lt_stop
  rcases precedes with apart | inside
  · omega
  · have bounds := within_of_isWithin_body tiled inside
    omega

end LambdaSite

/-! ## One pass over the sites -/

/-- What is known of the sites that were passed: `opened` are those that the next site may
lie in, innermost first, with their positions. Every other one is over at `frontier`. -/
structure OpenSites (passed : List LambdaSite) (opened : List (LambdaSite × Nat))
    (frontier : Nat) : Prop where
  positions : ∀ entry ∈ opened, passed[entry.2]? = some entry.1
  nested : opened.Pairwise fun inner outer => inner.1.span.isWithin outer.1.body = true
  closed : ∀ position site, passed[position]? = some site →
    (site, position) ∈ opened ∨ site.stop ≤ frontier

/-- The parent of a site is the innermost of the sites passed before it that contain it:
the others are over when it starts, or contain the parent. -/
def IsParentAmong (passed : List LambdaSite) (site : LambdaSite) : Option Nat → Prop
  | none => ∀ other ∈ passed, other.stop ≤ site.start
  | some position =>
      ∃ parent, passed[position]? = some parent ∧
        site.span.isWithin parent.body = true ∧
        ∀ other ∈ passed, other.stop ≤ site.start ∨ parent.span.isWithin other.span = true

/-- The open sites without those that are over at an index. -/
def stillOpen (opened : List (LambdaSite × Nat)) (index : Nat) : List (LambdaSite × Nat) :=
  opened.dropWhile fun (outer, _) => outer.stop ≤ index

section Pass

variable {passed : List LambdaSite} {opened : List (LambdaSite × Nat)} {frontier : Nat}
  {site : LambdaSite}

theorem mem_of_mem_stillOpen
    {entry : LambdaSite × Nat}
    {index : Nat}
    (member : entry ∈ stillOpen opened index) :
    entry ∈ opened :=
  (List.dropWhile_suffix _).subset member

theorem stop_le_or_mem_stillOpen
    {entry : LambdaSite × Nat}
    (member : entry ∈ opened)
    (index : Nat) :
    entry.1.stop ≤ index ∨ entry ∈ stillOpen opened index := by
  rw [← List.takeWhile_append_dropWhile (p := fun (entry : LambdaSite × Nat) =>
    decide (entry.1.stop ≤ index)) (l := opened), List.mem_append] at member
  rcases member with ended | remaining
  · exact Or.inl (by simpa using List.mem_takeWhile_imp ended)
  · exact Or.inr remaining

theorem OpenSites.nil : OpenSites [] [] 0 where
  positions := by simp
  nested := .nil
  closed := by simp

/-- A site without a fault lies in the body of the innermost site that is still open, and
so in the bodies of all of them. -/
theorem OpenSites.within_body
    (invariant : OpenSites passed opened frontier)
    (tiled : ∀ other ∈ passed, other.IsTiled)
    (faultless : ∀ entry ∈ (stillOpen opened site.start).head?,
      nestingFault? entry.1 site = none) :
    ∀ entry ∈ stillOpen opened site.start, site.span.isWithin entry.1.body = true := by
  have nested : (stillOpen opened site.start).Pairwise fun inner outer =>
      inner.1.span.isWithin outer.1.body = true :=
    invariant.nested.sublist (List.dropWhile_sublist _)
  have positions : ∀ entry ∈ stillOpen opened site.start, passed[entry.2]? = some entry.1 :=
    fun entry member => invariant.positions entry (mem_of_mem_stillOpen member)
  cases remaining : stillOpen opened site.start with
  | nil => simp
  | cons innermost others =>
      rw [remaining] at nested positions faultless
      have innermostWithin : site.span.isWithin innermost.1.body = true := by
        have fault := faultless innermost rfl
        unfold nestingFault? at fault
        split at fault
        · cases fault
        · split at fault
          · cases fault
          · rename_i inBody
            rw [Span.isWithin_iff]
            simp only [Bool.or_eq_true, decide_eq_true_eq] at inBody
            simp only [LambdaSite.span]
            omega
      intro entry member
      rcases List.mem_cons.mp member with isInnermost | isOther
      · rw [isInnermost]
        exact innermostWithin
      · have innermostTiled : innermost.1.IsTiled :=
          tiled _ (List.mem_of_getElem? (positions innermost (by simp)))
        exact LambdaSite.isWithin_body_trans innermostTiled innermostWithin
          ((List.pairwise_cons.mp nested).1 entry isOther)

/-- Every site that was passed is over when the next one starts, or still open. -/
theorem OpenSites.stop_le_or_mem
    (invariant : OpenSites passed opened frontier)
    (later : frontier ≤ site.start)
    {position : Nat}
    {other : LambdaSite}
    (found : passed[position]? = some other) :
    other.stop ≤ site.start ∨ (other, position) ∈ stillOpen opened site.start := by
  rcases invariant.closed position other found with isOpen | closed
  · exact stop_le_or_mem_stillOpen isOpen site.start
  · exact Or.inl (Nat.le_trans closed later)

theorem OpenSites.precedes
    (invariant : OpenSites passed opened frontier)
    (tiled : ∀ other ∈ passed, other.IsTiled)
    (later : frontier ≤ site.start)
    (faultless : ∀ entry ∈ (stillOpen opened site.start).head?,
      nestingFault? entry.1 site = none) :
    ∀ other ∈ passed, other.Precedes site := by
  intro other member
  obtain ⟨position, found⟩ := List.getElem?_of_mem member
  rcases invariant.stop_le_or_mem later found with ended | isOpen
  · exact Or.inl ended
  · exact Or.inr (invariant.within_body tiled faultless (other, position) isOpen)

/-- The innermost site that is still open is the parent of the next site. -/
theorem OpenSites.isParentAmong
    (invariant : OpenSites passed opened frontier)
    (tiled : ∀ other ∈ passed, other.IsTiled)
    (later : frontier ≤ site.start)
    (faultless : ∀ entry ∈ (stillOpen opened site.start).head?,
      nestingFault? entry.1 site = none) :
    IsParentAmong passed site ((stillOpen opened site.start).head?.map Prod.snd) := by
  have withinBody := invariant.within_body tiled faultless
  have isOver : ∀ other ∈ passed, other.stop ≤ site.start ∨
      ∃ position, (other, position) ∈ stillOpen opened site.start := by
    intro other member
    obtain ⟨position, found⟩ := List.getElem?_of_mem member
    rcases invariant.stop_le_or_mem later found with ended | isOpen
    · exact Or.inl ended
    · exact Or.inr ⟨position, isOpen⟩
  have nested : (stillOpen opened site.start).Pairwise fun inner outer =>
      inner.1.span.isWithin outer.1.body = true :=
    invariant.nested.sublist (List.dropWhile_sublist _)
  have positions : ∀ entry ∈ stillOpen opened site.start, passed[entry.2]? = some entry.1 :=
    fun entry member => invariant.positions entry (mem_of_mem_stillOpen member)
  cases remaining : stillOpen opened site.start with
  | nil =>
      rw [remaining] at isOver
      intro other member
      rcases isOver other member with ended | ⟨position, isOpen⟩
      · exact ended
      · cases isOpen
  | cons innermost others =>
      rw [remaining] at isOver nested positions withinBody
      refine ⟨innermost.1, positions innermost (by simp), withinBody innermost (by simp), ?_⟩
      intro other member
      rcases isOver other member with ended | ⟨position, isOpen⟩
      · exact Or.inl ended
      · refine Or.inr ?_
        rcases List.mem_cons.mp isOpen with isInnermost | isOther
        · rw [← isInnermost, Span.isWithin_iff]
          exact ⟨Nat.le_refl _, Nat.le_refl _⟩
        · have inBody := (List.pairwise_cons.mp nested).1 _ isOther
          have bounds := LambdaSite.within_of_isWithin_body (tiled other member) inBody
          rw [Span.isWithin_iff]
          exact ⟨bounds.1, Nat.le_of_lt bounds.2⟩

/-- Passing one more site keeps the invariant. -/
theorem OpenSites.step
    (invariant : OpenSites passed opened frontier)
    (tiled : ∀ other ∈ passed, other.IsTiled)
    (later : frontier ≤ site.start)
    (faultless : ∀ entry ∈ (stillOpen opened site.start).head?,
      nestingFault? entry.1 site = none) :
    OpenSites (passed ++ [site]) ((site, passed.length) :: stillOpen opened site.start)
      site.start where
  positions := by
    intro entry member
    rcases List.mem_cons.mp member with isSite | isOpen
    · rw [isSite]
      exact List.getElem?_concat_length
    · have found := invariant.positions entry (mem_of_mem_stillOpen isOpen)
      have below : entry.2 < passed.length := (List.getElem?_eq_some_iff.mp found).1
      rw [List.getElem?_append_left below]
      exact found
  nested := by
    rw [List.pairwise_cons]
    exact ⟨invariant.within_body tiled faultless,
      invariant.nested.sublist (List.dropWhile_sublist _)⟩
  closed := by
    intro position other found
    by_cases below : position < passed.length
    · rw [List.getElem?_append_left below] at found
      rcases invariant.stop_le_or_mem later found with ended | isOpen
      · exact Or.inr ended
      · exact Or.inl (List.mem_cons_of_mem _ isOpen)
    · have isLast : position = passed.length := by
        have bound := (List.getElem?_eq_some_iff.mp found).1
        rw [List.length_append, List.length_singleton] at bound
        omega
      rw [isLast, List.getElem?_concat_length] at found
      have equal : site = other := Option.some.inj found
      exact Or.inl (by simp [isLast, equal])

end Pass

/-- What the pass does with the next site. -/
theorem linkFrom_cons_eq_ok
    {place : Place}
    {number : Nat}
    {opened : List (LambdaSite × Nat)}
    {site : LambdaSite}
    {sites linked : List LambdaSite}
    (computed : linkFrom place number opened (site :: sites) = .ok linked) :
    (∀ entry ∈ (stillOpen opened site.start).head?, nestingFault? entry.1 site = none) ∧
      ∃ others,
        linkFrom place (number + 1) ((site, number) :: stillOpen opened site.start) sites =
          .ok others ∧
        linked = { site with parent := (stillOpen opened site.start).head?.map Prod.snd } ::
          others := by
  unfold linkFrom at computed
  dsimp only at computed
  split at computed
  · rename_i remaining
    have noneOpen : stillOpen opened site.start = [] := remaining
    obtain ⟨parent, parentEq, computed⟩ := bind_eq_ok.mp computed
    obtain ⟨others, othersLinked, computed⟩ := bind_eq_ok.mp computed
    cases parentEq
    cases computed
    rw [remaining] at othersLinked
    rw [noneOpen]
    exact ⟨by simp, others, othersLinked, rfl⟩
  · rename_i outer outerNumber rest remaining
    have isOpen : stillOpen opened site.start = (outer, outerNumber) :: rest := remaining
    split at computed
    · cases computed
    · rename_i faultless
      obtain ⟨parent, parentEq, computed⟩ := bind_eq_ok.mp computed
      obtain ⟨others, othersLinked, computed⟩ := bind_eq_ok.mp computed
      cases parentEq
      cases computed
      rw [remaining] at othersLinked
      rw [isOpen]
      exact ⟨by simpa using faultless, others, othersLinked, rfl⟩

/-- What the pass says of one site: only its parent is changed. -/
structure IsLinked (passed : List LambdaSite) (site linked : LambdaSite) : Prop where
  unchanged : linked = { site with parent := linked.parent }
  parent : IsParentAmong passed site linked.parent

/-- The pass over the sites from a position on. -/
theorem linkFrom_eq_ok
    {place : Place}
    {passed sites linked : List LambdaSite}
    {opened : List (LambdaSite × Nat)}
    {frontier : Nat}
    (invariant : OpenSites passed opened frontier)
    (tiled : ∀ site ∈ passed ++ sites, site.IsTiled)
    (later : ∀ site ∈ sites, frontier ≤ site.start)
    (sorted : sites.Pairwise fun first second => first.start ≤ second.start)
    (computed : linkFrom place passed.length opened sites = .ok linked) :
    (passed.Pairwise LambdaSite.Precedes → (passed ++ sites).Pairwise LambdaSite.Precedes) ∧
      linked.length = sites.length ∧
      ∀ position site result, sites[position]? = some site → linked[position]? = some result →
        IsLinked (passed ++ sites.take position) site result := by
  induction sites generalizing passed opened frontier linked with
  | nil =>
      cases computed
      exact ⟨by simp, rfl, by simp⟩
  | cons site sites inductionHypothesis =>
      have passedTiled : ∀ other ∈ passed, other.IsTiled :=
        fun other member => tiled other (by simp [member])
      have siteLater : frontier ≤ site.start := later site (by simp)
      obtain ⟨siteFirst, sitesSorted⟩ := List.pairwise_cons.mp sorted
      obtain ⟨faultless, others, othersLinked, rfl⟩ := linkFrom_cons_eq_ok computed
      have nextInvariant := invariant.step passedTiled siteLater faultless
      have lengthEq : passed.length + 1 = (passed ++ [site]).length := by simp
      rw [lengthEq] at othersLinked
      obtain ⟨pairwise, length, linkedAt⟩ := inductionHypothesis nextInvariant
        (by simpa using tiled) siteFirst sitesSorted othersLinked
      refine ⟨?_, by simp [length], ?_⟩
      · intro passedPairwise
        have extended : (passed ++ [site]).Pairwise LambdaSite.Precedes := by
          rw [List.pairwise_append]
          refine ⟨passedPairwise, List.pairwise_singleton _ _, ?_⟩
          intro other otherMember last lastMember
          rw [List.mem_singleton.mp lastMember]
          exact invariant.precedes passedTiled siteLater faultless other otherMember
        simpa using pairwise extended
      · intro position other result otherFound resultFound
        cases position with
        | zero =>
            cases otherFound
            cases resultFound
            refine ⟨rfl, ?_⟩
            simpa using invariant.isParentAmong passedTiled siteLater faultless
        | succ position =>
            have earlier := linkedAt position other result otherFound resultFound
            simpa using earlier

/-! ## The sites of a method -/

/-- The parent of a site is the innermost of the other sites that contain it, and it has
none exactly if no other site contains it. -/
def IsInnermostAround (sites : List LambdaSite) (position : Nat) (site : LambdaSite) :
    Option Nat → Prop
  | none => ∀ other outer, sites[other]? = some outer → other ≠ position →
      ¬site.span.isWithin outer.span = true
  | some parent =>
      parent ≠ position ∧ ∃ inner, sites[parent]? = some inner ∧
        site.span.isWithin inner.span = true ∧
        ∀ other outer, sites[other]? = some outer → other ≠ position →
          site.span.isWithin outer.span = true → inner.span.isWithin outer.span = true

/-- The sites of a method, numbered from `firstId` on, each filled by its arguments, are
in order and nest properly. -/
structure WellNested (firstId : Nat) (sites : List LambdaSite) : Prop where
  /-- The arguments of a site follow each other from its start up to its call. -/
  tiles : ∀ site ∈ sites, Tiles site.start site.arguments site.call
  nonempty : ∀ site ∈ sites, site.factory.type.parameters ≠ [] →
    ∀ span ∈ site.arguments, span.start < span.stop
  /-- Two sites are apart, or one of them lies in the body of the other. -/
  laminar : ∀ (i j : Nat) (first second : LambdaSite), i ≠ j → sites[i]? = some first → sites[j]? = some second →
    first.span.Disjoint second.span ∨ first.span.isWithin second.body = true ∨
      second.span.isWithin first.body = true
  /-- Sites are sorted by their starts, and none contains one that comes before it. -/
  ordered : ∀ (i j : Nat) (first second : LambdaSite), i < j → sites[i]? = some first → sites[j]? = some second →
    first.start ≤ second.start ∧ ¬first.span.isWithin second.span = true
  numbered : ∀ (i : Nat) (site : LambdaSite), sites[i]? = some site → site.id = firstId + i
  parents : ∀ (i : Nat) (site : LambdaSite), sites[i]? = some site → IsInnermostAround sites i site site.parent

theorem LambdaSite.isBefore_trans
    (first second third : LambdaSite)
    (firstSecond : first.isBefore second = true)
    (secondThird : second.isBefore third = true) :
    first.isBefore third = true := by
  simp only [isBefore, Bool.or_eq_true, Bool.and_eq_true, decide_eq_true_eq] at *
  omega

theorem LambdaSite.isBefore_total
    (first second : LambdaSite) :
    (first.isBefore second || second.isBefore first) = true := by
  simp only [isBefore, Bool.or_eq_true, Bool.and_eq_true, decide_eq_true_eq]
  omega

theorem LambdaSite.start_le_of_isBefore
    {first second : LambdaSite}
    (before : first.isBefore second = true) :
    first.start ≤ second.start := by
  simp only [isBefore, Bool.or_eq_true, Bool.and_eq_true, decide_eq_true_eq] at before
  omega

theorem getElem?_numberFrom
    {first position : Nat}
    {sites : List LambdaSite} :
    (numberFrom first sites)[position]? =
      sites[position]?.map fun site => { site with id := first + position } := by
  unfold numberFrom
  rw [List.getElem?_map, List.getElem?_zipIdx, Option.map_map]
  simp [Function.comp_def]

/-- What detection knows of its sites: they come from the sorted sites that were read,
with their numbers and parents filled in. -/
structure IsDetected (firstId : Nat) (sorted sites : List LambdaSite) : Prop where
  tiled : ∀ site ∈ sorted, site.IsTiled
  precedes : sorted.Pairwise LambdaSite.Precedes
  starts : sorted.Pairwise fun first second => first.start ≤ second.start
  filled : ∀ (position : Nat) (site : LambdaSite), sites[position]? = some site →
    ∃ raw, sorted[position]? = some raw ∧
      site = { raw with id := firstId + position, parent := site.parent } ∧
      IsParentAmong (sorted.take position) raw site.parent

theorem detectSites_isDetected
    {Memory : Type}
    {method : Method}
    {analysis : FlowAnalysis}
    {calls : List Nat}
    {firstId : Nat}
    {hierarchy : Hierarchy}
    {convention : Convention Memory}
    {place : Place}
    {before after : Memory}
    {sites : List LambdaSite}
    (detected : detectSites method analysis calls firstId hierarchy convention place before =
      .ok sites after) :
    ∃ sorted, IsDetected firstId sorted sites := by
  unfold detectSites at detected
  obtain ⟨read, _, readAll, detected⟩ := run_bind_eq_ok.mp detected
  obtain ⟨linked, _, linkedAll, detected⟩ := run_bind_eq_ok.mp detected
  obtain ⟨_, _, _, detected⟩ := run_bind_eq_ok.mp detected
  obtain ⟨equal, _⟩ := run_pure_eq_ok.mp detected
  have linkedEq : linkFrom place 0 [] (read.mergeSort LambdaSite.isBefore) = .ok linked :=
    (run_ofExcept_eq_ok.mp linkedAll).1
  have readTiled : ∀ site ∈ read, site.IsTiled := by
    intro site member
    obtain ⟨call, _, earlier, later, siteRead⟩ :=
      exists_mem_of_forall₂ (forall₂_of_run_mapM_eq_ok readAll) member
    exact readSite_isTiled siteRead
  have tiled : ∀ site ∈ read.mergeSort LambdaSite.isBefore, site.IsTiled :=
    fun site member => readTiled site (List.mem_mergeSort.mp member)
  have starts : (read.mergeSort LambdaSite.isBefore).Pairwise fun first second =>
      first.start ≤ second.start :=
    (List.pairwise_mergeSort LambdaSite.isBefore_trans LambdaSite.isBefore_total read).imp
      LambdaSite.start_le_of_isBefore
  obtain ⟨pairwise, length, linkedAt⟩ := linkFrom_eq_ok OpenSites.nil
    (by simpa using readTiled) (by simp) starts linkedEq
  refine ⟨read.mergeSort LambdaSite.isBefore, tiled, by simpa using pairwise .nil, starts, ?_⟩
  intro position site found
  rw [← equal, getElem?_numberFrom, Option.map_eq_some_iff] at found
  obtain ⟨result, resultFound, rfl⟩ := found
  have below : position < (read.mergeSort LambdaSite.isBefore).length :=
    length ▸ (List.getElem?_eq_some_iff.mp resultFound).1
  obtain ⟨unchanged, parent⟩ :=
    linkedAt position _ result (List.getElem?_eq_getElem below) resultFound
  refine ⟨_, List.getElem?_eq_getElem below, ?_, by simpa using parent⟩
  rw [unchanged]

namespace IsDetected

variable {firstId : Nat} {sorted sites : List LambdaSite}

/-- A site that comes before another one precedes it. -/
theorem precedes_of_lt
    (detected : IsDetected firstId sorted sites)
    {i j : Nat}
    {first second : LambdaSite}
    (below : i < j)
    (firstFound : sites[i]? = some first)
    (secondFound : sites[j]? = some second) :
    first.IsTiled ∧ first.start ≤ second.start ∧ first.Precedes second := by
  obtain ⟨firstRaw, firstRawFound, firstEq, _⟩ := detected.filled i first firstFound
  obtain ⟨secondRaw, secondRawFound, secondEq, _⟩ := detected.filled j second secondFound
  obtain ⟨firstBound, firstAt⟩ := List.getElem?_eq_some_iff.mp firstRawFound
  obtain ⟨secondBound, secondAt⟩ := List.getElem?_eq_some_iff.mp secondRawFound
  have precedes :=
    List.pairwise_iff_getElem.mp detected.precedes i j firstBound secondBound below
  have starts := List.pairwise_iff_getElem.mp detected.starts i j firstBound secondBound below
  have tiled := detected.tiled _ (List.mem_of_getElem? firstRawFound)
  rw [firstAt, secondAt] at precedes starts
  rw [firstEq, secondEq]
  exact ⟨⟨tiled.tiles, tiled.forward, tiled.nonempty, tiled.call_lt_stop⟩, starts, precedes⟩

theorem isTiled
    (detected : IsDetected firstId sorted sites)
    {site : LambdaSite}
    (member : site ∈ sites) :
    site.IsTiled := by
  obtain ⟨position, found⟩ := List.getElem?_of_mem member
  obtain ⟨raw, rawFound, equal, _⟩ := detected.filled position site found
  have tiled := detected.tiled raw (List.mem_of_getElem? rawFound)
  rw [equal]
  exact ⟨tiled.tiles, tiled.forward, tiled.nonempty, tiled.call_lt_stop⟩

/-- Only a site that comes before another one can contain it. -/
theorem lt_of_within
    (detected : IsDetected firstId sorted sites)
    {i j : Nat}
    {inner outer : LambdaSite}
    (innerFound : sites[i]? = some inner)
    (outerFound : sites[j]? = some outer)
    (different : j ≠ i)
    (within : inner.span.isWithin outer.span = true) :
    j < i := by
  rcases Nat.lt_or_gt_of_ne different with below | above
  · exact below
  · obtain ⟨tiled, _, precedes⟩ := detected.precedes_of_lt above innerFound outerFound
    exact absurd within (precedes.not_within tiled)

theorem laminar
    (detected : IsDetected firstId sorted sites)
    {i j : Nat}
    {first second : LambdaSite}
    (different : i ≠ j)
    (firstFound : sites[i]? = some first)
    (secondFound : sites[j]? = some second) :
    first.span.Disjoint second.span ∨ first.span.isWithin second.body = true ∨
      second.span.isWithin first.body = true := by
  rcases Nat.lt_or_gt_of_ne different with below | above
  · obtain ⟨_, _, precedes⟩ := detected.precedes_of_lt below firstFound secondFound
    rcases precedes with apart | inside
    · exact Or.inl (Span.disjoint_of_le apart)
    · exact Or.inr (Or.inr inside)
  · obtain ⟨_, _, precedes⟩ := detected.precedes_of_lt above secondFound firstFound
    rcases precedes with apart | inside
    · exact Or.inl (Span.disjoint_of_le apart).symm
    · exact Or.inr (Or.inl inside)

/-- A site that was passed before another one is in the final list, at the same place and
with the same instructions. -/
theorem mem_take
    (detected : IsDetected firstId sorted sites)
    {i j : Nat}
    {other : LambdaSite}
    (below : j < i)
    (found : sites[j]? = some other) :
    ∃ raw ∈ sorted.take i, raw.span = other.span := by
  obtain ⟨raw, rawFound, equal, _⟩ := detected.filled j other found
  refine ⟨raw, ?_, by rw [equal]; rfl⟩
  rw [← List.getElem?_take_of_lt below] at rawFound
  exact List.mem_of_getElem? rawFound

theorem parents
    (detected : IsDetected firstId sorted sites)
    {position : Nat}
    {site : LambdaSite}
    (found : sites[position]? = some site) :
    IsInnermostAround sites position site site.parent := by
  obtain ⟨raw, _, equal, parentAmong⟩ := detected.filled position site found
  have spanEq : site.span = raw.span := by
    rw [equal]
    rfl
  have startLt : site.start < site.stop :=
    (detected.isTiled (List.mem_of_getElem? found)).start_lt_stop
  -- A site that contains this one was passed before it and is not over.
  have passedAround : ∀ other outer, sites[other]? = some outer → other ≠ position →
      site.span.isWithin outer.span = true →
      ∃ passed ∈ sorted.take position, passed.span = outer.span ∧ ¬passed.stop ≤ raw.start := by
    intro other outer outerFound different within
    have below := detected.lt_of_within found outerFound different within
    obtain ⟨passed, member, passedEq⟩ := detected.mem_take below outerFound
    refine ⟨passed, member, passedEq, ?_⟩
    rw [spanEq, ← passedEq, Span.isWithin_iff] at within
    have startEq : site.start = raw.start := congrArg Span.start spanEq
    have stopEq : site.stop = raw.stop := congrArg Span.stop spanEq
    simp only [LambdaSite.span] at within
    omega
  cases parentEq : site.parent with
  | none =>
      rw [parentEq] at parentAmong
      intro other outer outerFound different within
      obtain ⟨passed, member, _, notOver⟩ := passedAround other outer outerFound different within
      exact notOver (parentAmong passed member)
  | some parent =>
      rw [parentEq] at parentAmong
      obtain ⟨passedParent, passedParentFound, withinBody, outermost⟩ := parentAmong
      have below : parent < position := by
        have bound := (List.getElem?_eq_some_iff.mp passedParentFound).1
        rw [List.length_take] at bound
        omega
      have bound : parent < sites.length :=
        Nat.lt_trans below (List.getElem?_eq_some_iff.mp found).1
      have innerFound : sites[parent]? = some sites[parent] := List.getElem?_eq_getElem bound
      obtain ⟨rawParent, rawParentFound, innerEq, _⟩ := detected.filled parent _ innerFound
      rw [List.getElem?_take_of_lt below, rawParentFound] at passedParentFound
      obtain rfl : rawParent = passedParent := Option.some.inj passedParentFound
      have innerSpan : sites[parent].span = rawParent.span := by
        rw [innerEq]
        rfl
      have parentTiled := detected.tiled rawParent (List.mem_of_getElem? rawParentFound)
      refine ⟨Nat.ne_of_lt below, sites[parent], innerFound, ?_, ?_⟩
      · have bounds := LambdaSite.within_of_isWithin_body parentTiled withinBody
        rw [spanEq, innerSpan, Span.isWithin_iff]
        exact ⟨bounds.1, Nat.le_of_lt bounds.2⟩
      · intro other outer outerFound different within
        obtain ⟨passed, member, passedEq, notOver⟩ :=
          passedAround other outer outerFound different within
        rw [innerSpan, ← passedEq]
        exact (outermost passed member).resolve_left notOver

/-- A site that nests directly in another one lies in the body of that. -/
theorem within_body_of_parent
    (detected : IsDetected firstId sorted sites)
    {position parent : Nat}
    {site outer : LambdaSite}
    (found : sites[position]? = some site)
    (isParent : site.parent = some parent)
    (outerFound : sites[parent]? = some outer) :
    site.span.isWithin outer.body = true := by
  have around := detected.parents found
  rw [isParent] at around
  obtain ⟨different, inner, isInner, within, _⟩ := around
  obtain rfl : inner = outer := Option.some.inj (isInner.symm.trans outerFound)
  have nonempty := (detected.isTiled (List.mem_of_getElem? found)).start_lt_stop
  have bounds := Span.isWithin_iff.mp within
  simp only [LambdaSite.span] at bounds
  rcases detected.laminar different outerFound found with disjoint | reversed | isInBody
  · refine absurd ⟨?_, ?_⟩ (disjoint site.start)
    · exact Span.contains_iff.mpr ⟨bounds.1, Nat.lt_of_lt_of_le nonempty bounds.2⟩
    · exact Span.contains_iff.mpr ⟨Nat.le_refl _, nonempty⟩
  · have inside := LambdaSite.within_of_isWithin_body
      (detected.isTiled (List.mem_of_getElem? found)) reversed
    omega
  · exact isInBody

/-- No site lies in the body of one that nests in the same site. -/
theorem not_within_sibling
    (detected : IsDetected firstId sorted sites)
    {i j : Nat}
    {first second : LambdaSite}
    (different : i ≠ j)
    (isFirst : sites[i]? = some first)
    (isSecond : sites[j]? = some second)
    (siblings : first.parent = second.parent) :
    ¬first.span.isWithin second.body = true := by
  intro inBody
  have secondTiled := detected.isTiled (List.mem_of_getElem? isSecond)
  have bounds := LambdaSite.within_of_isWithin_body secondTiled inBody
  have within : first.span.isWithin second.span = true :=
    Span.isWithin_iff.mpr ⟨bounds.1, Nat.le_of_lt bounds.2⟩
  have around := detected.parents isFirst
  cases isParent : first.parent with
  | none =>
      rw [isParent] at around
      exact around j second isSecond different.symm within
  | some parent =>
      rw [isParent] at around
      obtain ⟨_, inner, isInner, _, innermost⟩ := around
      -- The parent lies in the second site, which lies in the body of the parent.
      have outside := innermost j second isSecond different.symm within
      have inside := detected.within_body_of_parent isSecond (siblings ▸ isParent) isInner
      have strict := LambdaSite.within_of_isWithin_body
        (detected.isTiled (List.mem_of_getElem? isInner)) inside
      rw [Span.isWithin_iff] at outside
      simp only [LambdaSite.span] at outside
      omega

end IsDetected

/-- Whichever conventions say what factories and parameters are, and for the calls of
factories or any other list of calls: the sites that detection gives are filled by their
arguments, in order, numbered, and nest properly. -/
theorem detectSites_wellNested
    {Memory : Type}
    {method : Method}
    {analysis : FlowAnalysis}
    {calls : List Nat}
    {firstId : Nat}
    {hierarchy : Hierarchy}
    {convention : Convention Memory}
    {place : Place}
    {before after : Memory}
    {sites : List LambdaSite}
    (detected : detectSites method analysis calls firstId hierarchy convention place before =
      .ok sites after) :
    WellNested firstId sites := by
  obtain ⟨sorted, isDetected⟩ := detectSites_isDetected detected
  exact {
    tiles := fun site member => (isDetected.isTiled member).tiles
    nonempty := fun site member => (isDetected.isTiled member).nonempty
    laminar := fun i j first second => isDetected.laminar
    ordered := by
      intro i j first second below firstFound secondFound
      obtain ⟨tiled, starts, precedes⟩ :=
        isDetected.precedes_of_lt below firstFound secondFound
      exact ⟨starts, precedes.not_within tiled⟩
    numbered := by
      intro i site found
      obtain ⟨raw, _, equal, _⟩ := isDetected.filled i site found
      rw [equal]
    parents := fun i site found => isDetected.parents found }

namespace NestedClosures

/-- A factory of the class `F` that makes an object of a class. -/
def factory (name : UnqualifiedName) (parameters : List FieldType) (made : BinaryName) :
    MethodRef where
  owner := .object ⟨"F", by decide⟩
  name := name
  type := ⟨parameters, some (.ref (.object made))⟩
  ofInterface := false

/-- A factory with one parameter. -/
def inner : MethodRef :=
  factory ⟨"inner", by decide⟩ [.base .int, .base .int] ⟨"A", by decide⟩

/-- A factory without parameters. -/
def outer : MethodRef :=
  factory ⟨"outer", by decide⟩ [.ref (.object ⟨"A", by decide⟩)] ⟨"B", by decide⟩

/-- The field that stands for the parameter. -/
def parameter : FieldRef := ⟨⟨"F", by decide⟩, ⟨"x", by decide⟩, .base .int⟩

/-- A method that makes a closure in whose body another one is made: `outer(inner(x, x + 1))`. -/
def method : Method where
  instructions := #[
    .field .getStatic parameter,
    .field .getStatic parameter,
    .pushInt 1,
    .op (.arithmetic .add .int),
    .invoke .static inner,
    .invoke .static outer,
    .op (.leave (some .reference))]
  owner := ⟨"Demo", by decide⟩
  flags := MethodFlags.accStatic
  name := ⟨"nest", by decide⟩
  type := ⟨[], some (.ref (.object ⟨"B", by decide⟩))⟩
  hasVariableTable := false
  maxLocals := 0

/-- The convention that takes everything for a factory or a parameter. -/
def convention : Convention Unit := ⟨fun _ _ _ _ => pure true, fun _ _ _ => pure true⟩

/-- The frames of the method. -/
def frames : FlowAnalysis where
  frames := #[
    some ⟨[], []⟩,
    some ⟨[], [.int]⟩,
    some ⟨[], [.int, .int]⟩,
    some ⟨[], [.int, .int, .int]⟩,
    some ⟨[], [.int, .int]⟩,
    some ⟨[], [.object (.object ⟨"A", by decide⟩)]⟩,
    some ⟨[], [.object (.object ⟨"B", by decide⟩)]⟩]
  maxStack := 3
  maxLocals := 0

/-- Only the core classes. -/
def hierarchy : Hierarchy := ⟨[], []⟩

/-- The sites of the method. -/
def sites : List LambdaSite := [
  { id := 7, line := none, factory := outer, target := ⟨"B", by decide⟩, parameters := []
    body := ⟨0, 5⟩, call := 5, stop := 6, parent := none },
  { id := 8, line := none, factory := inner, target := ⟨"A", by decide⟩
    parameters := [⟨some parameter, ⟨0, 1⟩, none⟩]
    body := ⟨1, 4⟩, call := 4, stop := 5, parent := some 0 }]

end NestedClosures

open NestedClosures in
/-- One site in the body of another one. -/
theorem nestedClosures_wellNested :
    method.analyze hierarchy = .ok frames ∧
      factoryCalls method hierarchy convention () = .ok [4, 5] () ∧
      detectSites method frames [4, 5] 7 hierarchy convention .unknown () = .ok sites () ∧
      WellNested 7 sites := by
  have analyzed : method.analyze hierarchy = .ok frames := by cbv
  have called : factoryCalls method hierarchy convention () = .ok [4, 5] () := by cbv
  have detected :
      detectSites method frames [4, 5] 7 hierarchy convention .unknown () = .ok sites () := by
    cbv
  exact ⟨analyzed, called, detected, detectSites_wellNested detected⟩

end ClosureConversion
