import ClosureConversion.Proofs.Site.Crossings

/-!
Contract: where the code of a rewritten method comes from.

Owns:
- the pieces of a method: the sites that nest in no other one, and the instructions outside
  them;
- code that is replaced piece by piece stands between the places of the ends of a piece;
- what stands in a rewritten method for each of its pieces, and before all of them.

Does not own: what the code does.
-/

namespace ClosureConversion

/-! ## Pieces -/

/-- The sites that nest directly in a site, or in none, have at least one instruction, and share
none. -/
structure AreApart (sites : List LambdaSite) (parent : Option Nat) : Prop where
  nonempty : ∀ site ∈ sites, site.start < site.stop
  disjoint : ∀ (i j : Nat) (first second : LambdaSite), i ≠ j → sites[i]? = some first →
    sites[j]? = some second → first.parent = parent → second.parent = parent →
    first.span.Disjoint second.span

/-- No site contains an instruction. -/
def IsOutside (sites : List LambdaSite) (index : Nat) : Prop :=
  ∀ site ∈ sites, site.contains index = false

/-- No site that nests directly in a site, or in none, begins before an index and ends after
it. -/
def IsUncut (sites : List LambdaSite) (parent : Option Nat) (index : Nat) : Prop :=
  ∀ site ∈ sites, site.parent = parent → site.isCutAt index = false

namespace LambdaSite

theorem contains_iff
    {site : LambdaSite}
    {index : Nat} :
    site.contains index = true ↔ site.start ≤ index ∧ index < site.stop :=
  Span.contains_iff

theorem isCutAt_eq_false_iff
    {site : LambdaSite}
    {index : Nat} :
    site.isCutAt index = false ↔ (site.start < index → site.stop ≤ index) := by
  simp [isCutAt]

end LambdaSite

theorem IsDetected.areApart
    {firstId : Nat}
    {sorted sites : List LambdaSite}
    (detected : IsDetected firstId sorted sites)
    (parent : Option Nat) :
    AreApart sites parent where
  nonempty := fun _ member => (detected.isTiled member).start_lt_stop
  disjoint := by
    intro i j first second different isFirst isSecond firstParent secondParent
    rcases detected.laminar different isFirst isSecond with disjoint | within | within
    · exact disjoint
    · exact absurd within
        (detected.not_within_sibling different isFirst isSecond (firstParent.trans secondParent.symm))
    · exact absurd within
        (detected.not_within_sibling different.symm isSecond isFirst
          (secondParent.trans firstParent.symm))

section Pieces

variable {sites : List LambdaSite} {parent : Option Nat}

theorem IsOutside.isUncut
    {index : Nat}
    (isOutside : IsOutside sites index) :
    IsUncut sites parent index := by
  intro site member _
  rw [LambdaSite.isCutAt_eq_false_iff]
  intro starts
  by_contra isBefore
  have contains : site.contains index = true := LambdaSite.contains_iff.mpr (by omega)
  exact Bool.false_ne_true ((isOutside site member).symm.trans contains)

/-- Only one of the sites that nest directly in a site, or in none, contains an instruction. -/
theorem AreApart.eq_of_contains
    (apart : AreApart sites parent)
    {i j : Nat}
    {first second : LambdaSite}
    (isFirst : sites[i]? = some first)
    (isSecond : sites[j]? = some second)
    (firstChild : first.parent = parent)
    (secondChild : second.parent = parent)
    {index : Nat}
    (firstContains : first.contains index = true)
    (secondContains : second.contains index = true) :
    i = j := by
  by_contra different
  exact apart.disjoint i j first second different isFirst isSecond firstChild secondChild index
    ⟨firstContains, secondContains⟩

/-- What begins at an index: the site that does, or else the instruction. -/
theorem pieceAt_eq
    (apart : AreApart sites parent)
    (index : Nat) :
    (∃ (number : Nat) (site : LambdaSite), sites[number]? = some site ∧ site.parent = parent ∧
        site.start = index ∧ pieceAt sites parent index = .site number site.span) ∨
      (∀ site ∈ sites, site.parent = parent → site.start ≠ index) ∧
        pieceAt sites parent index = .instruction index := by
  unfold pieceAt
  cases found : nestedAt? sites parent index with
  | none =>
      right
      refine ⟨?_, rfl⟩
      intro site member isChild starts
      unfold nestedAt? at found
      rw [List.findIdx?_eq_none_iff] at found
      have isOther := found site member
      simp [isChild, starts] at isOther
  | some number =>
      left
      unfold nestedAt? at found
      obtain ⟨below, isFound, _⟩ := List.findIdx?_eq_some_iff_getElem.mp found
      rw [Bool.and_eq_true, decide_eq_true_eq, decide_eq_true_eq] at isFound
      have isSite : sites[number]? = some sites[number] := List.getElem?_eq_getElem below
      refine ⟨number, sites[number], isSite, isFound.1, isFound.2, ?_⟩
      have nonempty := apart.nonempty _ (List.mem_of_getElem? isSite)
      simp only [isSite, LambdaSite.span]
      rw [← isFound.2, Nat.max_eq_left nonempty]

/-- The piece of a site. -/
theorem pieceAt_start
    (apart : AreApart sites parent)
    {number : Nat}
    {site : LambdaSite}
    (isSite : sites[number]? = some site)
    (isChild : site.parent = parent) :
    pieceAt sites parent site.start = .site number site.span := by
  have nonempty := apart.nonempty site (List.mem_of_getElem? isSite)
  rcases pieceAt_eq apart site.start with ⟨other, second, isOther, secondChild, starts, piece⟩ |
    ⟨noneStarts, _⟩
  · have secondNonempty := apart.nonempty second (List.mem_of_getElem? isOther)
    have inFirst : site.contains site.start = true := LambdaSite.contains_iff.mpr (by omega)
    have inSecond : second.contains site.start = true := LambdaSite.contains_iff.mpr (by omega)
    obtain rfl : number = other :=
      apart.eq_of_contains isSite isOther isChild secondChild inFirst inSecond
    obtain rfl : site = second := Option.some.inj (isSite.symm.trans isOther)
    exact piece
  · exact absurd rfl (noneStarts site (List.mem_of_getElem? isSite) isChild)

/-- The piece of an instruction outside the sites. -/
theorem pieceAt_of_isOutside
    (apart : AreApart sites parent)
    {index : Nat}
    (isOutside : IsOutside sites index) :
    pieceAt sites parent index = .instruction index := by
  rcases pieceAt_eq apart index with ⟨number, site, isSite, _, starts, _⟩ | ⟨_, piece⟩
  · have member := List.mem_of_getElem? isSite
    have contains : site.contains index = true :=
      LambdaSite.contains_iff.mpr ⟨Nat.le_of_eq starts, starts ▸ apart.nonempty site member⟩
    exact absurd ((isOutside site member).symm.trans contains) Bool.false_ne_true
  · exact piece

theorem start_pieceAt
    (parent : Option Nat)
    (index : Nat) :
    (pieceAt sites parent index).span.start = index := by
  unfold pieceAt
  split
  · split <;> rfl
  · rfl

/-- A piece ends where no site is cut. -/
theorem isUncut_stop_pieceAt
    (apart : AreApart sites parent)
    {index : Nat}
    (isUncut : IsUncut sites parent index) :
    IsUncut sites parent (pieceAt sites parent index).span.stop := by
  intro site member isChild
  obtain ⟨position, isSite⟩ := List.getElem?_of_mem member
  have notCut := LambdaSite.isCutAt_eq_false_iff.mp (isUncut site member isChild)
  rw [LambdaSite.isCutAt_eq_false_iff]
  intro starts
  rcases pieceAt_eq apart index with ⟨number, other, isOther, otherChild, isStart, piece⟩ |
    ⟨noneStarts, piece⟩
  · rw [piece] at starts ⊢
    change site.start < other.stop at starts
    change site.stop ≤ other.stop
    have nonempty := apart.nonempty other (List.mem_of_getElem? isOther)
    by_contra isBefore
    have inSite : site.contains (other.stop - 1) = true := LambdaSite.contains_iff.mpr (by omega)
    have inOther : other.contains (other.stop - 1) = true :=
      LambdaSite.contains_iff.mpr (by omega)
    have same : position = number :=
      apart.eq_of_contains isSite isOther isChild otherChild inSite inOther
    rw [same, isOther] at isSite
    exact isBefore (Nat.le_of_eq (congrArg LambdaSite.stop (Option.some.inj isSite).symm))
  · rw [piece] at starts ⊢
    change site.start < index + 1 at starts
    change site.stop ≤ index + 1
    have notHere := noneStarts site member isChild
    exact Nat.le_succ_of_le (notCut (by omega))

/-- The pieces follow each other, up to the end or beyond it. -/
theorem exists_tiles_piecesFrom
    (parent : Option Nat)
    (stop index : Nat) :
    ∃ last, stop ≤ last ∧
      Tiles index ((piecesFrom sites parent stop index).map Piece.span) last := by
  fun_induction piecesFrom sites parent stop index with
  | case1 index isBefore inductionHypothesis =>
      obtain ⟨last, reaches, tiles⟩ := inductionHypothesis
      exact ⟨last, reaches, start_pieceAt parent index, tiles⟩
  | case2 index notBefore => exact ⟨index, Nat.not_lt.mp notBefore, rfl⟩

/-- A piece has at least one instruction. -/
theorem start_lt_stop_of_mem_piecesFrom
    {stop index : Nat}
    {piece : Piece}
    (member : piece ∈ piecesFrom sites parent stop index) :
    piece.span.start < piece.span.stop := by
  fun_induction piecesFrom sites parent stop index with
  | case1 index isBefore inductionHypothesis =>
      rcases List.mem_cons.mp member with rfl | isLater
      · rw [start_pieceAt]
        exact lt_stop_pieceAt sites parent index
      · exact inductionHypothesis isLater
  | case2 index notBefore => cases member

/-- A site among the pieces begins in the span, and it nests directly in what the span is of. -/
theorem exists_site_of_mem_piecesFrom
    {stop index number : Nat}
    {span : Span}
    (member : .site number span ∈ piecesFrom sites parent stop index) :
    ∃ site, sites[number]? = some site ∧ site.parent = parent ∧ index ≤ site.start ∧
      site.start < stop := by
  fun_induction piecesFrom sites parent stop index with
  | case1 index isBefore inductionHypothesis =>
      rcases List.mem_cons.mp member with isFirst | isLater
      · unfold pieceAt at isFirst
        split at isFirst
        · rename_i found
          unfold nestedAt? at found
          obtain ⟨below, isFound, _⟩ := List.findIdx?_eq_some_iff_getElem.mp found
          rw [Bool.and_eq_true, decide_eq_true_eq, decide_eq_true_eq] at isFound
          rw [List.getElem?_eq_getElem below] at isFirst
          cases isFirst
          exact ⟨_, List.getElem?_eq_getElem below, isFound.1, Nat.le_of_eq isFound.2.symm,
            isFound.2.symm ▸ isBefore⟩
        · cases isFirst
      · obtain ⟨site, isSite, isParent, starts, stops⟩ := inductionHypothesis isLater
        have := lt_stop_pieceAt sites parent index
        exact ⟨site, isSite, isParent, by omega, stops⟩
  | case2 index notBefore => cases member

/-- What begins where no site is cut is one of the pieces. -/
theorem pieceAt_mem_piecesFrom
    (apart : AreApart sites parent)
    {stop index target : Nat}
    (isUncut : IsUncut sites parent index)
    (targetUncut : IsUncut sites parent target)
    (fromIndex : index ≤ target)
    (below : target < stop) :
    pieceAt sites parent target ∈ piecesFrom sites parent stop index := by
  fun_induction piecesFrom sites parent stop index with
  | case1 index isBefore inductionHypothesis =>
      rcases Nat.eq_or_lt_of_le fromIndex with rfl | after
      · exact List.mem_cons_self
      · refine List.mem_cons_of_mem _
          (inductionHypothesis (isUncut_stop_pieceAt apart isUncut) ?_)
        rcases pieceAt_eq apart index with ⟨number, site, isSite, isChild, starts, piece⟩ |
          ⟨_, piece⟩
        · rw [piece]
          exact LambdaSite.isCutAt_eq_false_iff.mp
            (targetUncut site (List.mem_of_getElem? isSite) isChild) (by omega)
        · rw [piece]
          exact after
  | case2 index notBefore => omega

/-- A site cuts none of those that nest in the same site where it begins. -/
theorem isUncut_start
    (apart : AreApart sites parent)
    {number : Nat}
    {site : LambdaSite}
    (isSite : sites[number]? = some site)
    (isChild : site.parent = parent) :
    IsUncut sites parent site.start := by
  have nonempty := apart.nonempty site (List.mem_of_getElem? isSite)
  intro other member otherChild
  obtain ⟨position, isOther⟩ := List.getElem?_of_mem member
  rw [LambdaSite.isCutAt_eq_false_iff]
  intro starts
  by_contra isBefore
  have inOther : other.contains site.start = true := LambdaSite.contains_iff.mpr (by omega)
  have inSite : site.contains site.start = true := LambdaSite.contains_iff.mpr (by omega)
  have same : position = number :=
    apart.eq_of_contains isOther isSite otherChild isChild inOther inSite
  rw [same, isSite] at isOther
  exact Nat.lt_irrefl _ (Option.some.inj isOther ▸ starts)

end Pieces

/-! ## Replacing pieces -/

/-- The positions after a replacement. -/
theorem getElem?_placesFrom_cons
    {next : Nat}
    {replacement : Replacement}
    {rest : List Replacement}
    (nonempty : replacement.span.start < replacement.span.stop)
    (offset : Nat) :
    (placesFrom next (replacement :: rest))[replacement.span.length + offset]? =
      (placesFrom (next + replacement.code.length) rest)[offset]? := by
  have length : replacement.span.length + offset =
      (replacement.span.length - 1 + offset) + 1 := by
    unfold Span.length
    omega
  rw [length, placesFrom, List.cons_append, List.getElem?_cons_succ,
    List.getElem?_append_right (by rw [List.length_replicate]; omega), List.length_replicate]
  congr 1
  omega

theorem getElem?_placesFrom_zero
    {next : Nat}
    {replacements : List Replacement} :
    (placesFrom next replacements)[0]? = some next := by
  cases replacements <;> rfl

/-- The ends of a span go to the ends of the code that replaces it. -/
theorem getElem?_placesFrom
    (next : Nat)
    {start last : Nat}
    {front back : List Replacement}
    {replacement : Replacement}
    (tiles : Tiles start ((front ++ replacement :: back).map Replacement.span) last)
    (nonempty : ∀ other ∈ front ++ replacement :: back, other.span.start < other.span.stop) :
    (placesFrom next (front ++ replacement :: back))[replacement.span.start - start]? =
        some (next + (front.flatMap Replacement.code).length) ∧
      (placesFrom next (front ++ replacement :: back))[replacement.span.stop - start]? =
        some (next + (front.flatMap Replacement.code).length + replacement.code.length) := by
  induction front generalizing start next with
  | nil =>
      obtain ⟨rfl, _⟩ := tiles
      have hasSpan := nonempty replacement List.mem_cons_self
      refine ⟨?_, ?_⟩
      · rw [Nat.sub_self]
        exact getElem?_placesFrom_zero
      · exact (getElem?_placesFrom_cons hasSpan 0).trans getElem?_placesFrom_zero
  | cons first front inductionHypothesis =>
      obtain ⟨rfl, rest⟩ := tiles
      have nonemptyRest : ∀ other ∈ front ++ replacement :: back,
          other.span.start < other.span.stop :=
        fun other member => nonempty other (List.mem_cons_of_mem _ member)
      have firstNonempty := nonempty first List.mem_cons_self
      obtain ⟨_, within⟩ := rest.within (by
        intro span member
        obtain ⟨other, isOther, rfl⟩ := List.mem_map.mp member
        exact Nat.le_of_lt (nonemptyRest other isOther))
      have after := within replacement.span (List.mem_map_of_mem (by simp))
      have hasSpan := nonemptyRest replacement (by simp)
      obtain ⟨startPlace, stopPlace⟩ :=
        inductionHypothesis (next + first.code.length) rest nonemptyRest
      have startOffset : replacement.span.start - first.span.start =
          first.span.length + (replacement.span.start - first.span.stop) := by
        unfold Span.length
        omega
      have stopOffset : replacement.span.stop - first.span.start =
          first.span.length + (replacement.span.stop - first.span.stop) := by
        unfold Span.length
        omega
      rw [List.cons_append, startOffset, stopOffset, getElem?_placesFrom_cons firstNonempty,
        getElem?_placesFrom_cons firstNonempty, startPlace, stopPlace, List.flatMap_cons,
        List.length_append]
      exact ⟨by rw [Nat.add_assoc], by rw [Nat.add_assoc next]⟩

namespace Relocation

theorem place_ofReplacements
    {start next index place : Nat}
    {replacements : List Replacement}
    (fromStart : start ≤ index)
    (found : (placesFrom next replacements)[index - start]? = some place) :
    (ofReplacements start next replacements).place index = place := by
  unfold Relocation.place place? ofReplacements
  rw [if_neg (Nat.not_lt.mpr fromStart), List.getElem?_toArray, found]
  rfl

/-- What is written for a span stands between the places of its ends. -/
theorem instructionsIn_code
    {relocation : Relocation}
    {prologue : List (Instruction Nat)}
    {last : Nat}
    {front back : List Replacement}
    {replacement : Replacement}
    (tiles : Tiles 0 ((front ++ replacement :: back).map Replacement.span) last)
    (nonempty : ∀ other ∈ front ++ replacement :: back, other.span.start < other.span.stop)
    (isRelocation : relocation =
      ofReplacements 0 prologue.length (front ++ replacement :: back)) :
    instructionsIn (prologue ++ relocation.code (front ++ replacement :: back)).toArray
        ⟨relocation.place replacement.span.start, relocation.place replacement.span.stop⟩ =
      replacement.code.map fun instruction => instruction.map relocation.place := by
  obtain ⟨startPlace, stopPlace⟩ := getElem?_placesFrom prologue.length tiles nonempty
  have startEq : relocation.place replacement.span.start =
      prologue.length + (front.flatMap Replacement.code).length := by
    rw [isRelocation]
    exact place_ofReplacements (Nat.zero_le _) startPlace
  have stopEq : relocation.place replacement.span.stop =
      prologue.length + (front.flatMap Replacement.code).length + replacement.code.length := by
    rw [isRelocation]
    exact place_ofReplacements (Nat.zero_le _) stopPlace
  have frontLength : (relocation.code front).length =
      (front.flatMap Replacement.code).length := by
    unfold Relocation.code
    simp only [List.length_flatMap, List.length_map]
  have codeEq : relocation.code (front ++ replacement :: back) = relocation.code front ++
      ((replacement.code.map fun instruction => instruction.map relocation.place) ++
        relocation.code back) := by
    unfold Relocation.code
    rw [List.flatMap_append, List.flatMap_cons]
  unfold instructionsIn
  rw [startEq, stopEq, codeEq, ← frontLength, ← List.append_assoc, ← List.append_assoc,
    ← List.length_append, List.append_assoc _ _ (relocation.code back)]
  simp

end Relocation

/-! ## Rewritten methods -/

/-- What happens to the positions of a method whose sites are replaced. -/
def MethodPlan.relocation (plan : MethodPlan) (method : Method) : Except SiteFault Relocation := do
  let replacements ← plan.replacements method
  return .ofReplacements 0 (plan.boxes.flatMap MethodPlan.makeBox).length replacements

/-- The code in a rewritten method that stands for a span of the method. -/
def Method.codeFor (rewritten : Method) (relocation : Relocation) (span : Span) :
    List (Instruction Nat) :=
  instructionsIn rewritten.instructions
    ⟨relocation.place span.start, relocation.place span.stop⟩

/-- A rewritten method: boxes are made first, then follows what replaces the instructions
outside the sites and the sites that nest in no other one. -/
structure IsRewriting (plan : MethodPlan) (method : Method) (relocation : Relocation)
    (rewritten : Method) : Prop where
  prologue : instructionsIn rewritten.instructions ⟨0, relocation.place 0⟩ =
    plan.boxes.flatMap MethodPlan.makeBox
  instruction : ∀ index instruction, method.instructions[index]? = some instruction →
    IsOutside plan.lambdaSites index →
    rewritten.codeFor relocation ⟨index, index + 1⟩ =
      (plan.instructionCode method index instruction).map fun part => part.map relocation.place
  site : ∀ sitePlan ∈ plan.sites, sitePlan.site.parent = none →
    sitePlan.site.start < method.instructions.size →
    ∃ code, sitePlan.construct plan.loadCapture = .ok code ∧
      rewritten.codeFor relocation sitePlan.site.span =
        code.map fun part => part.map relocation.place

section Rewritten

variable {plan : MethodPlan} {method : Method}

/-- Each replacement is for a piece. -/
theorem forall₂_of_replacements_eq_ok
    {replacements : List Replacement}
    (computed : plan.replacements method = .ok replacements) :
    List.Forall₂ (fun piece replacement => replacement.span = piece.span ∧
        plan.pieceCode method piece = .ok replacement.code)
      (piecesOf plan.lambdaSites none ⟨0, method.instructions.size⟩) replacements := by
  refine (forall₂_of_mapM_eq_ok computed).imp ?_
  intro piece replacement isReplacement
  obtain ⟨code, isCode, equal⟩ := bind_eq_ok.mp isReplacement
  cases equal
  exact ⟨rfl, isCode⟩

/-- Replacements for pieces, one for each, follow each other like the pieces. -/
theorem tiles_of_forall₂
    {sites : List LambdaSite}
    {parent : Option Nat}
    {stop index : Nat}
    {replacements : List Replacement}
    (each : List.Forall₂ (fun piece replacement => replacement.span = piece.span)
      (piecesFrom sites parent stop index) replacements) :
    replacements.map Replacement.span = (piecesFrom sites parent stop index).map Piece.span ∧
      (∀ replacement ∈ replacements, replacement.span.start < replacement.span.stop) ∧
      ∃ last, stop ≤ last ∧ Tiles index (replacements.map Replacement.span) last := by
  have spans : replacements.map Replacement.span =
      (piecesFrom sites parent stop index).map Piece.span := by
    rw [← List.forall₂_eq_eq_eq, List.forall₂_map_left_iff, List.forall₂_map_right_iff]
    exact each.flip
  refine ⟨spans, ?_, ?_⟩
  · intro replacement member
    obtain ⟨piece, isPiece, sameSpan⟩ := exists_mem_of_forall₂ each member
    rw [sameSpan]
    exact start_lt_stop_of_mem_piecesFrom isPiece
  · rw [spans]
    exact exists_tiles_piecesFrom parent stop index

/-- The code for a piece stands between the places of the ends of the piece. -/
theorem exists_code_of_mem_piecesOf
    {replacements : List Replacement}
    {prologue : List (Instruction Nat)}
    {relocation : Relocation}
    (computed : plan.replacements method = .ok replacements)
    (isRelocation : relocation = .ofReplacements 0 prologue.length replacements)
    {piece : Piece}
    (member : piece ∈ piecesOf plan.lambdaSites none ⟨0, method.instructions.size⟩) :
    ∃ code, plan.pieceCode method piece = .ok code ∧
      instructionsIn (prologue ++ relocation.code replacements).toArray
          ⟨relocation.place piece.span.start, relocation.place piece.span.stop⟩ =
        code.map fun part => part.map relocation.place := by
  have each := forall₂_of_replacements_eq_ok computed
  obtain ⟨_, nonempty, last, _, tiles⟩ := tiles_of_forall₂ (each.imp fun _ _ isFor => isFor.1)
  obtain ⟨replacement, isReplacement, sameSpan, isCode⟩ :=
    exists_mem_of_forall₂ each.flip member
  obtain ⟨front, back, rfl⟩ := List.append_of_mem isReplacement
  refine ⟨replacement.code, isCode, ?_⟩
  rw [← sameSpan]
  exact Relocation.instructionsIn_code tiles nonempty isRelocation

/-- Every method that was rewritten is one that stands for the original, piece by piece. -/
theorem isRewriting_of_rewrite_eq_ok
    {place : Place}
    {rewritten : Method}
    (apart : AreApart plan.lambdaSites none)
    (computed : method.rewrite plan place = .ok rewritten) :
    ∃ relocation, plan.relocation method = .ok relocation ∧
      IsRewriting plan method relocation rewritten := by
  unfold Method.rewrite at computed
  obtain ⟨replacements, isReplaced, computed⟩ := bind_eq_ok.mp computed
  have replaced := mapError_eq_ok.mp isReplaced
  dsimp only at computed
  split at computed
  · cases computed
  · cases computed
    refine ⟨_, bind_eq_ok.mpr ⟨replacements, replaced, rfl⟩, ?_, ?_, ?_⟩
    · have start : (Relocation.ofReplacements 0 (plan.boxes.flatMap MethodPlan.makeBox).length
          replacements).place 0 = (plan.boxes.flatMap MethodPlan.makeBox).length :=
        Relocation.place_ofReplacements (Nat.le_refl 0) getElem?_placesFrom_zero
      unfold instructionsIn
      rw [start]
      simp
    · intro index instruction isInstruction isOutside
      obtain ⟨below, _⟩ := Array.getElem?_eq_some_iff.mp isInstruction
      have isPiece := pieceAt_mem_piecesFrom apart (fun _ _ _ => by simp [LambdaSite.isCutAt])
        isOutside.isUncut (Nat.zero_le index) below
      rw [pieceAt_of_isOutside apart isOutside] at isPiece
      obtain ⟨code, isCode, stands⟩ := exists_code_of_mem_piecesOf replaced rfl isPiece
      rw [MethodPlan.pieceCode, isInstruction] at isCode
      cases isCode
      exact stands
    · intro sitePlan member isOuter below
      obtain ⟨number, isPlan⟩ := List.getElem?_of_mem member
      have isSite : plan.lambdaSites[number]? = some sitePlan.site := by
        rw [MethodPlan.lambdaSites, List.getElem?_map, isPlan]
        rfl
      have isPiece := pieceAt_mem_piecesFrom apart (fun _ _ _ => by simp [LambdaSite.isCutAt])
        (isUncut_start apart isSite isOuter) (Nat.zero_le _) below
      rw [pieceAt_start apart isSite isOuter] at isPiece
      obtain ⟨code, isCode, stands⟩ := exists_code_of_mem_piecesOf replaced rfl isPiece
      rw [MethodPlan.pieceCode, isPlan] at isCode
      exact ⟨code, isCode, stands⟩

end Rewritten

end ClosureConversion
