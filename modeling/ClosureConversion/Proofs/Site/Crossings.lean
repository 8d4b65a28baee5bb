import ClosureConversion.Closure.Rewriting
import ClosureConversion.Proofs.Site.Nesting

/-!
Contract: jumps between the code of a site and the code around it.

Owns:
- what the check of one argument says of the jumps of a method;
- every jump from outside into a site leads to the cast that the site takes in after its call;
- a cast after a conditional that such a jump leads to.

Does not own: what the code of a site is replaced with.
-/

namespace ClosureConversion

/-- The instruction of an index outside a site jumps between the start and the end of the
site. -/
structure Method.JumpsInto (method : Method) (site : LambdaSite) (index target : Nat) : Prop where
  outside : site.contains index = false
  jumps : ∃ instruction, method.instructions[index]? = some instruction ∧
    target ∈ instruction.targets
  after_start : site.start < target
  before_stop : target < site.stop

/-- The site takes in the cast that tells what its factory makes. -/
structure LambdaSite.AbsorbsCast (site : LambdaSite) (method : Method) : Prop where
  stop : site.stop = site.call + 2
  isCast : method.instructions[site.call + 1]? = some (.checkCast (.object site.target))

/-! ## Arguments -/

/-- If no jump crosses the boundary of a span, every jump stays on its side. -/
theorem staysOnSide_of_crossingJump?_eq_none
    {code : Array (Instruction Nat)}
    {span : Span}
    (noneCrosses : crossingJump? code span = none)
    {index target : Nat}
    {instruction : Instruction Nat}
    (isInstruction : code[index]? = some instruction)
    (isTarget : target ∈ instruction.targets) :
    staysOnSide span index target = true := by
  unfold crossingJump? at noneCrosses
  rw [List.findSome?_eq_none_iff] at noneCrosses
  have listed : (instruction, index) ∈ code.toList.zipIdx := by
    rw [List.mem_zipIdx_iff_getElem?, Array.getElem?_toList]
    exact isInstruction
  have allStay := noneCrosses (instruction, index) listed
  rw [Option.map_eq_none_iff, List.find?_eq_none] at allStay
  simpa using allStay target isTarget

/-- No jump crosses the boundary of an argument. -/
theorem crossingJump?_of_argumentSpans
    {code : Array (Instruction Nat)}
    {analysis : FlowAnalysis}
    {depth count stop : Nat}
    {spans : List Span}
    (found : argumentSpans code analysis depth count stop = .ok spans) :
    ∀ span ∈ spans, crossingJump? code span = none := by
  induction count generalizing stop spans with
  | zero =>
      cases found
      simp
  | succ count inductionHypothesis =>
      unfold argumentSpans at found
      obtain ⟨start, startFound, found⟩ := bind_eq_ok.mp found
      obtain ⟨before, beforeFound, found⟩ := bind_eq_ok.mp found
      cases found
      intro span member
      rw [List.mem_append, List.mem_singleton] at member
      rcases member with earlier | rfl
      · exact inductionHypothesis beforeFound span earlier
      · unfold argumentStart at startFound
        obtain ⟨last, _, startFound⟩ := bind_eq_ok.mp startFound
        obtain ⟨extended, _, startFound⟩ := bind_eq_ok.mp startFound
        split at startFound
        · cases startFound
        · rename_i noneCrosses
          cases startFound
          exact noneCrosses

theorem crossingJump?_of_callArguments
    {method : Method}
    {analysis : FlowAnalysis}
    {call : Nat}
    {factory : MethodRef}
    {spans : List Span}
    (found : callArguments method analysis call factory = .ok spans) :
    ∀ span ∈ spans, crossingJump? method.instructions span = none := by
  unfold callArguments at found
  dsimp only at found
  split at found
  · cases found
  · split at found
    · cases found
    · exact crossingJump?_of_argumentSpans found

/-- Where spans follow each other, every index after the start lies in one of them or at its
end. -/
theorem Tiles.exists_isInto
    {start stop : Nat}
    {spans : List Span}
    (tiles : Tiles start spans stop)
    {index : Nat}
    (after : start < index)
    (notBeyond : index ≤ stop) :
    ∃ span ∈ spans, span.start < index ∧ index ≤ span.stop := by
  induction spans generalizing start with
  | nil =>
      have equal : start = stop := tiles
      omega
  | cons first others inductionHypothesis =>
      obtain ⟨firstStart, rest⟩ := tiles
      by_cases inFirst : index ≤ first.stop
      · exact ⟨first, List.mem_cons_self, by omega, inFirst⟩
      · obtain ⟨span, member, isInto⟩ := inductionHypothesis rest (by omega)
        exact ⟨span, List.mem_cons_of_mem _ member, isInto⟩

/-! ## Sites -/

/-- A site ends after the call, or after the cast that tells its type. -/
theorem isCast_of_producedType?
    {factory : MethodRef}
    {following : Option (Instruction Nat)}
    {target : BinaryName}
    (produced : producedType? factory following = some (target, true)) :
    following = some (.checkCast (.object target)) := by
  unfold producedType? at produced
  split at produced
  · split at produced
    · cases produced
    · split at produced
      · cases produced
        rfl
      · cases produced
  · cases produced

/-- A jump into a site that was read from a call leads to the cast after the call: at any
earlier index it would cross the boundary of an argument. -/
theorem isCast_of_jumpsInto
    {Memory : Type}
    {method : Method}
    {analysis : FlowAnalysis}
    {hierarchy : Hierarchy}
    {convention : Convention Memory}
    {place : Place}
    {call : Nat}
    {before after : Memory}
    {site : LambdaSite}
    (read : readSite method analysis hierarchy convention place call before =
      .ok site after)
    {index target : Nat}
    (jumpsInto : method.JumpsInto site index target) :
    target = site.call + 1 ∧ site.AbsorbsCast method := by
  have tiled := readSite_isTiled read
  obtain ⟨absorbsCast, spans, _, produced, spansFound, argumentsEq, callEq, stopEq⟩ :=
    readSite_eq_ok read
  have notInArguments : site.call < target := by
    by_contra notBeyond
    obtain ⟨span, member, isInto⟩ := tiled.tiles.exists_isInto jumpsInto.after_start (by omega)
    rw [argumentsEq] at member
    split at member
    · rw [List.mem_singleton.mp member] at isInto
      dsimp only at isInto
      omega
    · rename_i notEmpty
      obtain ⟨instruction, isInstruction, isTarget⟩ := jumpsInto.jumps
      have staysOnSide := staysOnSide_of_crossingJump?_eq_none
        (crossingJump?_of_callArguments spansFound span member) isInstruction isTarget
      have within := (tiled.tiles.within tiled.forward).2 span
        (by rw [argumentsEq, if_neg notEmpty]; exact member)
      have callLt := tiled.call_lt_stop
      have outside : span.contains index = false := by
        by_contra inside
        rw [Bool.not_eq_false, Span.contains_iff] at inside
        have insideSite : site.contains index = true :=
          Span.contains_iff.mpr ⟨Nat.le_trans within.1 inside.1,
            Nat.lt_of_lt_of_le inside.2 (Nat.le_of_lt (Nat.lt_of_le_of_lt within.2 callLt))⟩
        exact Bool.false_ne_true (jumpsInto.outside.symm.trans insideSite)
      unfold ClosureConversion.staysOnSide at staysOnSide
      rw [outside] at staysOnSide
      simp only [Bool.false_eq_true, if_false, Bool.or_eq_true, decide_eq_true_eq] at staysOnSide
      omega
  have beforeStop := jumpsInto.before_stop
  cases absorbsCast with
  | false =>
      rw [if_neg Bool.false_ne_true] at stopEq
      omega
  | true =>
      rw [if_pos rfl] at stopEq
      rw [← callEq] at produced stopEq
      exact ⟨by omega, stopEq, isCast_of_producedType? produced⟩

/-- The pass over the sites changes nothing of them but their parents. -/
theorem forall₂_of_linkFrom_eq_ok
    {place : Place}
    {number : Nat}
    {opened : List (LambdaSite × Nat)}
    {sites linked : List LambdaSite}
    (computed : linkFrom place number opened sites = .ok linked) :
    List.Forall₂ (fun site result => result = { site with parent := result.parent })
      sites linked := by
  induction sites generalizing number opened linked with
  | nil =>
      cases computed
      exact .nil
  | cons site sites inductionHypothesis =>
      obtain ⟨_, others, othersLinked, rfl⟩ := linkFrom_cons_eq_ok computed
      exact .cons rfl (inductionHypothesis othersLinked)

/-- Every site is read from one of the calls; only its number and its parent are found
later. -/
theorem exists_readSite_of_mem
    {Memory : Type}
    {method : Method}
    {analysis : FlowAnalysis}
    {calls : List Nat}
    {firstId : Nat}
    {hierarchy : Hierarchy}
    {convention : Convention Memory}
    {place : Place}
    {before after : Memory}
    {sites : List LambdaSite}
    (detected : detectSites method analysis calls firstId hierarchy convention place before =
      .ok sites after)
    {site : LambdaSite}
    (member : site ∈ sites) :
    ∃ call ∈ calls, ∃ raw earlier later,
      readSite method analysis hierarchy convention (place.atLine (method.lineAt? call)) call
        earlier = .ok raw later ∧
      site = { raw with id := site.id, parent := site.parent } := by
  unfold detectSites at detected
  obtain ⟨read, _, readAll, detected⟩ := run_bind_eq_ok.mp detected
  obtain ⟨linked, _, linkedAll, detected⟩ := run_bind_eq_ok.mp detected
  obtain ⟨_, _, _, detected⟩ := run_bind_eq_ok.mp detected
  obtain ⟨rfl, _⟩ := run_pure_eq_ok.mp detected
  obtain ⟨position, found⟩ := List.getElem?_of_mem member
  rw [getElem?_numberFrom, Option.map_eq_some_iff] at found
  obtain ⟨result, resultFound, rfl⟩ := found
  have linkedEq : linkFrom place 0 [] (read.mergeSort LambdaSite.isBefore) = .ok linked :=
    (run_ofExcept_eq_ok.mp linkedAll).1
  obtain ⟨raw, isSorted, resultEq⟩ :=
    exists_mem_of_forall₂ (forall₂_of_linkFrom_eq_ok linkedEq) (List.mem_of_getElem? resultFound)
  obtain ⟨call, isCall, earlier, later, siteRead⟩ :=
    exists_mem_of_forall₂ (forall₂_of_run_mapM_eq_ok readAll) (List.mem_mergeSort.mp isSorted)
  refine ⟨call, isCall, raw, earlier, later, siteRead, ?_⟩
  rw [resultEq]

/-- A jump from outside into a detected site leads to the cast that the site takes in. -/
theorem isCast_of_jumpsInto_detected
    {Memory : Type}
    {method : Method}
    {analysis : FlowAnalysis}
    {calls : List Nat}
    {firstId : Nat}
    {hierarchy : Hierarchy}
    {convention : Convention Memory}
    {place : Place}
    {before after : Memory}
    {sites : List LambdaSite}
    (detected : detectSites method analysis calls firstId hierarchy convention place before =
      .ok sites after)
    {site : LambdaSite}
    (member : site ∈ sites)
    {index target : Nat}
    (jumpsInto : method.JumpsInto site index target) :
    target = site.call + 1 ∧ site.AbsorbsCast method := by
  obtain ⟨call, _, raw, earlier, later, read, equal⟩ := exists_readSite_of_mem detected member
  rw [equal] at jumpsInto ⊢
  have intoRaw : method.JumpsInto raw index target :=
    ⟨jumpsInto.outside, jumpsInto.jumps, jumpsInto.after_start, jumpsInto.before_stop⟩
  obtain ⟨isNext, absorbs⟩ := isCast_of_jumpsInto read intoRaw
  exact ⟨isNext, absorbs.stop, absorbs.isCast⟩

/-- No jump from outside leads between the start and the end of a site if and only if none
leads to a cast that a site takes in. -/
theorem detectSites_singleEntry_iff
    {Memory : Type}
    {method : Method}
    {analysis : FlowAnalysis}
    {calls : List Nat}
    {firstId : Nat}
    {hierarchy : Hierarchy}
    {convention : Convention Memory}
    {place : Place}
    {before after : Memory}
    {sites : List LambdaSite}
    (detected : detectSites method analysis calls firstId hierarchy convention place before =
      .ok sites after) :
    (∀ site ∈ sites, ∀ index target, ¬method.JumpsInto site index target) ↔
      ∀ site ∈ sites, site.AbsorbsCast method → ∀ index instruction,
        method.instructions[index]? = some instruction → site.contains index = false →
        site.call + 1 ∉ instruction.targets := by
  constructor
  · intro noneEnters site member absorbs index instruction isInstruction outside isTarget
    obtain ⟨sorted, isDetected⟩ := detectSites_isDetected detected
    have startLe := (isDetected.isTiled member).start_le_call
    refine noneEnters site member index (site.call + 1)
      ⟨outside, ⟨instruction, isInstruction, isTarget⟩, by omega, ?_⟩
    rw [absorbs.stop]
    omega
  · intro castsNotEntered site member index target jumpsInto
    obtain ⟨rfl, absorbs⟩ := isCast_of_jumpsInto_detected detected member jumpsInto
    obtain ⟨instruction, isInstruction, isTarget⟩ := jumpsInto.jumps
    exact castsNotEntered site member absorbs index instruction isInstruction jumpsInto.outside
      isTarget

/-! ## A cast after a conditional -/

namespace CastAfterJoin

/-- The type that the result is cast to. -/
def supplier : BinaryName := ⟨"choice/Supplier", by decide⟩

/-- A factory whose declared result is any object. -/
def factory : MethodRef where
  owner := .object ⟨"choice/Factories", by decide⟩
  name := ⟨"generic", by decide⟩
  type := ⟨[.ref (.object .object)], some (.ref (.object .object))⟩
  ofInterface := false

/-- A conditional with a cast after it. If its branches meet at the call, it is the argument
of the call: `(Supplier) generic(c ? other : null)`. If they meet at the cast, the call is in
one branch: `(Supplier) (c ? other : generic(null))`. -/
def method (join : Nat) : Method where
  instructions := #[
    .load .int 0,
    .branch (.zero .equal) 4,
    .load .reference 1,
    .goto join,
    .op .pushNull,
    .invoke .static factory,
    .checkCast (.object supplier),
    .op (.leave (some .reference))]
  localVariables := #[⟨0, 8, ⟨"condition", by decide⟩, .base .boolean, 0⟩,
    ⟨0, 8, ⟨"other", by decide⟩, .ref (.object .object), 1⟩]
  lines := #[⟨0, 10⟩]
  owner := ⟨"choice/Demo", by decide⟩
  flags := MethodFlags.accStatic
  name := ⟨"choose", by decide⟩
  type := ⟨[.base .boolean, .ref (.object .object)], some (.ref (.object supplier))⟩
  hasVariableTable := true
  maxLocals := 2

/-- The convention that takes every method for a factory and no field for a parameter. -/
def convention : Convention Unit := ⟨fun _ _ _ _ => pure true, fun _ _ _ => pure false⟩

/-- The site, which begins with the first instruction of the argument. -/
def site (start : Nat) : LambdaSite where
  id := 0
  line := some 10
  factory := factory
  target := supplier
  parameters := []
  body := ⟨start, 5⟩
  call := 5
  stop := 7
  parent := none

/-- The frames of the method, with what the factory is given. -/
def frames (argument : VType) : FlowAnalysis where
  frames := #[
    some ⟨[.int, .object (.object .object)], []⟩,
    some ⟨[.int, .object (.object .object)], [.int]⟩,
    some ⟨[.int, .object (.object .object)], []⟩,
    some ⟨[.int, .object (.object .object)], [.object (.object .object)]⟩,
    some ⟨[.int, .object (.object .object)], []⟩,
    some ⟨[.int, .object (.object .object)], [argument]⟩,
    some ⟨[.int, .object (.object .object)], [.object (.object .object)]⟩,
    some ⟨[.int, .object (.object .object)], [.object (.object supplier)]⟩]
  maxStack := 1
  maxLocals := 2

end CastAfterJoin

open CastAfterJoin in
/-- Where the whole conditional is the argument, its jumps are inside the site. -/
theorem castAfterCall_singleEntry :
    (method 5).analyze .core = .ok (frames (.object (.object .object))) ∧
      detectSites (method 5) (frames (.object (.object .object))) [5] 0 .core convention .unknown
        () = .ok [site 0] () ∧
      ∀ index target, ¬(method 5).JumpsInto (site 0) index target := by
  have analyzed : (method 5).analyze .core = .ok (frames (.object (.object .object))) := by
    decide +kernel
  have detected : detectSites (method 5) (frames (.object (.object .object))) [5] 0 .core
      convention .unknown () = .ok [site 0] () := by
    cbv
  refine ⟨analyzed, detected, ?_⟩
  refine (detectSites_singleEntry_iff detected).mpr ?_ (site 0) List.mem_cons_self
  intro other member _ index instruction isInstruction outside isTarget
  rw [List.mem_singleton.mp member] at outside isTarget
  -- Only the last instruction is outside the site.
  have isLast : index = 7 := by
    have inside : index < 8 := (Array.getElem?_eq_some_iff.mp isInstruction).1
    have notContained : ¬(site 0).contains index = true := by
      rw [outside]
      exact Bool.false_ne_true
    have notBefore : ¬(0 ≤ index ∧ index < 7) := fun before =>
      notContained (Span.contains_iff.mpr before)
    omega
  subst isLast
  cases isInstruction
  cases isTarget

open CastAfterJoin in
/-- Where the branches meet at the cast, the jump of the other branch leads into the site, and
whatever the class of the closure is called, it leads past the cast afterwards. -/
theorem castAfterJoin_isEntered :
    (method 6).analyze .core = .ok (frames .null) ∧
      detectSites (method 6) (frames .null) [5] 0 .core convention .unknown () =
        .ok [site 4] () ∧
      (method 6).JumpsInto (site 4) 3 6 ∧
      (method 6).instructions[6]? = some (.checkCast (.object supplier)) ∧
      ∀ implemented className, ∃ rewritten,
        (method 6).rewrite ⟨[⟨site 4, {}, implemented, className⟩], []⟩ .unknown =
          .ok rewritten ∧
        rewritten.instructions[3]? = some (.goto 7) ∧
        rewritten.instructions[7]? = some (.op (.leave (some .reference))) := by
  refine ⟨by decide +kernel, by cbv, ⟨rfl, ⟨_, rfl, List.mem_cons_self⟩, by decide, by decide⟩, rfl,
    ?_⟩
  intro implemented className
  refine ⟨_, by with_unfolding_all rfl, ?_, ?_⟩
  · rfl
  · rfl

end ClosureConversion
