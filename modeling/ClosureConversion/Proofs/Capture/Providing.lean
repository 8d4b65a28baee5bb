import ClosureConversion.Proofs.Capture.Coverage

/-!
Contract: what a site captures is there in the site around it.

Owns:
- whether a variable is one of a site itself: a parameter, or a variable that it declares;
- the slots that a site keeps are in order, and wide enough for each value that was noted;
- each step of the walk over the code of a site keeps the captures apart, and misses no variable
  that a site inside captures;
- what is settled about a site: its captures are apart, a variable that a site inside captures is
  kept in a box by both or by neither, and every value that the code of the site accesses in a slot
  of its own has room there.

Does not own: the code that hands the variables on.
-/

namespace ClosureConversion

/-- Whether a variable is one of the closure of the site itself. -/
def LambdaSite.owns (site : LambdaSite) (number : Nat) : VariableKey → Bool
  | .this => false
  | .local _ start => site.declares start
  | .parameter binder _ => binder = number

/-! ## Slots -/

/-- Among the slots that are kept, with whether each of them takes two, one has room for values of
so many slots. -/
def KeepsSlot (internal : List (UInt16 × Bool)) (slot : UInt16) (slots : Nat) : Prop :=
  ∃ wide, (slot, wide) ∈ internal ∧ slots ≤ if wide then 2 else 1

section Slots

variable {internal : List (UInt16 × Bool)} {slot other : UInt16} {wide : Bool} {slots : Nat}

/-- A slot that is noted has room for what it was noted for. -/
theorem keepsSlot_insertSlot
    (fits : slots ≤ if wide then 2 else 1) :
    KeepsSlot (insertSlot slot wide internal) slot slots := by
  fun_induction insertSlot slot wide internal with
  | case1 => exact ⟨wide, List.mem_cons_self, fits⟩
  | case2 => exact ⟨wide, List.mem_cons_self, fits⟩
  | case3 firstWide rest notBefore =>
      refine ⟨firstWide || wide, List.mem_cons_self, ?_⟩
      cases firstWide <;> cases wide <;> simp at fits ⊢ <;> omega
  | case4 first firstWide rest notBefore different inductionHypothesis =>
      obtain ⟨kept, member, enough⟩ := inductionHypothesis
      exact ⟨kept, List.mem_cons_of_mem _ member, enough⟩

/-- Slots keep the room that they have. -/
theorem KeepsSlot.insertSlot
    (keeps : KeepsSlot internal other slots)
    (slot : UInt16)
    (wide : Bool) :
    KeepsSlot (ClosureConversion.insertSlot slot wide internal) other slots := by
  fun_induction ClosureConversion.insertSlot slot wide internal with
  | case1 =>
      obtain ⟨_, member, _⟩ := keeps
      cases member
  | case2 =>
      obtain ⟨kept, member, enough⟩ := keeps
      exact ⟨kept, List.mem_cons_of_mem _ member, enough⟩
  | case3 firstWide rest notBefore =>
      obtain ⟨kept, member, enough⟩ := keeps
      rcases List.mem_cons.mp member with isFirst | isLater
      · cases isFirst
        refine ⟨firstWide || wide, List.mem_cons_self, ?_⟩
        cases firstWide <;> cases wide <;> simp at enough ⊢ <;> omega
      · exact ⟨kept, List.mem_cons_of_mem _ isLater, enough⟩
  | case4 first firstWide rest notBefore different inductionHypothesis =>
      obtain ⟨kept, member, enough⟩ := keeps
      rcases List.mem_cons.mp member with isFirst | isLater
      · exact ⟨kept, isFirst ▸ List.mem_cons_self, enough⟩
      · obtain ⟨keptLater, stays, enoughLater⟩ := inductionHypothesis ⟨kept, isLater, enough⟩
        exact ⟨keptLater, List.mem_cons_of_mem _ stays, enoughLater⟩

/-- Slots stay in order, so that each of them is kept once. -/
theorem pairwise_insertSlot
    (ordered : (internal.map Prod.fst).Pairwise (· < ·))
    (slot : UInt16)
    (wide : Bool) :
    ((insertSlot slot wide internal).map Prod.fst).Pairwise (· < ·) := by
  fun_induction insertSlot slot wide internal with
  | case1 => simp
  | case2 first firstWide rest isBefore =>
      rw [List.map_cons, List.pairwise_cons]
      refine ⟨fun other member => ?_, ordered⟩
      rcases List.mem_cons.mp member with rfl | isLater
      · exact isBefore
      · exact UInt16.lt_trans isBefore ((List.pairwise_cons.mp ordered).1 other isLater)
  | case3 => exact ordered
  | case4 first firstWide rest notBefore different inductionHypothesis =>
      obtain ⟨after, orderedRest⟩ := List.pairwise_cons.mp ordered
      rw [List.map_cons, List.pairwise_cons]
      refine ⟨fun other member => ?_, inductionHypothesis orderedRest⟩
      rcases SiteUse.mem_insertSlot.mp member with isOld | rfl
      · exact after other isOld
      · exact UInt16.lt_of_le_of_ne (UInt16.not_lt.mp notBefore) (Ne.symm different)

end Slots

/-! ## What a site uses -/

namespace SiteUse

/-- A capture of a parameter has the type of the field that stands for it. -/
def IsTyped (captured : Capture) : Prop :=
  ∀ binder field, captured.key = .parameter binder field → captured.type = field.type

/-- The captures are of different variables, the only parameters that the site provides are its
own, and the slots that it keeps are in order. -/
structure IsTidy (use : SiteUse) (number : Nat) : Prop where
  apart : use.keys.Nodup
  typed : ∀ captured ∈ use.captures, IsTyped captured
  own : ∀ binder field, .parameter binder field ∈ use.provided → binder = number
  ordered : (use.internal.map Prod.fst).Pairwise (· < ·)

/-- The site provides a variable that a site inside captures, or captures it as well. A variable of
its own has room in its slot. -/
structure Provides (use : SiteUse) (site : LambdaSite) (number : Nat) (captured : Capture) :
    Prop where
  known : captured.key ∈ if site.owns number captured.key then use.provided else use.keys
  hasRoom : ∀ slot start, captured.key = .local slot start → site.declares start = true →
    KeepsSlot use.internal slot (width captured.type)

/-- What was found is kept, and stays tidy. -/
structure Extends (number : Nat) (use next : SiteUse) : Prop where
  keys : use.keys ⊆ next.keys
  provided : use.provided ⊆ next.provided
  keeps : ∀ slot slots, KeepsSlot use.internal slot slots → KeepsSlot next.internal slot slots
  tidy : use.IsTidy number → next.IsTidy number

variable {method : Method} {sites : List LambdaSite} {site : LambdaSite} {number : Nat}
  {use next last : SiteUse} {captured : Capture} {key : VariableKey}

theorem isTidy_empty :
    IsTidy {} number :=
  ⟨List.nodup_nil, by simp, by simp, .nil⟩

theorem Extends.refl
    (use : SiteUse) :
    Extends number use use :=
  ⟨fun _ => id, fun _ => id, fun _ _ => id, id⟩

theorem Extends.trans
    (first : Extends number use next)
    (second : Extends number next last) :
    Extends number use last :=
  ⟨List.Subset.trans first.keys second.keys, List.Subset.trans first.provided second.provided,
    fun slot slots keeps => second.keeps slot slots (first.keeps slot slots keeps),
    second.tidy ∘ first.tidy⟩

theorem Provides.of_extends
    (provides : use.Provides site number captured)
    (isExtended : Extends number use next) :
    next.Provides site number captured := by
  refine ⟨?_, fun slot start isKey declares =>
    isExtended.keeps _ _ (provides.hasRoom slot start isKey declares)⟩
  have known := provides.known
  cases owns : site.owns number captured.key with
  | true =>
      rw [owns] at known
      exact isExtended.provided known
  | false =>
      rw [owns] at known
      exact isExtended.keys known

theorem extends_capture
    (typed : IsTyped captured) :
    Extends number use (use.capture captured) := by
  unfold SiteUse.capture
  split
  · exact .refl use
  · rename_i isNew
    have isNew : captured.key ∉ use.keys := by
      intro member
      obtain ⟨other, isOther, sameKey⟩ := List.mem_map.mp member
      exact isNew (List.any_eq_true.mpr ⟨other, isOther, decide_eq_true sameKey⟩)
    have keys : SiteUse.keys { use with captures := use.captures ++ [captured] } =
        use.keys ++ [captured.key] := by simp [SiteUse.keys]
    refine ⟨keys ▸ List.subset_append_left _ _, fun _ => id, fun _ _ => id,
      fun tidy => ⟨?_, ?_, tidy.own, tidy.ordered⟩⟩
    · rw [keys]
      exact List.nodup_append_comm.mp (List.nodup_cons.mpr ⟨isNew, tidy.apart⟩)
    · intro other member
      rcases List.mem_append.mp member with isOld | isLast
      · exact tidy.typed other isOld
      · exact List.mem_singleton.mp isLast ▸ typed

theorem key_mem_capture
    (use : SiteUse)
    (captured : Capture) :
    captured.key ∈ (use.capture captured).keys :=
  meets_capture.mpr (.inr rfl)

theorem extends_provide
    (use : SiteUse)
    (own : ∀ binder field, key = .parameter binder field → binder = number) :
    Extends number use (use.provide key) := by
  unfold provide
  split
  · exact .refl use
  · refine ⟨fun _ => id, List.subset_append_left _ _, fun _ _ => id,
      fun tidy => ⟨tidy.apart, tidy.typed, ?_, tidy.ordered⟩⟩
    intro binder field member
    rcases List.mem_append.mp member with isOld | isLast
    · exact tidy.own binder field isOld
    · exact own binder field (List.mem_singleton.mp isLast).symm

theorem key_mem_provide
    (use : SiteUse)
    (key : VariableKey) :
    key ∈ (use.provide key).provided := by
  unfold provide
  split
  · rename_i isKnown
    exact List.contains_iff_mem.mp isKnown
  · exact List.mem_append_right _ List.mem_cons_self

theorem extends_keep
    (slot : UInt16)
    (wide : Bool) :
    Extends number use (use.keep slot wide) :=
  ⟨fun _ => id, fun _ => id, fun _ _ keeps => keeps.insertSlot slot wide,
    fun tidy => ⟨tidy.apart, tidy.typed, tidy.own, pairwise_insertSlot tidy.ordered slot wide⟩⟩

theorem extends_write
    (key : VariableKey) :
    Extends number use (use.write key) :=
  ⟨fun _ => id, fun _ => id, fun _ _ => id,
    fun tidy => ⟨tidy.apart, tidy.typed, tidy.own, tidy.ordered⟩⟩

/-! ## Steps of the walk -/

theorem foldCapture_of_not_owns
    (notOwn : site.owns number captured.key = false) :
    use.foldCapture site number captured = use.capture captured := by
  unfold foldCapture
  cases isKey : captured.key with
  | this => rfl
  | «local» slot start =>
      rw [isKey] at notOwn
      exact if_neg (ne_true_of_eq_false notOwn)
  | parameter binder field =>
      rw [isKey] at notOwn
      exact if_neg (of_decide_eq_false notOwn)

/-- A variable of the site itself is provided, and a slot that holds one is kept. -/
theorem foldCapture_of_owns
    (use : SiteUse)
    (isOwn : site.owns number captured.key = true) :
    (∃ field, captured.key = .parameter number field ∧
        use.foldCapture site number captured = use.provide captured.key) ∨
      ∃ slot start, captured.key = .local slot start ∧
        use.foldCapture site number captured =
          (use.provide captured.key).keep slot captured.type.isWide := by
  unfold foldCapture
  cases isKey : captured.key with
  | this =>
      rw [isKey] at isOwn
      cases isOwn
  | «local» slot start =>
      rw [isKey] at isOwn
      exact .inr ⟨slot, start, rfl, if_pos isOwn⟩
  | parameter binder field =>
      rw [isKey] at isOwn
      have isNumber : binder = number := of_decide_eq_true isOwn
      exact .inl ⟨field, by rw [isNumber], if_pos isNumber⟩

theorem extends_foldCapture
    (use : SiteUse)
    (site : LambdaSite)
    (number : Nat)
    (typed : IsTyped captured) :
    Extends number use (use.foldCapture site number captured) ∧
      (use.foldCapture site number captured).Provides site number captured := by
  cases isOwn : site.owns number captured.key with
  | false =>
      rw [foldCapture_of_not_owns isOwn]
      refine ⟨extends_capture typed, ?_, fun slot start isKey declares => ?_⟩
      · rw [isOwn]
        exact key_mem_capture use captured
      · rw [isKey, LambdaSite.owns, declares] at isOwn
        cases isOwn
  | true =>
      have own : ∀ binder field, captured.key = .parameter binder field → binder = number := by
        intro binder field isKey
        rw [isKey] at isOwn
        exact of_decide_eq_true isOwn
      have provided := extends_provide use own
      rcases foldCapture_of_owns use isOwn with ⟨field, isKey, equal⟩ | ⟨slot, start, isKey, equal⟩
      · rw [equal]
        refine ⟨provided, ?_, fun slot start isLocal => ?_⟩
        · rw [isOwn]
          exact key_mem_provide use _
        · cases isKey.symm.trans isLocal
      · rw [equal]
        refine ⟨provided.trans (extends_keep slot _), ?_, fun other from_ isLocal _ => ?_⟩
        · rw [isOwn]
          exact key_mem_provide use _
        · cases isKey.symm.trans isLocal
          exact keepsSlot_insertSlot (Nat.le_refl _)

theorem extends_foldNested
    (use : SiteUse)
    (site : LambdaSite)
    (number : Nat)
    {nested : SiteUse}
    (typed : ∀ captured ∈ nested.captures, IsTyped captured) :
    Extends number use (use.foldNested site number nested) ∧
      ∀ captured ∈ nested.captures,
        (use.foldNested site number nested).Provides site number captured := by
  unfold foldNested
  generalize nested.captures = captures at typed
  induction captures generalizing use with
  | nil => exact ⟨.refl use, by simp⟩
  | cons captured captures inductionHypothesis =>
      obtain ⟨extendsFirst, provides⟩ :=
        extends_foldCapture use site number (typed captured List.mem_cons_self)
      obtain ⟨extendsRest, providesRest⟩ :=
        inductionHypothesis (use.foldCapture site number captured)
          fun other member => typed other (List.mem_cons_of_mem _ member)
      exact ⟨extendsFirst.trans extendsRest,
        List.forall_mem_cons.mpr ⟨provides.of_extends extendsRest, providesRest⟩⟩

theorem extends_useLocal
    {index : Nat}
    {access : LocalAccess}
    (used : useLocal method site index access use = .ok next) :
    Extends number use next ∧
      (accessNeed method site index access = .keep access.slot →
        KeepsSlot next.internal access.slot access.kind.slots) := by
  have fits : ∀ wide, access.kind.slots ≤
      if (wide || decide (access.kind.slots = 2)) = true then 2 else 1 := by
    intro wide
    cases wide <;> cases access.kind <;> decide
  unfold useLocal at used
  unfold accessNeed
  cases means : method.variableUse access.slot index access.mode with
  | this =>
      rw [means] at used
      cases used
      exact ⟨extends_capture fun _ _ isKey => (by cases isKey), nofun⟩
  | declared entry =>
      rw [means] at used
      dsimp only at used ⊢
      split at used
      · split at used
        · cases used
        · cases used
          exact ⟨extends_keep _ _, fun _ => keepsSlot_insertSlot (fits _)⟩
      · rw [if_neg ‹_›]
        cases used
        exact ⟨extends_capture fun _ _ isKey => (by cases isKey), nofun⟩
  | parameter slot =>
      rw [means] at used
      dsimp only at used
      split at used
      · cases used
        exact ⟨extends_capture fun _ _ isKey => (by cases isKey), nofun⟩
      · cases used
  | unknown =>
      rw [means] at used
      dsimp only at used
      split at used
      · cases used
        exact ⟨extends_keep _ _, fun _ => keepsSlot_insertSlot (fits false)⟩
      · cases used

theorem extends_useParameter
    {inDefault isWrite : Bool}
    {field : FieldRef}
    (used : useParameter sites number inDefault field isWrite use = .ok next) :
    Extends number use next := by
  unfold useParameter at used
  split at used
  · cases used
  · rename_i binder _
    split at used
    · cases used
    · have bound : Extends number use
          (if binder = number then use else use.capture (boundCapture binder field)) := by
        split
        · exact .refl use
        · refine extends_capture fun _ _ isKey => ?_
          cases isKey
          rfl
      cases used
      split
      · exact bound.trans (extends_write _)
      · exact bound

end SiteUse

/-! ## The walk -/

section Walk

variable {Memory : Type} {method : Method} {sites : List LambdaSite} {hierarchy : Hierarchy}
  {convention : Convention Memory} {site : LambdaSite} {number : Nat} {place : Place}
  {before after : Memory} {use next : SiteUse} {known others : Array SiteUse} {inDefault : Bool}

theorem extends_useField
    {instruction : Instruction Nat}
    (used : useField sites hierarchy convention number inDefault place instruction use before =
      .ok next after) :
    SiteUse.Extends number use next := by
  unfold useField at used
  cases isField : staticField? instruction with
  | some access =>
      obtain ⟨field, isWrite⟩ := access
      rw [isField] at used
      obtain ⟨decided, _, _, used⟩ := run_bind_eq_ok.mp used
      cases decided with
      | true =>
          exact SiteUse.extends_useParameter (mapError_eq_ok.mp (run_ofExcept_eq_ok.mp used).1)
      | false =>
          obtain ⟨rfl, _⟩ := run_pure_eq_ok.mp used
          exact .refl use
  | none =>
      rw [isField] at used
      cases leaves : isReturn instruction with
      | true =>
          rw [leaves] at used
          cases used
      | false =>
          rw [leaves] at used
          obtain ⟨rfl, _⟩ := run_pure_eq_ok.mp used
          exact .refl use

/-- A value that the instruction of an index accesses in a slot of the site has room there. -/
def HasRoomAt (method : Method) (site : LambdaSite) (index : Nat)
    (internal : List (UInt16 × Bool)) : Prop :=
  ∀ instruction access, method.instructions[index]? = some instruction →
    instruction.localAccess? = some access →
    accessNeed method site index access = .keep access.slot →
      KeepsSlot internal access.slot access.kind.slots

theorem HasRoomAt.of_extends
    {index : Nat}
    (hasRoom : HasRoomAt method site index use.internal)
    (isExtended : SiteUse.Extends number use next) :
    HasRoomAt method site index next.internal :=
  fun instruction access isInstruction isAccess keeps =>
    isExtended.keeps _ _ (hasRoom instruction access isInstruction isAccess keeps)

theorem extends_useInstruction
    {index : Nat}
    (used : useInstruction method sites hierarchy convention site number inDefault place use index
      before = .ok next after) :
    SiteUse.Extends number use next ∧ HasRoomAt method site index next.internal := by
  cases isInstruction : method.instructions[index]? with
  | none =>
      unfold useInstruction at used
      rw [isInstruction] at used
      obtain ⟨rfl, _⟩ := run_pure_eq_ok.mp used
      refine ⟨.refl use, fun instruction access isThere => ?_⟩
      rw [isInstruction] at isThere
      cases isThere
  | some instruction =>
      rw [useInstruction_eq isInstruction] at used
      obtain ⟨first, _, isFirst, used⟩ := run_bind_eq_ok.mp used
      have extendsFirst : SiteUse.Extends number use first ∧
          HasRoomAt method site index first.internal := by
        cases isAccess : instruction.localAccess? with
        | some access =>
            rw [isAccess] at isFirst
            obtain ⟨isExtended, keeps⟩ :=
              SiteUse.extends_useLocal (mapError_eq_ok.mp (run_ofExcept_eq_ok.mp isFirst).1)
            refine ⟨isExtended, fun other otherAccess isThere isOther => ?_⟩
            cases isInstruction.symm.trans isThere
            cases isAccess.symm.trans isOther
            exact keeps
        | none =>
            rw [isAccess] at isFirst
            obtain ⟨rfl, _⟩ := run_pure_eq_ok.mp isFirst
            refine ⟨.refl use, fun other access isThere isOther => ?_⟩
            cases isInstruction.symm.trans isThere
            cases isAccess.symm.trans isOther
      have extendsLast : SiteUse.Extends number first next := extends_useField used
      exact ⟨extendsFirst.1.trans extendsLast, extendsFirst.2.of_extends extendsLast⟩

/-- A walk along a list finds all that its steps find, if what is found once stays. -/
theorem extends_foldlM
    {α : Type}
    {values : List α}
    {step : SiteUse → α → Deciding Memory SiteUse}
    (Finds : α → SiteUse → Prop)
    (kept : ∀ value use next, SiteUse.Extends number use next → Finds value use →
      Finds value next)
    (each : ∀ value ∈ values, ∀ (use next : SiteUse) (earlier later : Memory),
      step use value earlier = .ok next later →
        SiteUse.Extends number use next ∧ Finds value next)
    (computed : values.foldlM step use before = .ok next after) :
    SiteUse.Extends number use next ∧ ∀ value ∈ values, Finds value next := by
  refine run_foldlM_induction (fun done reached _ =>
    SiteUse.Extends number use reached ∧ ∀ value ∈ done, Finds value reached) ?_
    ⟨.refl use, by simp⟩ computed
  rintro done value rest reached next earlier later split ⟨extendsDone, finds⟩ stepped
  obtain ⟨extendsLast, findsLast⟩ :=
    each value (by simp [split]) reached next earlier later stepped
  refine ⟨extendsDone.trans extendsLast, fun other member => ?_⟩
  rcases List.mem_append.mp member with isDone | isLast
  · exact kept other reached next extendsLast (finds other isDone)
  · exact List.mem_singleton.mp isLast ▸ findsLast

/-- The site provides what a site that is a piece of its code captures, and an instruction that is
one has room in the slots of the site. -/
def ProvidesPiece (method : Method) (known : Array SiteUse) (site : LambdaSite) (number : Nat)
    (piece : Piece) (use : SiteUse) : Prop :=
  match piece with
  | .site nested _ => ∀ captured ∈ (known.getD nested {}).captures,
      use.Provides site number captured
  | .instruction index => HasRoomAt method site index use.internal

theorem ProvidesPiece.of_extends
    {piece : Piece}
    (provides : ProvidesPiece method known site number piece use)
    (isExtended : SiteUse.Extends number use next) :
    ProvidesPiece method known site number piece next := by
  cases piece with
  | site nested span => exact fun captured member => (provides captured member).of_extends isExtended
  | instruction index => exact HasRoomAt.of_extends provides isExtended

/-- What is known about the sites that come after a site is tidy. -/
def AreTyped (known : Array SiteUse) (number : Nat) : Prop :=
  ∀ nested, number < nested → ∀ captured ∈ (known.getD nested {}).captures,
    SiteUse.IsTyped captured

theorem extends_useSpan
    (ordered : ParentsFirst sites)
    (areTyped : AreTyped known number)
    {span : Span}
    (used : useSpan method sites hierarchy convention known site number inDefault place use span
      before = .ok next after) :
    SiteUse.Extends number use next ∧ ∀ piece ∈ piecesOf sites (some number) span,
      ProvidesPiece method known site number piece next := by
  refine extends_foldlM (ProvidesPiece method known site number)
    (fun _ _ _ isExtended provides => provides.of_extends isExtended) ?_ used
  intro piece isPiece use next earlier later stepped
  cases piece with
  | instruction index => exact extends_useInstruction stepped
  | site nested inner =>
      obtain ⟨rfl, _⟩ := run_pure_eq_ok.mp stepped
      obtain ⟨nestedSite, isNested, isParent, _, _⟩ := exists_site_of_mem_piecesFrom isPiece
      have isAfter := ordered nested nestedSite number isNested isParent
      exact SiteUse.extends_foldNested use site number (areTyped nested isAfter)

/-- A site is found to use what keeps its captures apart, and what it has to provide. -/
theorem isTidy_of_useOfSite
    (ordered : ParentsFirst sites)
    (areTyped : AreTyped known number)
    (used : useOfSite method sites hierarchy convention known site number place before =
      .ok next after) :
    next.IsTidy number ∧ ∀ span ∈ site.code, ∀ piece ∈ piecesOf sites (some number) span,
      ProvidesPiece method known site number piece next := by
  obtain ⟨defaults, _, isDefaults, used⟩ := run_bind_eq_ok.mp used
  obtain ⟨whole, _, isWhole, used⟩ := run_bind_eq_ok.mp used
  obtain ⟨extendsDefaults, providesDefaults⟩ := extends_foldlM
    (fun span reached => ∀ piece ∈ piecesOf sites (some number) span,
      ProvidesPiece method known site number piece reached)
    (fun _ _ _ isExtended provides piece isPiece => (provides piece isPiece).of_extends isExtended)
    (fun _ _ _ _ _ _ stepped => extends_useSpan ordered areTyped stepped) isDefaults
  obtain ⟨extendsBody, providesBody⟩ := extends_useSpan ordered areTyped isWhole
  cases unbound : site.parameters.findIdx? fun parameter => parameter.field.isNone with
  | some position =>
      rw [unbound] at used
      cases used
  | none =>
      rw [unbound] at used
      obtain ⟨rfl, _⟩ := run_pure_eq_ok.mp used
      refine ⟨extendsBody.tidy (extendsDefaults.tidy SiteUse.isTidy_empty),
        fun span isCode piece isPiece => ?_⟩
      rcases List.mem_append.mp isCode with isDefault | isBody
      · exact (providesDefaults span isDefault piece isPiece).of_extends extendsBody
      · exact providesBody piece (List.mem_singleton.mp isBody ▸ isPiece)

/-! ## All sites -/

theorem foldlM_congr
    {α β : Type}
    {values : List α}
    {step other : β → α → Deciding Memory β}
    (same : ∀ value ∈ values, ∀ reached, step reached value = other reached value)
    (start : β) :
    values.foldlM step start = values.foldlM other start := by
  induction values generalizing start with
  | nil => rfl
  | cons value values inductionHypothesis =>
      rw [List.foldlM_cons, List.foldlM_cons, same value List.mem_cons_self]
      congr 1
      funext reached
      exact inductionHypothesis (fun later member => same later (List.mem_cons_of_mem _ member))
        reached

/-- What a site uses depends on the sites that nest in it, which come after it. -/
theorem useOfSite_congr
    (ordered : ParentsFirst sites)
    (same : ∀ nested, number < nested → known.getD nested {} = others.getD nested {}) :
    useOfSite method sites hierarchy convention known site number place =
      useOfSite method sites hierarchy convention others site number place := by
  have sameSpan : ∀ inDefault,
      useSpan method sites hierarchy convention known site number inDefault place =
        useSpan method sites hierarchy convention others site number inDefault place := by
    intro inDefault
    funext use span
    refine foldlM_congr (fun piece isPiece reached => ?_) use
    cases piece with
    | instruction index => rfl
    | site nested inner =>
        obtain ⟨nestedSite, isNested, isParent, _, _⟩ := exists_site_of_mem_piecesFrom isPiece
        simp only [usePiece, same nested (ordered nested nestedSite number isNested isParent)]
  unfold useOfSite
  simp only [sameSpan]

/-- What is known of each of several sites is what it is found to use, given what is known. -/
structure AreFound (method : Method) (sites : List LambdaSite) (hierarchy : Hierarchy)
    (convention : Convention Memory) (place : Place) (done : List (LambdaSite × Nat))
    (known : Array SiteUse) : Prop where
  size : known.size = sites.length
  computed : ∀ entry ∈ done, ∃ earlier later,
    useOfSite method sites hierarchy convention known entry.1 entry.2 (place.atLine entry.1.line)
      earlier = .ok (known.getD entry.2 {}) later

/-- What is found out about one more site does not change what the sites after it use. -/
theorem AreFound.concat
    (ordered : ParentsFirst sites)
    {done rest : List (LambdaSite × Nat)}
    (areFound : AreFound method sites hierarchy convention place done known)
    (split : sites.zipIdx.reverse = done ++ (site, number) :: rest)
    (used : useOfSite method sites hierarchy convention known site number
      (place.atLine site.line) before = .ok use after) :
    AreFound method sites hierarchy convention place (done ++ [(site, number)])
      (known.setIfInBounds number use) := by
  have unchanged : ∀ position, number < position →
      (known.setIfInBounds number use).getD position {} = known.getD position {} := by
    intro position isAfter
    rw [getD_setIfInBounds, if_neg fun isHere => Nat.ne_of_gt isAfter isHere.1]
  have isHere : (known.setIfInBounds number use).getD number {} = use := by
    have isEntry : (site, number) ∈ sites.zipIdx := by
      rw [← List.mem_reverse, split]
      exact List.mem_append_right done List.mem_cons_self
    have below := (List.mem_zipIdx isEntry).2.1
    have size := areFound.size
    rw [getD_setIfInBounds, if_pos ⟨rfl, by omega⟩]
  have descending := pairwise_reverse_zipIdx sites
  rw [split] at descending
  refine ⟨by rw [Array.size_setIfInBounds, areFound.size], fun entry member => ?_⟩
  rcases List.mem_append.mp member with isEarlier | isLast
  · have isBefore : number < entry.2 :=
      (List.pairwise_append.mp descending).2.2 entry isEarlier (site, number) List.mem_cons_self
    obtain ⟨earlier, later, computed⟩ := areFound.computed entry isEarlier
    refine ⟨earlier, later, ?_⟩
    rw [unchanged _ isBefore, ← computed]
    exact congrFun (useOfSite_congr ordered fun nested isAfter =>
      unchanged nested (Nat.lt_trans isBefore isAfter)) earlier
  · obtain rfl := List.mem_singleton.mp isLast
    refine ⟨before, after, ?_⟩
    rw [isHere, ← used]
    exact congrFun (useOfSite_congr ordered unchanged) before

/-- In the end every site uses what it is found to use when all sites are known. -/
theorem areFound_of_usesOfSites
    (ordered : ParentsFirst sites)
    {uses : Array SiteUse}
    (found : usesOfSites method sites hierarchy convention place before = .ok uses after) :
    AreFound method sites hierarchy convention place sites.zipIdx uses := by
  have inReverse : AreFound method sites hierarchy convention place sites.zipIdx.reverse uses := by
    refine run_foldlM_induction (fun done (known : Array SiteUse) _ =>
      AreFound method sites hierarchy convention place done known) ?_ ⟨by simp, by simp⟩ found
    rintro done ⟨site, number⟩ rest known next earlier later split areFound stepped
    obtain ⟨use, between, used, stepped⟩ := run_bind_eq_ok.mp stepped
    obtain ⟨rfl, _⟩ := run_pure_eq_ok.mp stepped
    exact areFound.concat ordered split used
  exact ⟨inReverse.size, fun entry member => inReverse.computed entry (List.mem_reverse.mpr member)⟩

/-- Every site is found to use what keeps its captures apart. -/
theorem isTidy_of_usesOfSites
    (ordered : ParentsFirst sites)
    {uses : Array SiteUse}
    (found : usesOfSites method sites hierarchy convention place before = .ok uses after)
    (number : Nat) :
    (uses.getD number {}).IsTidy number := by
  have areFound := areFound_of_usesOfSites ordered found
  -- The induction is on how many sites come after the site: what nests in it is among them.
  induction others : sites.length - number using Nat.strong_induction_on generalizing number with
  | _ count inductionHypothesis =>
      cases isSite : sites[number]? with
      | none =>
          have isUnknown : uses[number]? = none := by
            rw [Array.getElem?_eq_none_iff, areFound.size]
            exact List.getElem?_eq_none_iff.mp isSite
          rw [Array.getD_eq_getD_getElem?, isUnknown]
          exact SiteUse.isTidy_empty
      | some site =>
          have below := (List.getElem?_eq_some_iff.mp isSite).1
          obtain ⟨earlier, later, used⟩ :=
            areFound.computed (site, number) (List.mk_mem_zipIdx_iff_getElem?.mpr isSite)
          refine (isTidy_of_useOfSite ordered (fun nested isAfter captured member => ?_) used).1
          exact (inductionHypothesis _ (by omega) nested rfl).typed captured member

/-- Every site provides what the pieces of its code need. -/
theorem providesPiece_of_usesOfSites
    (ordered : ParentsFirst sites)
    {uses : Array SiteUse}
    (found : usesOfSites method sites hierarchy convention place before = .ok uses after)
    (isSite : sites[number]? = some site)
    {span : Span}
    (isCode : span ∈ site.code)
    {piece : Piece}
    (isPiece : piece ∈ piecesOf sites (some number) span) :
    ProvidesPiece method uses site number piece (uses.getD number {}) := by
  obtain ⟨earlier, later, used⟩ := (areFound_of_usesOfSites ordered found).computed (site, number)
    (List.mk_mem_zipIdx_iff_getElem?.mpr isSite)
  exact (isTidy_of_useOfSite ordered (fun nested _ captured member =>
    (isTidy_of_usesOfSites ordered found nested).typed captured member) used).2 span isCode piece
      isPiece

end Walk

/-! ## What is settled -/

namespace SiteCaptures

/-- A site holds what a site inside it captures just as that takes it: its own parameters in boxes
if they are mutable, its own variables as they are, and else what it captures as well. -/
structure Provides (own : SiteCaptures) (site : LambdaSite) (number : Nat) (capture : Capture) :
    Prop where
  ownParameter : ∀ field, capture.key = .parameter number field →
    capture.type = field.type ∧ capture.mutable = own.boxedParameters.contains field
  ownVariable : ∀ slot start, capture.key = .local slot start → site.declares start = true →
    capture.mutable = false
  shared : site.owns number capture.key = false →
    ∃ other ∈ own.captures, other.key = capture.key ∧ other.mutable = capture.mutable

/-- What a piece of the code of a site accesses in slots of the site has room there, given what is
settled about all sites. -/
def HasRoomFor (own : SiteCaptures) (method : Method) (settled : List SiteCaptures)
    (site : LambdaSite) : Piece → Prop
  | .instruction index => HasRoomAt method site index own.internal
  | .site nested _ => ∀ inner, settled[nested]? = some inner → ∀ capture ∈ inner.captures,
      ∀ slot start, capture.key = .local slot start → site.declares start = true →
        KeepsSlot own.internal slot (width capture.type)

end SiteCaptures

section Settled

variable {use : SiteUse} {mutable : VariableKey → Bool} {settled : SiteCaptures}

theorem constructorOrder_perm
    (captures : List Capture) :
    (constructorOrder captures).Perm captures := by
  unfold constructorOrder
  simpa only [decide_not] using
    List.filter_append_perm (fun capture : Capture => decide (capture.origin = .parentParameter))
      captures

theorem map_key_of_markMutable
    {captures marked : List Capture}
    (isMarked : markMutable mutable captures = .ok marked) :
    marked.map Capture.key = captures.map Capture.key := by
  refine Eq.symm <| List.forall₂_eq_eq_eq ▸
    List.forall₂_map_left_iff.mpr (List.forall₂_map_right_iff.mpr ?_)
  exact (markMutable_eq_ok isMarked).imp fun _ _ isResult => by rw [isResult.1]

/-- The captures stay apart. -/
theorem nodup_keys_of_settle_eq_ok
    (apart : use.keys.Nodup)
    (computed : use.settle mutable = .ok settled) :
    settled.keys.Nodup := by
  unfold SiteUse.settle at computed
  obtain ⟨marked, isMarked, computed⟩ := bind_eq_ok.mp computed
  obtain ⟨boxed, _, computed⟩ := bind_eq_ok.mp computed
  cases computed
  have reordered := (constructorOrder_perm marked).map Capture.key
  exact reordered.nodup_iff.mpr (map_key_of_markMutable isMarked ▸ apart)

theorem boxedParameter?_eq_ok
    {key : VariableKey}
    {result : Option FieldRef}
    (computed : boxedParameter? mutable key = .ok result) :
    (∀ slot start, key = .local slot start → mutable key = false) ∧
      ∀ field, result = some field ↔
        ∃ binder, key = .parameter binder field ∧ mutable key = true := by
  unfold boxedParameter? at computed
  cases isMutable : mutable key with
  | false =>
      rw [isMutable] at computed
      cases computed
      simp
  | true =>
      rw [isMutable] at computed
      cases key with
      | «local» slot start => cases computed
      | this =>
          cases computed
          simp
      | parameter binder field =>
          cases computed
          simp

/-- No mutable variable of the site itself is provided, and the parameters that are provided get
boxes if they are mutable. -/
theorem provided_of_settle_eq_ok
    (computed : use.settle mutable = .ok settled) :
    (∀ slot start, .local slot start ∈ use.provided → mutable (.local slot start) = false) ∧
      ∀ field, field ∈ settled.boxedParameters ↔
        ∃ binder, .parameter binder field ∈ use.provided ∧
          mutable (.parameter binder field) = true := by
  unfold SiteUse.settle at computed
  obtain ⟨marked, _, computed⟩ := bind_eq_ok.mp computed
  obtain ⟨boxed, isBoxed, computed⟩ := bind_eq_ok.mp computed
  cases computed
  have related := (forall₂_of_mapM_eq_ok isBoxed).imp fun _ _ => boxedParameter?_eq_ok
  refine ⟨fun slot start member => ?_, fun field => ?_⟩
  · obtain ⟨_, _, notMutable, _⟩ := exists_mem_of_forall₂ related.flip member
    exact notMutable slot start rfl
  · rw [List.mem_filterMap]
    constructor
    · rintro ⟨result, member, isField⟩
      obtain ⟨key, isProvided, _, isBox⟩ := exists_mem_of_forall₂ related member
      obtain ⟨binder, rfl, isMutable⟩ := (isBox field).mp isField
      exact ⟨binder, isProvided, isMutable⟩
    · rintro ⟨binder, isProvided, isMutable⟩
      obtain ⟨result, member, _, isBox⟩ := exists_mem_of_forall₂ related.flip isProvided
      exact ⟨result, member, (isBox field).mpr ⟨binder, rfl, isMutable⟩⟩

end Settled

section Analyzed

variable {Memory : Type} {method : Method} {sites : List LambdaSite} {hierarchy : Hierarchy}
  {convention : Convention Memory} {place : Place} {before after : Memory}
  {captures : MethodCaptures}

/-- What is settled about the sites of a method comes from what they are found to use, by one
decision about the variables. -/
theorem exists_uses_of_analyzeCaptures
    (analyzed : analyzeCaptures method sites hierarchy convention place before =
      .ok captures after) :
    ∃ uses mutable, (∃ earlier later,
        usesOfSites method sites hierarchy convention place earlier = .ok uses later) ∧
      ∀ (position : Nat) (own : SiteCaptures), captures.sites[position]? = some own →
        (uses.getD position {}).settle mutable = .ok own := by
  unfold analyzeCaptures at analyzed
  split at analyzed
  · obtain ⟨rfl, rfl⟩ := run_pure_eq_ok.mp analyzed
    exact ⟨#[], fun _ => false, ⟨before, before, rfl⟩, by simp⟩
  · dsimp only at analyzed
    split at analyzed
    · cases analyzed
    · obtain ⟨uses, between, found, analyzed⟩ := run_bind_eq_ok.mp analyzed
      obtain ⟨settled, _, settledAll, analyzed⟩ := run_bind_eq_ok.mp analyzed
      obtain ⟨boxes, _, _, analyzed⟩ := run_bind_eq_ok.mp analyzed
      obtain ⟨rfl, _⟩ := run_pure_eq_ok.mp analyzed
      refine ⟨uses, isMutable method method.writtenVariables (uses.toList.flatMap SiteUse.written),
        ⟨_, between, found⟩, fun position own isOwn => ?_⟩
      obtain ⟨⟨lambda, use⟩, isZipped, _, _, isSettled⟩ :=
        exists_related_of_getElem? (forall₂_of_run_mapM_eq_ok settledAll) isOwn
      have isUse := (List.getElem?_zip_eq_some.mp isZipped).2
      rw [Array.getElem?_toList] at isUse
      rw [Array.getD_eq_getD_getElem?, isUse]
      exact mapError_eq_ok.mp (run_ofExcept_eq_ok.mp isSettled).1

/-- No site captures a variable twice. -/
theorem nodup_keys_of_analyzeCaptures
    (ordered : ParentsFirst sites)
    (analyzed : analyzeCaptures method sites hierarchy convention place before =
      .ok captures after)
    {own : SiteCaptures}
    (isOwn : own ∈ captures.sites) :
    own.keys.Nodup := by
  obtain ⟨uses, mutable, ⟨earlier, later, found⟩, settledFrom⟩ :=
    exists_uses_of_analyzeCaptures analyzed
  obtain ⟨number, isOwn⟩ := List.getElem?_of_mem isOwn
  exact nodup_keys_of_settle_eq_ok (isTidy_of_usesOfSites ordered found number).apart
    (settledFrom number own isOwn)

/-- What a site captures is there in the site whose code it is a piece of. -/
theorem provides_of_analyzeCaptures
    (ordered : ParentsFirst sites)
    (analyzed : analyzeCaptures method sites hierarchy convention place before =
      .ok captures after)
    {number nested : Nat}
    {site : LambdaSite}
    {span inside : Span}
    (isSite : sites[number]? = some site)
    (isCode : span ∈ site.code)
    (isPiece : .site nested inside ∈ piecesOf sites (some number) span)
    {own inner : SiteCaptures}
    (isOwn : captures.sites[number]? = some own)
    (isInner : captures.sites[nested]? = some inner)
    {capture : Capture}
    (isCapture : capture ∈ inner.captures) :
    own.Provides site number capture := by
  obtain ⟨uses, mutable, ⟨earlier, later, found⟩, settledFrom⟩ :=
    exists_uses_of_analyzeCaptures analyzed
  have settledOwn := settledFrom number own isOwn
  obtain ⟨unmarked, isUnmarked, rfl⟩ :=
    exists_mem_of_settle_eq_ok (settledFrom nested inner isInner) isCapture
  have tidy := isTidy_of_usesOfSites ordered found number
  have typed := (isTidy_of_usesOfSites ordered found nested).typed unmarked isUnmarked
  have provides := (providesPiece_of_usesOfSites ordered found isSite isCode isPiece unmarked
    isUnmarked).known
  obtain ⟨notMutable, isBox⟩ := provided_of_settle_eq_ok settledOwn
  refine ⟨fun field isKey => ⟨typed number field isKey, ?_⟩, fun slot start isKey declares => ?_,
    fun notOwn => ?_⟩
  · change unmarked.key = _ at isKey
    rw [isKey, LambdaSite.owns, decide_eq_true rfl, if_pos rfl] at provides
    have isBoxed : mutable unmarked.key = true ↔ field ∈ own.boxedParameters := by
      rw [isBox, isKey]
      refine ⟨fun isMutable => ⟨number, provides, isMutable⟩, ?_⟩
      rintro ⟨binder, isProvided, isMutable⟩
      rwa [tidy.own binder field isProvided] at isMutable
    rw [Bool.eq_iff_iff, List.contains_iff_mem]
    exact isBoxed
  · change unmarked.key = _ at isKey
    rw [isKey, LambdaSite.owns, if_pos declares] at provides
    rw [← notMutable slot start provides, ← isKey]
  · rw [if_neg (ne_true_of_eq_false notOwn)] at provides
    obtain ⟨other, isOther, sameKey⟩ :=
      List.mem_map.mp (((settle_eq_ok settledOwn).1 unmarked.key).mpr provides)
    refine ⟨other, isOther, sameKey, ?_⟩
    rw [mutable_of_settle_eq_ok settledOwn isOther, sameKey]

/-- A site keeps each of its slots once, with room for all that its code accesses there. -/
theorem hasRoom_of_analyzeCaptures
    (ordered : ParentsFirst sites)
    (analyzed : analyzeCaptures method sites hierarchy convention place before =
      .ok captures after)
    {number : Nat}
    {site : LambdaSite}
    (isSite : sites[number]? = some site)
    {own : SiteCaptures}
    (isOwn : captures.sites[number]? = some own) :
    (own.internal.map Prod.fst).Pairwise (· < ·) ∧
      ∀ span ∈ site.code, ∀ piece ∈ piecesOf sites (some number) span,
        own.HasRoomFor method captures.sites site piece := by
  obtain ⟨uses, mutable, ⟨earlier, later, found⟩, settledFrom⟩ :=
    exists_uses_of_analyzeCaptures analyzed
  have sameSlots : own.internal = (uses.getD number {}).internal :=
    (settle_eq_ok (settledFrom number own isOwn)).2.1
  rw [sameSlots]
  refine ⟨(isTidy_of_usesOfSites ordered found number).ordered,
    fun span isCode piece isPiece => ?_⟩
  have provides := providesPiece_of_usesOfSites ordered found isSite isCode isPiece
  cases piece with
  | instruction index =>
      unfold SiteCaptures.HasRoomFor
      rw [sameSlots]
      exact provides
  | site nested inner =>
      intro innerCaptures isInner capture isCapture slot start isKey declares
      obtain ⟨unmarked, isUnmarked, rfl⟩ :=
        exists_mem_of_settle_eq_ok (settledFrom nested innerCaptures isInner) isCapture
      rw [sameSlots]
      exact (provides unmarked isUnmarked).hasRoom slot start isKey declares

end Analyzed

end ClosureConversion
