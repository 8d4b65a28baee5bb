import Mathlib.Algebra.Group.Nat.Defs
import ClosureConversion.ClassFile.PoolReference
import ClosureConversion.Proofs.Computation
import ClosureConversion.Proofs.OffsetSeq

/-!
Contract: what stands in a constant pool after work on it.

Owns:
- pools whose positions tell their constants apart, of which the empty one and those of
  class files are examples;
- pools that extend another one, in which everything keeps its position;
- what a piece of work on a pool yields: a value that means something in the pool after
  it and in every pool that extends that one;
- that interning gives the same position again.

Does not own: how names, members and literals are read back from their constants.
-/

namespace ClosureConversion

namespace ConstantPool

/-- The positions tell the constants of the pool apart, and every recorded position is one
of its constant. -/
structure IsConsistent (pool : ConstantPool) : Prop where
  ordered : pool.constants.IsOrdered
  small : ∀ entry ∈ pool.constants.toList, entry.1 < 2 ^ 16
  recorded : ∀ (constant : Constant) (index : PoolIndex),
    pool.firstPositions[constant]? = some index →
      (index.toNat, constant) ∈ pool.constants.toList

/-- Everything in the earlier pool stands at the same position of the later one. -/
structure Extends (later earlier : ConstantPool) : Prop where
  constants : ∀ entry ∈ earlier.constants.toList, entry ∈ later.constants.toList
  positions : ∀ (constant : Constant) (index : PoolIndex),
    earlier.firstPositions[constant]? = some index →
      later.firstPositions[constant]? = some index
  bootstraps : earlier.bootstraps <+: later.bootstraps

theorem Extends.refl
    (pool : ConstantPool) :
    pool.Extends pool where
  constants _ member := member
  positions _ _ recorded := recorded
  bootstraps := List.prefix_refl _

theorem Extends.trans
    {last later earlier : ConstantPool}
    (extends_ : last.Extends later)
    (laterExtends : later.Extends earlier) :
    last.Extends earlier where
  constants entry member := extends_.constants entry (laterExtends.constants entry member)
  positions constant index recorded :=
    extends_.positions constant index (laterExtends.positions constant index recorded)
  bootstraps := laterExtends.bootstraps.trans extends_.bootstraps

/-! ## Consistent pools -/

theorem width_pos
    (constant : Constant) :
    0 < width constant := by
  change 0 < (if constant.isWide then 2 else 1)
  split <;> decide

theorem isConsistent_empty : empty.IsConsistent where
  ordered := OffsetSeq.isOrdered_startingAt 1
  small _ member := nomatch member
  recorded constant index recorded := by
    rw [empty, Std.HashMap.getElem?_empty] at recorded
    cases recorded

/-- A recorded position of a table is one of the constant. -/
theorem mem_of_positionsOf
    {table : ConstantTable}
    (small : ∀ entry ∈ table.toList, entry.1 < 2 ^ 16)
    {constant : Constant}
    {index : PoolIndex}
    (recorded : (positionsOf table)[constant]? = some index) :
    (index.toNat, constant) ∈ table.toList := by
  suffices general : ∀ (entries : List (Nat × Constant)) (positions : Std.HashMap Constant PoolIndex),
      (∀ entry ∈ entries, entry ∈ table.toList) →
      (∀ constant index, positions[constant]? = some index →
        (index.toNat, constant) ∈ table.toList) →
      ∀ constant index, (entries.foldl (fun positions entry =>
        positions.insertIfNew entry.2 entry.1.toUInt16) positions)[constant]? = some index →
        (index.toNat, constant) ∈ table.toList by
    unfold positionsOf at recorded
    rw [← Array.foldl_toList] at recorded
    refine general table.toList ∅ (fun _ member => member) ?_ constant index recorded
    intro other position recordedEarlier
    rw [Std.HashMap.getElem?_empty] at recordedEarlier
    cases recordedEarlier
  intro entries
  induction entries with
  | nil =>
      intro positions _ earlier
      exact earlier
  | cons entry entries inductionHypothesis =>
      intro positions members earlier
      rw [List.foldl_cons]
      apply inductionHypothesis _ fun other member => members other (List.mem_cons_of_mem _ member)
      intro other position recordedNow
      rw [Std.HashMap.getElem?_insertIfNew] at recordedNow
      split at recordedNow
      · rename_i isNew
        cases recordedNow
        have here := members entry List.mem_cons_self
        rw [UInt16.toNat_ofNat_of_lt' (small entry here), ← eq_of_beq isNew.1]
        exact here
      · exact earlier other position recordedNow

/-- The pool of a class file is consistent if its positions are. -/
theorem isConsistent_ofTable
    {table : ConstantTable}
    (ordered : table.IsOrdered)
    (small : ∀ entry ∈ table.toList, entry.1 < 2 ^ 16)
    (bootstraps : List BootstrapMethod) :
    (ofTable table bootstraps).IsConsistent where
  ordered := ordered
  small := small
  recorded _ _ recorded := mem_of_positionsOf small recorded

/-- Reading constants up to a bound leaves every one of them below it. -/
theorem isOrdered_of_readUpTo_eq_ok
    {bound fuel : Nat}
    {before after : ConstantTable}
    {bytes rest : Bytes}
    (ordered : before.IsOrdered)
    (below : ∀ entry ∈ before.toList, entry.1 < bound)
    (isRead : ConstantTable.readUpTo bound fuel before bytes = .ok (after, rest)) :
    after.IsOrdered ∧ ∀ entry ∈ after.toList, entry.1 < bound := by
  induction fuel generalizing before bytes with
  | zero =>
      cases isRead
      exact ⟨ordered, below⟩
  | succ fuel inductionHypothesis =>
      simp only [ConstantTable.readUpTo] at isRead
      split at isRead
      · rename_i room
        split at isRead
        · rename_i constant next isConstant
          apply inductionHypothesis (ordered.push (width_pos constant)) _ isRead
          intro entry member
          rw [OffsetSeq.toList_push] at member
          rcases List.mem_append.mp member with earlier | isNew
          · exact below entry earlier
          · rw [List.mem_singleton.mp isNew]
            exact room
        · cases isRead
      · cases isRead
        exact ⟨ordered, below⟩

/-- The pool of a class file that was read is consistent. -/
theorem isConsistent_of_read_eq_ok
    {table : ConstantTable}
    {bytes rest : Bytes}
    (isRead : (read : Reader ConstantTable) bytes = .ok (table, rest))
    (bootstraps : List BootstrapMethod) :
    (ofTable table bootstraps).IsConsistent := by
  change ((read : Reader UInt16) bytes >>= fun counted =>
    ConstantTable.readUpTo counted.1.toNat counted.1.toNat ConstantTable.empty counted.2) = _
    at isRead
  obtain ⟨⟨count, after⟩, _, isTable⟩ := bind_eq_ok.mp isRead
  obtain ⟨ordered, below⟩ := isOrdered_of_readUpTo_eq_ok (OffsetSeq.isOrdered_startingAt 1)
    (fun _ member => nomatch member) isTable
  refine isConsistent_ofTable ordered ?_ bootstraps
  intro entry member
  exact Nat.lt_trans (below entry member) count.toNat_lt

/-- The constant at a position is the one that starts there. -/
theorem IsConsistent.get_eq_ok_iff
    {pool : ConstantPool}
    (consistent : pool.IsConsistent)
    {index : PoolIndex}
    {constant : Constant} :
    pool.get index = .ok constant ↔ (index.toNat, constant) ∈ pool.constants.toList := by
  rw [← consistent.ordered.value?_locate_eq_some_iff, get]
  cases (pool.constants.locate index.toNat).value? with
  | none => simp
  | some found => simp

/-- No constant stands at a position that was not given out yet. -/
theorem IsConsistent.lt_endOffset
    {pool : ConstantPool}
    (consistent : pool.IsConsistent)
    {index : PoolIndex}
    {constant : Constant}
    (stands : pool.get index = .ok constant) :
    index.toNat < pool.constants.endOffset :=
  consistent.ordered.bounded _ (consistent.get_eq_ok_iff.mp stands)

/-- A position of the earlier pool denotes the same constant in the later one. -/
theorem Extends.get_eq_ok
    {later earlier : ConstantPool}
    (extending : later.Extends earlier)
    (consistent : earlier.IsConsistent)
    (laterConsistent : later.IsConsistent)
    {index : PoolIndex}
    {constant : Constant}
    (stands : earlier.get index = .ok constant) :
    later.get index = .ok constant :=
  laterConsistent.get_eq_ok_iff.mpr
    (extending.constants _ (consistent.get_eq_ok_iff.mp stands))

end ConstantPool

/-! ## Work on a pool -/

/-- What some work on a pool yields means this, in the pool after it and in every pool that
extends that one. -/
def Yields {α : Type} (work : PoolM α) (Means : ConstantPool → α → Prop) : Prop :=
  ∀ (before : ConstantPool) (value : α) (after : ConstantPool), before.IsConsistent →
    work before = .ok value after →
    after.IsConsistent ∧ after.Extends before ∧
      ∀ final : ConstantPool, final.IsConsistent → final.Extends after → Means final value

section Yields

variable {α β : Type}

theorem yields_pure
    {value : α}
    {Means : ConstantPool → α → Prop}
    (means : ∀ final : ConstantPool, final.IsConsistent → Means final value) :
    Yields (pure value) Means := by
  intro before result after consistent done
  obtain ⟨rfl, rfl⟩ := run_pure_eq_ok.mp done
  exact ⟨consistent, .refl before, fun final finalConsistent _ => means final finalConsistent⟩

theorem Yields.bind
    {first : PoolM α}
    {next : α → PoolM β}
    {Means : ConstantPool → α → Prop}
    {MeansNext : ConstantPool → β → Prop}
    (yields : Yields first Means)
    (yieldsNext : ∀ value,
      Yields (next value) fun final result => Means final value → MeansNext final result) :
    Yields (first >>= next) MeansNext := by
  intro before result after consistent done
  obtain ⟨value, between, firstDone, nextDone⟩ := run_bind_eq_ok.mp done
  obtain ⟨betweenConsistent, betweenExtends, means⟩ := yields before value between consistent firstDone
  obtain ⟨afterConsistent, afterExtends, meansNext⟩ :=
    yieldsNext value between result after betweenConsistent nextDone
  refine ⟨afterConsistent, afterExtends.trans betweenExtends, ?_⟩
  intro final finalConsistent finalExtends
  exact meansNext final finalConsistent finalExtends
    (means final finalConsistent (finalExtends.trans afterExtends))

theorem Yields.imp
    {work : PoolM α}
    {Means Weaker : ConstantPool → α → Prop}
    (yields : Yields work Means)
    (weaker : ∀ final value, Means final value → Weaker final value) :
    Yields work Weaker := by
  intro before value after consistent done
  obtain ⟨afterConsistent, afterExtends, means⟩ := yields before value after consistent done
  exact ⟨afterConsistent, afterExtends, fun final finalConsistent finalExtends =>
    weaker final value (means final finalConsistent finalExtends)⟩

/-- Two things that some work yields, it yields together. -/
theorem Yields.and
    {work : PoolM α}
    {Means Other : ConstantPool → α → Prop}
    (yields : Yields work Means)
    (yieldsOther : Yields work Other) :
    Yields work fun final value => Means final value ∧ Other final value := by
  intro before value after consistent done
  obtain ⟨afterConsistent, extending, means⟩ := yields before value after consistent done
  obtain ⟨_, _, meansOther⟩ := yieldsOther before value after consistent done
  exact ⟨afterConsistent, extending, fun final finalConsistent finalExtends =>
    ⟨means final finalConsistent finalExtends, meansOther final finalConsistent finalExtends⟩⟩

theorem Yields.map
    {work : PoolM α}
    {f : α → β}
    {Means : ConstantPool → β → Prop}
    (yields : Yields work fun final value => Means final (f value)) :
    Yields (f <$> work) Means := by
  rw [map_eq_pure_bind]
  exact yields.bind fun value => yields_pure fun _ _ means => means

/-- The results of work on every element of a list mean what each of them does. -/
theorem yields_mapM
    {work : α → PoolM β}
    {Means : α → ConstantPool → β → Prop}
    (values : List α)
    (yields : ∀ value ∈ values, Yields (work value) (Means value)) :
    Yields (values.mapM work) fun final results =>
      List.Forall₂ (fun value result => Means value final result) values results := by
  induction values with
  | nil =>
      rw [List.mapM_nil]
      exact yields_pure fun _ _ => .nil
  | cons value values inductionHypothesis =>
      rw [List.mapM_cons]
      apply (yields value List.mem_cons_self).bind
      intro result
      apply (inductionHypothesis fun other member =>
        yields other (List.mem_cons_of_mem _ member)).bind
      intro results
      exact yields_pure fun _ _ othersMean means => .cons means othersMean

/-- The work gives the same value again on every later pool, and leaves that pool as it is. -/
def Repeats (work : PoolM α) : Prop :=
  Yields work fun final value => work final = .ok value final

theorem repeats_pure
    (value : α) :
    Repeats (pure value) :=
  yields_pure fun _ _ => rfl

theorem repeats_throw
    (failure : BytecodeError) :
    Repeats (throw failure : PoolM α) := by
  intro before value after _ done
  cases done

theorem Repeats.bind
    {first : PoolM α}
    {next : α → PoolM β}
    (repeats : Repeats first)
    (repeatsNext : ∀ value, Repeats (next value)) :
    Repeats (first >>= next) := by
  apply Yields.bind repeats
  intro value
  apply (repeatsNext value).imp
  intro final result nextAgain firstAgain
  exact run_bind_eq_ok.mpr ⟨value, final, firstAgain, nextAgain⟩

theorem Repeats.map
    {work : PoolM α}
    (repeats : Repeats work)
    (f : α → β) :
    Repeats (f <$> work) := by
  rw [map_eq_pure_bind]
  exact repeats.bind fun value => repeats_pure (f value)

theorem repeats_mapM
    {work : α → PoolM β}
    (repeats : ∀ value, Repeats (work value))
    (values : List α) :
    Repeats (values.mapM work) := by
  induction values with
  | nil =>
      rw [List.mapM_nil]
      exact repeats_pure []
  | cons value values inductionHypothesis =>
      rw [List.mapM_cons]
      apply (repeats value).bind
      intro result
      apply inductionHypothesis.bind
      intro results
      exact repeats_pure (result :: results)

end Yields

namespace ConstantPool

/-! ## Interning -/

theorem isConsistent_append
    {pool : ConstantPool}
    (consistent : pool.IsConsistent)
    {constant : Constant}
    (room : pool.constants.endOffset + width constant ≤ positionLimit) :
    (pool.append constant).IsConsistent where
  ordered := consistent.ordered.push (width_pos constant)
  small entry member := by
    have wide := width_pos constant
    have limit : positionLimit = 65535 := rfl
    change entry ∈ (pool.constants.push constant).toList at member
    rw [OffsetSeq.toList_push] at member
    rcases List.mem_append.mp member with before | isLast
    · exact consistent.small entry before
    · rw [List.mem_singleton.mp isLast]
      show pool.constants.endOffset < 2 ^ 16
      omega
  recorded other index recorded := by
    have wide := width_pos constant
    have limit : positionLimit = 65535 := rfl
    change (index.toNat, other) ∈ (pool.constants.push constant).toList
    change (pool.firstPositions.insert constant pool.constants.endOffset.toUInt16)[other]? = _
      at recorded
    rw [OffsetSeq.toList_push, List.mem_append]
    rw [Std.HashMap.getElem?_insert] at recorded
    split at recorded
    · rename_i same
      cases recorded
      rw [UInt16.toNat_ofNat_of_lt' (show pool.constants.endOffset < 2 ^ 16 by omega),
        eq_of_beq same]
      exact .inr (List.mem_singleton.mpr rfl)
    · exact .inl (consistent.recorded other index recorded)

theorem extends_append
    {pool : ConstantPool}
    {constant : Constant}
    (isNew : pool.firstPositions[constant]? = none) :
    (pool.append constant).Extends pool where
  constants entry member := by
    change entry ∈ (pool.constants.push constant).toList
    rw [OffsetSeq.toList_push]
    exact List.mem_append_left _ member
  positions other index recorded := by
    change (pool.firstPositions.insert constant pool.constants.endOffset.toUInt16)[other]? = _
    rw [Std.HashMap.getElem?_insert]
    split
    · rename_i same
      rw [← eq_of_beq same, isNew] at recorded
      cases recorded
    · exact recorded
  bootstraps := List.prefix_refl _

/-- The position of a constant stays the one at which it is found. -/
theorem yields_intern_recorded
    (constant : Constant) :
    Yields (intern constant) fun final index => final.firstPositions[constant]? = some index := by
  intro before index after consistent done
  unfold intern at done
  split at done
  · rename_i position recorded
    cases done
    exact ⟨consistent, .refl before, fun final _ finalExtends =>
      finalExtends.positions constant index recorded⟩
  · rename_i isNew
    dsimp only at done
    split at done
    · rename_i room
      cases done
      refine ⟨isConsistent_append consistent room, extends_append isNew, ?_⟩
      intro final _ finalExtends
      apply finalExtends.positions
      change (before.firstPositions.insert constant before.constants.endOffset.toUInt16)[constant]? = _
      rw [Std.HashMap.getElem?_insert_self]
    · cases done

theorem repeats_intern
    (constant : Constant) :
    Repeats (intern constant) := by
  apply (yields_intern_recorded constant).imp
  intro final index recorded
  rw [intern, recorded]

/-- What was interned stands at the position that was given for it. -/
theorem yields_intern
    (constant : Constant) :
    Yields (intern constant) fun final index => final.get index = .ok constant := by
  intro before index after consistent done
  obtain ⟨afterConsistent, afterExtends, means⟩ :=
    yields_intern_recorded constant before index after consistent done
  refine ⟨afterConsistent, afterExtends, ?_⟩
  intro final finalConsistent finalExtends
  exact finalConsistent.get_eq_ok_iff.mpr
    (finalConsistent.recorded constant index (means final finalConsistent finalExtends))

theorem text_eq_ok
    {pool : ConstantPool}
    {index : PoolIndex}
    {text : String}
    (stands : pool.get index = .ok (.utf8 text)) :
    pool.text index = .ok text := by
  rw [ConstantPool.text, stands]

theorem yields_internText
    (text : String) :
    Yields (internText text) fun final index => final.text index = .ok text :=
  (yields_intern (.utf8 text)).imp fun _ _ stands => text_eq_ok stands

theorem yields_internNameAndType
    (name descriptor : String) :
    Yields (internNameAndType name descriptor) fun final index =>
      final.nameAndType index = .ok (name, descriptor) := by
  apply (yields_internText name).bind
  intro nameIndex
  apply (yields_internText descriptor).bind
  intro descriptorIndex
  apply (yields_intern (.nameAndType nameIndex descriptorIndex)).imp
  intro final index stands descriptorStands nameStands
  rw [nameAndType, stands]
  simp only [nameStands, descriptorStands]
  rfl

/-- The index of a bootstrap method is its first place in the table, modulo two to the
sixteenth. -/
theorem yields_internBootstrap_placed
    (bootstrap : BootstrapMethod) :
    Yields (internBootstrap bootstrap) fun final index =>
      ∃ place, final.bootstraps.findIdx? (· = bootstrap) = some place ∧
        index = place.toUInt16 := by
  intro before index after consistent done
  unfold internBootstrap at done
  split at done
  · rename_i place found
    cases done
    refine ⟨consistent, .refl before, fun final _ extending => ⟨place, ?_, rfl⟩⟩
    obtain ⟨rest, isFinal⟩ := extending.bootstraps
    rw [← isFinal, List.findIdx?_append, found]
    rfl
  · rename_i isNew
    cases done
    refine ⟨⟨consistent.ordered, consistent.small, consistent.recorded⟩,
      ⟨fun _ member => member, fun _ _ recorded => recorded, List.prefix_append _ _⟩, ?_⟩
    intro final _ extending
    obtain ⟨rest, isFinal⟩ := extending.bootstraps
    refine ⟨before.bootstraps.length, ?_, rfl⟩
    rw [← isFinal, List.append_assoc, List.findIdx?_append, isNew]
    simp [List.findIdx?_cons]

theorem repeats_internBootstrap
    (bootstrap : BootstrapMethod) :
    Repeats (internBootstrap bootstrap) := by
  apply (yields_internBootstrap_placed bootstrap).imp
  rintro final index ⟨place, found, rfl⟩
  rw [internBootstrap, found]

/-- What is found at a place of the table of bootstrap methods stands there. -/
theorem getElem?_of_findIdx?_eq_some
    {bootstraps : List BootstrapMethod}
    {bootstrap : BootstrapMethod}
    {place : Nat}
    (found : bootstraps.findIdx? (· = bootstrap) = some place) :
    bootstraps[place]? = some bootstrap := by
  obtain ⟨inside, isBootstrap, _⟩ := List.findIdx?_eq_some_iff_getElem.mp found
  rw [List.getElem?_eq_getElem inside, of_decide_eq_true isBootstrap]

/-- A bootstrap method stands at the index given for it, as long as sixteen bits tell
their indices apart. -/
theorem yields_internBootstrap
    (bootstrap : BootstrapMethod) :
    Yields (internBootstrap bootstrap) fun final index =>
      final.bootstraps.length ≤ 2 ^ 16 → final.bootstraps[index.toNat]? = some bootstrap := by
  apply (yields_internBootstrap_placed bootstrap).imp
  rintro final index ⟨place, found, rfl⟩ few
  have stands := getElem?_of_findIdx?_eq_some found
  have inside := (List.getElem?_eq_some_iff.mp stands).1
  rw [UInt16.toNat_ofNat_of_lt' (show place < 2 ^ 16 by omega), stands]

end ConstantPool

/-! ## Room -/

/-- On a pool with room for so many positions the work succeeds; it takes no more of them
and adds no bootstrap method. -/
def FitsIn {α : Type} (positions : Nat) (work : PoolM α) : Prop :=
  ∀ pool : ConstantPool, pool.constants.endOffset + positions ≤ ConstantPool.positionLimit →
    ∃ value after, work pool = .ok value after ∧
      after.constants.endOffset ≤ pool.constants.endOffset + positions ∧
      after.bootstraps = pool.bootstraps

theorem FitsIn.bind
    {α β : Type}
    {first : PoolM α}
    {next : α → PoolM β}
    {positions others : Nat}
    (fits : FitsIn positions first)
    (fitsNext : ∀ value, FitsIn others (next value)) :
    FitsIn (positions + others) (first >>= next) := by
  intro pool room
  obtain ⟨value, between, firstDone, betweenEnd, betweenSame⟩ := fits pool (by omega)
  obtain ⟨result, after, nextDone, afterEnd, afterSame⟩ := fitsNext value between (by omega)
  exact ⟨result, after, run_bind_eq_ok.mpr ⟨value, between, firstDone, nextDone⟩, by omega,
    afterSame.trans betweenSame⟩

theorem FitsIn.mono
    {α : Type}
    {work : PoolM α}
    {positions more : Nat}
    (fits : FitsIn positions work)
    (enough : positions ≤ more) :
    FitsIn more work := by
  intro pool room
  obtain ⟨value, after, done, afterEnd, same⟩ := fits pool (by omega)
  exact ⟨value, after, done, by omega, same⟩

theorem fitsIn_pure
    {α : Type}
    (value : α) :
    FitsIn 0 (pure value) :=
  fun pool _ => ⟨value, pool, rfl, Nat.le_refl _, rfl⟩

theorem FitsIn.map
    {α β : Type}
    {work : PoolM α}
    {positions : Nat}
    (fits : FitsIn positions work)
    (f : α → β) :
    FitsIn positions (f <$> work) := by
  rw [map_eq_pure_bind]
  exact fits.bind fun value => fitsIn_pure (f value)

theorem fitsIn_mapM
    {α β : Type}
    {work : α → PoolM β}
    {positions : Nat}
    (values : List α)
    (each : ∀ value ∈ values, FitsIn positions (work value)) :
    FitsIn (positions * values.length) (values.mapM work) := by
  induction values with
  | nil => exact fitsIn_pure []
  | cons value values inductionHypothesis =>
      rw [List.mapM_cons, List.length_cons, Nat.mul_succ, Nat.add_comm]
      refine (each value List.mem_cons_self).bind fun result => ?_
      have fitsOthers := inductionHypothesis fun other member =>
        each other (List.mem_cons_of_mem _ member)
      exact fitsOthers.bind fun results => fitsIn_pure (result :: results)

namespace ConstantPool

theorem fitsIn_intern
    (constant : Constant) :
    FitsIn (width constant) (intern constant) := by
  intro pool room
  unfold intern
  cases recorded : pool.firstPositions[constant]? with
  | some index => exact ⟨index, pool, rfl, Nat.le_add_right _ _, rfl⟩
  | none =>
      dsimp only
      rw [if_pos room]
      exact ⟨_, _, rfl, Nat.le_refl _, rfl⟩

theorem fitsIn_internNameAndType
    (name descriptor : String) :
    FitsIn 3 (internNameAndType name descriptor) :=
  (fitsIn_intern (.utf8 name)).bind fun nameIndex =>
    (fitsIn_intern (.utf8 descriptor)).bind fun descriptorIndex =>
      fitsIn_intern (.nameAndType nameIndex descriptorIndex)

end ConstantPool

end ClosureConversion
