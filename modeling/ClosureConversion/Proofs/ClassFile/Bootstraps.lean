import ClosureConversion.Proofs.ClassFile.Interning

/-!
Contract: where the bootstrap methods of a pool are looked for.

Owns:
- the place of a bootstrap method, which is counted without a limit and stays the same whatever
  is inserted later;
- that the index given for it is its place modulo two to the sixteenth, so that it is found there
  exactly if its place takes no more bits, and shares its index exactly with those a multiple of
  that many places away;
- which calls are read back, and a table in which two bootstrap methods have one index.

Does not own: insertions of anything else.
-/

namespace ClosureConversion

/-- Two numbers keep the same sixteen bits exactly if they are the same modulo two to the
sixteenth. -/
theorem toUInt16_eq_iff
    {first second : Nat} :
    first.toUInt16 = second.toUInt16 ↔ first % 2 ^ 16 = second % 2 ^ 16 := by
  rw [← UInt16.toNat_inj]
  exact iff_of_eq (congrArg₂ Eq UInt16.toNat_ofNat' UInt16.toNat_ofNat')

namespace ConstantPool

/-- The first place of a bootstrap method in the table. -/
def placeOf? (pool : ConstantPool) (entry : BootstrapMethod) : Option Nat :=
  pool.bootstraps.findIdx? (· = entry)

/-- However many insertions follow one another, bootstrap methods are only added after the
others. -/
theorem isPrefix_insertAll
    (pool : ConstantPool)
    (insertions : List Insertion) :
    pool.bootstraps <+: (pool.insertAll insertions).bootstraps := by
  induction insertions generalizing pool with
  | nil => exact List.prefix_refl _
  | cons insertion insertions inductionHypothesis =>
      exact (insertion.interns_run.isPrefix_bootstraps pool).trans (inductionHypothesis _)

/-- A bootstrap method keeps its place. -/
theorem placeOf?_of_isPrefix
    {earlier later : ConstantPool}
    (extending : earlier.bootstraps <+: later.bootstraps)
    {entry : BootstrapMethod}
    {place : Nat}
    (isPlace : earlier.placeOf? entry = some place) :
    later.placeOf? entry = some place := by
  obtain ⟨rest, isLater⟩ := extending
  rw [placeOf?] at isPlace ⊢
  rw [← isLater, List.findIdx?_append, isPlace]
  rfl

/-- A bootstrap method has a place once it was registered, and its index is the place modulo two
to the sixteenth. -/
theorem exists_placeOf?_of_internBootstrap
    (pool : ConstantPool)
    (entry : BootstrapMethod) :
    ∃ place after, internBootstrap entry pool = .ok place.toUInt16 after ∧
      after.placeOf? entry = some place := by
  unfold internBootstrap placeOf?
  cases found : pool.bootstraps.findIdx? (· = entry) with
  | some place => exact ⟨place, pool, rfl, found⟩
  | none =>
      refine ⟨pool.bootstraps.length, _, rfl, ?_⟩
      rw [List.findIdx?_append, found]
      simp [List.findIdx?_cons]

theorem internBootstrap_of_placeOf?
    {pool : ConstantPool}
    {entry : BootstrapMethod}
    {place : Nat}
    (isPlace : pool.placeOf? entry = some place) :
    internBootstrap entry pool = .ok place.toUInt16 pool := by
  rw [placeOf?] at isPlace
  rw [internBootstrap, isPlace]

/-- Nothing else has the place. -/
theorem eq_of_placeOf?
    {pool : ConstantPool}
    {entry other : BootstrapMethod}
    {place : Nat}
    (isPlace : pool.placeOf? entry = some place)
    (isOtherPlace : pool.placeOf? other = some place) :
    other = entry :=
  Option.some.inj
    ((getElem?_of_findIdx?_eq_some isOtherPlace).symm.trans (getElem?_of_findIdx?_eq_some isPlace))

/-- A bootstrap method is found at its place modulo two to the sixteenth exactly if that is its
place. -/
theorem getElem?_mod_eq_some_iff
    {pool : ConstantPool}
    {entry : BootstrapMethod}
    {place : Nat}
    (isPlace : pool.placeOf? entry = some place) :
    pool.bootstraps[place % 2 ^ 16]? = some entry ↔ place < 2 ^ 16 := by
  constructor
  · intro stands
    obtain ⟨_, _, isFirst⟩ := List.findIdx?_eq_some_iff_getElem.mp isPlace
    by_contra isLarge
    -- The first place of the entry lies beyond sixteen bits, so that nothing below is the entry.
    have isBelow : place % 2 ^ 16 < place := by omega
    obtain ⟨_, isEntry⟩ := List.getElem?_eq_some_iff.mp stands
    exact isFirst _ isBelow (decide_eq_true isEntry)
  · intro isSmall
    rw [Nat.mod_eq_of_lt isSmall]
    exact getElem?_of_findIdx?_eq_some isPlace

end ConstantPool

/-- A bootstrap method was given an index: it has a place of its own, of which the index keeps
sixteen bits, so that it is found at the index exactly if the place takes no more, and another one
is given the same index exactly if its place is the same in these bits. -/
structure BootstrapMethod.IsIndexed
    (entry : BootstrapMethod)
    (index : UInt16)
    (place : Nat)
    (pool : ConstantPool) : Prop where
  isPlace : pool.placeOf? entry = some place
  isIndex : index.toNat = place % 2 ^ 16
  isFound_iff : pool.bootstraps[index.toNat]? = some entry ↔ place < 2 ^ 16
  isShared_iff : ∀ other otherPlace, other ≠ entry → pool.placeOf? other = some otherPlace →
    otherPlace ≠ place ∧ (ConstantPool.internBootstrap other pool = .ok index pool ↔
      otherPlace % 2 ^ 16 = place % 2 ^ 16)

theorem BootstrapMethod.isIndexed_of_placeOf?
    {pool : ConstantPool}
    {entry : BootstrapMethod}
    {place : Nat}
    (isPlace : pool.placeOf? entry = some place) :
    entry.IsIndexed place.toUInt16 place pool where
  isPlace := isPlace
  isIndex := UInt16.toNat_ofNat'
  isFound_iff := by
    rw [show place.toUInt16.toNat = place % 2 ^ 16 from UInt16.toNat_ofNat']
    exact ConstantPool.getElem?_mod_eq_some_iff isPlace
  isShared_iff other otherPlace isOther isOtherPlace := by
    refine ⟨fun same => ?_, ?_⟩
    · subst same
      exact isOther (ConstantPool.eq_of_placeOf? isPlace isOtherPlace)
    · rw [ConstantPool.internBootstrap_of_placeOf? isOtherPlace, ← toUInt16_eq_iff]
      exact ⟨fun same => (EStateM.Result.ok.inj same).1, fun same => by rw [same]⟩

/-- A call can be inserted if there is room for what it refers to, and takes no more. -/
theorem DynamicCall.exists_intern_within
    (call : DynamicCall)
    {pool : ConstantPool}
    (room : pool.constants.endOffset + (11 + 7 * call.arguments.length) ≤
      ConstantPool.positionLimit) :
    ∃ index after, call.intern pool = .ok index after ∧
      after.constants.endOffset ≤ pool.constants.endOffset + (11 + 7 * call.arguments.length) := by
  obtain ⟨handle, handled, handleDone, handledEnd, _⟩ :=
    call.bootstrap.fitsIn_intern pool (by omega)
  obtain ⟨arguments, given, argumentsDone, givenEnd, _⟩ :=
    fitsIn_mapM call.arguments (fun literal _ => literal.fitsIn_intern) handled (by omega)
  obtain ⟨place, registered, registrationDone⟩ :=
    ConstantPool.exists_internBootstrap_eq_ok ⟨handle, arguments⟩ given
  have registeredEnd : registered.constants.endOffset = given.constants.endOffset := by
    unfold ConstantPool.internBootstrap at registrationDone
    split at registrationDone
    · cases registrationDone
      rfl
    · cases registrationDone
      rfl
  have named : FitsIn (3 + 1) _ :=
    (ConstantPool.fitsIn_internNameAndType call.name.text call.type.descriptor).bind
      fun signature => ConstantPool.fitsIn_intern (.invokeDynamic place signature)
  obtain ⟨index, after, done, afterEnd, _⟩ := named registered (by omega)
  refine ⟨index, after, ?_, by omega⟩
  exact run_bind_eq_ok.mpr ⟨_, _, handleDone, run_bind_eq_ok.mpr ⟨_, _,
    argumentsDone, run_bind_eq_ok.mpr ⟨_, _, registrationDone, done⟩⟩⟩

theorem DynamicCall.exists_intern_eq_ok
    (call : DynamicCall)
    {pool : ConstantPool}
    (room : pool.constants.endOffset + (11 + 7 * call.arguments.length) ≤
      ConstantPool.positionLimit) :
    ∃ index after, call.intern pool = .ok index after := by
  obtain ⟨index, after, done, _⟩ := call.exists_intern_within room
  exact ⟨index, after, done⟩

/-- After so many bootstrap methods without arguments, one with an argument has the place that
follows them. -/
theorem ConstantPool.internBootstrap_of_range
    (count : Nat)
    (table : ConstantTable) :
    let entries := (List.range (count + 1)).map
      fun handle => (⟨handle.toUInt16, []⟩ : BootstrapMethod)
    ∃ after, internBootstrap ⟨0, [0]⟩ (ofTable table entries) = .ok (count + 1).toUInt16 after ∧
      internBootstrap ⟨0, []⟩ after = .ok 0 after ∧ after.bootstraps[0]? = some ⟨0, []⟩ := by
  intro entries
  have isNew : (ofTable table entries).bootstraps.findIdx? (· = ⟨0, [0]⟩) = none := by
    rw [List.findIdx?_eq_none_iff]
    intro entry member
    obtain ⟨handle, _, rfl⟩ := List.mem_map.mp member
    exact decide_eq_false fun same => nomatch congrArg BootstrapMethod.arguments same
  have first : entries = ⟨0, []⟩ :: (List.range count).map
      fun handle => ⟨(handle + 1).toUInt16, []⟩ := by
    simp [entries, List.range_succ_eq_map, Function.comp_def]
  refine ⟨{ ofTable table entries with bootstraps := entries ++ [⟨0, [0]⟩] }, ?_, ?_, ?_⟩
  · have isLength : (ofTable table entries).bootstraps.length = count + 1 := by
      change entries.length = count + 1
      simp [entries]
    rw [internBootstrap, isNew]
    dsimp only
    rw [isLength]
    rfl
  · apply internBootstrap_of_placeOf?
    rw [placeOf?, first]
    rfl
  · rw [first]
    rfl

/-- Registering a bootstrap method never fails, in whatever pool and after whatever insertions.
It is found at the index given for it, now and later, exactly if there are fewer than two to the
sixteenth before it; and a call that was inserted into a pool of sixteen bits is read back exactly
if what stands at the index of its bootstrap method means the same as that one. -/
theorem isIndexed_insertAll
    (pool : ConstantPool)
    (earlier later : List Insertion) :
    (∀ entry, ∃ index after place,
      (Insertion.bootstrap entry).run (pool.insertAll earlier) = .ok index after ∧
        entry.IsIndexed index place (after.insertAll later)) ∧
    (pool.IsInitial → ∀ call index after,
      (Insertion.call call).run (pool.insertAll earlier) = .ok index after →
        let final := after.insertAll later
        ∃ entry place, final.placeOf? entry = some place ∧
          entry.Denotes final call.bootstrap call.arguments ∧
          (DynamicCall.resolve final index = .ok call ↔ ∃ found,
            final.bootstraps[place % 2 ^ 16]? = some found ∧
              found.Denotes final call.bootstrap call.arguments) ∧
          (place < 2 ^ 16 → DynamicCall.resolve final index = .ok call)) := by
  constructor
  · intro entry
    obtain ⟨place, after, done, isPlace⟩ :=
      ConstantPool.exists_placeOf?_of_internBootstrap (pool.insertAll earlier) entry
    have isLaterPlace := ConstantPool.placeOf?_of_isPrefix (after.isPrefix_insertAll later) isPlace
    exact ⟨_, after, place, done, BootstrapMethod.isIndexed_of_placeOf? isLaterPlace⟩
  · intro initial call index after done final
    have consistent := (initial.isConsistent.insertAll earlier).1
    obtain ⟨afterConsistent, _, means⟩ :=
      call.yields_intern_placed _ index after consistent done
    obtain ⟨finalConsistent, finalGrown⟩ := afterConsistent.insertAll later
    obtain ⟨entry, place, signature, isPlace, denotes, stands, signed⟩ :=
      means final finalConsistent finalGrown.toExtends
    have resolves_iff := DynamicCall.resolve_eq_ok_iff stands signed
    rw [show place.toUInt16.toNat = place % 2 ^ 16 from UInt16.toNat_ofNat'] at resolves_iff
    refine ⟨entry, place, isPlace, denotes, resolves_iff, fun isSmall => ?_⟩
    exact resolves_iff.mpr
      ⟨entry, (ConstantPool.getElem?_mod_eq_some_iff isPlace).mpr isSmall, denotes⟩

/-- A pool with a bootstrap method and with a text that stands twice takes a call with arguments,
which is read back if its bootstrap method is among the first two to the sixteenth. -/
theorem exists_resolve_repetitive :
    let pool := ConstantPool.ofTable
      (OffsetSeq.ofList 1 [.utf8 "value", .utf8 "value", .long 5]) [⟨1, []⟩]
    let call : DynamicCall :=
      ⟨.method .invokeStatic ⟨.object ⟨"demo/Named", by decide⟩, ⟨"value", by decide⟩,
        ⟨[], none⟩, false⟩, [.long 5, .string "value"], ⟨"value", by decide⟩, ⟨[], none⟩⟩
    ∃ index after, (Insertion.call call).run pool = .ok index after ∧
      ∃ entry place, after.placeOf? entry = some place ∧
        entry.Denotes after call.bootstrap call.arguments ∧
        (place < 2 ^ 16 → DynamicCall.resolve after index = .ok call) := by
  intro pool call
  have initial : pool.IsInitial := .inr ⟨_, _, _, rfl, by decide⟩
  obtain ⟨index, after, done⟩ := call.exists_intern_eq_ok (show pool.constants.endOffset +
    (11 + 7 * call.arguments.length) ≤ ConstantPool.positionLimit by decide)
  obtain ⟨entry, place, isPlace, denotes, _, resolves⟩ :=
    (isIndexed_insertAll pool [] []).2 initial call index after done
  exact ⟨index, after, done, entry, place, isPlace, denotes, resolves⟩

/-- In a table with two to the sixteenth bootstrap methods another one is given the index of the
first one, and is not found there. -/
theorem internBootstrap_crowded :
    let table := (List.range 65536).map fun handle => (⟨handle.toUInt16, []⟩ : BootstrapMethod)
    let pool := ConstantPool.ofTable (OffsetSeq.ofList 1 []) table
    ∃ after, (Insertion.bootstrap ⟨0, [0]⟩).run pool = .ok 0 after ∧
      (Insertion.bootstrap ⟨0, []⟩).run after = .ok 0 after ∧
      after.bootstraps[(0 : UInt16).toNat]? = some ⟨0, []⟩ := by
  intro table pool
  obtain ⟨after, done, isFirst, stands⟩ :=
    ConstantPool.internBootstrap_of_range 65535 (OffsetSeq.ofList 1 [])
  have wraps : (65535 + 1).toUInt16 = 0 := by decide
  rw [wraps] at done
  exact ⟨after, done, isFirst, stands⟩

end ClosureConversion
