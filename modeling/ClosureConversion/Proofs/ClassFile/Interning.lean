import ClosureConversion.Proofs.ClassFile.Including
import ClosureConversion.Proofs.ClassFile.RoundTrip
import ClosureConversion.Proofs.Reference

/-!
Contract: the law of a constant pool as a store.

Owns:
- work that interns: the pool only grows whatever comes of it, what it gives is given again, and
  it fails for want of positions alone;
- the insertions into a pool, what each of them puts at the index that it gives, and sequences of
  them;
- the law that every insertion obeys, in new pools and in those of constants that all have
  positions of their own; and that a constant whose position takes more than sixteen bits is
  looked for at a position of another one.

Does not own: what is read of a pool that grows.
-/

namespace ClosureConversion

/-! ## Work that interns -/

namespace ConstantPool

/-- The pool after some work, whatever comes of it. -/
def after {α : Type} (pool : ConstantPool) (work : PoolM α) : ConstantPool :=
  match work pool with
  | .ok _ later => later
  | .error _ later => later

/-- The error says that a constant which is recorded nowhere takes more positions than are
left. -/
def Refuses (pool : ConstantPool) (error : BytecodeError) : Prop :=
  ∃ constant, error = .poolOverflow constant pool.constants.endOffset.toUInt16 ∧
    pool.firstPositions[constant]? = none ∧
    positionLimit < pool.constants.endOffset + width constant

theorem after_eq_of_ok
    {α : Type}
    {work : PoolM α}
    {before later : ConstantPool}
    {value : α}
    (done : work before = .ok value later) :
    before.after work = later := by
  rw [after, done]

theorem after_eq_of_error
    {α : Type}
    {work : PoolM α}
    {before later : ConstantPool}
    {error : BytecodeError}
    (failed : work before = .error error later) :
    before.after work = later := by
  rw [after, failed]

end ConstantPool

namespace Interns

variable {α : Type} {work : PoolM α}

/-- What every interning of one thing does to a pool, the whole work does, whatever comes of
it. -/
theorem after_induction
    (Holds : ConstantPool → ConstantPool → Prop)
    (refl : ∀ pool, Holds pool pool)
    (trans : ∀ before between later, Holds before between → Holds between later →
      Holds before later)
    (constant : ∀ constant pool, Holds pool (pool.after (ConstantPool.intern constant)))
    (bootstrap : ∀ entry pool, Holds pool (pool.after (ConstantPool.internBootstrap entry)))
    (interns : Interns work)
    (before : ConstantPool) :
    Holds before (before.after work) := by
  induction interns generalizing before with
  | pure value => exact refl before
  | constant value => exact constant value before
  | bootstrap entry => exact bootstrap entry before
  | @bind α β first next _ _ firstHypothesis nextHypothesis =>
      have reached := firstHypothesis before
      rw [ConstantPool.after, run_bind]
      cases done : first before with
      | error error between => exact ConstantPool.after_eq_of_error done ▸ reached
      | ok value between =>
          rw [ConstantPool.after_eq_of_ok done] at reached
          exact trans _ _ _ reached (nextHypothesis value between)

end Interns

namespace ConstantPool

/-- A pool in which interning a constant fails is left alone. -/
theorem after_intern_of_error
    {constant : Constant}
    {before later : ConstantPool}
    {error : BytecodeError}
    (failed : intern constant before = .error error later) :
    later = before ∧ later.Refuses error := by
  unfold intern at failed
  split at failed
  · cases failed
  · rename_i isNew
    dsimp only at failed
    split at failed
    · cases failed
    · rename_i noRoom
      cases failed
      exact ⟨rfl, constant, rfl, isNew, Nat.lt_of_not_le noRoom⟩

/-- The table of bootstrap methods never runs out. -/
theorem exists_internBootstrap_eq_ok
    (entry : BootstrapMethod)
    (before : ConstantPool) :
    ∃ index later, internBootstrap entry before = .ok index later := by
  unfold internBootstrap
  cases before.bootstraps.findIdx? (· = entry) with
  | some place => exact ⟨_, _, rfl⟩
  | none => exact ⟨_, _, rfl⟩

end ConstantPool

namespace Interns

variable {α : Type} {work : PoolM α}

/-- Whatever comes of the work, the pool only grows. -/
theorem grows
    (interns : Interns work)
    {before : ConstantPool}
    (consistent : before.IsConsistent) :
    (before.after work).IsConsistent ∧ (before.after work).GrownFrom before := by
  refine interns.after_induction (fun earlier later => earlier.IsConsistent →
    later.IsConsistent ∧ later.GrownFrom earlier) ?_ ?_ ?_ ?_ before consistent
  · exact fun pool isConsistent => ⟨isConsistent, .refl pool⟩
  · intro earlier between later first next isConsistent
    obtain ⟨betweenConsistent, betweenGrown⟩ := first isConsistent
    obtain ⟨laterConsistent, laterGrown⟩ := next betweenConsistent
    exact ⟨laterConsistent, laterGrown.trans betweenGrown⟩
  · intro constant pool isConsistent
    cases done : ConstantPool.intern constant pool with
    | ok index later =>
        rw [ConstantPool.after_eq_of_ok done]
        exact ConstantPool.onlyAdds_intern constant pool index later isConsistent done
    | error error later =>
        rw [ConstantPool.after_eq_of_error done, (ConstantPool.after_intern_of_error done).1]
        exact ⟨isConsistent, .refl pool⟩
  · intro entry pool isConsistent
    obtain ⟨index, later, done⟩ := ConstantPool.exists_internBootstrap_eq_ok entry pool
    rw [ConstantPool.after_eq_of_ok done]
    exact ConstantPool.onlyAdds_internBootstrap entry pool index later isConsistent done

/-- Bootstrap methods are only added after the others, in whatever pool. -/
theorem isPrefix_bootstraps
    (interns : Interns work)
    (before : ConstantPool) :
    before.bootstraps <+: (before.after work).bootstraps := by
  refine interns.after_induction (fun earlier later => earlier.bootstraps <+: later.bootstraps)
    ?_ ?_ ?_ ?_ before
  · exact fun pool => List.prefix_refl _
  · exact fun _ _ _ first next => first.trans next
  · intro constant pool
    have same : (pool.after (ConstantPool.intern constant)).bootstraps = pool.bootstraps := by
      cases done : ConstantPool.intern constant pool with
      | ok index later =>
          rw [ConstantPool.after_eq_of_ok done, ConstantPool.bootstraps_of_intern_eq_ok done]
      | error error later =>
          rw [ConstantPool.after_eq_of_error done, (ConstantPool.after_intern_of_error done).1]
    exact same ▸ List.prefix_refl _
  · intro entry pool
    unfold ConstantPool.after ConstantPool.internBootstrap
    cases pool.bootstraps.findIdx? (· = entry) with
    | some place => exact List.prefix_refl _
    | none => exact List.prefix_append _ _

/-- The work fails only because the positions run out. -/
theorem refuses
    (interns : Interns work)
    {before later : ConstantPool}
    {error : BytecodeError}
    (failed : work before = .error error later) :
    later.Refuses error := by
  induction interns generalizing before with
  | pure value => cases failed
  | constant value => exact (ConstantPool.after_intern_of_error failed).2
  | bootstrap entry =>
      obtain ⟨index, after, done⟩ := ConstantPool.exists_internBootstrap_eq_ok entry before
      rw [done] at failed
      cases failed
  | @bind α β first next _ _ firstHypothesis nextHypothesis =>
      rw [run_bind] at failed
      cases done : first before with
      | error other between =>
          rw [done] at failed
          cases failed
          exact firstHypothesis done
      | ok value between =>
          rw [done] at failed
          exact nextHypothesis value failed

end Interns

/-- What the last step of some work yields, the whole of it does. -/
theorem OnlyAdds.yields_bind
    {α β : Type}
    {first : PoolM α}
    {next : α → PoolM β}
    {Means : ConstantPool → β → Prop}
    (adds : OnlyAdds first)
    (yields : ∀ value, Yields (next value) Means) :
    Yields (first >>= next) Means :=
  adds.yields.bind fun value => (yields value).imp fun _ _ means _ => means

open ConstantPool (onlyAdds_internText onlyAdds_internNameAndType onlyAdds_internBootstrap)

/-! ## Insertions -/

/-- What can be put into a pool, by the parts that it has in the pool already or by what it
stands for. -/
inductive Insertion : Type 1 where
  | text (value : String)
  | string (spelling : PoolIndex)
  | classInfo (name : PoolIndex)
  | nameAndType (name descriptor : PoolIndex)
  | invokeDynamic (place : UInt16) (signature : PoolIndex)
  | bootstrap (entry : BootstrapMethod)
  | contents {α : Type} [AttributeContents α] (value : α)
  | type (value : RefType)
  | class_ (name : BinaryName)
  | field (member : FieldRef)
  | method (member : MethodRef)
  | handle (value : Handle)
  | literal (value : Literal)
  | call (site : DynamicCall)

namespace Insertion

/-- The work of the insertion, which gives an index: of a bootstrap method the one in the table
of those, of everything else the position of a constant. -/
def run : Insertion → PoolM UInt16
  | .text value => ConstantPool.internText value
  | .string spelling => ConstantPool.intern (.string spelling)
  | .classInfo name => ConstantPool.intern (.classInfo name)
  | .nameAndType name descriptor => ConstantPool.intern (.nameAndType name descriptor)
  | .invokeDynamic place signature => ConstantPool.intern (.invokeDynamic place signature)
  | .bootstrap entry => ConstantPool.internBootstrap entry
  | @contents _ _ value => Attribute.name <$> Attribute.ofContents value
  | .type value => value.intern
  | .class_ name => name.intern
  | .field member => member.intern
  | .method member => member.intern
  | .handle value => value.intern
  | .literal value => value.intern
  | .call site => site.intern

/-- What is read at the index is what was put into the pool. -/
def IsAt (pool : ConstantPool) (index : UInt16) : Insertion → Prop
  | .text value => pool.text index = .ok value
  | .string spelling => pool.get index = .ok (.string spelling)
  | .classInfo name => pool.get index = .ok (.classInfo name)
  | .nameAndType name descriptor => pool.get index = .ok (.nameAndType name descriptor)
  | .invokeDynamic place signature => pool.get index = .ok (.invokeDynamic place signature)
  | .bootstrap entry => pool.bootstraps[index.toNat]? = some entry
  | @contents α _ _ => pool.text index = .ok (attributeName α)
  | .type value => RefType.resolve pool index = .ok value
  | .class_ name => BinaryName.resolve pool index = .ok name
  | .field member => FieldRef.resolve pool index = .ok member
  | .method member => MethodRef.resolve pool index = .ok member
  | .handle value => Handle.resolve pool index = .ok value
  | .literal value => Literal.resolve pool index = .ok value
  | .call site => DynamicCall.resolve pool index = .ok site

/-- Whether it is a bootstrap method, whose index is no position. -/
def isBootstrap : Insertion → Bool
  | .bootstrap _ => true
  | _ => false

/-- Whether it is found through the table of bootstrap methods. -/
def isDynamic : Insertion → Bool
  | .bootstrap _ => true
  | .call _ => true
  | _ => false

theorem interns_run
    (insertion : Insertion) :
    Interns insertion.run := by
  cases insertion with
  | bootstrap entry => exact .bootstrap entry
  | contents value =>
      exact ((Interns.constant _).bind fun _ => .pure _).map Attribute.name
  | type value => exact value.interns_intern
  | class_ name => exact (RefType.object name).interns_intern
  | field member => exact member.interns_intern
  | method member => exact member.interns_intern
  | handle value => exact value.interns_intern
  | literal value => exact value.interns_intern
  | call site => exact site.interns_intern
  | _ => exact .constant _

/-- What is inserted stands at its index, as long as sixteen bits tell the bootstrap methods
apart. -/
theorem yields_run
    (insertion : Insertion) :
    Yields insertion.run fun final index =>
      (insertion.isDynamic → final.bootstraps.length ≤ 2 ^ 16) → insertion.IsAt final index := by
  cases insertion with
  | text value => exact (ConstantPool.yields_internText value).imp fun _ _ isAt _ => isAt
  | bootstrap entry =>
      exact (ConstantPool.yields_internBootstrap entry).imp fun _ _ isAt few => isAt (few rfl)
  | contents value =>
      refine Yields.map ((ConstantPool.yields_internText _).bind fun name => ?_)
      exact yields_pure fun _ _ isAt _ => isAt
  | type value => exact value.yields_intern_resolve.imp fun _ _ isAt _ => isAt
  | class_ name => exact name.yields_intern.imp fun _ _ isAt _ => isAt
  | field member => exact member.yields_intern.imp fun _ _ isAt _ => isAt
  | method member => exact member.yields_intern.imp fun _ _ isAt _ => isAt
  | handle value => exact value.yields_intern_resolve.imp fun _ _ isAt _ => isAt
  | literal value => exact value.yields_intern.imp fun _ _ isAt _ => isAt
  | call site => exact site.yields_intern.imp fun _ _ isAt few => isAt (few rfl)
  | _ => exact (ConstantPool.yields_intern _).imp fun _ _ isAt _ => isAt

/-- What was put into a pool is read at its index of every pool that includes that one. -/
theorem IsAt.persists
    {insertion : Insertion}
    {earlier later : ConstantPool}
    {index : UInt16}
    (isAt : insertion.IsAt earlier index)
    (includes : later.Includes earlier) :
    insertion.IsAt later index := by
  cases insertion with
  | text value => exact includes.persists_text index _ isAt
  | bootstrap entry =>
      obtain ⟨inside, rfl⟩ := List.getElem?_eq_some_iff.mp isAt
      exact List.prefix_iff_getElem?.mp includes.bootstraps index.toNat inside
  | contents value => exact includes.persists_text index _ isAt
  | type value => exact RefType.persists_resolve includes index _ isAt
  | class_ name => exact BinaryName.persists_resolve includes index _ isAt
  | field member => exact FieldRef.persists_resolve includes index _ isAt
  | method member => exact MethodRef.persists_resolve includes index _ isAt
  | handle value => exact Handle.persists_resolve includes index _ isAt
  | literal value => exact Literal.persists_resolve includes index _ isAt
  | call site => exact DynamicCall.persists_resolve includes index _ isAt
  | _ => exact includes.get index _ isAt

/-- What is read at the index of anything but a bootstrap method is a constant. -/
theorem yields_run_constant
    (insertion : Insertion) :
    Yields insertion.run fun final index =>
      insertion.isBootstrap = false → ∃ constant, final.get index = .ok constant := by
  have interned : ∀ constant : Constant, Yields (ConstantPool.intern constant)
      fun final index => insertion.isBootstrap = false → ∃ other, final.get index = .ok other :=
    fun constant => (ConstantPool.yields_intern constant).imp
      fun _ _ stands _ => ⟨constant, stands⟩
  cases insertion with
  | bootstrap entry =>
      exact (onlyAdds_internBootstrap entry).yields.imp fun _ _ _ isOther => nomatch isOther
  | contents value =>
      refine Yields.map ((ConstantPool.yields_intern _).bind fun name => ?_)
      exact yields_pure fun _ _ stands _ => ⟨_, stands⟩
  | type value => exact (onlyAdds_internText _).yields_bind fun _ => interned _
  | class_ name => exact (onlyAdds_internText _).yields_bind fun _ => interned _
  | field member =>
      exact member.owner.onlyAdds_intern.yields_bind fun _ =>
        (onlyAdds_internNameAndType _ _).yields_bind fun _ => interned _
  | method member =>
      exact member.owner.onlyAdds_intern.yields_bind fun _ =>
        (onlyAdds_internNameAndType _ _).yields_bind fun _ => interned _
  | handle value =>
      exact value.yields_intern.imp fun _ _ stands _ => ⟨_, stands.1.choose_spec⟩
  | literal value =>
      refine value.yields_intern.imp fun final index resolved _ => ?_
      obtain ⟨constant, stands, _⟩ := bind_eq_ok.mp resolved
      exact ⟨constant, stands⟩
  | call site =>
      exact site.bootstrap.interns_intern.onlyAdds.yields_bind fun _ =>
        (Interns.mapM Literal.interns_intern site.arguments).onlyAdds.yields_bind fun _ =>
          (onlyAdds_internBootstrap _).yields_bind fun _ =>
            (onlyAdds_internNameAndType _ _).yields_bind fun _ => interned _
  | _ => exact interned _

end Insertion

/-- The pool after several insertions, one after another, whatever comes of each of them. -/
def ConstantPool.insertAll (pool : ConstantPool) (insertions : List Insertion) : ConstantPool :=
  insertions.foldl (fun reached insertion => reached.after insertion.run) pool

/-- However many insertions follow one another, the pool only grows. -/
theorem ConstantPool.IsConsistent.insertAll
    {pool : ConstantPool}
    (consistent : pool.IsConsistent)
    (insertions : List Insertion) :
    (pool.insertAll insertions).IsConsistent ∧ (pool.insertAll insertions).GrownFrom pool := by
  induction insertions generalizing pool with
  | nil => exact ⟨consistent, .refl pool⟩
  | cons insertion insertions inductionHypothesis =>
      obtain ⟨stepConsistent, stepGrown⟩ := insertion.interns_run.grows consistent
      obtain ⟨laterConsistent, laterGrown⟩ := inductionHypothesis stepConsistent
      exact ⟨laterConsistent, laterGrown.trans stepGrown⟩

/-! ## The law -/

namespace Insertion

/-- What an index that an insertion gave is good for in the pool after it and in every later
one: it is read back, if the table of bootstrap methods had room for it, it is the position of a
constant, and inserting the same again gives it and changes nothing. -/
structure IsKeptBy (insertion : Insertion) (index : UInt16) (after final : ConstantPool) :
    Prop where
  found : (insertion.isDynamic → after.bootstraps.length ≤ 2 ^ 16) →
    insertion.IsAt final index
  placed : insertion.isBootstrap = false →
    ∃ constant, (index.toNat, constant) ∈ final.constants.toList
  again : insertion.run final = .ok index final

/-- The law of an insertion into a pool: it only appends, so that every position keeps its
constant; it never makes the positions run over; it fails only if they would run over; and the
index that it gives is kept whatever is inserted later. -/
structure IsLawfulIn (insertion : Insertion) (before : ConstantPool) : Prop where
  appends : ∃ added, (before.after insertion.run).constants = before.constants.pushAll added
  keeps : ∀ index constant, before.get index = .ok constant →
    (before.after insertion.run).get index = .ok constant
  keepsBootstraps : before.bootstraps <+: (before.after insertion.run).bootstraps
  limited : before.constants.endOffset ≤ ConstantPool.positionLimit →
    (before.after insertion.run).constants.endOffset ≤ ConstantPool.positionLimit
  refuses : ∀ error after, insertion.run before = .error error after → after.Refuses error
  stores : ∀ index after, insertion.run before = .ok index after → ∀ later,
    insertion.IsKeptBy index after (after.insertAll later)

/-- Every insertion into a pool whose positions tell its constants apart is lawful. -/
theorem isLawfulIn_of_isConsistent
    (insertion : Insertion)
    {before : ConstantPool}
    (consistent : before.IsConsistent) :
    insertion.IsLawfulIn before := by
  have interns := insertion.interns_run
  obtain ⟨afterConsistent, grown⟩ := interns.grows consistent
  constructor
  case appends => exact grown.appended.imp fun _ isAdded => isAdded.1
  case keeps => exact fun _ _ stands => grown.get_eq_ok consistent afterConsistent stands
  case keepsBootstraps => exact grown.bootstraps
  case limited => exact grown.endOffset_le
  case refuses => exact fun _ _ => interns.refuses
  case stores =>
    intro index after done later
    rw [ConstantPool.after_eq_of_ok done] at afterConsistent
    obtain ⟨finalConsistent, finalGrown⟩ := afterConsistent.insertAll later
    have extending := finalGrown.toExtends
    constructor
    case found =>
      intro few
      have isAt := (insertion.yields_run before index after consistent done).2.2 after
        afterConsistent (.refl after) few
      exact isAt.persists (extending.includes afterConsistent finalConsistent)
    case placed =>
      intro isOther
      obtain ⟨constant, stands⟩ := (insertion.yields_run_constant before index after consistent
        done).2.2 _ finalConsistent extending isOther
      exact ⟨constant, finalConsistent.get_eq_ok_iff.mp stands⟩
    case again =>
      exact (interns.repeats before index after consistent done).2.2 _ finalConsistent extending

end Insertion

/-! ## Positions that take more than sixteen bits -/

theorem totalWidth_replicate
    {α : Type}
    [Width α]
    (count : Nat)
    (value : α) :
    totalWidth (List.replicate count value) = count * width value := by
  induction count with
  | zero => exact (Nat.zero_mul _).symm
  | succ count inductionHypothesis =>
      change width value + totalWidth (List.replicate count value) = _
      rw [inductionHypothesis, Nat.succ_mul, Nat.add_comm]

namespace ConstantPool

/-- A constant that is not in a table has no position. -/
theorem positionsOf_eq_none
    {table : ConstantTable}
    {constant : Constant}
    (isNew : constant ∉ table.values) :
    (positionsOf table)[constant]? = none := by
  suffices general : ∀ (entries : List (Nat × Constant)) (positions : Std.HashMap Constant PoolIndex),
      constant ∉ entries.map Prod.snd → positions[constant]? = none →
      (entries.foldl (fun positions entry =>
        positions.insertIfNew entry.2 entry.1.toUInt16) positions)[constant]? = none by
    unfold positionsOf
    rw [← Array.foldl_toList]
    exact general table.toList ∅ isNew Std.HashMap.getElem?_empty
  intro entries
  induction entries with
  | nil => exact fun _ _ unrecorded => unrecorded
  | cons entry entries inductionHypothesis =>
      intro positions isNew unrecorded
      obtain ⟨isOther, isLater⟩ := not_or.mp (List.mem_cons.not.mp isNew)
      rw [List.foldl_cons]
      apply inductionHypothesis _ isLater
      rw [Std.HashMap.getElem?_insertIfNew, if_neg fun same => isOther (eq_of_beq same.1).symm]
      exact unrecorded

/-- The last constant of a table, if it stands there only once, is given its position modulo two
to the sixteenth. -/
theorem intern_last
    {table : ConstantTable}
    {constant : Constant}
    (isNew : constant ∉ table.values)
    (bootstraps : List BootstrapMethod) :
    intern constant (ofTable (table.push constant) bootstraps) =
      .ok table.endOffset.toUInt16 (ofTable (table.push constant) bootstraps) := by
  have recorded : (ofTable (table.push constant) bootstraps).firstPositions[constant]? =
      some table.endOffset.toUInt16 := by
    change (positionsOf (table.push constant))[constant]? = _
    have isLast : positionsOf (table.push constant) =
        (positionsOf table).insertIfNew constant table.endOffset.toUInt16 :=
      Array.foldl_push
    have unrecorded : constant ∉ positionsOf table := by
      rw [Std.HashMap.mem_iff_isSome_getElem?, positionsOf_eq_none isNew]
      exact Bool.false_ne_true
    rw [isLast, Std.HashMap.getElem?_insertIfNew, if_pos ⟨beq_self_eq_true _, unrecorded⟩]
  unfold intern
  rw [recorded]

/-- After so many longs a number is found at the position that follows them, modulo two to the
sixteenth, and a long at the first position. -/
theorem intern_crowded
    (count : Nat) :
    let pool := ofTable
      (OffsetSeq.ofList 1 (List.replicate (count + 1) (.long 0) ++ [.integer 7])) []
    intern (.integer 7) pool = .ok (1 + (count + 1) * 2).toUInt16 pool ∧
      pool.get 1 = .ok (.long 0) := by
  intro pool
  let table : ConstantTable :=
    (OffsetSeq.startingAt 1).pushAll (List.replicate (count + 1) (.long 0))
  have isPool : pool = ofTable (table.push (.integer 7)) [] :=
    congrArg (ofTable · []) (List.foldl_append)
  have ends : table.endOffset = 1 + (count + 1) * 2 := by
    rw [OffsetSeq.endOffset_pushAll, totalWidth_replicate]
    rfl
  have isNew : Constant.integer 7 ∉ table.values := by
    rw [OffsetSeq.values_pushAll]
    intro member
    cases List.eq_of_mem_replicate ((List.mem_append.mp member).resolve_left List.not_mem_nil)
  have ordered : pool.constants.IsOrdered :=
    (OffsetSeq.isOrdered_startingAt 1).pushAll _
  have stands : (1, Constant.long 0) ∈ pool.constants.toList :=
    OffsetSeq.mem_toList_pushAll_iff.mpr (.inr ⟨[], _, rfl, rfl⟩)
  constructor
  · have isLast := intern_last isNew []
    rwa [ends, ← isPool] at isLast
  · unfold get
    rw [show (1 : PoolIndex).toNat = 1 from rfl, ordered.value?_locate_eq_some_iff.mpr stands]

end ConstantPool

/-- A pool as it is before anything is inserted: a new one, or one made of constants that all
have positions of sixteen bits, with whatever bootstrap methods. -/
def ConstantPool.IsInitial (pool : ConstantPool) : Prop :=
  pool = empty ∨ ∃ first constants bootstraps,
    pool = ofTable (OffsetSeq.ofList first constants) bootstraps ∧
      ∀ entry ∈ (OffsetSeq.ofList first constants).toList, entry.1 < 2 ^ 16

theorem ConstantPool.IsInitial.isConsistent
    {pool : ConstantPool}
    (initial : pool.IsInitial) :
    pool.IsConsistent := by
  rcases initial with rfl | ⟨first, constants, bootstraps, rfl, small⟩
  · exact isConsistent_empty
  · exact isConsistent_ofTable ((OffsetSeq.isOrdered_startingAt first).pushAll constants) small
      bootstraps

/-- Insertions into a pool that all its positions of sixteen bits are enough for: however many
there are, they only append, they never make the positions run over, and each of them is
lawful. -/
theorem isLawfulIn_insertAll
    {pool : ConstantPool}
    (initial : pool.IsInitial)
    (earlier : List Insertion) :
    (∃ added, (pool.insertAll earlier).constants = pool.constants.pushAll added) ∧
      (pool.constants.endOffset ≤ ConstantPool.positionLimit →
        (pool.insertAll earlier).constants.endOffset ≤ ConstantPool.positionLimit) ∧
      ∀ insertion : Insertion, insertion.IsLawfulIn (pool.insertAll earlier) := by
  obtain ⟨consistent, grown⟩ := initial.isConsistent.insertAll earlier
  refine ⟨grown.appended.imp fun _ isAdded => isAdded.1, grown.endOffset_le,
    fun insertion => insertion.isLawfulIn_of_isConsistent consistent⟩

/-- A pool in which a text stands twice and a class comes before its name, with a wide constant
and one that is not a number, gives a field an index, which it keeps. -/
theorem isKeptBy_repetitive :
    let pool := ConstantPool.ofTable (OffsetSeq.ofList 1 [.utf8 "value", .utf8 "value",
      .classInfo 4, .utf8 "demo/Named", .double 0x7ff8000000000001, .long 5, .integer 5]) []
    let member : FieldRef := ⟨⟨"demo/Named", by decide⟩, ⟨"value", by decide⟩, .base .long⟩
    ∃ index after, (Insertion.field member).run pool = .ok index after ∧
      ∀ later, (Insertion.field member).IsKeptBy index after (after.insertAll later) := by
  intro pool member
  have initial : pool.IsInitial := .inr ⟨_, _, _, rfl, by decide⟩
  obtain ⟨index, after, done, _⟩ := member.fitsIn_intern pool (by decide)
  exact ⟨index, after, done,
    (((isLawfulIn_insertAll initial []).2.2 (.field member)).stores index after done)⟩

/-- After as many longs as take all positions of sixteen bits, a number is looked for where the
first long stands: that is what is read at the index given for it. -/
theorem not_isLawfulIn_crowded :
    let pool := ConstantPool.ofTable
      (OffsetSeq.ofList 1 (List.replicate 32768 (.long 0) ++ [.integer 7])) []
    (Insertion.literal (.integer 7)).run pool = .ok 1 pool ∧
      Literal.resolve pool 1 = .ok (.long 0) ∧
      ¬ (Insertion.literal (.integer 7)).IsLawfulIn pool := by
  intro pool
  obtain ⟨done, stands⟩ := ConstantPool.intern_crowded 32767
  have resolved : Literal.resolve pool 1 = .ok (.long 0) := by
    rw [Literal.resolve, stands]
    rfl
  refine ⟨done, resolved, fun lawful => ?_⟩
  have found := (lawful.stores 1 pool done []).found Bool.noConfusion
  cases resolved.symm.trans found

end ClosureConversion
