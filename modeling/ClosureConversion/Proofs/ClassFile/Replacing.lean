import ClosureConversion.Proofs.ClassFile.Including
import ClosureConversion.Proofs.StackMap.Serialization

/-!
Contract: attributes that are replaced by others of their kind.

Owns:
- which attributes of a list are of a kind, in one pool and in another one;
- lists of attributes that differ in one attribute of a kind;
- the attributes of a class file that is written hold the bootstrap methods of its pool.

Does not own: what the attributes hold.
-/

namespace ClosureConversion

/-! ## Attributes of a kind -/

namespace Attribute

/-- The attributes are others with the first one of a kind replaced, or with one of the kind added
if there was none. Names are looked up in the pool of the attributes before and in the one of
the attributes after. -/
def AreReplaced (pool later : ConstantPool) (α : Type) [AttributeContents α]
    (before after : List Attribute) : Prop :=
  ∃ entry : Attribute, entry.holds later α ∧
    ((∃ front old back, before = front ++ old :: back ∧ after = front ++ entry :: back ∧
        old.holds pool α ∧ ∀ other ∈ front, other.holds pool α = false) ∨
      (∀ other ∈ before, other.holds pool α = false) ∧ after = before ++ [entry])

variable {pool later : ConstantPool} {α : Type} [AttributeContents α]

theorem holds_iff
    {entry : Attribute} :
    entry.holds pool α = true ↔ pool.text entry.name = .ok (attributeName α) := by
  unfold holds isNamed
  cases pool.text entry.name with
  | ok text => simp
  | error failure => simp

/-- The attribute holds the contents, under the name of their kind. -/
structure Carries (pool : ConstantPool) (contents : α) (entry : Attribute) : Prop where
  info : entry.info = write contents
  named : pool.text entry.name = .ok (attributeName α)

/-- The new attribute stands where the first one of the kind stood, or after all others. -/
theorem replace_eq
    (attributes : List Attribute)
    (pool : ConstantPool)
    (entry : Attribute) :
    (∃ front old back, attributes = front ++ old :: back ∧
        replace attributes pool α entry = front ++ entry :: back ∧
        old.holds pool α = true ∧ ∀ other ∈ front, other.holds pool α = false) ∨
      (∀ other ∈ attributes, other.holds pool α = false) ∧
        replace attributes pool α entry = attributes ++ [entry] := by
  unfold replace
  split
  · rename_i index found
    obtain ⟨inside, isKind, areOthers⟩ := List.findIdx?_eq_some_iff_getElem.mp found
    refine .inl ⟨attributes.take index, attributes[index], attributes.drop (index + 1), ?_, ?_,
      isKind, ?_⟩
    · rw [List.getElem_cons_drop, List.take_append_drop]
    · rw [List.set_eq_take_append_cons_drop, if_pos inside]
    · intro other member
      obtain ⟨place, isPlace, rfl⟩ := List.mem_iff_getElem.mp member
      rw [List.length_take] at isPlace
      rw [List.getElem_take]
      exact eq_false_of_ne_true (areOthers place (by omega))
  · rename_i notFound
    refine .inr ⟨fun other member => ?_, rfl⟩
    exact List.findIdx?_eq_none_iff.mp notFound other member

/-- Replacing goes by the names alone. -/
theorem replace_congr
    {attributes : List Attribute}
    {entry : Attribute}
    (sameNames : ∀ other ∈ attributes, other.holds later α = other.holds pool α) :
    replace attributes later α entry = replace attributes pool α entry := by
  unfold replace
  have sameIndex : attributes.findIdx? (·.holds later α) =
      attributes.findIdx? (·.holds pool α) := by
    induction attributes with
    | nil => rfl
    | cons first attributes inductionHypothesis =>
        rw [List.findIdx?_cons, List.findIdx?_cons, sameNames first List.mem_cons_self,
          inductionHypothesis fun other member => sameNames other (List.mem_cons_of_mem _ member)]
  rw [sameIndex]

theorem areReplaced_replace
    {attributes : List Attribute}
    {entry : Attribute}
    (isKind : entry.holds later α = true) :
    AreReplaced pool later α attributes (replace attributes pool α entry) :=
  ⟨entry, isKind, replace_eq attributes pool entry⟩

/-- Attributes whose first one of the kind is the new one. -/
theorem find?_replace
    {attributes : List Attribute}
    {entry : Attribute}
    (isKind : entry.holds pool α = true) :
    (replace attributes pool α entry).find? (·.holds pool α) = some entry := by
  rcases replace_eq (α := α) attributes pool entry with
    ⟨front, old, back, _, replaced, _, others⟩ | ⟨others, added⟩
  · have nowhere : front.find? (·.holds pool α) = none :=
      List.find?_eq_none.mpr fun other member => ne_true_of_eq_false (others other member)
    simp only [replaced, List.find?_append, nowhere, Option.none_or, List.find?_cons, isKind]
  · have nowhere : attributes.find? (·.holds pool α) = none :=
      List.find?_eq_none.mpr fun other member => ne_true_of_eq_false (others other member)
    simp only [added, List.find?_append, nowhere, Option.none_or, List.find?_cons, isKind]

end Attribute

/-- Growing a pool leaves alone which attributes have the name of a kind, if they have positions
of the pool for names or the pool records the name. -/
theorem Attribute.holds_of_grownFrom
    {later earlier : ConstantPool}
    (grown : later.GrownFrom earlier)
    (consistent : earlier.IsConsistent)
    (laterConsistent : later.IsConsistent)
    {α : Type}
    [AttributeContents α]
    {entry : Attribute}
    (known : entry.name.toNat < earlier.constants.endOffset ∨
      earlier.firstPositions[Constant.utf8 (attributeName α)]? ≠ none) :
    entry.holds later α = entry.holds earlier α := by
  apply Bool.eq_iff_iff.mpr
  rw [Attribute.holds_iff, Attribute.holds_iff]
  exact grown.text_eq_ok_iff consistent laterConsistent known

namespace ConstantPool

/-- A text is looked up among the constants alone. -/
theorem text_congr
    {pool other : ConstantPool}
    (same : pool.constants = other.constants)
    (index : PoolIndex) :
    pool.text index = other.text index := by
  unfold ConstantPool.text ConstantPool.get
  rw [same]

end ConstantPool

namespace Attribute

variable {pool other : ConstantPool} {α : Type} [AttributeContents α]

theorem holds_congr
    (same : pool.constants = other.constants)
    (entry : Attribute) :
    entry.holds pool α = entry.holds other α := by
  unfold holds isNamed
  rw [ConstantPool.text_congr same]

theorem AreReplaced.congr
    {earlier : ConstantPool}
    (same : pool.constants = other.constants)
    {before after : List Attribute}
    (replaced : AreReplaced earlier pool α before after) :
    AreReplaced earlier other α before after := by
  obtain ⟨entry, isKind, replaced⟩ := replaced
  exact ⟨entry, (holds_congr same entry).symm.trans isKind, replaced⟩

end Attribute

/-! ## Bootstrap methods -/

namespace ClassFile

/-- The attributes of a class file that was written hold the bootstrap methods of its pool. -/
theorem exists_attributes_of_syncBootstraps_eq_ok
    {file result : ClassFile}
    (consistent : file.pool.IsConsistent)
    (isSynced : file.syncBootstraps = .ok result) :
    ∃ pool attributes, result = { file with pool, attributes } ∧
      pool.IsConsistent ∧ pool.GrownFrom file.pool ∧ pool.bootstraps = file.pool.bootstraps ∧
      (file.pool.hasNewBootstraps = false ∧ attributes = file.attributes ∨
        file.pool.hasNewBootstraps = true ∧ ∃ entry, entry.holds pool BootstrapTable = true ∧
          entry.info = write (BootstrapTable.mk file.pool.bootstraps) ∧
          attributes = Attribute.replace file.attributes pool BootstrapTable entry) := by
  unfold syncBootstraps at isSynced
  split at isSynced
  · rename_i hasNew
    split at isSynced
    · rename_i entry pool done
      cases isSynced
      obtain ⟨poolConsistent, grown⟩ := Attribute.onlyAdds_ofContents _ _ _ _ consistent done
      obtain ⟨_, _, means⟩ := Attribute.yields_ofContents _ _ _ _ consistent done
      obtain ⟨isInfo, isNamed⟩ := means pool poolConsistent (.refl pool)
      refine ⟨pool, _, rfl, poolConsistent, grown, ?_,
        .inr ⟨hasNew, entry, Attribute.holds_iff.mpr isNamed, isInfo, rfl⟩⟩
      obtain ⟨name, between, interned, equal⟩ := run_bind_eq_ok.mp done
      obtain ⟨_, rfl⟩ := run_pure_eq_ok.mp equal
      exact ConstantPool.bootstraps_of_intern_eq_ok interned
    · cases isSynced
  · rename_i hasNone
    cases isSynced
    exact ⟨file.pool, _, rfl, consistent, .refl _, rfl,
      .inl ⟨eq_false_of_ne_true hasNone, rfl⟩⟩

end ClassFile

end ClosureConversion
