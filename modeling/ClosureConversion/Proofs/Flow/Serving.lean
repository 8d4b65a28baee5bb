import ClosureConversion.Flow.Execution
import ClosureConversion.Proofs.Flow.Covering

/-!
Contract: which values serve as which others, whatever the classes of objects are.

Owns:
- the order of values with the names of classes forgotten: what instructions ask of a value
  they find in every value that serves as it;
- merged frames are served by both frames, in every hierarchy.

Does not own: what instructions do to frames that serve as each other.
-/

namespace ClosureConversion

variable {hierarchy : Hierarchy}

/-! ## Reference types -/

namespace RefType

/-- Every type serves as a class, and arrays of objects serve as others of the same nesting. -/
inductive ServesAs : RefType → RefType → Prop where
  | refl (type : RefType) : ServesAs type type
  | class_ (type : RefType) (name : BinaryName) : ServesAs type (.object name)
  | objectArray (nesting : Nat) (sub super : BinaryName) :
      ServesAs (.objectArray nesting sub) (.objectArray nesting super)

theorem ServesAs.trans
    {first second third : RefType}
    (firstServes : ServesAs first second)
    (secondServes : ServesAs second third) :
    ServesAs first third := by
  cases secondServes with
  | refl => exact firstServes
  | class_ _ name => exact .class_ first name
  | objectArray nesting middle super =>
      cases firstServes with
      | refl => exact .objectArray nesting middle super
      | objectArray _ sub _ => exact .objectArray nesting sub super

/-- A type serves as those above it. -/
theorem IsBelow.servesAs
    {sub super : RefType}
    (below : IsBelow hierarchy sub super) :
    ServesAs sub super := by
  cases below with
  | refl => exact .refl sub
  | root => exact .class_ sub .object
  | object _ => exact .class_ _ _
  | objectArray nesting _ => exact .objectArray nesting _ _

end RefType

/-- Both types serve as the nearest type that they have in common. -/
theorem Hierarchy.servesAs_commonSupertype
    {first second shared : RefType}
    (computed : hierarchy.commonSupertype first second = .ok shared) :
    first.ServesAs shared ∧ second.ServesAs shared := by
  unfold commonSupertype at computed
  split at computed
  · rename_i same
    cases computed
    exact ⟨.refl _, same ▸ .refl _⟩
  · split at computed
    · obtain ⟨name, _, rfl⟩ := map_eq_ok.mp computed
      exact ⟨.class_ _ _, .class_ _ _⟩
    · split at computed
      · rename_i sameNesting
        subst sameNesting
        obtain ⟨name, _, rfl⟩ := map_eq_ok.mp computed
        exact ⟨.objectArray _ _ _, .objectArray _ _ _⟩
      · cases computed
        exact ⟨.class_ _ _, .class_ _ _⟩
    · cases computed
      exact ⟨.class_ _ _, .class_ _ _⟩

/-! ## Values -/

namespace VerificationType

/-- Null serves as every object, and objects serve as others if their types do. -/
inductive ServesAs : VType → VType → Prop where
  | refl (type : VType) : ServesAs type type
  | null (type : RefType) : ServesAs .null (.object type)
  | object {sub super : RefType} : sub.ServesAs super → ServesAs (.object sub) (.object super)

/-- What a slot holds serves as what another one holds: every value serves as a useless one. -/
def ServesSlot (special general : VType) : Prop :=
  general = .top ∨ ServesAs special general

/-- A value serves as those above it. -/
theorem IsBelow.servesAs
    {special general : VType}
    (below : IsBelow hierarchy special general) :
    ServesAs special general := by
  cases below with
  | refl => exact .refl special
  | null type => exact .null type
  | object below => exact .object below.servesAs

namespace ServesAs

variable {special general : VType}

theorem trans
    {first second third : VType}
    (firstServes : ServesAs first second)
    (secondServes : ServesAs second third) :
    ServesAs first third := by
  cases firstServes with
  | refl => exact secondServes
  | null type =>
      cases secondServes with
      | refl => exact .null type
      | object _ => exact .null _
  | object serves =>
      cases secondServes with
      | refl => exact .object serves
      | object above => exact .object (serves.trans above)

/-- Only references have other values that serve as them. -/
theorem eq_of_not_reference
    (serves : ServesAs special general)
    (noReference : general.isReference = false) :
    special = general := by
  cases serves with
  | refl => rfl
  | null type => cases noReference
  | object _ => cases noReference

/-- No other value serves as an object whose constructor has not run. -/
theorem eq_of_not_initialized
    (serves : ServesAs special general)
    (notInitialized : general.isInitializedReference = false) :
    special = general := by
  cases serves with
  | refl => rfl
  | null type => cases notInitialized
  | object _ => cases notInitialized

theorem isReference_eq
    (serves : ServesAs special general) :
    special.isReference = general.isReference := by
  cases serves <;> rfl

theorem isInitializedReference_eq
    (serves : ServesAs special general) :
    special.isInitializedReference = general.isInitializedReference := by
  cases serves <;> rfl

theorem isWide_eq
    (serves : ServesAs special general) :
    special.isWide = general.isWide := by
  cases serves <;> rfl

theorem isOfKind
    (serves : ServesAs special general)
    {kind : LocalKind}
    (ofKind : general.isOfKind kind = true) :
    special.isOfKind kind = true := by
  cases serves with
  | refl => exact ofKind
  | null type => cases kind <;> simp_all [VerificationType.isOfKind, isReference]
  | object _ => cases kind <;> simp_all [VerificationType.isOfKind, isReference]

theorem fits
    (serves : ServesAs special general)
    {type : FieldType}
    (fitsType : general.fits type = true) :
    special.fits type = true := by
  cases type with
  | base base =>
      have isBase : general = .ofField (.base base) := of_decide_eq_true fitsType
      have noReference : general.isReference = false := by
        rw [isBase]
        cases base <;> rfl
      rw [serves.eq_of_not_reference noReference]
      exact fitsType
  | ref type =>
      have isInitialized : general.isInitializedReference = true := fitsType
      rw [← serves.isInitializedReference_eq] at isInitialized
      exact isInitialized

/-- Nothing of use is served by a useless value. -/
theorem eq_top
    (serves : ServesAs .top general) :
    general = .top := by
  cases serves
  rfl

end ServesAs

theorem ServesSlot.trans
    {first second third : VType}
    (firstServes : ServesSlot first second)
    (secondServes : ServesSlot second third) :
    ServesSlot first third := by
  rcases secondServes with isTop | secondServes
  · exact .inl isTop
  · rcases firstServes with rfl | firstServes
    · exact .inl secondServes.eq_top
    · exact .inr (firstServes.trans secondServes)

/-- Both values serve as the type that they are merged to. -/
theorem servesAs_merge
    {first second merged : VType}
    (computed : merge hierarchy first second = .ok (some merged)) :
    ServesAs first merged ∧ ServesAs second merged := by
  unfold merge at computed
  split at computed
  · rename_i same
    cases computed
    exact ⟨.refl _, same ▸ .refl _⟩
  · split at computed
    · cases computed
      exact ⟨.null _, .refl _⟩
    · cases computed
      exact ⟨.refl _, .null _⟩
    · obtain ⟨shared, found, isShared⟩ := map_eq_ok.mp computed
      cases isShared
      obtain ⟨firstServes, secondServes⟩ := Hierarchy.servesAs_commonSupertype found
      exact ⟨.object firstServes, .object secondServes⟩
    · cases computed

end VerificationType

/-! ## Arrays -/

/-- What an array instruction finds in an array, it finds in every array that serves as it. -/
theorem ArrayKind.refines_elementOf_of_servesAs
    {special general : VType}
    (serves : special.ServesAs general)
    (kind : ArrayKind) :
    Refines VerificationType.ServesAs (kind.elementOf special) (kind.elementOf general) := by
  intro element computed
  cases serves with
  | refl => exact ⟨element, computed, .refl element⟩
  | null type =>
      refine ⟨kind.toLocal.type, rfl, ?_⟩
      cases type with
      | object name => cases kind <;> cases computed
      | objectArray nesting name =>
          cases kind <;> cases nesting <;> cases computed
          · exact .null _
          · exact .null _
      | primitiveArray nesting base =>
          cases nesting with
          | zero =>
              cases base <;> cases kind <;> cases computed <;> exact .refl _
          | succ inner =>
              cases kind <;> cases computed
              exact .null _
  | object serves =>
      cases serves with
      | refl => exact ⟨element, computed, .refl element⟩
      | class_ type name => cases kind <;> cases computed
      | objectArray nesting sub super =>
          cases kind <;> cases nesting <;> cases computed
          · exact ⟨_, rfl, .object (.class_ _ _)⟩
          · exact ⟨_, rfl, .object (.objectArray _ _ _)⟩

/-! ## Frames -/

namespace Frame

/-- A frame serves as another one if its stack holds as many values, each of which serves as
the one at its place, and so do its slots. -/
structure ServesAs (special general : Frame) : Prop where
  stack : List.Forall₂ VerificationType.ServesAs special.stack general.stack
  locals : ∀ index, VerificationType.ServesSlot
    (Locals.valueAt special.locals index) (Locals.valueAt general.locals index)

namespace ServesAs

theorem refl
    (frame : Frame) :
    frame.ServesAs frame where
  stack := List.forall₂_same.mpr fun value _ => .refl value
  locals := fun _ => .inr (.refl _)

theorem trans
    {first second third : Frame}
    (firstServes : first.ServesAs second)
    (secondServes : second.ServesAs third) :
    first.ServesAs third where
  stack := forall₂_comp (fun _ _ _ lower upper => lower.trans upper)
    firstServes.stack secondServes.stack
  locals := fun index => (firstServes.locals index).trans (secondServes.locals index)

end ServesAs

/-- Both slots serve as the slot that they are merged to. -/
theorem servesSlot_mergeSlot
    {first second merged : VType}
    (computed : mergeSlot hierarchy first second = .ok merged) :
    VerificationType.ServesSlot first merged ∧ VerificationType.ServesSlot second merged := by
  unfold mergeSlot at computed
  split at computed
  · rename_i result found
    cases computed
    cases result with
    | none => exact ⟨.inl rfl, .inl rfl⟩
    | some type =>
        obtain ⟨firstServes, secondServes⟩ := VerificationType.servesAs_merge found
        exact ⟨.inr firstServes, .inr secondServes⟩
  · cases computed

/-- Slots that keep no half of a wide value serve as no more than before. -/
theorem servesSlot_dropHalves
    {slots : List VType}
    {index : Nat}
    {type : VType}
    (serves : VerificationType.ServesSlot type (Locals.valueAt slots index)) :
    VerificationType.ServesSlot type (Locals.valueAt (dropHalves slots) index) := by
  rw [valueAt_dropHalves]
  split
  · exact .inl rfl
  · exact serves

/-- Merging keeps the order of what serves as what, whatever the hierarchy is. -/
theorem mergeOrder_servesAs :
    MergeOrder hierarchy ServesAs where
  refl := .refl
  trans := .trans
  merge := by
    intro first second merged changed computed
    obtain ⟨slots, isMerge, unchanged⟩ := isMerge_of_merge_eq_ok computed
    obtain ⟨firstMerged, secondMerged⟩ := forall₂_of_zip
      (fun value other result =>
        VerificationType.merge hierarchy value other = .ok (some result))
      isMerge.sameDepth isMerge.stack
    refine ⟨⟨firstMerged.imp ?_, ?_⟩, ⟨secondMerged.imp ?_, ?_⟩, ?_⟩
    · rintro value result ⟨other, merges⟩
      exact (VerificationType.servesAs_merge merges).1
    · intro index
      rw [isMerge.whole]
      exact servesSlot_dropHalves (servesSlot_mergeSlot (isMerge.mergeSlot_eq index)).1
    · rintro value result ⟨other, merges⟩
      exact (VerificationType.servesAs_merge merges).2
    · intro index
      rw [isMerge.whole]
      exact servesSlot_dropHalves (servesSlot_mergeSlot (isMerge.mergeSlot_eq index)).2
    · intro isUnchanged
      rw [unchanged isUnchanged]
      refine ⟨(ServesAs.refl first).stack, fun index => ?_⟩
      rw [Locals.valueAt_extend]
      exact (ServesAs.refl first).locals index

end Frame

end ClosureConversion
