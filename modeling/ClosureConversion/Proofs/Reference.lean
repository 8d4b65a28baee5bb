import ClosureConversion.Proofs.Descriptor
import ClosureConversion.Proofs.Pool

/-!
Contract: references are read back from their constants.

Owns: for classes, fields, methods, handles, literals and dynamic call sites, that
resolving the position at which one was interned gives it back, in the pool after
interning and in every pool that extends that one.

Does not own: the pool, or the reading of names and descriptors.
-/

namespace ClosureConversion

open ConstantPool (yields_intern yields_internText yields_internNameAndType)

/-- The rest of a sequence of computations whose first one has a result. -/
theorem ok_bind
    {ε α β : Type}
    (value : α)
    (next : α → Except ε β) :
    ((.ok value : Except ε α) >>= next) = next value := rfl

theorem FieldType.ofClassFile_descriptor
    (type : FieldType) :
    FieldType.ofClassFile type.descriptor = .ok type := by
  rw [FieldType.ofClassFile, FieldType.ofDescriptor_descriptor]
  rfl

theorem MethodType.ofClassFile_descriptor
    (type : MethodType) :
    MethodType.ofClassFile type.descriptor = .ok type := by
  rw [MethodType.ofClassFile, MethodType.ofDescriptor_descriptor]
  rfl

theorem UnqualifiedName.ofClassFile_text
    (name : UnqualifiedName) :
    UnqualifiedName.ofClassFile name.text = .ok name := by
  rw [UnqualifiedName.ofClassFile, UnqualifiedName.ofString_text]
  rfl

/-! ## Classes -/

theorem RefType.yields_intern
    (type : RefType) :
    Yields type.intern fun final index =>
      (∃ name, final.get index = .ok (.classInfo name)) ∧
        RefType.resolve final index = .ok type := by
  apply (yields_internText type.classInfoName).bind
  intro name
  apply (ConstantPool.yields_intern (.classInfo name)).imp
  intro final index stands named
  refine ⟨⟨name, stands⟩, ?_⟩
  rw [RefType.resolve, stands, ok_bind]
  simp only [named, ok_bind]
  rw [RefType.ofClassInfoName_classInfoName]
  rfl

theorem RefType.yields_intern_resolve
    (type : RefType) :
    Yields type.intern fun final index => RefType.resolve final index = .ok type :=
  type.yields_intern.imp fun _ _ stands => stands.2

theorem BinaryName.yields_intern
    (name : BinaryName) :
    Yields name.intern fun final index => BinaryName.resolve final index = .ok name := by
  apply (RefType.yields_intern_resolve (.object name)).imp
  intro final index resolved
  rw [BinaryName.resolve, resolved]
  rfl

/-! ## Members -/

theorem FieldRef.yields_intern
    (field : FieldRef) :
    Yields field.intern fun final index => FieldRef.resolve final index = .ok field := by
  apply field.owner.yields_intern.bind
  intro owner
  apply (yields_internNameAndType field.name.text field.type.descriptor).bind
  intro signature
  apply (ConstantPool.yields_intern (.fieldRef owner signature)).imp
  intro final index stands signed owned
  rw [FieldRef.resolve, stands, ok_bind]
  simp only [owned, signed, ok_bind, UnqualifiedName.ofClassFile_text,
    FieldType.ofClassFile_descriptor]
  rfl

theorem MethodRef.yields_intern
    (method : MethodRef) :
    Yields method.intern fun final index => MethodRef.resolve final index = .ok method := by
  apply method.owner.yields_intern_resolve.bind
  intro owner
  apply (yields_internNameAndType method.name.text method.type.descriptor).bind
  intro signature
  apply (ConstantPool.yields_intern (.methodRef owner signature method.ofInterface)).imp
  intro final index stands signed owned
  rw [MethodRef.resolve, stands, ok_bind]
  simp only [owned, signed, ok_bind, UnqualifiedName.ofClassFile_text,
    MethodType.ofClassFile_descriptor]
  rfl

/-! ## Handles and literals -/

theorem Handle.yields_intern
    (handle : Handle) :
    Yields handle.intern fun final index =>
      (∃ member, final.get index = .ok (.methodHandle handle.kind member)) ∧
        Handle.resolve final index = .ok handle := by
  cases handle with
  | field access field =>
      apply field.yields_intern.bind
      intro member
      apply (ConstantPool.yields_intern (.methodHandle (.field access) member)).imp
      intro final index stands resolved
      refine ⟨⟨member, stands⟩, ?_⟩
      rw [Handle.resolve, stands, ok_bind]
      simp only [resolved, ok_bind]
      rfl
  | method use method =>
      apply method.yields_intern.bind
      intro member
      apply (ConstantPool.yields_intern (.methodHandle (.method use) member)).imp
      intro final index stands resolved
      refine ⟨⟨member, stands⟩, ?_⟩
      rw [Handle.resolve, stands, ok_bind]
      simp only [resolved, ok_bind]
      rfl

theorem Handle.yields_intern_resolve
    (handle : Handle) :
    Yields handle.intern fun final index => Handle.resolve final index = .ok handle :=
  handle.yields_intern.imp fun _ _ stands => stands.2

/-- A number is read back from the constant that holds it. -/
theorem Literal.yields_intern_constant
    {constant : Constant}
    {literal : Literal}
    (resolves : ∀ (pool : ConstantPool) (index : PoolIndex), pool.get index = .ok constant →
      Literal.resolve pool index = .ok literal) :
    Yields (ConstantPool.intern constant) fun final index =>
      Literal.resolve final index = .ok literal :=
  (ConstantPool.yields_intern constant).imp resolves

theorem Literal.yields_intern
    (literal : Literal) :
    Yields literal.intern fun final index => Literal.resolve final index = .ok literal := by
  cases literal with
  | integer value =>
      apply Literal.yields_intern_constant
      intro pool index stands
      rw [Literal.resolve, stands]
      rfl
  | float bits =>
      apply Literal.yields_intern_constant
      intro pool index stands
      rw [Literal.resolve, stands]
      rfl
  | long value =>
      apply Literal.yields_intern_constant
      intro pool index stands
      rw [Literal.resolve, stands]
      rfl
  | double bits =>
      apply Literal.yields_intern_constant
      intro pool index stands
      rw [Literal.resolve, stands]
      rfl
  | string text =>
      apply (yields_internText text).bind
      intro textIndex
      apply (ConstantPool.yields_intern (.string textIndex)).imp
      intro final index stands named
      rw [Literal.resolve, stands, ok_bind]
      simp only [named, ok_bind]
      rfl
  | class_ type =>
      apply type.yields_intern.imp
      rintro final index ⟨⟨name, stands⟩, resolved⟩
      rw [Literal.resolve, stands, ok_bind]
      simp only [resolved, ok_bind]
      rfl
  | methodType type =>
      apply (yields_internText type.descriptor).bind
      intro descriptor
      apply (ConstantPool.yields_intern (.methodType descriptor)).imp
      intro final index stands named
      rw [Literal.resolve, stands, ok_bind]
      simp only [named, ok_bind, MethodType.ofClassFile_descriptor]
      rfl
  | methodHandle handle =>
      apply handle.yields_intern.imp
      rintro final index ⟨⟨member, stands⟩, resolved⟩
      rw [Literal.resolve, stands, ok_bind]
      simp only [resolved, ok_bind]
      rfl

/-! ## Dynamic calls -/

/-- A bootstrap method stands for a handle and arguments. -/
def BootstrapMethod.Denotes
    (pool : ConstantPool)
    (handle : Handle)
    (arguments : List Literal)
    (entry : BootstrapMethod) : Prop :=
  Handle.resolve pool entry.handle = .ok handle ∧
    entry.arguments.mapM (Literal.resolve pool) = .ok arguments

/-- The bootstrap method that a call refers to is the one at the place, modulo two to the
sixteenth, of the one that was interned for it. -/
theorem DynamicCall.yields_intern_placed
    (call : DynamicCall) :
    Yields call.intern fun final index => ∃ entry place signature,
      final.bootstraps.findIdx? (· = entry) = some place ∧
        entry.Denotes final call.bootstrap call.arguments ∧
        final.get index = .ok (.invokeDynamic place.toUInt16 signature) ∧
        final.nameAndType signature = .ok (call.name.text, call.type.descriptor) := by
  apply call.bootstrap.yields_intern_resolve.bind
  intro handle
  apply (yields_mapM call.arguments fun literal _ => literal.yields_intern).bind
  intro arguments
  apply (ConstantPool.yields_internBootstrap_placed ⟨handle, arguments⟩).bind
  intro bootstrap
  apply (yields_internNameAndType call.name.text call.type.descriptor).bind
  intro signature
  apply (ConstantPool.yields_intern (.invokeDynamic bootstrap signature)).imp
  rintro final index stands signed ⟨place, found, rfl⟩ argumentsResolved handled
  exact ⟨⟨handle, arguments⟩, place, signature, found,
    ⟨handled, mapM_eq_ok_of_forall₂ argumentsResolved.flip⟩, stands, signed⟩

/-- A call is read back exactly if the bootstrap method at its index stands for its handle and
its arguments. -/
theorem DynamicCall.resolve_eq_ok_iff
    {pool : ConstantPool}
    {index signature : PoolIndex}
    {place : UInt16}
    {call : DynamicCall}
    (stands : pool.get index = .ok (.invokeDynamic place signature))
    (signed : pool.nameAndType signature = .ok (call.name.text, call.type.descriptor)) :
    DynamicCall.resolve pool index = .ok call ↔ ∃ entry,
      pool.bootstraps[place.toNat]? = some entry ∧
        entry.Denotes pool call.bootstrap call.arguments := by
  rw [DynamicCall.resolve, stands, ok_bind]
  simp only [signed, ok_bind, UnqualifiedName.ofClassFile_text, MethodType.ofClassFile_descriptor]
  cases pool.bootstraps[place.toNat]? with
  | none =>
      constructor
      · exact fun resolved => nomatch resolved
      · rintro ⟨entry, isSome, _⟩
        cases isSome
  | some entry =>
      constructor
      · intro resolved
        obtain ⟨handle, isHandle, resolved⟩ := bind_eq_ok.mp resolved
        obtain ⟨arguments, areArguments, resolved⟩ := bind_eq_ok.mp resolved
        have isCall := Except.ok.inj resolved
        rw [← isCall]
        exact ⟨entry, rfl, isHandle, areArguments⟩
      · rintro ⟨other, isSome, isHandle, areArguments⟩
        cases isSome
        simp only [isHandle, areArguments, ok_bind]
        rfl

theorem DynamicCall.yields_intern
    (call : DynamicCall) :
    Yields call.intern fun final index =>
      final.bootstraps.length ≤ 2 ^ 16 → DynamicCall.resolve final index = .ok call := by
  apply call.yields_intern_placed.imp
  rintro final index ⟨entry, place, signature, found, denotes, stands, signed⟩ few
  have isEntry := ConstantPool.getElem?_of_findIdx?_eq_some found
  have inside := (List.getElem?_eq_some_iff.mp isEntry).1
  refine (resolve_eq_ok_iff stands signed).mpr ⟨entry, ?_, denotes⟩
  rw [UInt16.toNat_ofNat_of_lt' (show place < 2 ^ 16 by omega), isEntry]

/-! ## Room for references -/

theorem RefType.fitsIn_intern
    (type : RefType) :
    FitsIn 2 type.intern :=
  (ConstantPool.fitsIn_intern (.utf8 type.classInfoName)).bind fun name =>
    ConstantPool.fitsIn_intern (.classInfo name)

theorem FieldRef.fitsIn_intern
    (field : FieldRef) :
    FitsIn 6 field.intern :=
  (RefType.fitsIn_intern (.object field.owner)).bind fun owner =>
    (ConstantPool.fitsIn_internNameAndType field.name.text field.type.descriptor).bind
      fun signature => ConstantPool.fitsIn_intern (.fieldRef owner signature)

theorem MethodRef.fitsIn_intern
    (method : MethodRef) :
    FitsIn 6 method.intern :=
  method.owner.fitsIn_intern.bind fun owner =>
    (ConstantPool.fitsIn_internNameAndType method.name.text method.type.descriptor).bind
      fun signature =>
        ConstantPool.fitsIn_intern (.methodRef owner signature method.ofInterface)

theorem Handle.fitsIn_intern
    (handle : Handle) :
    FitsIn 7 handle.intern := by
  cases handle with
  | field access member =>
      exact member.fitsIn_intern.bind fun index =>
        ConstantPool.fitsIn_intern (.methodHandle (.field access) index)
  | method use member =>
      exact member.fitsIn_intern.bind fun index =>
        ConstantPool.fitsIn_intern (.methodHandle (.method use) index)

theorem BinaryName.fitsIn_intern
    (name : BinaryName) :
    FitsIn 2 name.intern :=
  RefType.fitsIn_intern (.object name)

theorem Literal.fitsIn_intern
    (literal : Literal) :
    FitsIn 7 literal.intern := by
  unfold Literal.intern
  cases literal with
  | integer value => exact (ConstantPool.fitsIn_intern _).mono (show 1 ≤ 7 by decide)
  | float bits => exact (ConstantPool.fitsIn_intern _).mono (show 1 ≤ 7 by decide)
  | long value => exact (ConstantPool.fitsIn_intern _).mono (show 2 ≤ 7 by decide)
  | double bits => exact (ConstantPool.fitsIn_intern _).mono (show 2 ≤ 7 by decide)
  | string text =>
      exact ((ConstantPool.fitsIn_intern (.utf8 text)).bind fun index =>
        ConstantPool.fitsIn_intern (.string index)).mono (show 2 ≤ 7 by decide)
  | class_ type => exact type.fitsIn_intern.mono (by decide)
  | methodType type =>
      exact ((ConstantPool.fitsIn_intern (.utf8 type.descriptor)).bind fun index =>
        ConstantPool.fitsIn_intern (.methodType index)).mono (show 2 ≤ 7 by decide)
  | methodHandle handle => exact handle.fitsIn_intern

end ClosureConversion
