import ClosureConversion.Proofs.Reference

/-!
Contract: constants that refer to what they have to refer to.

Owns:
- what a class file may hold that is not read;
- constants that are well formed, pools of such constants, and the kinds that can be loaded;
- the classes, members, handles, literals and dynamic call sites of a well-formed pool are found.

Does not own: how constants stand in a class file.
-/

namespace ClosureConversion

/-- What a class file may hold that is not read. -/
structure Leeway where
  /-- Jumps to subroutines, and returns from them. -/
  subroutines : Bool
  /-- Constants that are computed when they are loaded. -/
  computedConstants : Bool
  /-- Lines of the source that begin inside of an instruction. -/
  splitLines : Bool

/-- A class file holds what is read alone. -/
def Leeway.none : Leeway where
  subroutines := false
  computedConstants := false
  splitLines := false

/-- A class file holds whatever the class files of some version can hold. -/
def Leeway.full : Leeway where
  subroutines := true
  computedConstants := true
  splitLines := true

/-- The constant at a position is that of a class, whose name spells a type. -/
def ConstantPool.SpellsType (pool : ConstantPool) (index : PoolIndex) (type : RefType) : Prop :=
  ∃ name, pool.get index = .ok (.classInfo name) ∧ pool.text name = .ok type.classInfoName

namespace Constant

/-- An instruction can load the constant, or a bootstrap method take it as an argument. -/
def IsLoadable (leeway : Leeway) : Constant → Prop
  | .integer _ | .float _ | .long _ | .double _ | .string _ | .classInfo _ | .methodType _
  | .methodHandle _ _ => True
  | .dynamic _ _ => leeway.computedConstants = true
  | _ => False

/-- Whatever the constant refers to stands in the pool, and is spelled as it has to be. -/
inductive IsWellFormed (pool : ConstantPool) : Constant → Prop where
  | utf8 (text : String) : IsWellFormed pool (.utf8 text)
  | integer (value : Int32) : IsWellFormed pool (.integer value)
  | float (bits : UInt32) : IsWellFormed pool (.float bits)
  | long (value : Int64) : IsWellFormed pool (.long value)
  | double (bits : UInt64) : IsWellFormed pool (.double bits)
  | string {text : PoolIndex} {value : String} (isText : pool.text text = .ok value) :
      IsWellFormed pool (.string text)
  | classInfo {name : PoolIndex} {type : RefType}
      (isName : pool.text name = .ok type.classInfoName) : IsWellFormed pool (.classInfo name)
  | fieldSignature {name descriptor : PoolIndex} {fieldName : UnqualifiedName} {type : FieldType}
      (isName : pool.text name = .ok fieldName.text)
      (isDescriptor : pool.text descriptor = .ok type.descriptor) :
      IsWellFormed pool (.nameAndType name descriptor)
  | methodSignature {name descriptor : PoolIndex} {methodName : UnqualifiedName} {type : MethodType}
      (isName : pool.text name = .ok methodName.text)
      (isDescriptor : pool.text descriptor = .ok type.descriptor) :
      IsWellFormed pool (.nameAndType name descriptor)
  | fieldRef {owner signature : PoolIndex} {ownerName : BinaryName} {name : UnqualifiedName}
      {type : FieldType} (isOwner : pool.SpellsType owner (.object ownerName))
      (isSignature : pool.nameAndType signature = .ok (name.text, type.descriptor)) :
      IsWellFormed pool (.fieldRef owner signature)
  | methodRef {owner signature : PoolIndex} {ofInterface : Bool} {ownerType : RefType}
      {name : UnqualifiedName} {type : MethodType} (isOwner : pool.SpellsType owner ownerType)
      (isSignature : pool.nameAndType signature = .ok (name.text, type.descriptor)) :
      IsWellFormed pool (.methodRef owner signature ofInterface)
  | fieldHandle {access : FieldAccess} {member owner signature : PoolIndex}
      (isMember : pool.get member = .ok (.fieldRef owner signature)) :
      IsWellFormed pool (.methodHandle (.field access) member)
  | methodHandle {use : MethodUse} {member owner signature : PoolIndex} {ofInterface : Bool}
      (isMember : pool.get member = .ok (.methodRef owner signature ofInterface)) :
      IsWellFormed pool (.methodHandle (.method use) member)
  | methodType {descriptor : PoolIndex} {type : MethodType}
      (isDescriptor : pool.text descriptor = .ok type.descriptor) :
      IsWellFormed pool (.methodType descriptor)
  | dynamic {bootstrap : UInt16} {signature : PoolIndex} {name : UnqualifiedName}
      {type : FieldType} (stands : bootstrap.toNat < pool.bootstraps.length)
      (isSignature : pool.nameAndType signature = .ok (name.text, type.descriptor)) :
      IsWellFormed pool (.dynamic bootstrap signature)
  | invokeDynamic {bootstrap : UInt16} {signature : PoolIndex} {name : UnqualifiedName}
      {type : MethodType} (stands : bootstrap.toNat < pool.bootstraps.length)
      (isSignature : pool.nameAndType signature = .ok (name.text, type.descriptor)) :
      IsWellFormed pool (.invokeDynamic bootstrap signature)
  | moduleInfo {name : PoolIndex} {value : String} (isText : pool.text name = .ok value) :
      IsWellFormed pool (.moduleInfo name)
  | packageInfo {name : PoolIndex} {value : String} (isText : pool.text name = .ok value) :
      IsWellFormed pool (.packageInfo name)

end Constant

/-- The pool holds an argument that a bootstrap method or an instruction can take. -/
def ConstantPool.Loads (pool : ConstantPool) (leeway : Leeway) (index : PoolIndex) : Prop :=
  ∃ constant, pool.get index = .ok constant ∧ constant.IsLoadable leeway

/-- All constants are well formed, and the bootstrap methods are handles with arguments. -/
structure ConstantPool.IsWellFormed (leeway : Leeway) (pool : ConstantPool) : Prop where
  constants : ∀ constant ∈ pool.constants.values, constant.IsWellFormed pool
  handles : ∀ bootstrap ∈ pool.bootstraps, ∃ kind member,
    pool.get bootstrap.handle = .ok (.methodHandle kind member)
  arguments : ∀ bootstrap ∈ pool.bootstraps, ∀ argument ∈ bootstrap.arguments,
    pool.Loads leeway argument

/-! ## Finding -/

section Finding

variable {pool : ConstantPool} {index : PoolIndex}

theorem RefType.resolve_of_spellsType
    {type : RefType}
    (spells : pool.SpellsType index type) :
    RefType.resolve pool index = .ok type := by
  obtain ⟨name, stands, isName⟩ := spells
  rw [RefType.resolve, stands, ok_bind]
  simp only [isName, ok_bind]
  rw [RefType.ofClassInfoName_classInfoName]
  rfl

theorem BinaryName.resolve_of_spellsType
    {name : BinaryName}
    (spells : pool.SpellsType index (.object name)) :
    BinaryName.resolve pool index = .ok name := by
  rw [BinaryName.resolve, RefType.resolve_of_spellsType spells]
  rfl

/-- What stands at a position is one of the constants. -/
theorem ConstantPool.mem_values_of_get_eq_ok
    {constant : Constant}
    (stands : pool.get index = .ok constant) :
    constant ∈ pool.constants.values := by
  unfold ConstantPool.get at stands
  split at stands
  · rename_i found
    cases stands
    exact List.mem_map_of_mem (OffsetSeq.mem_toList_of_value?_locate_eq_some found)
  · cases stands

namespace ConstantPool.IsWellFormed

variable {leeway : Leeway} (wellFormed : pool.IsWellFormed leeway)

include wellFormed

theorem isWellFormed_of_get_eq_ok
    {constant : Constant}
    (stands : pool.get index = .ok constant) :
    constant.IsWellFormed pool :=
  wellFormed.constants constant (mem_values_of_get_eq_ok stands)

/-- Every class constant spells a type. -/
theorem exists_spellsType
    {name : PoolIndex}
    (stands : pool.get index = .ok (.classInfo name)) :
    ∃ type, pool.SpellsType index type := by
  cases wellFormed.isWellFormed_of_get_eq_ok stands with
  | @classInfo _ type isName => exact ⟨type, name, stands, isName⟩

theorem exists_refType
    {name : PoolIndex}
    (stands : pool.get index = .ok (.classInfo name)) :
    ∃ type, RefType.resolve pool index = .ok type := by
  obtain ⟨type, spells⟩ := wellFormed.exists_spellsType stands
  exact ⟨type, RefType.resolve_of_spellsType spells⟩

theorem exists_fieldRef
    {owner signature : PoolIndex}
    (stands : pool.get index = .ok (.fieldRef owner signature)) :
    ∃ field, FieldRef.resolve pool index = .ok field := by
  cases wellFormed.isWellFormed_of_get_eq_ok stands with
  | @fieldRef _ _ ownerName name type isOwner isSignature =>
      refine ⟨⟨ownerName, name, type⟩, ?_⟩
      rw [FieldRef.resolve, stands, ok_bind]
      simp only [BinaryName.resolve_of_spellsType isOwner, isSignature, ok_bind,
        UnqualifiedName.ofClassFile_text, FieldType.ofClassFile_descriptor]
      rfl

theorem exists_methodRef
    {owner signature : PoolIndex}
    {ofInterface : Bool}
    (stands : pool.get index = .ok (.methodRef owner signature ofInterface)) :
    ∃ method, MethodRef.resolve pool index = .ok method := by
  cases wellFormed.isWellFormed_of_get_eq_ok stands with
  | @methodRef _ _ _ ownerType name type isOwner isSignature =>
      refine ⟨⟨ownerType, name, type, ofInterface⟩, ?_⟩
      rw [MethodRef.resolve, stands, ok_bind]
      simp only [RefType.resolve_of_spellsType isOwner, isSignature, ok_bind,
        UnqualifiedName.ofClassFile_text, MethodType.ofClassFile_descriptor]
      rfl

theorem exists_handle
    {kind : HandleKind}
    {member : PoolIndex}
    (stands : pool.get index = .ok (.methodHandle kind member)) :
    ∃ handle, Handle.resolve pool index = .ok handle := by
  cases wellFormed.isWellFormed_of_get_eq_ok stands with
  | @fieldHandle access _ _ _ isMember =>
      obtain ⟨field, resolved⟩ := wellFormed.exists_fieldRef isMember
      refine ⟨.field access field, ?_⟩
      rw [Handle.resolve, stands, ok_bind]
      simp only [resolved, ok_bind]
      rfl
  | @methodHandle use _ _ _ _ isMember =>
      obtain ⟨method, resolved⟩ := wellFormed.exists_methodRef isMember
      refine ⟨.method use method, ?_⟩
      rw [Handle.resolve, stands, ok_bind]
      simp only [resolved, ok_bind]
      rfl

/-- Every constant that can be loaded is found, unless it is computed. -/
theorem exists_literal
    (loads : pool.Loads .none index) :
    ∃ literal, Literal.resolve pool index = .ok literal := by
  obtain ⟨constant, stands, loadable⟩ := loads
  unfold Literal.resolve
  rw [stands, ok_bind]
  cases constant with
  | integer value => exact ⟨.integer value, rfl⟩
  | float bits => exact ⟨.float bits, rfl⟩
  | long value => exact ⟨.long value, rfl⟩
  | double bits => exact ⟨.double bits, rfl⟩
  | string text =>
      cases wellFormed.isWellFormed_of_get_eq_ok stands with
      | @string _ value isText =>
          refine ⟨.string value, ?_⟩
          simp only [isText, ok_bind]
          rfl
  | classInfo name =>
      obtain ⟨type, resolved⟩ := wellFormed.exists_refType stands
      refine ⟨.class_ type, ?_⟩
      simp only [resolved, ok_bind]
      rfl
  | methodType descriptor =>
      cases wellFormed.isWellFormed_of_get_eq_ok stands with
      | @methodType _ type isDescriptor =>
          refine ⟨.methodType type, ?_⟩
          simp only [isDescriptor, ok_bind, MethodType.ofClassFile_descriptor]
          rfl
  | methodHandle kind member =>
      obtain ⟨handle, resolved⟩ := wellFormed.exists_handle stands
      refine ⟨.methodHandle handle, ?_⟩
      simp only [resolved, ok_bind]
      rfl
  | dynamic bootstrap signature => cases loadable
  | _ => exact loadable.elim

end ConstantPool.IsWellFormed

/-- Every dynamic call site is found whose bootstrap method takes no computed constants. -/
theorem ConstantPool.IsWellFormed.exists_dynamicCall
    (wellFormed : pool.IsWellFormed .none)
    {bootstrap : UInt16}
    {signature : PoolIndex}
    (stands : pool.get index = .ok (.invokeDynamic bootstrap signature)) :
    ∃ call, DynamicCall.resolve pool index = .ok call := by
  cases wellFormed.isWellFormed_of_get_eq_ok stands with
  | @invokeDynamic _ _ name type inside isSignature =>
      have isBootstrap := List.getElem?_eq_getElem inside
      have member : pool.bootstraps[bootstrap.toNat] ∈ pool.bootstraps := List.getElem_mem inside
      obtain ⟨kind, target, isHandle⟩ := wellFormed.handles _ member
      obtain ⟨handle, handled⟩ := wellFormed.exists_handle isHandle
      obtain ⟨arguments, areArguments⟩ := exists_forall₂_of_forall fun argument isArgument =>
        wellFormed.exists_literal (wellFormed.arguments _ member argument isArgument)
      refine ⟨⟨handle, arguments, name, type⟩, ?_⟩
      rw [DynamicCall.resolve, stands, ok_bind]
      simp only [isBootstrap, handled, mapM_eq_ok_of_forall₂ areArguments.flip, isSignature, ok_bind,
        UnqualifiedName.ofClassFile_text, MethodType.ofClassFile_descriptor]
      rfl

end Finding

end ClosureConversion
