import ClosureConversion.Proofs.ClassFile.Annotations
import ClosureConversion.Proofs.Code.Legality

/-!
Contract: class files whose parts refer to what they have to refer to.

Owns:
- well-formed fields, methods and class files, with the leeway that they take;
- what a well-formed class file declares is found, whatever leeway it takes;
- all its methods are read if it takes none, and they call only methods that constants refer to.

Does not own: how a class file stands in bytes, or how constants and code are well formed.
-/

namespace ClosureConversion

/-! ## Parts -/

/-- The code is made of instructions, and its tables tell of places where they start. -/
structure CodeAttribute.IsMadeOf (leeway : Leeway) (pool : ConstantPool) (code : CodeAttribute)
    (instructions : List StoredInstruction) : Prop where
  fits : code.Fits
  isCode : IsCode leeway pool code.bytes instructions
  handlers : ∀ entry ∈ code.exceptions,
    entry.IsLegible (StoredInstruction.offsets instructions) pool
  listed : Attribute.AllHold code.attributes pool VariableTable fun table =>
    table.entries.length < 2 ^ 16 ∧
      ∀ entry ∈ table.entries, entry.IsLegible (StoredInstruction.offsets instructions) pool
  lines : Attribute.AllHold code.attributes pool LineTable fun table =>
    table.entries.length < 2 ^ 16 ∧ ∀ line ∈ table.entries,
      line.start.toNat ∈ StoredInstruction.offsets instructions ∨
        (leeway.splitLines = true ∧ line.start.toNat < code.bytes.length)

/-- A field has a name, a type and annotations. -/
structure Member.IsField (pool : ConstantPool) (field : Member .field) : Prop where
  name : ∃ name : UnqualifiedName, pool.text field.name = .ok name.text
  descriptor : ∃ type : FieldType, pool.text field.descriptor = .ok type.descriptor
  annotations : Attribute.Annotate pool field.attributes

/-- A method has a name, a type, annotations and code. -/
structure Member.IsMethod (leeway : Leeway) (pool : ConstantPool) (method : Member .method) :
    Prop where
  name : ∃ name : UnqualifiedName, pool.text method.name = .ok name.text
  descriptor : ∃ type : MethodType, pool.text method.descriptor = .ok type.descriptor
  annotations : Attribute.Annotate pool method.attributes
  code : Attribute.AllHold method.attributes pool CodeAttribute fun code =>
    ∃ instructions, code.IsMadeOf leeway pool instructions

/-- All parts of a class file refer to what they have to refer to. -/
structure ClassFile.IsWellFormed (leeway : Leeway) (file : ClassFile) : Prop where
  pool : file.pool.IsWellFormed leeway
  this : ∃ name, file.pool.SpellsType file.this (.object name)
  super : file.super = 0 ∨ ∃ name, file.pool.SpellsType file.super (.object name)
  interfaces : ∀ index ∈ file.interfaces, ∃ name, file.pool.SpellsType index (.object name)
  fields : ∀ field ∈ file.fields, field.IsField file.pool
  methods : ∀ method ∈ file.methods, method.IsMethod leeway file.pool
  annotations : Attribute.Annotate file.pool file.attributes

/-! ## Declarations -/

section Declarations

variable {leeway : Leeway} {file : ClassFile}

theorem Member.IsMethod.exists_methodSignature_eq_ok
    {method : Member .method}
    (isMethod : method.IsMethod leeway file.pool) :
    ∃ signature, file.methodSignature method = .ok signature := by
  obtain ⟨name, isName⟩ := isMethod.name
  obtain ⟨type, isType⟩ := isMethod.descriptor
  refine ⟨(name, type), ?_⟩
  rw [ClassFile.methodSignature, isName, ok_bind, isType, ok_bind,
    UnqualifiedName.ofClassFile_text, ok_bind, MethodType.ofClassFile_descriptor]
  rfl

namespace ClassFile.IsWellFormed

variable (wellFormed : file.IsWellFormed leeway)

include wellFormed

theorem exists_thisName_eq_ok :
    ∃ name, file.thisName = .ok name := by
  obtain ⟨name, spells⟩ := wellFormed.this
  exact ⟨name, BinaryName.resolve_of_spellsType spells⟩

end ClassFile.IsWellFormed

end Declarations

/-! ## Methods -/

/-- The static methods that the instructions call are ones that constants refer to. -/
def CallsFrom (pool : ConstantPool) (instructions : Array (Instruction Nat)) : Prop :=
  ∀ instruction ∈ instructions, ∀ called, staticCall? instruction = some called →
    ∃ index, MethodRef.resolve pool index = .ok called.2

/-- The body of a method is read if its code takes no leeway. -/
theorem CodeAttribute.IsMadeOf.exists_readBody_eq_ok
    {pool : ConstantPool}
    (wellFormed : pool.IsWellFormed .none)
    {code : CodeAttribute}
    {instructions : List StoredInstruction}
    (isMade : code.IsMadeOf .none pool instructions) :
    ∃ body, Method.readBody code pool = .ok body ∧ CallsFrom pool body.1.instructions := by
  obtain ⟨decoded, isDecoded, finds, calls⟩ := isMade.isCode.exists_decodeCode wellFormed
  have listed : ∀ entry ∈ code.attributes, entry.holds pool VariableTable = true →
      ∃ table, entry.contents VariableTable = .ok table ∧ ∀ variable_ ∈ table.entries,
        variable_.IsLegible (StoredInstruction.offsets instructions) pool := by
    intro entry member holds
    obtain ⟨table, found, _, legible⟩ := isMade.listed.exists_contents_eq_ok
      (fun _ legal => VariableTable.isReadBack legal.1) member holds
    exact ⟨table, found, legible⟩
  have lines : ∀ entry ∈ code.attributes, entry.holds pool LineTable = true →
      ∃ table, entry.contents LineTable = .ok table ∧ ∀ line ∈ table.entries,
        line.start.toNat ∈ StoredInstruction.offsets instructions := by
    intro entry member holds
    obtain ⟨table, found, _, each⟩ := isMade.lines.exists_contents_eq_ok
      (fun _ legal => LineTable.isReadBack legal.1) member holds
    exact ⟨table, found, fun line isListed =>
      (each line isListed).resolve_right fun splits => nomatch splits.1⟩
  obtain ⟨body, isRead, areDecoded⟩ :=
    Method.exists_readBody_eq_ok finds isDecoded isMade.handlers listed lines
  exact ⟨body, isRead, areDecoded ▸ calls⟩

/-- Every method is read if the class file takes no leeway. -/
theorem ClassFile.IsWellFormed.exists_ofMember?_eq_ok
    {file : ClassFile}
    (wellFormed : file.IsWellFormed .none)
    {member : Member .method}
    (isMember : member ∈ file.methods) :
    ∃ method?, Method.ofMember? file member = .ok method? ∧
      ∀ method, method? = some method → CallsFrom file.pool method.instructions := by
  have isMethod := wellFormed.methods member isMember
  obtain ⟨signature, isSignature⟩ := isMethod.exists_methodSignature_eq_ok
  obtain ⟨owner, isOwner⟩ := wellFormed.exists_thisName_eq_ok
  obtain ⟨code?, isCode, areMade⟩ := Attribute.exists_find?_eq_ok fun entry isEntry holds =>
    isMethod.code.exists_contents_eq_ok (fun _ ⟨_, isMade⟩ => isMade.fits.isReadBack) isEntry holds
  unfold Method.ofMember? Member.code?
  rw [isCode, ok_bind]
  cases code? with
  | none => exact ⟨none, rfl, fun _ isSome => nomatch isSome⟩
  | some code =>
      obtain ⟨_, isMade⟩ := areMade code rfl
      obtain ⟨body, isRead, calls⟩ := isMade.exists_readBody_eq_ok wellFormed.pool
      dsimp only
      rw [isSignature, ok_bind, isOwner, ok_bind, isRead]
      refine ⟨_, rfl, fun method same => ?_⟩
      cases same
      exact calls

end ClosureConversion
