import ClosureConversion.Hierarchy.Declaration
import ClosureConversion.Method.Basic
import ClosureConversion.Proofs.ClassFile.Growth

/-!
Contract: what is read with a constant pool is read in the same way with every pool that includes
it.

Owns:
- computations that have every result that others have;
- pools that include another one, as every pool does that grew out of it;
- that references, instructions, code, bodies and declarations are read in the same way with
  such a pool.

Does not own: which pools a class file has.
-/

namespace ClosureConversion

/-! ## Computations that persist -/

section Persisting

variable {ε α β : Type}

/-- A computation has every result that another one has. -/
def Persists (later earlier : Except ε α) : Prop :=
  ∀ value, earlier = .ok value → later = .ok value

theorem persists_self
    (computation : Except ε α) :
    Persists computation computation :=
  fun _ computed => computed

theorem Persists.bind
    {later earlier : Except ε α}
    {laterNext earlierNext : α → Except ε β}
    (persists : Persists later earlier)
    (persistsNext : ∀ value, Persists (laterNext value) (earlierNext value)) :
    Persists (later >>= laterNext) (earlier >>= earlierNext) := by
  intro result computed
  obtain ⟨value, isValue, isResult⟩ := bind_eq_ok.mp computed
  exact bind_eq_ok.mpr ⟨value, persists value isValue, persistsNext value result isResult⟩

theorem Persists.map
    {later earlier : Except ε α}
    (persists : Persists later earlier)
    (f : α → β) :
    Persists (f <$> later) (f <$> earlier) := by
  intro result computed
  obtain ⟨value, isValue, isResult⟩ := map_eq_ok.mp computed
  exact map_eq_ok.mpr ⟨value, persists value isValue, isResult⟩

theorem persists_mapM
    {later earlier : α → Except ε β}
    {values : List α}
    (persists : ∀ value ∈ values, Persists (later value) (earlier value)) :
    Persists (values.mapM later) (values.mapM earlier) := by
  induction values with
  | nil => exact persists_self _
  | cons value values inductionHypothesis =>
      rw [List.mapM_cons, List.mapM_cons]
      refine (persists value List.mem_cons_self).bind fun _ => ?_
      refine (inductionHypothesis fun other member =>
        persists other (List.mem_cons_of_mem _ member)).bind fun _ => ?_
      exact persists_self _

/-- A reader of code has every result that another one has, wherever it starts. -/
def PersistsReading (later earlier : CodeReader α) : Prop :=
  ∀ cursor, Persists (later cursor) (earlier cursor)

theorem persistsReading_self
    (reader : CodeReader α) :
    PersistsReading reader reader :=
  fun _ => persists_self _

theorem persistsReading_lift
    {later earlier : Except BytecodeError α}
    (persists : Persists later earlier) :
    PersistsReading (liftM later) (liftM earlier) :=
  fun _ => persists.bind fun _ => persists_self _

theorem PersistsReading.bind
    {later earlier : CodeReader α}
    {laterNext earlierNext : α → CodeReader β}
    (persists : PersistsReading later earlier)
    (persistsNext : ∀ value, PersistsReading (laterNext value) (earlierNext value)) :
    PersistsReading (later >>= laterNext) (earlier >>= earlierNext) :=
  fun cursor => (persists cursor).bind fun found => persistsNext found.1 found.2

end Persisting

/-! ## Pools -/

namespace ConstantPool

/-- Whatever stands in the one pool stands in the other one too, at the same position. -/
structure Includes (later earlier : ConstantPool) : Prop where
  get : ∀ index constant, earlier.get index = .ok constant → later.get index = .ok constant
  bootstraps : earlier.bootstraps <+: later.bootstraps

theorem Extends.includes
    {later earlier : ConstantPool}
    (extending : later.Extends earlier)
    (consistent : earlier.IsConsistent)
    (laterConsistent : later.IsConsistent) :
    later.Includes earlier where
  get _ _ stands := extending.get_eq_ok consistent laterConsistent stands
  bootstraps := extending.bootstraps

/-- What a text stands for at a position of the earlier pool does not change, whether there is one
or not. -/
theorem GrownFrom.text_eq
    {later earlier : ConstantPool}
    (grown : later.GrownFrom earlier)
    (consistent : earlier.IsConsistent)
    (laterConsistent : later.IsConsistent)
    {index : PoolIndex}
    (inside : index.toNat < earlier.constants.endOffset) :
    later.text index = earlier.text index := by
  have same : ∀ text, later.text index = .ok text ↔ earlier.text index = .ok text :=
    fun text => grown.text_eq_ok_iff consistent laterConsistent (.inl inside)
  have fails : ∀ (pool : ConstantPool) (error : BytecodeError),
      pool.text index = .error error → error = .badConstant index "utf8" := by
    intro pool error failed
    unfold ConstantPool.text at failed
    split at failed <;> cases failed
    rfl
  cases isText : earlier.text index with
  | ok text => exact (same text).mpr isText
  | error error =>
      cases isLater : later.text index with
      | ok text =>
          have stood := (same text).mp isLater
          rw [isText] at stood
          cases stood
      | error other => rw [fails earlier error isText, fails later other isLater]

end ConstantPool

/-! ## Names of attributes -/

namespace Attribute

/-- The names of attributes are looked up with the same results. -/
def KeepNames (later earlier : ConstantPool) (attributes : List Attribute) : Prop :=
  ∀ entry ∈ attributes, later.text entry.name = earlier.text entry.name

variable {later earlier : ConstantPool} {attributes : List Attribute}

theorem KeepNames.holds_eq
    (names : KeepNames later earlier attributes)
    (α : Type)
    [AttributeContents α]
    {entry : Attribute}
    (member : entry ∈ attributes) :
    entry.holds later α = entry.holds earlier α := by
  unfold holds isNamed
  rw [names entry member]

theorem find?_congr
    {α : Type}
    [AttributeContents α]
    (sameNames : ∀ entry ∈ attributes, entry.holds later α = entry.holds earlier α) :
    find? attributes later α = find? attributes earlier α := by
  unfold find?
  have sameEntry : List.find? (·.holds later α) attributes =
      List.find? (·.holds earlier α) attributes := by
    induction attributes with
    | nil => rfl
    | cons first attributes inductionHypothesis =>
        rw [List.find?_cons, List.find?_cons, sameNames first List.mem_cons_self,
          inductionHypothesis fun entry member => sameNames entry (List.mem_cons_of_mem _ member)]
  rw [sameEntry]

theorem KeepNames.find?_eq
    (names : KeepNames later earlier attributes)
    (α : Type)
    [AttributeContents α] :
    find? attributes later α = find? attributes earlier α :=
  find?_congr fun _ member => names.holds_eq α member

end Attribute


section References

variable {later earlier : ConstantPool} (includes : later.Includes earlier)

include includes

theorem ConstantPool.Includes.persists_get
    (index : PoolIndex) :
    Persists (later.get index) (earlier.get index) :=
  fun constant => includes.get index constant

theorem ConstantPool.Includes.persists_text
    (index : PoolIndex) :
    Persists (later.text index) (earlier.text index) :=
  fun _ found => text_eq_ok (includes.get index _ (get_of_text_eq_ok found))

theorem ConstantPool.Includes.persists_nameAndType
    (index : PoolIndex) :
    Persists (later.nameAndType index) (earlier.nameAndType index) := by
  intro texts found
  unfold ConstantPool.nameAndType at found ⊢
  split at found
  · rename_i name descriptor stands
    rw [includes.get index _ stands]
    dsimp only
    exact ((includes.persists_text name).bind fun _ =>
      (includes.persists_text descriptor).bind fun _ => persists_self _) texts found
  · cases found

/-! ## References -/

theorem RefType.persists_resolve
    (index : PoolIndex) :
    Persists (RefType.resolve later index) (RefType.resolve earlier index) := by
  refine (includes.persists_get index).bind fun constant => ?_
  cases constant with
  | classInfo name => exact (includes.persists_text name).bind fun _ => persists_self _
  | _ => exact persists_self _

theorem BinaryName.persists_resolve
    (index : PoolIndex) :
    Persists (BinaryName.resolve later index) (BinaryName.resolve earlier index) :=
  (RefType.persists_resolve includes index).bind fun _ => persists_self _

theorem FieldRef.persists_resolve
    (index : PoolIndex) :
    Persists (FieldRef.resolve later index) (FieldRef.resolve earlier index) := by
  refine (includes.persists_get index).bind fun constant => ?_
  cases constant with
  | fieldRef owner signature =>
      refine (BinaryName.persists_resolve includes owner).bind fun _ => ?_
      exact (includes.persists_nameAndType signature).bind fun _ => persists_self _
  | _ => exact persists_self _

theorem MethodRef.persists_resolve
    (index : PoolIndex) :
    Persists (MethodRef.resolve later index) (MethodRef.resolve earlier index) := by
  refine (includes.persists_get index).bind fun constant => ?_
  cases constant with
  | methodRef owner signature ofInterface =>
      refine (RefType.persists_resolve includes owner).bind fun _ => ?_
      exact (includes.persists_nameAndType signature).bind fun _ => persists_self _
  | _ => exact persists_self _

theorem Handle.persists_resolve
    (index : PoolIndex) :
    Persists (Handle.resolve later index) (Handle.resolve earlier index) := by
  refine (includes.persists_get index).bind fun constant => ?_
  cases constant with
  | methodHandle kind member =>
      cases kind with
      | field access =>
          exact (FieldRef.persists_resolve includes member).bind fun _ => persists_self _
      | method use =>
          exact (MethodRef.persists_resolve includes member).bind fun _ => persists_self _
  | _ => exact persists_self _

theorem Literal.persists_resolve
    (index : PoolIndex) :
    Persists (Literal.resolve later index) (Literal.resolve earlier index) := by
  refine (includes.persists_get index).bind fun constant => ?_
  cases constant with
  | string text => exact (includes.persists_text text).bind fun _ => persists_self _
  | classInfo name =>
      exact (RefType.persists_resolve includes index).bind fun _ => persists_self _
  | methodType descriptor =>
      exact (includes.persists_text descriptor).bind fun _ => persists_self _
  | methodHandle kind member =>
      exact (Handle.persists_resolve includes index).bind fun _ => persists_self _
  | _ => exact persists_self _

theorem DynamicCall.persists_resolve
    (index : PoolIndex) :
    Persists (DynamicCall.resolve later index) (DynamicCall.resolve earlier index) := by
  refine (includes.persists_get index).bind fun constant => ?_
  cases constant with
  | invokeDynamic bootstrap signature =>
      dsimp only
      cases isBootstrap : earlier.bootstraps[bootstrap.toNat]? with
      | none =>
          intro call found
          cases found
      | some method =>
          obtain ⟨inside, stands⟩ := List.getElem?_eq_some_iff.mp isBootstrap
          have stillStands : later.bootstraps[bootstrap.toNat]? = some method := by
            obtain ⟨added, isLater⟩ := includes.bootstraps
            rw [← isLater, List.getElem?_append_left inside]
            exact isBootstrap
          rw [stillStands]
          dsimp only
          refine (Handle.persists_resolve includes method.handle).bind fun _ => ?_
          refine (persists_mapM fun argument _ =>
            Literal.persists_resolve includes argument).bind fun _ => ?_
          exact (includes.persists_nameAndType signature).bind fun _ => persists_self _
  | _ => exact persists_self _

/-! ## Code -/

namespace InstructionContext

variable (start codeLength : Nat)

theorem persists_literal
    (index : PoolIndex) :
    Persists (literal ⟨start, codeLength, later⟩ index)
      (literal ⟨start, codeLength, earlier⟩ index) :=
  (Literal.persists_resolve includes index).bind fun _ => persists_self _

theorem persists_refType :
    PersistsReading (refType ⟨start, codeLength, later⟩)
      (refType ⟨start, codeLength, earlier⟩) :=
  (persistsReading_self (short ⟨start, codeLength, later⟩)).bind fun index =>
    persistsReading_lift (RefType.persists_resolve includes index)

theorem persists_className :
    PersistsReading (className ⟨start, codeLength, later⟩)
      (className ⟨start, codeLength, earlier⟩) :=
  (persistsReading_self (short ⟨start, codeLength, later⟩)).bind fun index =>
    persistsReading_lift (BinaryName.persists_resolve includes index)

theorem persists_field
    (access : FieldAccess) :
    PersistsReading (field ⟨start, codeLength, later⟩ access)
      (field ⟨start, codeLength, earlier⟩ access) :=
  (persistsReading_self (short ⟨start, codeLength, later⟩)).bind fun index =>
    (persistsReading_lift (FieldRef.persists_resolve includes index)).bind fun _ =>
      persistsReading_self _

theorem persists_invoke
    (kind : CallKind) :
    PersistsReading (invoke ⟨start, codeLength, later⟩ kind)
      (invoke ⟨start, codeLength, earlier⟩ kind) :=
  (persistsReading_self (short ⟨start, codeLength, later⟩)).bind fun index =>
    (persistsReading_lift (MethodRef.persists_resolve includes index)).bind fun _ =>
      persistsReading_self _

theorem persists_invokeDynamic :
    PersistsReading (invokeDynamic ⟨start, codeLength, later⟩)
      (invokeDynamic ⟨start, codeLength, earlier⟩) :=
  (persistsReading_self (short ⟨start, codeLength, later⟩)).bind fun index =>
    (persistsReading_self (short ⟨start, codeLength, later⟩)).bind fun _ =>
      (persistsReading_lift (DynamicCall.persists_resolve includes index)).bind fun _ =>
        persistsReading_self _

/-- What follows an opcode that belongs to no family. -/
theorem persists_single
    (opcode : UInt8) :
    PersistsReading (single ⟨start, codeLength, later⟩ opcode)
      (single ⟨start, codeLength, earlier⟩ opcode) := by
  have ofType : ∀ make : RefType → Instruction Nat,
      PersistsReading (refType ⟨start, codeLength, later⟩ >>= fun type => pure (make type))
        (refType ⟨start, codeLength, earlier⟩ >>= fun type => pure (make type)) := fun _ =>
    (persists_refType includes start codeLength).bind fun _ => persistsReading_self _
  have ofLiteral : ∀ index : PoolIndex,
      PersistsReading (liftM (literal ⟨start, codeLength, later⟩ index))
        (liftM (literal ⟨start, codeLength, earlier⟩ index)) := fun index =>
    persistsReading_lift (persists_literal includes start codeLength index)
  unfold single
  -- Only the operands that are positions in the pool are looked up.
  split <;> try exact persistsReading_self _
  case h_3 => exact (persistsReading_self _).bind fun index => ofLiteral index.toUInt16
  case h_4 => exact (persistsReading_self _).bind ofLiteral
  case h_5 => exact (persistsReading_self _).bind ofLiteral
  case h_10 => exact persists_field includes start codeLength .getStatic
  case h_11 => exact persists_field includes start codeLength .putStatic
  case h_12 => exact persists_field includes start codeLength .getField
  case h_13 => exact persists_field includes start codeLength .putField
  case h_14 => exact persists_invoke includes start codeLength .virtual
  case h_15 => exact persists_invoke includes start codeLength .special
  case h_16 => exact persists_invoke includes start codeLength .static
  case h_17 => exact persists_invoke includes start codeLength .interface
  case h_18 => exact persists_invokeDynamic includes start codeLength
  case h_19 =>
    exact (persists_className includes start codeLength).bind fun _ => persistsReading_self _
  case h_21 => exact ofType .newRefArray
  case h_22 => exact ofType .checkCast
  case h_23 => exact ofType .instanceOf
  case h_25 =>
    exact (persists_refType includes start codeLength).bind fun _ => persistsReading_self _

/-- Instructions. -/
theorem persists_instruction :
    PersistsReading (instruction ⟨start, codeLength, later⟩)
      (instruction ⟨start, codeLength, earlier⟩) := by
  refine (persistsReading_self (byte ⟨start, codeLength, later⟩)).bind fun opcode => ?_
  unfold afterOpcode
  split
  · exact persistsReading_self _
  · split
    · exact persistsReading_self _
    · split_ifs
      · exact persistsReading_self _
      · exact persistsReading_self _
      · split
        · exact persistsReading_self _
        · split
          · exact persistsReading_self _
          · exact persists_single includes start codeLength opcode

end InstructionContext

theorem persists_readInstructions
    (codeLength fuel : Nat)
    (cursor : CodeCursor)
    (offsets : Array Nat)
    (instructions : Array (Instruction Nat)) :
    Persists (readInstructions later codeLength fuel cursor offsets instructions)
      (readInstructions earlier codeLength fuel cursor offsets instructions) := by
  induction fuel generalizing cursor offsets instructions with
  | zero => exact persists_self _
  | succ fuel inductionHypothesis =>
      intro found isRead
      unfold readInstructions at isRead ⊢
      split at isRead
      · rename_i isEnd
        rw [if_pos isEnd]
        exact isRead
      · rename_i notEnd
        rw [if_neg notEnd]
        dsimp only at isRead ⊢
        split at isRead
        · rename_i instruction next isInstruction
          rw [InstructionContext.persists_instruction includes cursor.offset codeLength cursor _
            isInstruction]
          exact inductionHypothesis _ _ _ found isRead
        · cases isRead

theorem persists_decodeCode
    (bytes : Bytes) :
    Persists (decodeCode bytes later) (decodeCode bytes earlier) :=
  (persists_readInstructions includes _ _ _ _ _).bind fun _ => persists_self _

/-! ## Bodies -/

namespace Method

theorem persists_readHandler
    (code : DecodedCode)
    (entry : ExceptionEntry) :
    Persists (readHandler code later entry) (readHandler code earlier entry) := by
  unfold readHandler
  dsimp only
  split
  · exact persists_self _
  · exact ((BinaryName.persists_resolve includes entry.catchType).map some).bind fun _ =>
      persists_self _

theorem persists_readVariable
    (code : DecodedCode)
    (entry : VariableEntry) :
    Persists (readVariable code later entry) (readVariable code earlier entry) := by
  unfold readVariable
  refine (includes.persists_text entry.name).bind fun _ => ?_
  refine (persists_self _).bind fun _ => (persists_self _).bind fun _ => ?_
  refine (persists_self _).bind fun _ => ?_
  exact (includes.persists_text entry.descriptor).bind fun _ => persists_self _

theorem persists_readBody
    {code : CodeAttribute}
    (names : Attribute.KeepNames later earlier code.attributes) :
    Persists (readBody code later) (readBody code earlier) := by
  unfold readBody
  refine (persists_decodeCode includes code.bytes).bind fun decoded => ?_
  refine (persists_mapM fun entry _ => persists_readHandler includes decoded entry).bind fun _ => ?_
  rw [names.find?_eq VariableTable]
  refine (persists_self _).bind fun table? => ?_
  refine (persists_mapM fun entry _ =>
    persists_readVariable includes decoded entry).bind fun _ => ?_
  refine (persists_mapM fun entry member => ?_).bind fun _ => persists_self _
  unfold readLines
  rw [names.holds_eq LineTable member]
  exact persists_self _

end Method

theorem persists_annotationTypes
    {attributes : List Attribute}
    (names : Attribute.KeepNames later earlier attributes) :
    Persists (annotationTypes attributes later) (annotationTypes attributes earlier) := by
  unfold annotationTypes
  refine (persists_mapM fun entry member => ?_).bind fun _ => persists_self _
  unfold Attribute.annotations
  rw [names.holds_eq VisibleAnnotations member, names.holds_eq InvisibleAnnotations member]
  refine (persists_self _).bind fun annotations => ?_
  exact persists_mapM fun annotation _ => includes.persists_text annotation.type

namespace ClassDeclaration

theorem persists_annotationsOf
    {attributes : List Attribute}
    (names : Attribute.KeepNames later earlier attributes) :
    Persists (annotationsOf attributes later) (annotationsOf attributes earlier) :=
  (persists_annotationTypes includes names).bind fun _ => persists_self _

theorem persists_ofField
    {field : Member .field}
    (names : Attribute.KeepNames later earlier field.attributes) :
    Persists (ofField later field) (ofField earlier field) := by
  unfold ofField
  refine (includes.persists_text field.name).bind fun _ => (persists_self _).bind fun _ => ?_
  refine (includes.persists_text field.descriptor).bind fun _ => (persists_self _).bind fun _ => ?_
  exact (persists_annotationsOf includes names).bind fun _ => persists_self _

end ClassDeclaration

end References

/-! ## Class files -/

section Files

variable {file output : ClassFile} (includes : output.pool.Includes file.pool)

include includes

namespace ClassFile

theorem persists_methodSignature
    (member : Member .method) :
    Persists (output.methodSignature member) (file.methodSignature member) := by
  unfold methodSignature
  refine (includes.persists_text member.name).bind fun _ => ?_
  exact (includes.persists_text member.descriptor).bind fun _ => persists_self _

theorem persists_thisName
    (sameThis : output.this = file.this) :
    Persists output.thisName file.thisName := by
  unfold thisName
  rw [sameThis]
  exact BinaryName.persists_resolve includes file.this

theorem persists_superName?
    (sameSuper : output.super = file.super) :
    Persists output.superName? file.superName? := by
  unfold superName?
  rw [sameSuper]
  split
  · exact persists_self _
  · exact (BinaryName.persists_resolve includes file.super).map some

theorem persists_interfaceNames
    (sameInterfaces : output.interfaces = file.interfaces) :
    Persists output.interfaceNames file.interfaceNames := by
  unfold interfaceNames
  rw [sameInterfaces]
  exact persists_mapM fun index _ => BinaryName.persists_resolve includes index

end ClassFile

/-- A method is read in the same way from a class file of the same class. -/
theorem Method.persists_ofMember?
    (sameThis : output.this = file.this)
    {member : Member .method}
    (names : Attribute.KeepNames output.pool file.pool member.attributes)
    (codeNames : ∀ code, member.code? file.pool = .ok (some code) →
      Attribute.KeepNames output.pool file.pool code.attributes) :
    Persists (ofMember? output member) (ofMember? file member) := by
  intro method? isRead
  unfold ofMember? at isRead ⊢
  have sameCode : member.code? output.pool = member.code? file.pool := names.find?_eq CodeAttribute
  rw [sameCode]
  obtain ⟨code?, isCode, isRead⟩ := bind_eq_ok.mp isRead
  refine bind_eq_ok.mpr ⟨code?, isCode, ?_⟩
  cases code? with
  | none => exact isRead
  | some code =>
      have signature := ClassFile.persists_methodSignature includes member
      have owner := ClassFile.persists_thisName includes sameThis
      have body := persists_readBody includes (codeNames code isCode)
      exact (signature.bind fun _ => owner.bind fun _ => body.bind fun _ => persists_self _)
        method? isRead

theorem ClassDeclaration.persists_ofMethod
    {member : Member .method}
    (names : Attribute.KeepNames output.pool file.pool member.attributes) :
    Persists (ofMethod output member) (ofMethod file member) :=
  (ClassFile.persists_methodSignature includes member).bind fun _ =>
    (persists_annotationsOf includes names).bind fun _ => persists_self _

end Files

/-- A class file declares the same with a pool that includes its own and gives every name. -/
theorem ClassDeclaration.persists_ofClassFile
    {file : ClassFile}
    {later : ConstantPool}
    (includes : later.Includes file.pool)
    (sameTexts : ∀ index, later.text index = file.pool.text index) :
    Persists (ofClassFile { file with pool := later }) (ofClassFile file) := by
  have names : ∀ attributes, Attribute.KeepNames later file.pool attributes :=
    fun _ entry _ => sameTexts entry.name
  have fields := persists_mapM fun (field : Member .field) (_ : field ∈ file.fields) =>
    persists_ofField includes (names field.attributes)
  have methods : Persists (file.methods.mapM (ofMethod { file with pool := later }))
      (file.methods.mapM (ofMethod file)) :=
    persists_mapM fun method _ => persists_ofMethod includes (names method.attributes)
  have name : Persists (ClassFile.thisName { file with pool := later }) file.thisName :=
    ClassFile.persists_thisName includes rfl
  have super : Persists (ClassFile.superName? { file with pool := later }) file.superName? :=
    ClassFile.persists_superName? includes rfl
  have interfaces : Persists (ClassFile.interfaceNames { file with pool := later })
      file.interfaceNames :=
    ClassFile.persists_interfaceNames includes rfl
  have annotations := persists_annotationsOf includes (names file.attributes)
  exact fields.bind fun _ => methods.bind fun _ => name.bind fun _ => super.bind fun _ =>
    interfaces.bind fun _ => annotations.bind fun _ => persists_self _

end ClosureConversion
