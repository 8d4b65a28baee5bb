import Mathlib.Data.List.TakeWhile
import ClosureConversion.Descriptor.Reading
import ClosureConversion.Proofs.Computation

/-!
Contract: names and descriptors are read back, and a text is read as a type exactly if it is the
descriptor of that type.

Owns:
- the characters that names do not hold;
- for every kind of type, that reading takes its descriptor off the start of a text and
  leaves what follows;
- reading whole texts back: they are read exactly if they are written for some type, and no two
  types are written alike, neither in descriptors nor in class constants;
- what is wrong with a text that goes on, with a class whose name is empty or has no end, and with a
  parameter of no type.

Does not own: which descriptors a class file may hold.
-/

namespace ClosureConversion

/-! ## Names -/

/-- Every character of a text is a slash or stands in one of the parts. -/
theorem mem_segments
    {characters : List Char}
    {character : Char}
    (member : character ∈ characters) :
    character = '/' ∨ ∃ part ∈ segments characters, character ∈ part := by
  induction characters with
  | nil => cases member
  | cons first rest inductionHypothesis =>
      by_cases slash : first = '/'
      · rcases List.mem_cons.mp member with isFirst | inRest
        · exact .inl (isFirst.trans slash)
        · rcases inductionHypothesis inRest with isSlash | ⟨part, partMember, inPart⟩
          · exact .inl isSlash
          · exact .inr ⟨part, by simp [segments, slash, partMember], inPart⟩
      · rw [segments, if_neg slash]
        cases parts : segments rest with
        | nil =>
            obtain ⟨start, last, restEq, _⟩ := segments_append_of_no_slash rest [] (by simp)
            rw [parts] at restEq
            simp at restEq
        | cons head others =>
            rcases List.mem_cons.mp member with isFirst | inRest
            · exact .inr ⟨first :: head, by simp, by simp [isFirst]⟩
            · rcases inductionHypothesis inRest with isSlash | ⟨part, partMember, inPart⟩
              · exact .inl isSlash
              · rw [parts] at partMember
                rcases List.mem_cons.mp partMember with isHead | inOthers
                · exact .inr ⟨first :: head, by simp, by simp [← isHead, inPart]⟩
                · exact .inr ⟨part, by simp [inOthers], inPart⟩

namespace BinaryName

/-- The only reserved character in the name of a class is the slash. -/
theorem eq_slash_of_isReserved
    (name : BinaryName)
    {character : Char}
    (member : character ∈ name.text.toList)
    (reserved : isReserved character = true) :
    character = '/' := by
  rcases mem_segments member with isSlash | ⟨part, partMember, inPart⟩
  · exact isSlash
  · have free := (name.isBinaryName part partMember).2 character inPart
    rw [free] at reserved
    cases reserved

/-- The first character of the name of a class is no bracket. -/
theorem head?_ne_bracket
    (name : BinaryName) :
    name.text.toList.head? ≠ some '[' := by
  intro isBracket
  have member := List.mem_of_head? isBracket
  have isSlash := name.eq_slash_of_isReserved member (by decide)
  exact absurd isSlash (by decide)

@[simp] theorem ofString_text
    (name : BinaryName) :
    ofString name.text = .ok name :=
  dif_pos name.isBinaryName

end BinaryName

namespace UnqualifiedName

@[simp] theorem ofString_text
    (name : UnqualifiedName) :
    ofString name.text = .ok name :=
  dif_pos name.isUnqualified

end UnqualifiedName

/-! ## The start of a text -/

@[simp] theorem BaseType.ofLetter?_letter
    (type : BaseType) :
    BaseType.ofLetter? type.letter = some type := by
  cases type <;> rfl

theorem BaseType.read_letter
    (type : BaseType)
    (rest : List Char) :
    BaseType.read (type.letter :: rest) = .ok (type, rest) := by
  simp [BaseType.read]

theorem BinaryName.toList_descriptor
    (name : BinaryName) :
    name.descriptor.toList = 'L' :: (name.text.toList ++ [';']) := by
  simp [BinaryName.descriptor, String.toList_append]

theorem BinaryName.read_descriptor
    (name : BinaryName)
    (rest : List Char) :
    BinaryName.read (name.descriptor.toList ++ rest) = .ok (name, rest) := by
  have noMark : ∀ character ∈ name.text.toList, decide (character ≠ ';') = true := by
    intro character member
    apply decide_eq_true
    intro isMark
    have isSlash := name.eq_slash_of_isReserved member (by rw [isMark]; decide)
    rw [isMark] at isSlash
    exact absurd isSlash (by decide)
  have taken : (name.text.toList ++ ';' :: rest).takeWhile (fun character => character ≠ ';') =
      name.text.toList := by
    rw [List.takeWhile_append_of_pos noMark]
    simp
  have dropped : (name.text.toList ++ ';' :: rest).dropWhile (fun character => character ≠ ';') =
      ';' :: rest := by
    rw [List.dropWhile_append_of_pos noMark]
    simp
  rw [name.toList_descriptor, List.cons_append, List.append_assoc, List.singleton_append,
    BinaryName.read]
  simp only [taken, dropped, String.ofList_toList, BinaryName.ofString_text]

/-- The brackets before the element type of an array, apart from the first one. -/
theorem brackets_exact
    (nesting : Nat)
    {first : Char}
    (noBracket : first ≠ '[')
    (rest : List Char) :
    (List.replicate nesting '[' ++ first :: rest).takeWhile (fun character => character = '[') =
        List.replicate nesting '[' ∧
      (List.replicate nesting '[' ++ first :: rest).dropWhile (fun character => character = '[') =
        first :: rest := by
  have isBracket : ∀ character ∈ List.replicate nesting '[',
      decide (character = '[') = true := by
    intro character member
    exact decide_eq_true (List.eq_of_mem_replicate member)
  constructor
  · rw [List.takeWhile_append_of_pos isBracket]
    simp [noBracket]
  · rw [List.dropWhile_append_of_pos isBracket]
    simp [noBracket]

theorem RefType.toList_brackets
    (nesting : Nat) :
    (RefType.brackets (nesting + 1)).toList = '[' :: List.replicate nesting '[' := by
  simp [RefType.brackets, List.replicate_succ]

theorem RefType.read_descriptor
    (type : RefType)
    (rest : List Char) :
    RefType.read (type.descriptor.toList ++ rest) = .ok (type, rest) := by
  cases type with
  | object name =>
      have whole := name.read_descriptor rest
      rw [name.toList_descriptor] at whole
      rw [RefType.descriptor, name.toList_descriptor, List.cons_append, RefType.read]
      rw [List.cons_append] at whole
      simp only [whole]
  | objectArray nesting name =>
      have inner := name.read_descriptor rest
      rw [name.toList_descriptor] at inner
      have inside := brackets_exact nesting (show 'L' ≠ '[' by decide)
        (name.text.toList ++ [';'] ++ rest)
      rw [RefType.descriptor, String.toList_append, RefType.toList_brackets,
        name.toList_descriptor, List.append_assoc, List.cons_append, List.cons_append,
        RefType.read]
      rw [List.cons_append] at inner
      simp only [inside.1, inside.2, inner, List.length_replicate]
  | primitiveArray nesting element =>
      have noBracket : element.letter ≠ '[' := by cases element <;> decide
      have noMark : ∀ tail, element.letter :: rest ≠ 'L' :: tail := by
        intro tail
        cases element <;> simp [BaseType.letter]
      have inside := brackets_exact nesting noBracket rest
      rw [RefType.descriptor, String.toList_append, RefType.toList_brackets,
        String.toList_singleton, List.append_assoc, List.cons_append, List.singleton_append,
        RefType.read]
      simp only [inside.1, inside.2, element.read_letter rest, List.length_replicate]

/-- The descriptor of a reference type starts with the mark of a class or a bracket. -/
theorem RefType.toList_descriptor_cons
    (type : RefType) :
    ∃ first rest, type.descriptor.toList = first :: rest ∧ BaseType.ofLetter? first = none := by
  cases type with
  | object name => exact ⟨'L', _, name.toList_descriptor, rfl⟩
  | objectArray nesting name =>
      refine ⟨'[', List.replicate nesting '[' ++ name.descriptor.toList, ?_, rfl⟩
      rw [RefType.descriptor, String.toList_append, RefType.toList_brackets]
      rfl
  | primitiveArray nesting element =>
      refine ⟨'[', List.replicate nesting '[' ++ [element.letter], ?_, rfl⟩
      rw [RefType.descriptor, String.toList_append, RefType.toList_brackets,
        String.toList_singleton]
      rfl

theorem FieldType.read_descriptor
    (type : FieldType)
    (rest : List Char) :
    FieldType.read (type.descriptor.toList ++ rest) = .ok (type, rest) := by
  cases type with
  | base type =>
      rw [FieldType.descriptor, String.toList_singleton, List.singleton_append, FieldType.read]
      simp only [BaseType.ofLetter?_letter]
  | ref type =>
      obtain ⟨first, tail, startsWith, noLetter⟩ := type.toList_descriptor_cons
      have whole := type.read_descriptor rest
      rw [startsWith, List.cons_append] at whole
      rw [FieldType.descriptor, startsWith, List.cons_append, FieldType.read]
      simp only [noLetter, whole]

namespace MethodType

/-- One parameter is read after another. -/
theorem readParametersFrom_append
    (type : FieldType)
    (rest : List Char)
    (before : List FieldType) :
    readParametersFrom (type.descriptor.toList ++ rest) before =
      readParametersFrom rest (type :: before) := by
  have taken := type.read_descriptor rest
  -- A closing parenthesis is the start of no field type.
  have notClosed : (type.descriptor.toList ++ rest).head? ≠ some ')' := by
    intro closed
    obtain ⟨tail, startsWith⟩ := List.head?_eq_some_iff.mp closed
    rw [startsWith] at taken
    cases taken
  rw [readParametersFrom, if_neg notClosed]
  split
  · rename_i readType readRest isRead
    rw [taken] at isRead
    cases isRead
    rfl
  · rename_i failure isRead
    rw [taken] at isRead
    cases isRead

/-- Parameters are read one after another up to what follows the last one. -/
theorem readParametersFrom_flatMap_append
    (parameters before : List FieldType)
    (rest : List Char) :
    readParametersFrom ((parameters.flatMap fun type => type.descriptor.toList) ++ rest) before =
      readParametersFrom rest (parameters.reverse ++ before) := by
  induction parameters generalizing before with
  | nil => rfl
  | cons type parameters inductionHypothesis =>
      rw [List.flatMap_cons, List.append_assoc, readParametersFrom_append, inductionHypothesis,
        List.reverse_cons, List.append_assoc]
      rfl

theorem readParametersFrom_descriptors
    (parameters before : List FieldType)
    (rest : List Char) :
    readParametersFrom ((parameters.flatMap fun type => type.descriptor.toList) ++ ')' :: rest)
        before =
      .ok (parameters.reverse ++ before, rest) := by
  rw [readParametersFrom_flatMap_append, readParametersFrom]
  rfl

theorem readResult_resultDescriptor
    (result : Option FieldType) :
    readResult (resultDescriptor result).toList = .ok (result, []) := by
  cases result with
  | none => rfl
  | some type =>
      have taken := type.read_descriptor []
      rw [List.append_nil] at taken
      rw [resultDescriptor]
      unfold readResult
      split
      · rename_i rest startsWith
        rw [startsWith] at taken
        cases taken
      · rw [taken]

end MethodType

/-! ## Whole texts -/

/-- The field type of its own descriptor. -/
@[simp] theorem FieldType.ofDescriptor_descriptor
    (type : FieldType) :
    FieldType.ofDescriptor type.descriptor = .ok type := by
  have taken := type.read_descriptor []
  rw [List.append_nil] at taken
  rw [FieldType.ofDescriptor, readWhole, taken]

@[simp] theorem RefType.ofDescriptor_descriptor
    (type : RefType) :
    RefType.ofDescriptor type.descriptor = .ok type := by
  have taken := type.read_descriptor []
  rw [List.append_nil] at taken
  rw [RefType.ofDescriptor, readWhole, taken]

@[simp] theorem MethodType.ofDescriptor_descriptor
    (type : MethodType) :
    MethodType.ofDescriptor type.descriptor = .ok type := by
  have characters : type.descriptor.toList =
      '(' :: ((type.parameters.flatMap fun type => type.descriptor.toList) ++
        ')' :: (MethodType.resultDescriptor type.result).toList) := by
    simp [MethodType.descriptor, String.toList_append, List.flatMap_map]
  rw [MethodType.ofDescriptor, readWhole, characters, MethodType.read,
    MethodType.readParametersFrom_descriptors]
  simp only [MethodType.readResult_resultDescriptor, List.append_nil, List.reverse_reverse]

/-- The reference type of its own spelling in a class constant. -/
@[simp] theorem RefType.ofClassInfoName_classInfoName
    (type : RefType) :
    RefType.ofClassInfoName type.classInfoName = .ok type := by
  cases type with
  | object name =>
      rw [RefType.ofClassInfoName, RefType.classInfoName, if_neg name.head?_ne_bracket,
        BinaryName.ofString_text]
  | objectArray nesting name =>
      have bracket : (RefType.objectArray nesting name).descriptor.toList.head? = some '[' := by
        simp [RefType.descriptor, RefType.toList_brackets]
      rw [RefType.ofClassInfoName, RefType.classInfoName, if_pos bracket,
        RefType.ofDescriptor_descriptor]
      simp
  | primitiveArray nesting element =>
      have bracket : (RefType.primitiveArray nesting element).descriptor.toList.head? =
          some '[' := by
        simp [RefType.descriptor, RefType.toList_brackets]
      rw [RefType.ofClassInfoName, RefType.classInfoName, if_pos bracket,
        RefType.ofDescriptor_descriptor]
      simp

section Canonical

variable {α : Type}

/-- A reader takes off the start of a text just what is written for a value. -/
def IsReaderOf (reader : DescriptorReader α) (written : α → String) : Prop :=
  ∀ characters value rest,
    reader characters = .ok (value, rest) ↔ characters = (written value).toList ++ rest

/-- Whole texts are read exactly if they are written for some value. No two values are written
alike, and a text that goes on is refused because of the next character. -/
structure IsCanonical (parse : String → Except DescriptorError α) (written : α → String) :
    Prop where
  accepts : ∀ text value, parse text = .ok value ↔ text = written value
  unique : ∀ value other, written value = written other → value = other
  leftover : ∀ value character more,
    parse (written value ++ String.ofList (character :: more)) = .error (.leftover character)

/-- Brackets before what is written for an element: one more than there are dimensions beyond the
first. -/
def arrayDescriptor (written : α → String) (array : Nat × α) : String :=
  RefType.brackets (array.1 + 1) ++ written array.2

theorem readWhole_isCanonical
    {reader : DescriptorReader α}
    {written : α → String}
    (reads : IsReaderOf reader written) :
    IsCanonical (readWhole reader) written := by
  have whole : ∀ value, readWhole reader (written value) = .ok value := by
    intro value
    have taken := (reads (written value).toList value []).mpr (List.append_nil _).symm
    rw [readWhole, taken]
  refine ⟨fun text value => ⟨fun accepted => ?_, ?_⟩, fun value other same => ?_,
    fun value character more => ?_⟩
  · rw [readWhole] at accepted
    split at accepted
    · rename_i found isRead
      cases accepted
      have isWritten := (reads _ _ _).mp isRead
      rw [List.append_nil] at isWritten
      exact String.toList_injective isWritten
    · cases accepted
    · cases accepted
  · rintro rfl
    exact whole value
  · have accepted := whole value
    rw [same, whole other] at accepted
    exact (Except.ok.inj accepted).symm
  · have taken := (reads (written value ++ String.ofList (character :: more)).toList value
      (character :: more)).mpr (by rw [String.toList_append, String.toList_ofList])
    rw [readWhole, taken]

/-! ## Names and base types -/

theorem BinaryName.text_of_ofString_eq_ok
    {text : String}
    {name : BinaryName}
    (accepted : ofString text = .ok name) :
    name.text = text := by
  unfold ofString at accepted
  split at accepted
  · cases accepted
    rfl
  · cases accepted

theorem BaseType.letter_of_ofLetter?_eq_some
    {character : Char}
    {type : BaseType}
    (found : ofLetter? character = some type) :
    type.letter = character := by
  unfold ofLetter? at found
  split at found <;> cases found <;> rfl

theorem BaseType.read_isReaderOf :
    IsReaderOf BaseType.read fun type => String.singleton type.letter := by
  intro characters type rest
  rw [String.toList_singleton, List.singleton_append]
  constructor
  · intro taken
    cases characters with
    | nil => cases taken
    | cons character others =>
        rw [BaseType.read] at taken
        split at taken
        · rename_i found
          cases taken
          rw [BaseType.letter_of_ofLetter?_eq_some found]
        · cases taken
  · rintro rfl
    exact type.read_letter rest

theorem BinaryName.read_isReaderOf :
    IsReaderOf BinaryName.read BinaryName.descriptor := by
  intro characters name rest
  constructor
  · intro taken
    unfold BinaryName.read at taken
    split at taken
    · rename_i others
      dsimp only at taken
      split at taken
      · cases taken
      · rename_i mark after dropped
        split at taken
        · rename_i found accepted
          cases taken
          have isMark : mark = ';' := by
            have stops :=
              List.head?_dropWhile_not (fun character => decide (character ≠ ';')) others
            rw [dropped] at stops
            simpa using stops
          have split := List.takeWhile_append_dropWhile
            (p := fun character => decide (character ≠ ';')) (l := others)
          rw [dropped, isMark] at split
          rw [name.toList_descriptor, text_of_ofString_eq_ok accepted, String.toList_ofList,
            List.cons_append, List.append_assoc, List.singleton_append, split]
        · cases taken
    · cases taken
  · rintro rfl
    exact name.read_descriptor rest

/-! ## Arrays -/

/-- Brackets at the start of a text are so many equal characters. -/
theorem takeWhile_bracket
    (characters : List Char) :
    characters.takeWhile (fun character => character = '[') =
      List.replicate (characters.takeWhile (fun character => character = '[')).length '[' :=
  List.eq_replicate_of_mem fun _ member =>
    of_decide_eq_true
      (List.mem_takeWhile_imp (p := fun character => decide (character = '[')) member)

theorem brackets_append_dropWhile
    (characters : List Char) :
    List.replicate (characters.takeWhile (fun character => character = '[')).length '[' ++
      characters.dropWhile (fun character => character = '[') = characters := by
  rw [← takeWhile_bracket]
  exact List.takeWhile_append_dropWhile

theorem toList_arrayDescriptor
    (written : α → String)
    (nesting : Nat)
    (element : α) :
    (arrayDescriptor written (nesting, element)).toList =
      '[' :: (List.replicate nesting '[' ++ (written element).toList) := by
  rw [arrayDescriptor, String.toList_append, RefType.toList_brackets, List.cons_append]

/-- An array is read if its elements are, unless they begin with a bracket themselves. -/
theorem readArray_isReaderOf
    {readElement : DescriptorReader α}
    {written : α → String}
    (reads : IsReaderOf readElement written)
    (noBracket : ∀ element, ∃ first rest, (written element).toList = first :: rest ∧ first ≠ '[') :
    IsReaderOf (readArray readElement) (arrayDescriptor written) := by
  rintro characters ⟨nesting, element⟩ rest
  rw [toList_arrayDescriptor]
  constructor
  · intro taken
    have whole := brackets_append_dropWhile characters
    unfold readArray at taken
    split at taken
    · cases taken
    · rename_i first more isTaken
      split at taken
      · rename_i found after isElement
        cases taken
        rw [isTaken, (reads _ _ _).mp isElement, List.length_cons, List.replicate_succ] at whole
        rw [← whole, List.cons_append, List.cons_append, List.append_assoc]
      · cases taken
  · rintro rfl
    obtain ⟨first, tail, startsWith, differs⟩ := noBracket element
    obtain ⟨taken, dropped⟩ := brackets_exact (nesting + 1) differs (tail ++ rest)
    have isElement := (reads (first :: (tail ++ rest)) element rest).mpr (by
      rw [startsWith, List.cons_append])
    have whole : '[' :: (List.replicate nesting '[' ++ (written element).toList) ++ rest =
        List.replicate (nesting + 1) '[' ++ first :: (tail ++ rest) := by
      rw [startsWith, List.replicate_succ, List.cons_append, List.cons_append, List.append_assoc,
        List.cons_append]
    rw [whole]
    unfold readArray
    rw [taken, dropped, isElement, List.replicate_succ]
    dsimp only
    rw [List.length_replicate]

theorem classArray_isReaderOf :
    IsReaderOf (readArray BinaryName.read) (arrayDescriptor BinaryName.descriptor) :=
  readArray_isReaderOf BinaryName.read_isReaderOf fun name =>
    ⟨'L', _, name.toList_descriptor, by decide⟩

theorem baseArray_isReaderOf :
    IsReaderOf (readArray BaseType.read)
      (arrayDescriptor fun type => String.singleton type.letter) :=
  readArray_isReaderOf BaseType.read_isReaderOf fun type =>
    ⟨type.letter, [], String.toList_singleton _, by cases type <;> decide⟩

/-! ## Reference and field types -/

theorem RefType.read_isReaderOf :
    IsReaderOf RefType.read RefType.descriptor := by
  intro characters type rest
  constructor
  · intro taken
    unfold RefType.read at taken
    split at taken
    · cases taken
    · split at taken
      · rename_i isName
        cases taken
        exact (BinaryName.read_isReaderOf _ _ _).mp isName
      · cases taken
    · rename_i others
      have whole := brackets_append_dropWhile others
      dsimp only at taken
      split at taken
      · split at taken
        · rename_i isName
          cases taken
          rw [(BinaryName.read_isReaderOf _ _ _).mp isName] at whole
          rw [RefType.descriptor, String.toList_append, RefType.toList_brackets,
            List.cons_append, List.cons_append, List.append_assoc, whole]
        · cases taken
      · split at taken
        · rename_i isBase
          cases taken
          rw [(BaseType.read_isReaderOf _ _ _).mp isBase] at whole
          rw [RefType.descriptor, String.toList_append, RefType.toList_brackets,
            List.cons_append, List.cons_append, List.append_assoc, whole]
        · cases taken
    · cases taken
  · rintro rfl
    exact type.read_descriptor rest

theorem FieldType.read_isReaderOf :
    IsReaderOf FieldType.read FieldType.descriptor := by
  intro characters type rest
  constructor
  · intro taken
    cases characters with
    | nil => cases taken
    | cons character others =>
        rw [FieldType.read] at taken
        split at taken
        · rename_i isLetter
          cases taken
          rw [FieldType.descriptor, String.toList_singleton,
            BaseType.letter_of_ofLetter?_eq_some isLetter, List.singleton_append]
        · split at taken
          · rename_i isRef
            cases taken
            exact (RefType.read_isReaderOf _ _ _).mp isRef
          · cases taken
  · rintro rfl
    exact type.read_descriptor rest

/-! ## Method types -/

namespace MethodType

/-- What is read up to the closing parenthesis are the descriptors of parameters. -/
theorem eq_of_readParametersFrom_eq_ok
    {characters rest : List Char}
    {before reversed : List FieldType}
    (taken : readParametersFrom characters before = .ok (reversed, rest)) :
    ∃ parameters : List FieldType, reversed = parameters.reverse ++ before ∧
      characters = (parameters.flatMap fun type => type.descriptor.toList) ++ ')' :: rest := by
  fun_induction readParametersFrom characters before with
  | case1 characters before isClosed =>
      cases taken
      obtain ⟨others, rfl⟩ := List.head?_eq_some_iff.mp isClosed
      exact ⟨[], rfl, rfl⟩
  | case2 characters before _ type others isRead inductionHypothesis =>
      obtain ⟨parameters, isReversed, isRest⟩ := inductionHypothesis taken
      refine ⟨type :: parameters, ?_, ?_⟩
      · rw [isReversed, List.reverse_cons, List.append_assoc]
        rfl
      · rw [(FieldType.read_isReaderOf _ _ _).mp isRead, isRest, List.flatMap_cons,
          List.append_assoc]
  | case3 => cases taken

theorem readResult_isReaderOf :
    IsReaderOf readResult resultDescriptor := by
  intro characters result rest
  constructor
  · intro taken
    unfold readResult at taken
    split at taken
    · cases taken
      rfl
    · split at taken
      · rename_i isRead
        cases taken
        exact (FieldType.read_isReaderOf _ _ _).mp isRead
      · cases taken
  · rintro rfl
    cases result with
    | none => rfl
    | some type =>
        have isRead := type.read_descriptor rest
        rw [resultDescriptor]
        unfold readResult
        split
        · rename_i startsWith
          rw [startsWith] at isRead
          cases isRead
        · rw [isRead]

theorem toList_descriptor
    (type : MethodType) :
    type.descriptor.toList = '(' :: ((type.parameters.flatMap fun type => type.descriptor.toList) ++
      ')' :: (resultDescriptor type.result).toList) := by
  simp [MethodType.descriptor, String.toList_append, List.flatMap_map]

theorem read_isReaderOf :
    IsReaderOf MethodType.read MethodType.descriptor := by
  rintro characters ⟨parameters, result⟩ rest
  rw [toList_descriptor]
  constructor
  · intro taken
    unfold MethodType.read at taken
    split at taken
    · split at taken
      · rename_i areParameters
        split at taken
        · rename_i isResult
          cases taken
          obtain ⟨parameters, rfl, rfl⟩ := eq_of_readParametersFrom_eq_ok areParameters
          rw [(readResult_isReaderOf _ _ _).mp isResult, List.append_nil, List.reverse_reverse,
            List.cons_append, List.append_assoc, List.cons_append]
        · cases taken
      · cases taken
    · cases taken
  · rintro rfl
    rw [List.cons_append, List.append_assoc, List.cons_append, MethodType.read,
      readParametersFrom_descriptors]
    dsimp only
    rw [(readResult_isReaderOf _ result rest).mpr rfl, List.append_nil, List.reverse_reverse]

end MethodType

/-! ## Class constants -/

/-- The reference type that a class constant spells is that of which it is the spelling. -/
theorem RefType.ofClassInfoName_eq_ok_iff
    (text : String)
    (type : RefType) :
    RefType.ofClassInfoName text = .ok type ↔ text = type.classInfoName := by
  constructor
  · intro accepted
    unfold RefType.ofClassInfoName at accepted
    split at accepted
    · rename_i isArray
      split at accepted
      · rename_i isType
        cases accepted
        obtain rfl := ((readWhole_isCanonical RefType.read_isReaderOf).accepts _ _).mp isType
        cases type with
        | object name =>
            rw [RefType.descriptor, name.toList_descriptor] at isArray
            cases isArray
        | objectArray nesting name => rfl
        | primitiveArray nesting element => rfl
      · cases accepted
    · split at accepted
      · rename_i isName
        cases accepted
        exact (BinaryName.text_of_ofString_eq_ok isName).symm
      · cases accepted
  · rintro rfl
    exact type.ofClassInfoName_classInfoName

/-! ## Faults -/

/-- A text at whose start there is no type, and what is wrong with it: the name of a class has no
end, or it is empty, or nothing is there, or what stands for no type at all. -/
inductive IsFaulty : List Char → DescriptorError → Prop where
  | unterminated (nesting : Nat) {name : List Char} :
      ';' ∉ name →
      IsFaulty (List.replicate nesting '[' ++ 'L' :: name)
        (.unterminatedClass (String.ofList name))
  | unnamed (nesting : Nat) (more : List Char) :
      IsFaulty (List.replicate nesting '[' ++ 'L' :: ';' :: more)
        (.badClassName "Binary name '' is empty")
  | missing : IsFaulty [] .missingType
  | void (more : List Char) : IsFaulty ('V' :: more) (.badType 'V')
  | voidArray (nesting : Nat) (more : List Char) :
      IsFaulty (List.replicate (nesting + 1) '[' ++ 'V' :: more) (.badBaseType 'V')

theorem BinaryName.read_eq_error_of_not_mem
    {name : List Char}
    (noEnd : ';' ∉ name) :
    BinaryName.read ('L' :: name) = .error (.unterminatedClass (String.ofList name)) := by
  have differs : ∀ character ∈ name, decide (character ≠ ';') = true := by
    intro character member
    apply decide_eq_true
    rintro rfl
    exact noEnd member
  have taken : name.takeWhile (fun character => decide (character ≠ ';')) = name :=
    List.takeWhile_eq_self_iff.mpr differs
  have dropped : name.dropWhile (fun character => decide (character ≠ ';')) = [] :=
    List.dropWhile_eq_nil_iff.mpr differs
  rw [BinaryName.read]
  simp only [taken, dropped]

/-- What is wrong with the name of a class is wrong with an array of the class. -/
theorem RefType.read_eq_error_of_class
    (nesting : Nat)
    {characters : List Char}
    {error : DescriptorError}
    (refused : BinaryName.read ('L' :: characters) = .error error) :
    RefType.read (List.replicate nesting '[' ++ 'L' :: characters) = .error error := by
  cases nesting with
  | zero =>
      change RefType.read ('L' :: characters) = _
      rw [RefType.read, refused]
  | succ nesting =>
      obtain ⟨_, dropped⟩ := brackets_exact nesting (show 'L' ≠ '[' by decide) characters
      rw [List.replicate_succ, List.cons_append, RefType.read]
      simp only [dropped, refused]

theorem RefType.read_eq_error_of_isFaulty
    {characters : List Char}
    {error : DescriptorError}
    (faulty : IsFaulty characters error) :
    RefType.read characters = .error error := by
  cases faulty with
  | unterminated nesting noEnd =>
      exact RefType.read_eq_error_of_class nesting (BinaryName.read_eq_error_of_not_mem noEnd)
  | unnamed nesting more => exact RefType.read_eq_error_of_class nesting rfl
  | missing => rfl
  | void more => rfl
  | voidArray nesting more =>
      obtain ⟨_, dropped⟩ := brackets_exact nesting (show 'V' ≠ '[' by decide) more
      have refused : BaseType.read ('V' :: more) = .error (.badBaseType 'V') := rfl
      rw [List.replicate_succ, List.cons_append, RefType.read]
      simp only [dropped, refused]
      rfl

/-- A fault begins with no letter of a base type and does not close a list of parameters. -/
theorem IsFaulty.head?_cases
    {characters : List Char}
    {error : DescriptorError}
    (faulty : IsFaulty characters error) :
    characters = [] ∧ error = .missingType ∨
      ∃ first rest, characters = first :: rest ∧ BaseType.ofLetter? first = none ∧ first ≠ ')' := by
  have bracket : BaseType.ofLetter? '[' = none ∧ '[' ≠ ')' := by decide
  have class_ : BaseType.ofLetter? 'L' = none ∧ 'L' ≠ ')' := by decide
  cases faulty with
  | missing => exact .inl ⟨rfl, rfl⟩
  | void more => exact .inr ⟨'V', more, rfl, by decide⟩
  | voidArray nesting more => exact .inr ⟨'[', _, rfl, bracket⟩
  | unterminated nesting noEnd =>
      cases nesting with
      | zero => exact .inr ⟨'L', _, rfl, class_⟩
      | succ nesting => exact .inr ⟨'[', _, rfl, bracket⟩
  | unnamed nesting more =>
      cases nesting with
      | zero => exact .inr ⟨'L', _, rfl, class_⟩
      | succ nesting => exact .inr ⟨'[', _, rfl, bracket⟩

theorem FieldType.read_eq_error_of_isFaulty
    {characters : List Char}
    {error : DescriptorError}
    (faulty : IsFaulty characters error) :
    FieldType.read characters = .error error := by
  have refused := RefType.read_eq_error_of_isFaulty faulty
  rcases faulty.head?_cases with ⟨rfl, rfl⟩ | ⟨first, rest, rfl, noLetter, _⟩
  · rfl
  · rw [FieldType.read, noLetter]
    dsimp only
    rw [refused]

namespace MethodType

/-- A fault after some parameters is what is wrong with a list of parameters. -/
theorem readParametersFrom_eq_error_of_isFaulty
    (parameters before : List FieldType)
    {characters : List Char}
    {error : DescriptorError}
    (faulty : IsFaulty characters error) :
    readParametersFrom ((parameters.flatMap fun type => type.descriptor.toList) ++ characters)
      before = .error error := by
  have notClosed : characters.head? ≠ some ')' := by
    rcases faulty.head?_cases with ⟨rfl, _⟩ | ⟨first, rest, rfl, _, differs⟩
    · exact nofun
    · exact fun closed => differs (Option.some.inj closed)
  have refused := FieldType.read_eq_error_of_isFaulty faulty
  rw [readParametersFrom_flatMap_append, readParametersFrom, if_neg notClosed]
  split
  · rename_i isRead
    cases refused.symm.trans isRead
  · rename_i isRead
    cases refused.symm.trans isRead
    rfl

/-- A fault after the parameters is what is wrong with the result, unless it says that there is
none. -/
theorem readResult_eq_error_of_isFaulty
    {characters : List Char}
    {error : DescriptorError}
    (faulty : IsFaulty characters error)
    (notVoid : characters.head? ≠ some 'V') :
    readResult characters = .error error := by
  have refused := FieldType.read_eq_error_of_isFaulty faulty
  unfold readResult
  split
  · exact absurd rfl notVoid
  · rw [refused]

/-- The start of the descriptor of a method that has the parameters, and maybe more of them. -/
def openDescriptor (parameters : List FieldType) : String :=
  "(" ++ String.join (parameters.map FieldType.descriptor)

theorem toList_openDescriptor
    (parameters : List FieldType) :
    (openDescriptor parameters).toList =
      '(' :: parameters.flatMap fun type => type.descriptor.toList := by
  simp [openDescriptor, String.toList_append, List.flatMap_map]

theorem ofDescriptor_parameter_fault
    (parameters : List FieldType)
    {fault : String}
    {error : DescriptorError}
    (faulty : IsFaulty fault.toList error) :
    MethodType.ofDescriptor (openDescriptor parameters ++ fault) = .error error := by
  rw [MethodType.ofDescriptor, readWhole, String.toList_append, toList_openDescriptor,
    List.cons_append, MethodType.read, readParametersFrom_eq_error_of_isFaulty parameters [] faulty]

theorem ofDescriptor_result_fault
    (parameters : List FieldType)
    {fault : String}
    {error : DescriptorError}
    (faulty : IsFaulty fault.toList error)
    (notVoid : fault.toList.head? ≠ some 'V') :
    MethodType.ofDescriptor (openDescriptor parameters ++ ")" ++ fault) = .error error := by
  have text : (openDescriptor parameters ++ ")" ++ fault).toList =
      '(' :: ((parameters.flatMap fun type => type.descriptor.toList) ++ ')' :: fault.toList) := by
    simp [String.toList_append, toList_openDescriptor]
  rw [MethodType.ofDescriptor, readWhole, text, MethodType.read, readParametersFrom_descriptors]
  dsimp only
  rw [readResult_eq_error_of_isFaulty faulty notVoid]

end MethodType

/-- No text with a fault is read, neither alone nor as a part of the descriptor of a method. -/
structure RefusesFaults (fault : String) (error : DescriptorError) : Prop where
  fieldType : FieldType.ofDescriptor fault = .error error
  refType : RefType.ofDescriptor fault = .error error
  classArray : ∀ array, readWhole (readArray BinaryName.read) fault ≠ .ok array
  baseArray : ∀ array, readWhole (readArray BaseType.read) fault ≠ .ok array
  parameter : ∀ parameters,
    MethodType.ofDescriptor (MethodType.openDescriptor parameters ++ fault) = .error error
  result : fault.toList.head? ≠ some 'V' → ∀ parameters,
    MethodType.ofDescriptor (MethodType.openDescriptor parameters ++ ")" ++ fault) = .error error
  classConstant : fault.toList.head? = some '[' →
    RefType.ofClassInfoName fault = .error (describeBadDescriptor fault error)

theorem refusesFaults_of_isFaulty
    {fault : String}
    {error : DescriptorError}
    (faulty : IsFaulty fault.toList error) :
    RefusesFaults fault error := by
  have refType : RefType.ofDescriptor fault = .error error := by
    rw [RefType.ofDescriptor, readWhole, RefType.read_eq_error_of_isFaulty faulty]
  have noType : ∀ type : RefType, fault ≠ type.descriptor := by
    rintro type rfl
    cases type.ofDescriptor_descriptor.symm.trans refType
  exact {
    fieldType := by
      rw [FieldType.ofDescriptor, readWhole, FieldType.read_eq_error_of_isFaulty faulty]
    refType
    classArray := fun array accepted => noType (.objectArray array.1 array.2)
      (((readWhole_isCanonical classArray_isReaderOf).accepts _ _).mp accepted)
    baseArray := fun array accepted => noType (.primitiveArray array.1 array.2)
      (((readWhole_isCanonical baseArray_isReaderOf).accepts _ _).mp accepted)
    parameter := fun parameters => MethodType.ofDescriptor_parameter_fault parameters faulty
    result := fun notVoid parameters =>
      MethodType.ofDescriptor_result_fault parameters faulty notVoid
    classConstant := fun isArray => by
      rw [RefType.ofClassInfoName, if_pos isArray, refType] }

/-- Types of all kinds are read exactly from what is written for them, in descriptors and in class
constants, and none is read from a text with a fault. -/
structure ReadsTypesExactly : Prop where
  fieldTypes : IsCanonical FieldType.ofDescriptor FieldType.descriptor
  refTypes : IsCanonical RefType.ofDescriptor RefType.descriptor
  classArrays : IsCanonical (readWhole (readArray BinaryName.read))
    (arrayDescriptor BinaryName.descriptor)
  baseArrays : IsCanonical (readWhole (readArray BaseType.read))
    (arrayDescriptor fun type => String.singleton type.letter)
  methodTypes : IsCanonical MethodType.ofDescriptor MethodType.descriptor
  classConstants : ∀ text type,
    RefType.ofClassInfoName text = .ok type ↔ text = type.classInfoName
  oneClassConstant : ∀ type other : RefType,
    type.classInfoName = other.classInfoName → type = other
  faults : ∀ fault error, IsFaulty fault.toList error → RefusesFaults fault error
  noName : RefType.ofClassInfoName "" = .error "Binary name '' is empty"

theorem readsTypesExactly :
    ReadsTypesExactly where
  fieldTypes := readWhole_isCanonical FieldType.read_isReaderOf
  refTypes := readWhole_isCanonical RefType.read_isReaderOf
  classArrays := readWhole_isCanonical classArray_isReaderOf
  baseArrays := readWhole_isCanonical baseArray_isReaderOf
  methodTypes := readWhole_isCanonical MethodType.read_isReaderOf
  classConstants := RefType.ofClassInfoName_eq_ok_iff
  oneClassConstant := by
    intro type other same
    have accepted := (RefType.ofClassInfoName_eq_ok_iff _ other).mpr same
    rw [RefType.ofClassInfoName_classInfoName] at accepted
    exact Except.ok.inj accepted
  faults := fun _ _ faulty => refusesFaults_of_isFaulty faulty
  noName := rfl

end Canonical

end ClosureConversion
