import ClosureConversion.Descriptor.Basic

/-!
Contract: reading descriptors.

Owns:
- the readers of base, reference, field and method types, which take the start of
  a text and leave the rest;
- reading a whole text, and what is wrong with one that is no descriptor;
- reading the spelling of a reference type in a class constant.

Does not own: what a class file error is.
-/

namespace ClosureConversion

/-- What is wrong with a text that is no descriptor. -/
inductive DescriptorError where
  /-- Something follows the descriptor. -/
  | leftover (character : Char)
  | badBaseType (character : Char)
  | missingBaseType
  | noBracket
  | noClassMark
  /-- The name of a class, read up to the end of the text, has no semicolon after it. -/
  | unterminatedClass (name : String)
  | badClassName (complaint : String)
  | badType (character : Char)
  | missingType
  | noParameterList
deriving DecidableEq, Repr

namespace DescriptorError

/-- The wording of an error. -/
def message : DescriptorError → String
  | .leftover character => s!"Unexpected leftover input '{character}'"
  | .badBaseType character => s!"Invalid base type character '{character}'"
  | .missingBaseType => "Missing base type character"
  | .noBracket => "Expected at least on `[` for array type"
  | .noClassMark => "Expected object type to start with `L`"
  | .unterminatedClass name => s!"Missing terminator for 'L{name}'"
  | .badClassName complaint => complaint
  | .badType character => s!"Invalid reference type character '{character}'"
  | .missingType => "Missing field type"
  | .noParameterList => "Expected '(' for method"

/-- Whether the text ends too early, as opposed to holding something wrong. -/
def isPremature : DescriptorError → Bool
  | .missingBaseType => true
  | .unterminatedClass _ => true
  | .missingType => true
  | _ => false

end DescriptorError

/-- Takes a value off the start of a text, leaving the rest. -/
abbrev DescriptorReader (α : Type) :=
  List Char → Except DescriptorError (α × List Char)

/-- The letter of a base type. -/
def BaseType.read : DescriptorReader BaseType
  | [] => .error .missingBaseType
  | character :: rest =>
      match ofLetter? character with
      | some type => .ok (type, rest)
      | none => .error (.badBaseType character)

/-- The mark of a class, its name and the semicolon after it. -/
def BinaryName.read : DescriptorReader BinaryName
  | 'L' :: rest =>
      let text := String.ofList (rest.takeWhile (· ≠ ';'))
      match rest.dropWhile (· ≠ ';') with
      | [] => .error (.unterminatedClass text)
      | _ :: after =>
          match BinaryName.ofString text with
          | .ok name => .ok (name, after)
          | .error complaint => .error (.badClassName complaint)
  | _ => .error .noClassMark

/-- Brackets, as many as there are, and the element type after them. -/
def readArray {α : Type} (readElement : DescriptorReader α) : DescriptorReader (Nat × α) :=
  fun characters =>
    match characters.takeWhile (· = '[') with
    | [] => .error .noBracket
    | _ :: more =>
        match readElement (characters.dropWhile (· = '[')) with
        | .ok (element, rest) => .ok ((more.length, element), rest)
        | .error error => .error error

namespace RefType

/-- A class or an array. -/
def read : DescriptorReader RefType
  | [] => .error .missingType
  | 'L' :: rest =>
      match BinaryName.read ('L' :: rest) with
      | .ok (name, rest) => .ok (.object name, rest)
      | .error error => .error error
  | '[' :: rest =>
      let inner := rest.dropWhile (· = '[')
      let nesting := (rest.takeWhile (· = '[')).length
      match inner with
      | 'L' :: _ =>
          match BinaryName.read inner with
          | .ok (name, rest) => .ok (.objectArray nesting name, rest)
          | .error error => .error error
      | _ =>
          match BaseType.read inner with
          | .ok (type, rest) => .ok (.primitiveArray nesting type, rest)
          | .error error => .error error
  | character :: _ => .error (.badType character)

end RefType

namespace FieldType

/-- A base type, a class or an array. -/
def read : DescriptorReader FieldType
  | [] => .error .missingType
  | character :: rest =>
      match BaseType.ofLetter? character with
      | some type => .ok (.base type, rest)
      | none =>
          match RefType.read (character :: rest) with
          | .ok (type, rest) => .ok (.ref type, rest)
          | .error error => .error error

end FieldType

/-! ## Every reader takes something -/

theorem BaseType.length_lt_of_read
    {characters rest : List Char}
    {type : BaseType}
    (taken : BaseType.read characters = .ok (type, rest)) :
    rest.length < characters.length := by
  cases characters with
  | nil => simp [BaseType.read] at taken
  | cons character tail =>
      simp only [BaseType.read] at taken
      split at taken <;> simp at taken
      obtain ⟨_, rfl⟩ := taken
      simp

theorem BinaryName.length_lt_of_read
    {characters rest : List Char}
    {name : BinaryName}
    (taken : BinaryName.read characters = .ok (name, rest)) :
    rest.length < characters.length := by
  unfold BinaryName.read at taken
  split at taken
  · rename_i tail
    have shorter := (List.dropWhile_suffix (fun character => decide (character ≠ ';')) (l := tail)).length_le
    split at taken
    · simp at taken
    · rename_i after found
      rw [found] at shorter
      simp only at taken
      split at taken <;> simp at taken
      obtain ⟨_, rfl⟩ := taken
      simp only [List.length_cons] at shorter ⊢
      omega
  · simp at taken

theorem RefType.length_lt_of_read
    {characters rest : List Char}
    {type : RefType}
    (taken : RefType.read characters = .ok (type, rest)) :
    rest.length < characters.length := by
  unfold RefType.read at taken
  split at taken
  · simp at taken
  · split at taken <;> simp at taken
    rename_i inner
    obtain ⟨_, rfl⟩ := taken
    exact BinaryName.length_lt_of_read inner
  · rename_i tail
    have shorter := (List.dropWhile_suffix (fun character => decide (character = '[')) (l := tail)).length_le
    simp only at taken
    split at taken
    · rename_i found
      split at taken <;> simp at taken
      rename_i inner
      obtain ⟨_, rfl⟩ := taken
      have taken := BinaryName.length_lt_of_read inner
      simp only [List.length_cons]
      omega
    · split at taken <;> simp at taken
      rename_i inner
      obtain ⟨_, rfl⟩ := taken
      have taken := BaseType.length_lt_of_read inner
      simp only [List.length_cons]
      omega
  · simp at taken

theorem FieldType.length_lt_of_read
    {characters rest : List Char}
    {type : FieldType}
    (taken : FieldType.read characters = .ok (type, rest)) :
    rest.length < characters.length := by
  cases characters with
  | nil => simp [FieldType.read] at taken
  | cons character tail =>
      simp only [FieldType.read] at taken
      split at taken
      · simp at taken
        obtain ⟨_, rfl⟩ := taken
        simp
      · split at taken <;> simp at taken
        rename_i inner
        obtain ⟨_, rfl⟩ := taken
        exact RefType.length_lt_of_read inner

namespace MethodType

/-- Reads parameters up to the closing parenthesis, prepending them to those read
before, last one first. -/
def readParametersFrom (characters : List Char) (before : List FieldType) :
    Except DescriptorError (List FieldType × List Char) :=
  if characters.head? = some ')' then .ok (before, characters.tail)
  else
    match _taken : FieldType.read characters with
    | .ok (type, rest) => readParametersFrom rest (type :: before)
    | .error error => .error error
termination_by characters.length
decreasing_by exact FieldType.length_lt_of_read _taken

/-- What a method returns. -/
def readResult : DescriptorReader (Option FieldType)
  | 'V' :: rest => .ok (none, rest)
  | characters =>
      match FieldType.read characters with
      | .ok (type, rest) => .ok (some type, rest)
      | .error error => .error error

/-- The parameters in parentheses and what is returned. -/
def read : DescriptorReader MethodType
  | '(' :: rest =>
      match readParametersFrom rest [] with
      | .ok (reversed, rest) =>
          match readResult rest with
          | .ok (result, rest) => .ok (⟨reversed.reverse, result⟩, rest)
          | .error error => .error error
      | .error error => .error error
  | _ => .error .noParameterList

end MethodType

/-- Reads a whole text, of which nothing may be left. -/
def readWhole {α : Type} (reader : DescriptorReader α) (text : String) :
    Except DescriptorError α :=
  match reader text.toList with
  | .ok (value, []) => .ok value
  | .ok (_, character :: _) => .error (.leftover character)
  | .error error => .error error

/-- The field type of a descriptor. -/
def FieldType.ofDescriptor (text : String) : Except DescriptorError FieldType :=
  readWhole FieldType.read text

/-- The reference type of a descriptor. -/
def RefType.ofDescriptor (text : String) : Except DescriptorError RefType :=
  readWhole RefType.read text

/-- The method type of a descriptor. -/
def MethodType.ofDescriptor (text : String) : Except DescriptorError MethodType :=
  readWhole MethodType.read text

/-- What is said about a text that should be a descriptor and is none. -/
def describeBadDescriptor (text : String) (error : DescriptorError) : String :=
  s!"{text}: {error.message}"

/-- The reference type that a class constant spells, or what is wrong with it. -/
def RefType.ofClassInfoName (text : String) : Except String RefType :=
  if text.toList.head? = some '[' then
    match RefType.ofDescriptor text with
    | .ok type => .ok type
    | .error error => .error (describeBadDescriptor text error)
  else
    match BinaryName.ofString text with
    | .ok name => .ok (.object name)
    | .error complaint => .error complaint

end ClosureConversion
