/-!
Contract: the names of members and of classes in a class file.

Owns:
- what an unqualified name and a binary class name are, and the checks of both;
- joining names, and the package and the simple name of a class;
- the names that the virtual machine and its core classes fix.

Does not own: descriptors, which spell class names in another way.
-/

namespace ClosureConversion

/-- The characters that no unqualified name holds. -/
def isReserved (character : Char) : Bool :=
  character = '.' || character = ';' || character = '[' || character = '/'

/-- What the name of a field, a method or one part of a class name is. -/
def IsUnqualified (characters : List Char) : Prop :=
  characters ≠ [] ∧ ∀ character ∈ characters, isReserved character = false

/-- The characters of a name are looked at one by one. -/
instance (characters : List Char) : Decidable (IsUnqualified characters) :=
  @instDecidableAnd _ _ inferInstance
    (List.decidableBAll (fun character => isReserved character = false) characters)

/-- The parts of a text between its slashes. -/
def segments : List Char → List (List Char)
  | [] => [[]]
  | character :: rest =>
      if character = '/' then [] :: segments rest
      else
        match segments rest with
        | [] => [[character]]
        | first :: others => (character :: first) :: others

/-- What the name of a class is: unqualified names with slashes between them. -/
def IsBinaryName (characters : List Char) : Prop :=
  ∀ part ∈ segments characters, IsUnqualified part

/-- The parts of a class name are looked at one by one. -/
instance (characters : List Char) : Decidable (IsBinaryName characters) :=
  List.decidableBAll IsUnqualified (segments characters)

/-- The name of a member. -/
structure UnqualifiedName where
  text : String
  isUnqualified : IsUnqualified text.toList
deriving DecidableEq

/-- The name of a class, its package included. -/
structure BinaryName where
  text : String
  isBinaryName : IsBinaryName text.toList
deriving DecidableEq

instance : Hashable UnqualifiedName := ⟨fun name => hash name.text⟩
instance : Hashable BinaryName := ⟨fun name => hash name.text⟩
instance : ToString UnqualifiedName := ⟨UnqualifiedName.text⟩
instance : ToString BinaryName := ⟨BinaryName.text⟩
instance : Repr UnqualifiedName := ⟨fun name _ => name.text⟩
instance : Repr BinaryName := ⟨fun name _ => name.text⟩

/-! ## Facts about the parts of a name -/

/-- A text without slashes lengthens the last part. -/
theorem segments_append_of_no_slash
    (front back : List Char)
    (noSlash : ∀ character ∈ back, character ≠ '/') :
    ∃ start last, segments front = start ++ [last] ∧
      segments (front ++ back) = start ++ [last ++ back] := by
  induction front with
  | nil =>
      refine ⟨[], [], rfl, ?_⟩
      induction back with
      | nil => rfl
      | cons character rest inductionHypothesis =>
          have here : character ≠ '/' := noSlash character (by simp)
          have there := inductionHypothesis fun other member =>
            noSlash other (List.mem_cons_of_mem character member)
          simp only [List.nil_append] at there
          simp [segments, here, there]
  | cons character rest inductionHypothesis =>
      obtain ⟨start, last, frontEq, bothEq⟩ := inductionHypothesis
      by_cases slash : character = '/'
      · exact ⟨[] :: start, last, by simp [segments, slash, frontEq],
          by simp [segments, slash, bothEq]⟩
      · cases start with
        | nil =>
            exact ⟨[], character :: last, by simp [segments, slash, frontEq],
              by simp [segments, slash, bothEq]⟩
        | cons first others =>
            exact ⟨(character :: first) :: others, last, by simp [segments, slash, frontEq],
              by simp [segments, slash, bothEq]⟩

/-- A slash ends a part. -/
theorem segments_append_slash
    (front back : List Char) :
    segments (front ++ '/' :: back) = segments front ++ segments back := by
  induction front with
  | nil => simp [segments]
  | cons character rest inductionHypothesis =>
      by_cases slash : character = '/'
      · simp [segments, slash, inductionHypothesis]
      · cases parts : segments rest with
        | nil =>
            exfalso
            obtain ⟨start, last, restEq, _⟩ := segments_append_of_no_slash rest [] (by simp)
            rw [parts] at restEq
            simp at restEq
        | cons first others => simp [segments, slash, inductionHypothesis, parts]

theorem isReserved_slash {character : Char} (free : isReserved character = false) :
    character ≠ '/' := by
  intro slash
  subst slash
  simp [isReserved] at free

theorem isUnqualified_append
    {front back : List Char}
    (frontValid : IsUnqualified front)
    (backFree : ∀ character ∈ back, isReserved character = false) :
    IsUnqualified (front ++ back) := by
  refine ⟨by simp [frontValid.1], fun character member => ?_⟩
  rcases List.mem_append.mp member with inFront | inBack
  · exact frontValid.2 character inFront
  · exact backFree character inBack

theorem isBinaryName_append
    {front back : List Char}
    (frontValid : IsBinaryName front)
    (backValid : IsUnqualified back) :
    IsBinaryName (front ++ back) := by
  obtain ⟨start, last, frontEq, bothEq⟩ := segments_append_of_no_slash front back
    fun character member => isReserved_slash (backValid.2 character member)
  intro part member
  rw [bothEq] at member
  rcases List.mem_append.mp member with inStart | isLast
  · exact frontValid part (by rw [frontEq]; exact List.mem_append_left _ inStart)
  · rw [List.mem_singleton.mp isLast]
    exact isUnqualified_append (frontValid last (by rw [frontEq]; simp)) backValid.2

theorem isBinaryName_append_slash
    {front back : List Char}
    (frontValid : IsBinaryName front)
    (backValid : IsBinaryName back) :
    IsBinaryName (front ++ '/' :: back) := by
  intro part member
  rw [segments_append_slash] at member
  rcases List.mem_append.mp member with inFront | inBack
  · exact frontValid part inFront
  · exact backValid part inBack

theorem segments_of_no_slash
    (characters : List Char)
    (noSlash : ∀ character ∈ characters, character ≠ '/') :
    segments characters = [characters] := by
  obtain ⟨start, last, emptyEq, wholeEq⟩ := segments_append_of_no_slash [] characters noSlash
  cases start with
  | nil =>
      simp only [segments, List.nil_append, List.cons.injEq, and_true] at emptyEq
      simpa [← emptyEq] using wholeEq
  | cons first others =>
      exfalso
      have lengths := congrArg List.length emptyEq
      simp [segments] at lengths

theorem isBinaryName_of_isUnqualified
    {characters : List Char}
    (valid : IsUnqualified characters) :
    IsBinaryName characters := by
  intro part member
  rw [segments_of_no_slash characters fun character inside =>
    isReserved_slash (valid.2 character inside)] at member
  rw [List.mem_singleton.mp member]
  exact valid

namespace UnqualifiedName

/-- Why a text is no unqualified name. -/
def complaint (text : String) : String :=
  if text.toList.any isReserved then
    s!"Unqualified name '{text}' contains an illegal character"
  else
    s!"Unqualified name '{text}' is empty"

/-- Checks a name. -/
def ofString (text : String) : Except String UnqualifiedName :=
  if valid : IsUnqualified text.toList then .ok ⟨text, valid⟩
  else .error (complaint text)

/-- One name after another, as one name. -/
def append (front back : UnqualifiedName) : UnqualifiedName where
  text := front.text ++ back.text
  isUnqualified := by
    rw [String.toList_append]
    exact isUnqualified_append front.isUnqualified back.isUnqualified.2

theorem isUnqualified_repr (number : Nat) : IsUnqualified (toString number).toList := by
  refine ⟨?_, fun character member => ?_⟩
  · simp [toString, Nat.repr, Nat.toDigits_ne_nil]
  · have digit : character.isDigit = true := by
      simp only [toString, Nat.repr, String.toList_ofList] at member
      exact Nat.isDigit_of_mem_toDigits (by decide) (by decide) member
    simp only [isReserved, Bool.or_eq_false_iff, decide_eq_false_iff_not]
    refine ⟨⟨⟨?_, ?_⟩, ?_⟩, ?_⟩ <;> intro equal <;> subst equal <;> simp [Char.isDigit] at digit

/-- The decimal form of a number, as a name. -/
def ofNat (number : Nat) : UnqualifiedName where
  text := toString number
  isUnqualified := isUnqualified_repr number

/-- The name of constructors. -/
def init : UnqualifiedName := ⟨"<init>", by decide⟩

/-- The name of class initialisers. -/
def classInit : UnqualifiedName := ⟨"<clinit>", by decide⟩

def booleanValue : UnqualifiedName := ⟨"booleanValue", by decide⟩
def byteValue : UnqualifiedName := ⟨"byteValue", by decide⟩
def charValue : UnqualifiedName := ⟨"charValue", by decide⟩
def doubleValue : UnqualifiedName := ⟨"doubleValue", by decide⟩
def floatValue : UnqualifiedName := ⟨"floatValue", by decide⟩
def intValue : UnqualifiedName := ⟨"intValue", by decide⟩
def longValue : UnqualifiedName := ⟨"longValue", by decide⟩
def shortValue : UnqualifiedName := ⟨"shortValue", by decide⟩
def valueOf : UnqualifiedName := ⟨"valueOf", by decide⟩

/-- The name of the receiver in debug information. -/
def this : UnqualifiedName := ⟨"this", by decide⟩

/-- The field in which a closure keeps the receiver of the enclosing method. -/
def outerThis : UnqualifiedName := ⟨"this$0", by decide⟩

/-- What precedes the line number in the name of a closure class. -/
def lineMarker : UnqualifiedName := ⟨"L", by decide⟩

end UnqualifiedName

namespace BinaryName

/-- Why a text is no class name: its first part that is no unqualified name. -/
def complaint (text : String) : String :=
  if text.isEmpty then
    s!"Binary name '{text}' is empty"
  else
    let parts := (segments text.toList).filter fun part => !decide (IsUnqualified part)
    UnqualifiedName.complaint (String.ofList (parts.headD []))

/-- Checks a class name. -/
def ofString (text : String) : Except String BinaryName :=
  if valid : IsBinaryName text.toList then .ok ⟨text, valid⟩
  else .error (complaint text)

/-- A class name lengthened at its end. -/
def append (front : BinaryName) (back : UnqualifiedName) : BinaryName where
  text := front.text ++ back.text
  isBinaryName := by
    rw [String.toList_append]
    exact isBinaryName_append front.isBinaryName back.isUnqualified

/-- A name inside a package. -/
def join (package : BinaryName) (name : UnqualifiedName) : BinaryName where
  text := package.text ++ "/" ++ name.text
  isBinaryName := by
    have split : (package.text ++ "/" ++ name.text).toList =
        package.text.toList ++ '/' :: name.text.toList := by
      simp [String.toList_append]
    rw [split]
    exact isBinaryName_append_slash package.isBinaryName
      (isBinaryName_of_isUnqualified name.isUnqualified)

/-- What stands before the last slash; nothing for a class of the unnamed package. -/
def package (name : BinaryName) : String :=
  String.ofList ((name.text.toList.reverse.dropWhile (· ≠ '/')).drop 1).reverse

/-- What stands after the last slash. -/
def unpackaged (name : BinaryName) : String :=
  String.ofList (name.text.toList.reverse.takeWhile (· ≠ '/')).reverse

/-- What stands after the last dollar sign of the name without its package, or all
of that if nothing follows a dollar sign there. -/
def simpleName (name : BinaryName) : String :=
  let whole := name.unpackaged.toList.reverse
  let tail := whole.takeWhile (· ≠ '$')
  if tail.isEmpty then name.unpackaged else String.ofList tail.reverse

def boolean : BinaryName := ⟨"java/lang/Boolean", by decide⟩
def byte : BinaryName := ⟨"java/lang/Byte", by decide⟩
def callable : BinaryName := ⟨"java/util/concurrent/Callable", by decide⟩
def character : BinaryName := ⟨"java/lang/Character", by decide⟩
def charSequence : BinaryName := ⟨"java/lang/CharSequence", by decide⟩
def class_ : BinaryName := ⟨"java/lang/Class", by decide⟩
def cloneable : BinaryName := ⟨"java/lang/Cloneable", by decide⟩
def comparable : BinaryName := ⟨"java/lang/Comparable", by decide⟩
def double : BinaryName := ⟨"java/lang/Double", by decide⟩
def error : BinaryName := ⟨"java/lang/Error", by decide⟩
def exception : BinaryName := ⟨"java/lang/Exception", by decide⟩
def float : BinaryName := ⟨"java/lang/Float", by decide⟩
def integer : BinaryName := ⟨"java/lang/Integer", by decide⟩
def long : BinaryName := ⟨"java/lang/Long", by decide⟩
def methodHandle : BinaryName := ⟨"java/lang/invoke/MethodHandle", by decide⟩
def methodType : BinaryName := ⟨"java/lang/invoke/MethodType", by decide⟩
def number : BinaryName := ⟨"java/lang/Number", by decide⟩
def object : BinaryName := ⟨"java/lang/Object", by decide⟩
def runnable : BinaryName := ⟨"java/lang/Runnable", by decide⟩
def runtimeException : BinaryName := ⟨"java/lang/RuntimeException", by decide⟩
def serializable : BinaryName := ⟨"java/io/Serializable", by decide⟩
def short : BinaryName := ⟨"java/lang/Short", by decide⟩
def string : BinaryName := ⟨"java/lang/String", by decide⟩
def throwable : BinaryName := ⟨"java/lang/Throwable", by decide⟩

end BinaryName

end ClosureConversion
