import Mathlib.Algebra.Group.Nat.Defs
import ClosureConversion.Text.ModifiedUtf8

/-!
Contract: a text is read back from its modified UTF-8 form, whatever comes after it.

Owns:
- the sixteen-bit units of a character, which reading its bytes gives;
- that reading what was written gives the text again, whatever characters it has;
- how long what is written for a text can be whose bytes begin it;
- no byte of a text is zero, or `0xF0` or more;
- reading at an index, which would fail where it looks behind the end of the input: it never does,
  and gives the same text.

Does not own: which bytes are not written for any text.
-/

namespace ClosureConversion.Text.ModifiedUtf8

/-- The sixteen-bit units of a character. -/
def unitsOf (character : Char) : List Nat :=
  if character.toNat < 0x10000 then [character.toNat]
  else [(surrogatePair character.toNat).1, (surrogatePair character.toNat).2]

/-! ## From bytes to units -/

/-- The lead bytes of two-byte units, and the bits that they carry. -/
theorem lead_twoBytes :
    ∀ high < 32, ¬ (0xC0 + high).toUInt8 < 0x80 ∧ (0xC0 + high).toUInt8 &&& 0xE0 = 0xC0 ∧
      (0xC0 + high).toUInt8.toNat % 32 = high := by
  decide

/-- The lead bytes of three-byte units, and the bits that they carry. -/
theorem lead_threeBytes :
    ∀ high < 16, ¬ (0xE0 + high).toUInt8 < 0x80 ∧ (0xE0 + high).toUInt8 &&& 0xE0 ≠ 0xC0 ∧
      (0xE0 + high).toUInt8 &&& 0xF0 = 0xE0 ∧ (0xE0 + high).toUInt8.toNat % 16 = high := by
  decide

/-- The bytes that stand for themselves. -/
theorem lead_oneByte :
    ∀ unit < 0x80, unit.toUInt8 < 0x80 ∧ unit.toUInt8.toNat = unit := by
  decide

theorem continuation_toUInt8 :
    ∀ bits < 64, continuation (0x80 + bits).toUInt8 = bits := by
  decide

variable {unit : Nat}

theorem unitsFrom_oneByte
    (small : unit < 0x80)
    (rest : List UInt8)
    (before : List Nat) :
    unitsFrom (unit.toUInt8 :: rest) before = unitsFrom rest (unit :: before) := by
  obtain ⟨isLead, bits⟩ := lead_oneByte unit small
  have isUnit : unitAt unit.toUInt8 rest = (unit, 0) := by
    unfold unitAt
    rw [if_pos isLead, bits]
  rw [unitsFrom, isUnit]
  rfl

theorem unitsFrom_twoBytes
    (small : unit < 0x800)
    (rest : List UInt8)
    (before : List Nat) :
    unitsFrom (twoBytes unit ++ rest) before = unitsFrom rest (unit :: before) := by
  obtain ⟨notSingle, isLead, bits⟩ := lead_twoBytes (unit / 64 % 32) (Nat.mod_lt _ (by decide))
  have low := continuation_toUInt8 (unit % 64) (Nat.mod_lt _ (by decide))
  have whole : unit / 64 % 32 * 64 + unit % 64 = unit := by omega
  rw [twoBytes, List.cons_append, List.cons_append, List.nil_append, unitsFrom, unitAt,
    if_neg notSingle, if_pos isLead]
  simp only [bits, low, whole]
  rfl

theorem unitsFrom_threeBytes
    (small : unit < 0x10000)
    (rest : List UInt8)
    (before : List Nat) :
    unitsFrom (threeBytes unit ++ rest) before = unitsFrom rest (unit :: before) := by
  obtain ⟨notSingle, notTwo, isLead, bits⟩ :=
    lead_threeBytes (unit / 4096 % 16) (Nat.mod_lt _ (by decide))
  have middle := continuation_toUInt8 (unit / 64 % 64) (Nat.mod_lt _ (by decide))
  have low := continuation_toUInt8 (unit % 64) (Nat.mod_lt _ (by decide))
  have whole : unit / 4096 % 16 * 4096 + unit / 64 % 64 * 64 + unit % 64 = unit := by omega
  rw [threeBytes, List.cons_append, List.cons_append, List.cons_append, List.nil_append, unitsFrom,
    unitAt, if_neg notSingle, if_neg notTwo, if_pos isLead]
  simp only [bits, middle, low, whole]
  rfl

/-- Code points are below the bound that surrogate pairs can express. -/
theorem surrogatePair_lt
    (character : Char) :
    (surrogatePair character.toNat).1 < 0x10000 ∧ (surrogatePair character.toNat).2 < 0x10000 := by
  have small : character.toNat < 0x110000 := by
    rcases character.valid with low | high
    · exact Nat.lt_trans low (by decide)
    · exact high.2
  unfold surrogatePair
  constructor <;> dsimp only <;> omega

/-- The bytes of a character are read as its units. -/
theorem unitsFrom_encodeChar
    (character : Char)
    (rest : List UInt8)
    (before : List Nat) :
    unitsFrom (encodeChar character ++ rest) before =
      unitsFrom rest ((unitsOf character).reverse ++ before) := by
  unfold encodeChar unitsOf
  dsimp only
  split
  · rename_i isNul
    rw [isNul, unitsFrom_twoBytes (by decide)]
    rfl
  · split
    · rename_i small
      rw [List.cons_append, List.nil_append, unitsFrom_oneByte small, if_pos (by omega)]
      rfl
    · split
      · rename_i small
        rw [unitsFrom_twoBytes small, if_pos (by omega)]
        rfl
      · split
        · rename_i small
          rw [unitsFrom_threeBytes small]
          rfl
        · obtain ⟨highSmall, lowSmall⟩ := surrogatePair_lt character
          rw [List.append_assoc, unitsFrom_threeBytes highSmall, unitsFrom_threeBytes lowSmall]
          rfl

/-- The bytes of several characters are read as their units. -/
theorem unitsFrom_flatMap_encodeChar
    (characters : List Char)
    (rest : List UInt8)
    (before : List Nat) :
    unitsFrom (characters.flatMap encodeChar ++ rest) before =
      unitsFrom rest ((characters.flatMap unitsOf).reverse ++ before) := by
  induction characters generalizing before with
  | nil => rfl
  | cons character characters inductionHypothesis =>
      rw [List.flatMap_cons, List.append_assoc, unitsFrom_encodeChar, inductionHypothesis,
        List.flatMap_cons, List.reverse_append, List.append_assoc]

theorem units_encode
    (text : String) :
    units (encode text) = text.toList.flatMap unitsOf := by
  have read := unitsFrom_flatMap_encodeChar text.toList [] []
  rw [List.append_nil, List.append_nil] at read
  rw [units, encode, read, unitsFrom, List.reverse_reverse]

/-! ## From units to characters -/

/-- No character is a surrogate. -/
theorem isSurrogate_toNat
    (character : Char) :
    isHighSurrogate character.toNat = false ∧ isLowSurrogate character.toNat = false := by
  have valid : character.toNat < 0xD800 ∨ 0xDFFF < character.toNat := by
    rcases character.valid with low | high
    · exact .inl low
    · exact .inr high.1
  unfold isHighSurrogate isLowSurrogate
  simp only [Bool.and_eq_false_iff, decide_eq_false_iff_not]
  omega

/-- A character of one unit is read from it, whatever comes next. -/
theorem charAt_toNat
    (character : Char)
    (rest : List Nat) :
    charAt character.toNat rest = (character, 0) := by
  obtain ⟨notHigh, notLow⟩ := isSurrogate_toNat character
  have read : charOfUnit character.toNat = character := by
    rw [charOfUnit, notHigh, notLow]
    exact Char.ofNat_toNat character
  cases rest with
  | nil => rw [charAt, read]
  | cons next rest => simp [charAt, notHigh, read]

/-- A character outside the basic plane is read from its surrogate pair. -/
theorem charAt_surrogatePair
    {character : Char}
    (outside : ¬ character.toNat < 0x10000)
    (rest : List Nat) :
    charAt (surrogatePair character.toNat).1 ((surrogatePair character.toNat).2 :: rest) =
      (character, 1) := by
  have small : character.toNat < 0x110000 := by
    rcases character.valid with low | high
    · exact Nat.lt_trans low (by decide)
    · exact high.2
  have isPair : (isHighSurrogate (surrogatePair character.toNat).1 &&
      isLowSurrogate (surrogatePair character.toNat).2) = true := by
    unfold isHighSurrogate isLowSurrogate surrogatePair
    simp only [Bool.and_eq_true, decide_eq_true_eq]
    omega
  have whole : 0x10000 + ((surrogatePair character.toNat).1 - 0xD800) * 1024 +
      ((surrogatePair character.toNat).2 - 0xDC00) = character.toNat := by
    unfold surrogatePair
    dsimp only
    omega
  rw [charAt]
  simp only [isPair, if_true, whole, Char.ofNat_toNat]

theorem charsFrom_unitsOf
    (character : Char)
    (rest : List Nat)
    (before : List Char) :
    charsFrom (unitsOf character ++ rest) before = charsFrom rest (character :: before) := by
  unfold unitsOf
  split
  · rw [List.cons_append, List.nil_append, charsFrom, charAt_toNat]
    rfl
  · rename_i outside
    rw [List.cons_append, List.cons_append, List.nil_append, charsFrom,
      charAt_surrogatePair outside]
    rfl

/-- Several characters are read from their units. -/
theorem charsFrom_flatMap_unitsOf
    (characters : List Char)
    (rest : List Nat)
    (before : List Char) :
    charsFrom (characters.flatMap unitsOf ++ rest) before =
      charsFrom rest (characters.reverse ++ before) := by
  induction characters generalizing before with
  | nil => rfl
  | cons character characters inductionHypothesis =>
      rw [List.flatMap_cons, List.append_assoc, charsFrom_unitsOf, inductionHypothesis,
        List.reverse_cons, List.append_assoc]
      rfl

/-- A text is read back from its bytes. -/
theorem decode_encode
    (text : String) :
    decode (encode text) = text := by
  have read := charsFrom_flatMap_unitsOf text.toList [] []
  rw [List.append_nil, List.append_nil] at read
  rw [decode, units_encode, read, charsFrom, List.reverse_reverse, String.ofList_toList]

/-! ## Lengths -/

/-- Units are read before those that were read already. -/
theorem unitsFrom_eq_append
    (bytes : List UInt8)
    (before : List Nat) :
    unitsFrom bytes before = unitsFrom bytes [] ++ before := by
  match bytes with
  | [] =>
      rw [unitsFrom, unitsFrom]
      rfl
  | lead :: rest =>
      have shorter : (rest.drop (unitAt lead rest).2).length < (lead :: rest).length := by
        rw [List.length_drop, List.length_cons]
        omega
      rw [unitsFrom, unitsFrom]
      dsimp only
      rw [unitsFrom_eq_append (rest.drop _) (_ :: before), unitsFrom_eq_append (rest.drop _) [_],
        List.append_assoc]
      rfl
termination_by bytes.length

/-- Every unit takes at least one byte. -/
theorem length_unitsFrom_le
    (bytes : List UInt8)
    (before : List Nat) :
    (unitsFrom bytes before).length ≤ bytes.length + before.length := by
  fun_induction unitsFrom bytes before with
  | case1 units => exact Nat.le_add_left _ _
  | case2 units lead rest unit following isUnit inductionHypothesis =>
      rw [List.length_drop, List.length_cons] at inductionHypothesis
      rw [List.length_cons]
      omega

theorem length_encodeChar_le
    (character : Char) :
    (encodeChar character).length ≤ 6 := by
  unfold encodeChar
  dsimp only
  repeat' split
  all_goals simp [twoBytes, threeBytes]

/-- The characters that are read from units are written as at most six bytes for each unit. -/
theorem length_flatMap_charsFrom_le
    (units : List Nat)
    (before : List Char) :
    ((charsFrom units before).flatMap encodeChar).length ≤
      6 * units.length + (before.flatMap encodeChar).length := by
  fun_induction charsFrom units before with
  | case1 chars => exact Nat.le_add_left _ _
  | case2 chars unit rest character following isChar inductionHypothesis =>
      have short := length_encodeChar_le character
      rw [List.length_drop, List.flatMap_cons, List.length_append] at inductionHypothesis
      rw [List.length_cons]
      omega

/-- Bytes that begin with what is written for a text are read as a text that begins with it, and
is written as at most six bytes for each of those that follow. -/
theorem length_encode_decode_append_le
    (front : List Char)
    (rest : List UInt8) :
    (encode (decode (front.flatMap encodeChar ++ rest))).length ≤
      (front.flatMap encodeChar).length + 6 * rest.length := by
  have few := length_unitsFrom_le rest []
  have short := length_flatMap_charsFrom_le (unitsFrom rest []).reverse front.reverse
  unfold encode decode units
  rw [String.toList_ofList, unitsFrom_flatMap_encodeChar, unitsFrom_eq_append, List.append_nil,
    List.reverse_append, List.reverse_reverse, charsFrom_flatMap_unitsOf, List.append_nil]
  have reversed : ∀ characters : List Char,
      (characters.reverse.flatMap encodeChar).length = (characters.flatMap encodeChar).length := by
    intro characters
    rw [List.length_flatMap, List.length_flatMap, List.map_reverse, List.sum_reverse]
  rw [reversed] at short ⊢
  rw [List.length_reverse] at short
  rw [List.length_nil] at few
  omega

/-- What is written for a text begins with whole characters and at most six more bytes. -/
theorem exists_characters_of_isPrefix
    {content : List UInt8}
    {characters : List Char}
    (isPrefix : content <+: characters.flatMap encodeChar) :
    ∃ (front : List Char) (rest : List UInt8), content = front.flatMap encodeChar ++ rest ∧ rest.length ≤ 6 := by
  induction characters generalizing content with
  | nil =>
      rw [List.flatMap_nil, List.prefix_nil] at isPrefix
      exact ⟨[], [], isPrefix, Nat.zero_le _⟩
  | cons character characters inductionHypothesis =>
      rw [List.flatMap_cons] at isPrefix
      rcases List.prefix_or_prefix_of_prefix isPrefix (List.prefix_append _ _) with inside | ⟨later, rfl⟩
      · exact ⟨[], content, rfl, Nat.le_trans inside.length_le (length_encodeChar_le character)⟩
      · obtain ⟨front, rest, rfl, short⟩ :=
          inductionHypothesis ((List.prefix_append_right_inj _).mp isPrefix)
        exact ⟨character :: front, rest, by rw [List.flatMap_cons, List.append_assoc], short⟩

/-- Bytes that begin what is written for the text that they stand for are what is written for
it, unless that is longer by many bytes, which it is not. -/
theorem length_encode_decode_le_of_isPrefix
    {content : List UInt8}
    (isPrefix : content <+: encode (decode content)) :
    (encode (decode content)).length ≤ content.length + 36 := by
  obtain ⟨front, rest, equal, short⟩ := exists_characters_of_isPrefix isPrefix
  have bound := length_encode_decode_append_le front rest
  rw [← equal] at bound
  have length := congrArg List.length equal
  rw [List.length_append] at length
  omega

/-! ## The bytes of a text -/

/-- The byte is neither zero nor one that leads a form of four bytes. -/
def IsPlainByte (byte : UInt8) : Prop :=
  byte ≠ 0 ∧ byte < 0xF0

instance (byte : UInt8) : Decidable (IsPlainByte byte) :=
  inferInstanceAs (Decidable (_ ∧ _))

theorem isPlainByte_oneByte :
    ∀ unit < 0x80, unit ≠ 0 → IsPlainByte unit.toUInt8 := by
  decide

theorem isPlainByte_leadOfTwo :
    ∀ high < 32, IsPlainByte (0xC0 + high).toUInt8 := by
  decide

theorem isPlainByte_leadOfThree :
    ∀ high < 16, IsPlainByte (0xE0 + high).toUInt8 := by
  decide

theorem isPlainByte_continuation :
    ∀ bits < 64, IsPlainByte (0x80 + bits).toUInt8 := by
  decide

theorem isPlainByte_of_mem_twoBytes
    {unit : Nat} :
    ∀ byte ∈ twoBytes unit, IsPlainByte byte := by
  simp only [twoBytes, List.forall_mem_cons]
  exact ⟨isPlainByte_leadOfTwo _ (Nat.mod_lt _ (by decide)),
    isPlainByte_continuation _ (Nat.mod_lt _ (by decide)), List.forall_mem_nil _⟩

theorem isPlainByte_of_mem_threeBytes
    {unit : Nat} :
    ∀ byte ∈ threeBytes unit, IsPlainByte byte := by
  simp only [threeBytes, List.forall_mem_cons]
  exact ⟨isPlainByte_leadOfThree _ (Nat.mod_lt _ (by decide)),
    isPlainByte_continuation _ (Nat.mod_lt _ (by decide)),
    isPlainByte_continuation _ (Nat.mod_lt _ (by decide)), List.forall_mem_nil _⟩

theorem isPlainByte_of_mem_encodeChar
    {character : Char} :
    ∀ byte ∈ encodeChar character, IsPlainByte byte := by
  unfold encodeChar
  dsimp only
  split
  · exact isPlainByte_of_mem_twoBytes
  · rename_i notNul
    split
    · rename_i small
      exact List.forall_mem_singleton.mpr (isPlainByte_oneByte _ small notNul)
    · split
      · exact isPlainByte_of_mem_twoBytes
      · split
        · exact isPlainByte_of_mem_threeBytes
        · exact List.forall_mem_append.mpr
            ⟨isPlainByte_of_mem_threeBytes, isPlainByte_of_mem_threeBytes⟩

theorem isPlainByte_of_mem_encode
    {text : String} :
    ∀ byte ∈ encode text, IsPlainByte byte := by
  intro byte member
  obtain ⟨character, _, isByte⟩ := List.mem_flatMap.mp member
  exact isPlainByte_of_mem_encodeChar byte isByte

/-! ## Reading at an index -/

/-- The unit that begins at an index, and how many of the bytes after it belong to it. There is
none if a byte is looked at that is not there. -/
def unitInside? (bytes : Array UInt8) (index : Nat) : Option (Nat × Nat) := do
  let lead ← bytes[index]?
  if lead < 0x80 then return (lead.toNat, 0)
  else if lead &&& 0xE0 = 0xC0 ∧ index + 1 < bytes.size then
    let second ← bytes[index + 1]?
    return (lead.toNat % 32 * 64 + continuation second, 1)
  else if lead &&& 0xF0 = 0xE0 ∧ index + 2 < bytes.size then
    let second ← bytes[index + 1]?
    let third ← bytes[index + 2]?
    return (lead.toNat % 16 * 4096 + continuation second * 64 + continuation third, 2)
  else return (replacement, 0)

/-- The units from an index on, prepended to those read before, last one first. -/
def unitsInside? (bytes : Array UInt8) (index : Nat) (units : List Nat) : Option (List Nat) :=
  if index < bytes.size then do
    let (unit, following) ← unitInside? bytes index
    unitsInside? bytes (index + 1 + following) (unit :: units)
  else some units
termination_by bytes.size - index

/-- The text that the bytes stand for, unless a byte is looked at that is not there. -/
def decodeInside? (bytes : Array UInt8) : Option String :=
  (unitsInside? bytes 0 []).map fun units =>
    String.ofList (charsFrom units.reverse []).reverse

variable {bytes : Array UInt8} {index : Nat}

/-- The bytes from an index on begin with the one there. -/
theorem drop_toList_eq_cons
    (inside : index < bytes.size) :
    bytes.toList.drop index = bytes[index] :: bytes.toList.drop (index + 1) := by
  rw [List.drop_eq_getElem_cons (by simpa using inside), Array.getElem_toList]

theorem drop_toList_eq_nil
    (outside : ¬ index < bytes.size) :
    bytes.toList.drop index = [] := by
  rw [List.drop_eq_nil_iff, Array.length_toList]
  exact Nat.le_of_not_lt outside

/-- Wherever reading begins inside the input, it looks at no byte behind its end. -/
theorem unitInside?_eq_some
    (inside : index < bytes.size) :
    unitInside? bytes index = some (unitAt bytes[index] (bytes.toList.drop (index + 1))) := by
  have isLead : bytes[index]? = some bytes[index] := Array.getElem?_eq_getElem inside
  simp only [unitInside?, isLead, unitAt, bind, Option.bind_some, pure]
  split
  · rfl
  · split
    · rename_i isTwo
      have isSecond : bytes[index + 1]? = some bytes[index + 1] :=
        Array.getElem?_eq_getElem isTwo.2
      simp only [isTwo.1, if_true, isSecond, drop_toList_eq_cons isTwo.2, Option.bind_some]
    · rename_i notTwo
      split
      · rename_i isThree
        have notLead : ¬ bytes[index] &&& 0xE0 = 0xC0 := fun isLead =>
          notTwo ⟨isLead, Nat.lt_of_succ_lt isThree.2⟩
        have isSecond : bytes[index + 1]? = some bytes[index + 1] :=
          Array.getElem?_eq_getElem (Nat.lt_of_succ_lt isThree.2)
        have isThird : bytes[index + 2]? = some bytes[index + 2] :=
          Array.getElem?_eq_getElem isThree.2
        simp only [notLead, if_false, isThree.1, if_true, isSecond, isThird, Option.bind_some,
          drop_toList_eq_cons (Nat.lt_of_succ_lt isThree.2), drop_toList_eq_cons isThree.2]
      · rename_i notThree
        split
        · rename_i isLead
          rw [drop_toList_eq_nil fun second => notTwo ⟨isLead, second⟩]
        · split
          · rename_i isLead
            -- at most one more byte is there
            have noThird : ¬ index + 2 < bytes.size := fun third => notThree ⟨isLead, third⟩
            by_cases second : index + 1 < bytes.size
            · rw [drop_toList_eq_cons second, drop_toList_eq_nil noThird]
            · rw [drop_toList_eq_nil second]
          · rfl

theorem unitsInside?_eq_some
    (bytes : Array UInt8)
    (index : Nat)
    (before : List Nat) :
    unitsInside? bytes index before = some (unitsFrom (bytes.toList.drop index) before) := by
  fun_induction unitsInside? bytes index before with
  | case1 index units inside inductionHypothesis =>
      rw [unitInside?_eq_some inside, drop_toList_eq_cons inside, unitsFrom]
      simp only [bind, Option.bind_some]
      rw [inductionHypothesis, List.drop_drop]
  | case2 index units outside =>
      rw [drop_toList_eq_nil outside, unitsFrom]

/-- Reading stays inside its input. -/
theorem decodeInside?_eq_some
    (bytes : Array UInt8) :
    decodeInside? bytes = some (decode bytes.toList) := by
  rw [decodeInside?, unitsInside?_eq_some, List.drop_zero, Option.map_some, decode, units]

/-! ## The form as a whole -/

/-- The laws of a written form of texts that is safe to embed and to read. -/
structure IsSafeForm (encode : String → List UInt8) (decode : List UInt8 → String)
    (inside? : Array UInt8 → Option String) : Prop where
  readsBack : ∀ text, decode (encode text) = text
  plain : ∀ text, ∀ byte ∈ encode text, byte ≠ 0 ∧ byte < 0xF0
  inside : ∀ bytes, inside? bytes = some (decode bytes.toList)

/-- Every text is read back from its bytes, none of which is zero or at least `0xF0`, and reading
looks at no byte behind the end of its input, whatever that is. -/
theorem modifiedUtf8_isSafeForm :
    IsSafeForm encode decode decodeInside? where
  readsBack := decode_encode
  plain _ := isPlainByte_of_mem_encode
  inside := decodeInside?_eq_some

/-- A surrogate pair is written in six bytes. The lead of a form of three bytes that ends too early
is read alone. -/
example :
    encode "a\x00😀" = [0x61, 0xC0, 0x80, 0xED, 0xA0, 0xBD, 0xED, 0xB8, 0x80] ∧
      decodeInside? #[0x61, 0xED, 0xA0] = some "a\uFFFD\uFFFD" := by
  decide +kernel

end ClosureConversion.Text.ModifiedUtf8
