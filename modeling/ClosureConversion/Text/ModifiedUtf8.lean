/-!
Contract: the modified UTF-8 form in which class files hold text.

Owns:
- writing a text: NUL takes two bytes, and a character outside the basic plane is
  written as the two units of its surrogate pair, three bytes each;
- reading bytes as sixteen-bit units and pairing the surrogates among them.

Does not own: the length field that precedes the bytes in a class file.
-/

namespace ClosureConversion.Text.ModifiedUtf8

/-- A sixteen-bit unit below `0x800`, as a lead byte and one continuation byte. -/
def twoBytes (unit : Nat) : List UInt8 :=
  [(0xC0 + unit / 64 % 32).toUInt8, (0x80 + unit % 64).toUInt8]

/-- Any sixteen-bit unit, as a lead byte and two continuation bytes. -/
def threeBytes (unit : Nat) : List UInt8 :=
  [(0xE0 + unit / 4096 % 16).toUInt8, (0x80 + unit / 64 % 64).toUInt8, (0x80 + unit % 64).toUInt8]

/-- The surrogate pair of a code point outside the basic plane. -/
def surrogatePair (code : Nat) : Nat × Nat :=
  (0xD800 + (code - 0x10000) / 1024, 0xDC00 + (code - 0x10000) % 1024)

/-- The bytes of one character. -/
def encodeChar (character : Char) : List UInt8 :=
  let code := character.toNat
  if code = 0 then twoBytes 0
  else if code < 0x80 then [code.toUInt8]
  else if code < 0x800 then twoBytes code
  else if code < 0x10000 then threeBytes code
  else
    let (high, low) := surrogatePair code
    threeBytes high ++ threeBytes low

/-- The bytes of a text. -/
def encode (text : String) : List UInt8 :=
  text.toList.flatMap encodeChar

/-- The unit that stands for input that is no character. -/
def replacement : Nat := 0xFFFD

/-- The low bits that a continuation byte carries. Its high bits are not checked. -/
def continuation (byte : UInt8) : Nat :=
  byte.toNat % 64

/-- The unit that a lead byte begins, and how many of the bytes after it belong to
it. A byte that leads no complete unit is read as `replacement` alone. -/
def unitAt (lead : UInt8) (rest : List UInt8) : Nat × Nat :=
  if lead < 0x80 then (lead.toNat, 0)
  else if lead &&& 0xE0 = 0xC0 then
    match rest with
    | second :: _ => (lead.toNat % 32 * 64 + continuation second, 1)
    | [] => (replacement, 0)
  else if lead &&& 0xF0 = 0xE0 then
    match rest with
    | second :: third :: _ =>
        (lead.toNat % 16 * 4096 + continuation second * 64 + continuation third, 2)
    | _ => (replacement, 0)
  else (replacement, 0)

/-- Reads bytes as sixteen-bit units, prepending them to those read before, last
one first. -/
def unitsFrom : List UInt8 → List Nat → List Nat
  | [], units => units
  | lead :: rest, units =>
      let (unit, following) := unitAt lead rest
      unitsFrom (rest.drop following) (unit :: units)
termination_by bytes => bytes.length
decreasing_by simp only [List.length_drop, List.length_cons]; omega

/-- The sixteen-bit units that the bytes stand for, in order. -/
def units (bytes : List UInt8) : List Nat :=
  (unitsFrom bytes []).reverse

/-- Whether the unit is the first of a surrogate pair. -/
def isHighSurrogate (unit : Nat) : Bool :=
  0xD800 ≤ unit && unit < 0xDC00

/-- Whether the unit is the second of a surrogate pair. -/
def isLowSurrogate (unit : Nat) : Bool :=
  0xDC00 ≤ unit && unit < 0xE000

/-- The character of a unit that is no surrogate; a surrogate stands for no
character and gives the replacement character. -/
def charOfUnit (unit : Nat) : Char :=
  if isHighSurrogate unit || isLowSurrogate unit then Char.ofNat replacement else Char.ofNat unit

/-- The character that a unit begins, and how many of the units after it belong to
it: a high surrogate and the low one after it are one character. -/
def charAt (unit : Nat) (rest : List Nat) : Char × Nat :=
  match rest with
  | next :: _ =>
      if isHighSurrogate unit && isLowSurrogate next then
        (Char.ofNat (0x10000 + (unit - 0xD800) * 1024 + (next - 0xDC00)), 1)
      else (charOfUnit unit, 0)
  | [] => (charOfUnit unit, 0)

/-- Reads units as characters, prepending them to those read before, last one
first. -/
def charsFrom : List Nat → List Char → List Char
  | [], chars => chars
  | unit :: rest, chars =>
      let (character, following) := charAt unit rest
      charsFrom (rest.drop following) (character :: chars)
termination_by units => units.length
decreasing_by simp only [List.length_drop, List.length_cons]; omega

/-- The text that the bytes stand for. Every byte sequence stands for one. -/
def decode (bytes : List UInt8) : String :=
  String.ofList (charsFrom (units bytes) []).reverse

end ClosureConversion.Text.ModifiedUtf8
