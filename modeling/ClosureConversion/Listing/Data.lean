import ClosureConversion.Descriptor.Reading
import ClosureConversion.Text.Quoted

/-!
Contract: listings of classes, methods and analyses as structured data.

Owns:
- the trees that listings are, and their written form in JSON;
- the classes of types that can be listed and read from a listing, for numbers, texts,
  lists and pairs.

Does not own: how the things of this library are listed.
-/

namespace ClosureConversion.Listing

/-- A listing. -/
inductive Data where
  | null
  | flag (value : Bool)
  | number (value : Int)
  | text (value : String)
  | list (items : List Data)
  | record (fields : List (String × Data))
deriving Repr, Inhabited

/-- What is wrong with a listing. -/
inductive ListingError where
  | malformed (expected : String)
  | badName (complaint : String)
  | badDescriptor (error : DescriptorError)
  /-- A text that spells no reference type as class constants do. -/
  | badClassInfo (complaint : String)
deriving DecidableEq, Repr

/-- Reading from a listing. -/
abbrev Reading := Except ListingError

/-- Types whose values can be listed. -/
class ToData (α : Type) where
  toData : α → Data

/-- Types whose values can be read from a listing. -/
class OfData (α : Type) where
  ofData : Data → Reading α

export ToData (toData)
export OfData (ofData)

/-! ## JSON -/

/-- A character inside a JSON text: quotes, backslashes and control characters are
escaped. -/
def escaped (character : Char) : String :=
  if character = '"' then "\\\""
  else if character = '\\' then "\\\\"
  else if character.toNat < 32 then
    "\\u" ++ Text.zeroPadded 4 (Text.hexDigits character.toNat)
  else String.singleton character

/-- A JSON text. -/
def quoted (text : String) : String :=
  (text.foldl (fun written character => written ++ escaped character) "\"").push '"'

/-- The listing in JSON. -/
def Data.render : Data → String
  | .null => "null"
  | .flag true => "true"
  | .flag false => "false"
  | .number value => toString value
  | .text value => quoted value
  | .list items =>
      let parts := items.attach.map fun ⟨item, _⟩ => item.render
      "[" ++ ",".intercalate parts ++ "]"
  | .record fields =>
      let parts := fields.attach.map fun ⟨field, _⟩ => quoted field.1 ++ ":" ++ field.2.render
      "\x7b" ++ ",".intercalate parts ++ "\x7d"
decreasing_by
  · rename_i member
    have smaller := List.sizeOf_lt_of_mem member
    simp_wf
    omega
  · rename_i member
    have smaller := List.sizeOf_lt_of_mem member
    cases field
    simp_wf
    simp at smaller
    omega

/-! ## Parts of a listing -/

namespace Data

/-- The part of a record with a name; null if there is none. -/
def get (data : Data) (name : String) : Data :=
  match data with
  | .record fields => (fields.lookup name).getD .null
  | _ => .null

/-- Whether a record has a part of a name, be it null. -/
def has (data : Data) (name : String) : Bool :=
  match data with
  | .record fields => (fields.lookup name).isSome
  | _ => false

/-- The item of a list; null if there is none. -/
def item (data : Data) (index : Nat) : Data :=
  match data with
  | .list items => items.getD index .null
  | _ => .null

/-- The list without its first items. -/
def drop (data : Data) (count : Nat) : Data :=
  match data with
  | .list items => .list (items.drop count)
  | other => other

/-- Whether there is nothing. -/
def isNull : Data → Bool
  | .null => true
  | _ => false

/-- Reads a part of a record. -/
def read {α : Type} [OfData α] (data : Data) (name : String) : Reading α :=
  ofData (data.get name)

/-- Reads a part of a record that may be missing. -/
def readD {α : Type} [OfData α] (data : Data) (name : String) (fallback : α) : Reading α :=
  let part := data.get name
  if part.isNull then .ok fallback else ofData part

/-- Reads an item of a list. -/
def readItem {α : Type} [OfData α] (data : Data) (index : Nat) : Reading α :=
  ofData (data.item index)

end Data

/-! ## Values of core types -/

instance : ToData Data := ⟨id⟩
instance : OfData Data := ⟨.ok⟩
instance : ToData Bool := ⟨.flag⟩
instance : ToData Nat := ⟨fun value => .number value⟩
instance : ToData Int := ⟨.number⟩
instance : ToData String := ⟨.text⟩
instance : ToData UInt8 := ⟨fun value => .number value.toNat⟩
instance : ToData UInt16 := ⟨fun value => .number value.toNat⟩
instance : ToData UInt32 := ⟨fun value => .number value.toNat⟩
instance : ToData Int8 := ⟨fun value => .number value.toInt⟩
instance : ToData Int16 := ⟨fun value => .number value.toInt⟩
instance : ToData Int32 := ⟨fun value => .number value.toInt⟩

/-- Numbers of sixty-four bits are listed as texts, which keep every digit. -/
instance : ToData UInt64 := ⟨fun value => .text (toString value)⟩
instance : ToData Int64 := ⟨fun value => .text (toString value)⟩

instance {α : Type} [ToData α] : ToData (Option α) :=
  ⟨fun value? => (value?.map toData).getD .null⟩

instance {α : Type} [ToData α] : ToData (List α) := ⟨fun values => .list (values.map toData)⟩
instance {α : Type} [ToData α] : ToData (Array α) := ⟨fun values => toData values.toList⟩

instance {α β : Type} [ToData α] [ToData β] : ToData (α × β) :=
  ⟨fun pair => .list [toData pair.1, toData pair.2]⟩

/-- A number, which may be listed as a text. -/
def readInt : Data → Reading Int
  | .number value => .ok value
  | .text value =>
      match value.toInt? with
      | some value => .ok value
      | none => .error (.malformed "number")
  | _ => .error (.malformed "number")

instance : OfData Int := ⟨readInt⟩
instance : OfData Nat := ⟨fun data => Int.toNat <$> readInt data⟩
instance : OfData UInt8 := ⟨fun data => (fun value => (value % 256).toNat.toUInt8) <$> readInt data⟩
instance : OfData UInt16 :=
  ⟨fun data => (fun value => (value % 65536).toNat.toUInt16) <$> readInt data⟩
instance : OfData UInt32 :=
  ⟨fun data => (fun value => (value % 4294967296).toNat.toUInt32) <$> readInt data⟩
instance : OfData Int8 := ⟨fun data => Int8.ofInt <$> readInt data⟩
instance : OfData Int16 := ⟨fun data => Int16.ofInt <$> readInt data⟩
instance : OfData Int32 := ⟨fun data => Int32.ofInt <$> readInt data⟩
instance : OfData Int64 := ⟨fun data => Int64.ofInt <$> readInt data⟩

instance : OfData String where
  ofData
    | .text value => .ok value
    | _ => .error (.malformed "text")

/-- A missing flag is not set. -/
instance : OfData Bool where
  ofData
    | .flag value => .ok value
    | .null => .ok false
    | _ => .error (.malformed "flag")

instance {α : Type} [OfData α] : OfData (Option α) where
  ofData
    | .null => .ok none
    | data => some <$> ofData data

/-- A missing list is empty. -/
instance {α : Type} [OfData α] : OfData (List α) where
  ofData
    | .list items => items.mapM ofData
    | .null => .ok []
    | _ => .error (.malformed "list")

instance {α : Type} [OfData α] : OfData (Array α) :=
  ⟨fun data => List.toArray <$> ofData data⟩

instance {α β : Type} [OfData α] [OfData β] : OfData (α × β) where
  ofData data := do
    let first ← data.readItem 0
    let second ← data.readItem 1
    return (first, second)

/-! ## Bytes and bits -/

/-- A digit of a hexadecimal number. -/
def hexDigit (value : Nat) : Char :=
  if value < 10 then Char.ofNat (48 + value) else Char.ofNat (87 + value)

/-- Bytes as two hexadecimal digits each. -/
def hexText (bytes : List UInt8) : String :=
  bytes.foldl (fun written byte =>
    (written.push (hexDigit (byte.toNat / 16))).push (hexDigit (byte.toNat % 16))) ""

/-- Bytes in hexadecimal digits. -/
def hex (bytes : List UInt8) : Data :=
  .text (hexText bytes)

/-- So many copies of a byte in hexadecimal digits, counted if there are many. -/
def runText (byte : UInt8) (count : Nat) : String :=
  if 16 < count then "(" ++ hexText [byte] ++ "*" ++ toString count ++ ")"
  else hexText (List.replicate count byte)

/-- The runs of equal bytes, in order. -/
def runs (bytes : List UInt8) : List (UInt8 × Nat) :=
  let reversed := bytes.foldl
    (fun (found : List (UInt8 × Nat)) byte =>
      match found with
      | (last, count) :: rest =>
          if last = byte then (last, count + 1) :: rest else (byte, 1) :: found
      | [] => [(byte, 1)]) []
  reversed.reverse

/-- Bytes in hexadecimal digits, with long runs of one byte counted. -/
def packedHex (bytes : List UInt8) : Data :=
  .text (String.join ((runs bytes).map fun (byte, count) => runText byte count))

/-- The bits of a number as hexadecimal digits. -/
def bits (digits value : Nat) : Data :=
  .text (Text.zeroPadded digits (Text.hexDigits value))

/-- The value of a hexadecimal digit. -/
def digitValue? (character : Char) : Option Nat :=
  if '0' ≤ character && character ≤ '9' then some (character.toNat - 48)
  else if 'a' ≤ character && character ≤ 'f' then some (character.toNat - 87)
  else none

/-- Reads two hexadecimal digits a byte, after the bytes read before, last one first. -/
def readHexFrom (before : List UInt8) : List Char → Option (List UInt8)
  | [] => some before.reverse
  | high :: low :: rest =>
      match digitValue? high, digitValue? low with
      | some high, some low => readHexFrom ((high * 16 + low).toUInt8 :: before) rest
      | _, _ => none
  | [_] => none

/-- Reads bytes in hexadecimal digits. -/
def readHex (data : Data) : Reading (List UInt8) := do
  let text : String ← ofData data
  match readHexFrom [] text.toList with
  | some bytes => return bytes
  | none => throw (.malformed "hexadecimal digits")

/-- Reads the bits of a number in hexadecimal digits. -/
def readBits (data : Data) : Reading Nat := do
  let text : String ← ofData data
  match text.toList.mapM digitValue? with
  | some digits => return digits.foldl (fun value digit => value * 16 + digit) 0
  | none => throw (.malformed "hexadecimal digits")

/-! ## Names and types -/

instance : ToData UnqualifiedName := ⟨fun name => .text name.text⟩
instance : ToData BinaryName := ⟨fun name => .text name.text⟩
instance : ToData BaseType := ⟨fun type => .text (String.singleton type.letter)⟩

/-- Reference types are listed as in class constants. -/
instance : ToData RefType := ⟨fun type => .text type.classInfoName⟩

/-- Field types are listed by their descriptors. -/
instance : ToData FieldType := ⟨fun type => .text type.descriptor⟩

/-- Method types are listed by their descriptors. -/
instance : ToData MethodType := ⟨fun type => .text type.descriptor⟩

instance : OfData UnqualifiedName where
  ofData data := do
    let text ← ofData data
    (UnqualifiedName.ofString text).mapError .badName

instance : OfData BinaryName where
  ofData data := do
    let text ← ofData data
    (BinaryName.ofString text).mapError .badName

instance : OfData BaseType where
  ofData
    | .text value =>
        match value.toList with
        | [letter] =>
            match BaseType.ofLetter? letter with
            | some type => .ok type
            | none => .error (.badDescriptor (.badBaseType letter))
        | _ => .error (.malformed "letter of a base type")
    | _ => .error (.malformed "letter of a base type")

instance : OfData RefType where
  ofData data := do
    let text ← ofData data
    (RefType.ofClassInfoName text).mapError .badClassInfo

instance : OfData FieldType where
  ofData data := do
    let text ← ofData data
    (FieldType.ofDescriptor text).mapError .badDescriptor

instance : OfData MethodType where
  ofData data := do
    let text ← ofData data
    (MethodType.ofDescriptor text).mapError .badDescriptor

/-- A field type with its structure. -/
def typeTree : FieldType → Data
  | .base type => toData ("base", type)
  | .ref (.object name) => toData ("object", name)
  | .ref (.objectArray nesting name) => toData [toData "object_array", toData (nesting + 1), toData name]
  | .ref (.primitiveArray nesting type) =>
      toData [toData "primitive_array", toData (nesting + 1), toData type]

end ClosureConversion.Listing
