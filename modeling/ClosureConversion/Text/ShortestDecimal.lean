/-!
Contract: the text of a binary floating-point number, given by its bits.

Owns:
- the fewest decimal digits that read back as the number, and of those the nearest, the
  larger one if two are equally near;
- the written form: positional from one ten-thousandth up to below ten to the
  sixteenth, with at least one decimal place, and scientific elsewhere.

Does not own: arithmetic on floating-point numbers.
-/

namespace ClosureConversion.Text

/-- The sizes of the fields of a binary floating-point format. -/
structure BinaryFormat where
  fractionBits : Nat
  exponentBits : Nat
deriving DecidableEq, Repr

namespace BinaryFormat

/-- Thirty-two bits. -/
def single : BinaryFormat := ⟨23, 8⟩

/-- Sixty-four bits. -/
def double : BinaryFormat := ⟨52, 11⟩

end BinaryFormat

/-- The number that a bit pattern stands for. A finite one is its significand times
a power of two; `closeBelow` says that the gap below it is half the gap above. -/
inductive BinaryNumber where
  | nan
  | infinite (negative : Bool)
  | finite (negative : Bool) (significand : Nat) (exponent : Int) (closeBelow : Bool)
deriving DecidableEq, Repr

namespace BinaryNumber

/-- Reads the fields of a bit pattern. -/
def ofBits (format : BinaryFormat) (bits : Nat) : BinaryNumber :=
  let hidden := Nat.pow 2 format.fractionBits
  let fraction := bits % hidden
  let exponent := bits / hidden % Nat.pow 2 format.exponentBits
  let negative := bits / Nat.pow 2 (format.fractionBits + format.exponentBits) % 2 = 1
  let bias := Nat.pow 2 (format.exponentBits - 1) - 1
  let scale : Int := (bias + format.fractionBits : Nat)
  if exponent = Nat.pow 2 format.exponentBits - 1 then
    if fraction = 0 then .infinite negative else .nan
  else if exponent = 0 then .finite negative fraction (1 - scale) false
  else .finite negative (hidden + fraction) (exponent - scale)
    (fraction = 0 && exponent > 1)

end BinaryNumber

/-- A positive decimal number: its digits times a power of ten. -/
structure DecimalNumber where
  digits : Nat
  exponent : Int
deriving DecidableEq, Repr

/-- The number of times the value has to be multiplied by ten to reach the bound. -/
def tensToReach (bound : Nat) : Nat → Nat → Nat
  | 0, _ => 0
  | fuel + 1, value => if bound ≤ value then 0 else tensToReach bound fuel (value * 10) + 1

/-- The exponent of ten of the leading digit of a positive quotient. -/
def leadingExponent (numerator denominator : Nat) : Int :=
  if denominator ≤ numerator then
    (Nat.toDigits 10 (numerator / denominator)).length - 1
  else
    -(tensToReach denominator (denominator.log2 + 1) numerator : Nat)

/-- A quotient whose exact range of readings is known: the bounds and the value over
one denominator. -/
structure ReadingRange where
  low : Nat
  value : Nat
  high : Nat
  denominator : Nat
  /-- Whether the bounds themselves still read back. -/
  closed : Bool

namespace ReadingRange

/-- The numbers that read back as the significand times a power of two: those no
farther than half a gap away, the bounds included for an even significand. -/
def ofBinary (significand : Nat) (exponent : Int) (closeBelow : Bool) : ReadingRange :=
  let scaleUp := Nat.pow 2 (exponent - 2).toNat
  { low := (4 * significand - if closeBelow then 1 else 2) * scaleUp
    value := 4 * significand * scaleUp
    high := (4 * significand + 2) * scaleUp
    denominator := Nat.pow 2 (2 - exponent).toNat
    closed := significand % 2 = 0 }

/-- Whether the digits, times the quotient of two powers of ten, read back. -/
def holds (range : ReadingRange) (digits tens overTens : Nat) : Bool :=
  let scaled := digits * tens * range.denominator
  if range.closed then range.low * overTens ≤ scaled && scaled ≤ range.high * overTens
  else range.low * overTens < scaled && scaled < range.high * overTens

/-- The decimal number of the given count of digits that is nearest to the value,
of those that read back; on a tie the larger one. -/
def ofLength? (range : ReadingRange) (leading : Int) (length : Nat) : Option DecimalNumber :=
  let exponent := leading + 1 - length
  let tens := Nat.pow 10 exponent.toNat
  let overTens := Nat.pow 10 (-exponent).toNat
  let below := range.value * overTens / (tens * range.denominator)
  let above := below + 1
  let twice := 2 * range.value * overTens
  let between := (below + above) * tens * range.denominator
  match range.holds below tens overTens, range.holds above tens overTens with
  | true, true => some ⟨if twice < between then below else above, exponent⟩
  | true, false => some ⟨below, exponent⟩
  | false, true => some ⟨above, exponent⟩
  | false, false => none

/-- The first count of digits, from one on, that has a number that reads back. -/
def shortest (range : ReadingRange) : DecimalNumber :=
  let leading := leadingExponent range.value range.denominator
  ((List.range 17).findSome? fun index => range.ofLength? leading (index + 1)).getD ⟨0, 0⟩

end ReadingRange

namespace DecimalNumber

/-- The digits without trailing zeros, and the exponent of ten of the first one. -/
def scientific (number : DecimalNumber) : List Char × Int :=
  let digits := Nat.toDigits 10 number.digits
  let significant := (digits.reverse.dropWhile (· = '0')).reverse
  (significant, number.exponent + digits.length - 1)

/-- The written form of a positive number. -/
def render (number : DecimalNumber) : String :=
  let (digits, leading) := number.scientific
  let orZero (part : List Char) := if part.isEmpty then ['0'] else part
  if -4 ≤ leading && leading < 16 then
    if leading < 0 then
      "0." ++ String.ofList (List.replicate (-leading - 1).toNat '0' ++ digits)
    else
      let whole := leading.toNat + 1
      String.ofList (digits.take whole ++ List.replicate (whole - digits.length) '0') ++ "." ++
        String.ofList (orZero (digits.drop whole))
  else
    let rest := digits.drop 1
    String.ofList (digits.take 1 ++ (if rest.isEmpty then [] else '.' :: rest)) ++
      "e" ++ toString leading

end DecimalNumber

namespace BinaryNumber

/-- The written form of a number. -/
def render : BinaryNumber → String
  | .nan => "NaN"
  | .infinite negative => if negative then "-inf" else "inf"
  | .finite negative significand exponent closeBelow =>
      (if negative then "-" else "") ++
        if significand = 0 then "0.0"
        else (ReadingRange.ofBinary significand exponent closeBelow).shortest.render

end BinaryNumber

end ClosureConversion.Text
