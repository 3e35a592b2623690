import FeatureRank.Number.Power

/-! # Binary floating-point numbers as exact values

    A binary32 or binary64 number is a bit field.  This file reads a field as a
    sign, a natural significand and a power of two, and builds the field nearest
    to a ratio of naturals, a tie going to the even neighbour.  Converting
    between the two widths is one step of each.

    `orderKey` is the total order of binary32 fields: it agrees with `<` on
    numbers, puts `-0.0` before `0.0`, and has the NaNs on both ends, those with a
    sign below all numbers and those without one above.  Of a `Float32` that is NaN
    neither the sign nor the rest of its field is told, so where it is ordered the
    field is given beside it (`NaN`, `bitsOf`). -/

namespace FeatureRank.Number

/-- The two sizes that fix a binary interchange format. -/
structure BinaryFormat where
  fractionBits : Nat
  exponentBits : Nat
deriving DecidableEq, Repr

def binary32 : BinaryFormat := ⟨23, 8⟩
def binary64 : BinaryFormat := ⟨52, 11⟩

/-- What a bit field stands for; a finite one is `± significand · 2 ^ exponent`. -/
inductive Decoded where
  | finite (negative : Bool) (significand : Nat) (exponent : Int)
  | infinite (negative : Bool)
  | nan
deriving DecidableEq, Repr

namespace BinaryFormat

variable (f : BinaryFormat)

/-- The exponent that subnormal numbers and the smallest normal ones share. -/
def leastExponent : Int := 2 - (twoTo (f.exponentBits - 1) : Int) - f.fractionBits

/-- The field of positive infinity, above the field of every finite number. -/
def infinityField : Nat := (twoTo f.exponentBits - 1) * twoTo f.fractionBits

def signField : Nat := twoTo (f.exponentBits + f.fractionBits)

def decode (bits : Nat) : Decoded :=
  let fraction := bits % twoTo f.fractionBits
  let field := bits / twoTo f.fractionBits % twoTo f.exponentBits
  let negative := decide (bits / f.signField % 2 = 1)
  if field = twoTo f.exponentBits - 1 then
    if fraction = 0 then .infinite negative else .nan
  else if field = 0 then
    .finite negative fraction f.leastExponent
  else
    .finite negative (fraction + twoTo f.fractionBits) (f.leastExponent + (field - 1 : Nat))

/-- The quotient of two naturals rounded to the nearest natural, a tie to even. -/
def roundQuotient (num den : Nat) : Nat :=
  let q := num / den
  let twice := 2 * (num % den)
  if twice < den then q
  else if den < twice then q + 1
  else q + q % 2

/-- The unsigned field nearest to `num / den`, infinity when it is too large.

    The significand is taken at the exponent that leaves it `fractionBits + 1`
    bits, or at the least exponent; a significand that rounds up to the next
    power of two carries into the exponent by itself. -/
def nearest (num den : Nat) : Nat :=
  if num = 0 then 0
  else
    let guess : Int := (Nat.log2 num : Int) - Nat.log2 den
    let below :=
      if 0 ≤ guess then num < den * twoTo guess.toNat else num * twoTo (-guess).toNat < den
    let magnitude := if below then guess - 1 else guess
    let exponent := max (magnitude - f.fractionBits) f.leastExponent
    let significand :=
      if 0 ≤ exponent then roundQuotient num (den * twoTo exponent.toNat)
      else roundQuotient (num * twoTo (-exponent).toNat) den
    min ((exponent - f.leastExponent).toNat * twoTo f.fractionBits + significand) f.infinityField

/-- The field of `± significand · 2 ^ exponent`, rounded to the format. -/
def encode : Decoded → Nat
  | .finite negative significand exponent =>
    (if negative then f.signField else 0) +
      if 0 ≤ exponent then f.nearest (significand * twoTo exponent.toNat) 1
      else f.nearest significand (twoTo (-exponent).toNat)
  | .infinite negative => (if negative then f.signField else 0) + f.infinityField
  | .nan => f.infinityField + twoTo (f.fractionBits - 1)

end BinaryFormat

def decode32 (x : Float32) : Decoded := binary32.decode x.toBits.toNat
def decode64 (x : Float) : Decoded := binary64.decode x.toBits.toNat

/-- A binary64 number rounded to binary32. -/
def narrow (x : Float) : Float32 :=
  Float32.ofBits (UInt32.ofNat (binary32.encode (decode64 x)))

/-- A binary32 number as the binary64 number of the same value. -/
def widen (x : Float32) : Float :=
  Float.ofBits (UInt64.ofNat (binary64.encode (decode32 x)))

def nan32 : Float32 := Float32.ofBits 0x7fc00000

/-- Zero of either sign as `0.0`, every other number unchanged. -/
def unsignedZero (x : Float32) : Float32 := if x == 0.0 then 0.0 else x

/-- A binary32 field of NaN, with a sign or without. -/
structure NaN where
  bits : UInt32
  isNaN : binary32.decode bits.toNat = .nan := by decide
deriving DecidableEq, Repr

def NaN.positive : NaN := { bits := 0x7fc00000 }
def NaN.negative : NaN := { bits := 0xffc00000 }

/-- The field of a number, which for NaN is a given one. -/
def bitsOf (x : Float32) (nan : NaN) : UInt32 := if x.isNaN then nan.bits else x.toBits

/-- The place of a field in the total order of binary32. -/
def orderKey (bits : UInt32) : Int :=
  if bits.toNat < twoTo 31 then bits.toNat else (twoTo 31 : Int) - 1 - (bits.toNat : Int)

end FeatureRank.Number
