import FeatureRank.Number.Shortest

/-! # How numbers are written

    One writer for the shortest decimal of a number, and the styles that the
    descriptions, the explanations and the JSON documents of this library use.
    A style says which magnitudes are written out and which with an exponent,
    whether a whole number keeps `.0`, and whether an exponent above zero has a
    sign. -/

namespace FeatureRank.Number

/-- A style of number text.  The scientific exponent of a number is the power of
    ten of its first digit; outside `least` and `greatest` it is written out. -/
structure Style where
  tie : Tie
  least : Option Int
  greatest : Option Int
  keepsPoint : Bool
  plusSign : Bool

/-- Descriptions and explanations: digits only, never an exponent. -/
def plainStyle : Style := ⟨.upward, none, none, false, false⟩

/-- Lists of weights: from `0.0001` to below `1e16` in full, whole numbers with `.0`. -/
def listedStyle : Style := ⟨.upward, some (-4), some 15, true, false⟩

/-- JSON numbers of 32 bits, an exponent with its sign. -/
def json32Style : Style := ⟨.toEven, some (-6), some 12, true, true⟩

/-- JSON numbers of 64 bits, an exponent with its sign. -/
def json64Style : Style := ⟨.toEven, some (-5), some 15, true, true⟩

def zeros (n : Nat) : String := String.ofList (List.replicate n '0')

/-- A decimal written out, with a point where its exponent puts it. -/
def positional (digits : List Char) (exponent : Int) (keepsPoint : Bool) : String :=
  let whole := (digits.length : Int) + exponent
  if 0 ≤ exponent then
    String.ofList digits ++ zeros exponent.toNat ++ (if keepsPoint then ".0" else "")
  else if 0 < whole then
    String.ofList (digits.take whole.toNat) ++ "." ++ String.ofList (digits.drop whole.toNat)
  else
    "0." ++ zeros (-whole).toNat ++ String.ofList digits

/-- A decimal with one digit before the point and an exponent. -/
def scientific (digits : List Char) (exponent : Int) (plusSign : Bool) : String :=
  let fraction := digits.drop 1
  String.ofList (digits.take 1) ++
    (if fraction.isEmpty then "" else "." ++ String.ofList fraction) ++ "e" ++
    (if plusSign && decide (0 < exponent) then "+" else "") ++ toString exponent

namespace Style

def decimal (style : Style) (d : Decimal) : String :=
  let digits := (toString d.coefficient).toList
  let first : Int := (digits.length : Int) - 1 + d.exponent
  if d.coefficient = 0 then positional digits 0 style.keepsPoint
  else if style.least.any (first < ·) || style.greatest.any (· < first) then
    scientific digits first style.plusSign
  else
    positional digits d.exponent style.keepsPoint

def decoded (style : Style) (f : BinaryFormat) : Decoded → String
  | .finite negative significand exponent =>
    (if negative then "-" else "") ++ style.decimal (shortest f style.tie significand exponent)
  | .infinite negative => if negative then "-inf" else "inf"
  | .nan => "NaN"

def text32 (style : Style) (x : Float32) : String := style.decoded binary32 (decode32 x)
def text64 (style : Style) (x : Float) : String := style.decoded binary64 (decode64 x)

end Style

/-- A number with two places, the exact value rounded and a tie to even. -/
def twoPlaces (x : Float32) : String :=
  match decode32 x with
  | .finite negative significand exponent =>
    let hundredths :=
      BinaryFormat.roundQuotient (significand * 100 * twoTo exponent.toNat) (twoTo (-exponent).toNat)
    let places := (toString (hundredths % 100)).toList
    (if negative then "-" else "") ++ toString (hundredths / 100) ++ "." ++
      zeros (2 - places.length) ++ String.ofList places
  | .infinite negative => if negative then "-inf" else "inf"
  | .nan => "NaN"

/-- The eight hexadecimal digits of a field of 32 bits. -/
def hex32 (bits : UInt32) : String :=
  let digits := Nat.toDigits 16 bits.toNat
  zeros (8 - digits.length) ++ String.ofList digits

end FeatureRank.Number
