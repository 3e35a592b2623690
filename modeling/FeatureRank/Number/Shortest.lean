import FeatureRank.Number.Binary

/-! # The fewest digits that read back

    A decimal reads back as a binary number when it lies between the midpoints
    to the number's neighbours, the midpoints included when the significand is
    even.  On the grid of multiples of `10 ^ k` only the two points around the
    number can do so, hence a search from coarse grids to fine ones finds a
    decimal with the fewest digits, and of two such points the nearer. -/

namespace FeatureRank.Number

/-- Which of two equally near decimals is taken. -/
inductive Tie where
  | upward
  | toEven
deriving DecidableEq, Repr

/-- The decimal `coefficient · 10 ^ exponent`. -/
structure Decimal where
  coefficient : Nat
  exponent : Int
deriving DecidableEq, Repr

/-- The decimals that read back as one binary number: those from `low` to `high`,
    all three in units of `scale / grain`, the ends included if `closed`. -/
structure ReadBack where
  low : Nat
  value : Nat
  high : Nat
  scale : Nat
  grain : Nat
  closed : Bool

namespace ReadBack

/-- The decimals around `significand · 2 ^ exponent`.  Below a power of two the
    numbers lie twice as close, so the lower midpoint is nearer there. -/
def around (f : BinaryFormat) (significand : Nat) (exponent : Int) : ReadBack :=
  let narrowBelow := significand = twoTo f.fractionBits ∧ f.leastExponent < exponent
  { low := 4 * significand - (if narrowBelow then 1 else 2)
    value := 4 * significand
    high := 4 * significand + 2
    scale := twoTo (exponent - 2).toNat
    grain := twoTo (2 - exponent).toNat
    closed := significand % 2 = 0 }

/-- The coefficient on the grid of `10 ^ k` that reads back, if there is one. -/
def onGrid? (r : ReadBack) (tie : Tie) (k : Int) : Option Nat :=
  let scale := r.scale * tenTo (-k).toNat
  let grain := r.grain * tenTo k.toNat
  let within (c : Nat) : Bool :=
    let point := c * grain
    if r.closed then r.low * scale ≤ point && point ≤ r.high * scale
    else r.low * scale < point && point < r.high * scale
  let floor := r.value * scale / grain
  let below := r.value * scale - floor * grain
  let above := (floor + 1) * grain - r.value * scale
  match decide (0 < floor) && within floor, within (floor + 1) with
  | false, false => none
  | true, false => some floor
  | false, true => some (floor + 1)
  | true, true =>
    if below < above then some floor
    else if above < below then some (floor + 1)
    else match tie with
      | .upward => some (floor + 1)
      | .toEven => some (floor + floor % 2)

/-- The first grid with a point that reads back, from `10 ^ k` downwards. -/
def search (r : ReadBack) (tie : Tie) : Nat → Int → Decimal
  | 0, k => ⟨r.value * r.scale * tenTo (-k).toNat / (r.grain * tenTo k.toNat), k⟩
  | steps + 1, k =>
    match r.onGrid? tie k with
    | some c => ⟨c, k⟩
    | none => search r tie steps (k - 1)

end ReadBack

/-- The shortest decimal of `significand · 2 ^ exponent`, zero for no significand.

    The search starts at a power of ten above the number; a binary64 number
    needs at most 17 digits, so the steps never run out. -/
def shortest (f : BinaryFormat) (tie : Tie) (significand : Nat) (exponent : Int) : Decimal :=
  if significand = 0 then ⟨0, 0⟩
  else
    let magnitude : Int := (Nat.log2 significand : Int) + exponent
    (ReadBack.around f significand exponent).search tie 24 (magnitude * 30103 / 100000 + 2)

end FeatureRank.Number
