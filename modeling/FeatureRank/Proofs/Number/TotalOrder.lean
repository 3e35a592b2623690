import FeatureRank.Proofs.Number.Widening

/-! # The total order of fields

    Scores are sorted by their fields (`orderKey`).  No two fields have the same place
    (`orderKey_injective`).  On numbers the order is that of the numbers
    (`orderKey_lt_of_lt`), and a field of NaN is above them all without a sign and below
    them all with one (`NaN.outside`).

    The place of a number is read off its parts (`placed_parts`): without its sign a field
    counts the numbers up to it, since a significand with all its bits is followed by the
    least one of the next exponent. -/

namespace FeatureRank.Number

open Float.Model Float.Model.UnpackedFloat

/-! ## Fields -/

/-- **No two fields have the same place.** -/
theorem orderKey_injective {a b : UInt32} (h : orderKey a = orderKey b) : a = b := by
  have ha : a.toNat < 2 ^ 32 := a.toNat_lt
  have hb : b.toNat < 2 ^ 32 := b.toNat_lt
  have hhalf : twoTo 31 = 2 ^ 31 := rfl
  refine UInt32.toNat_inj.mp ?_
  simp only [orderKey, hhalf] at h
  split at h <;> split at h <;> omega

/-- The exponent of a field. -/
theorem toNat_unpackExponent (b : UInt32) :
    (@unpackExponent .binary32 b.toBitVec).toNat = b.toNat / 2 ^ 23 % 2 ^ 8 := by
  rw [← Nat.shiftRight_eq_div_pow]
  rfl

/-- The fraction of a field. -/
theorem toNat_unpackMantissa (b : UInt32) :
    (@unpackMantissa .binary32 b.toBitVec).toNat = b.toNat % 2 ^ 23 := rfl

/-- The sign of a field. -/
theorem toNat_unpackSign (b : UInt32) :
    (@unpackSign .binary32 b.toBitVec).toNat = b.toNat / 2 ^ 31 % 2 := by
  rw [← Nat.shiftRight_eq_div_pow]
  rfl

/-- A field is one of NaN when its exponent is all ones and its fraction is not zero. -/
theorem decode_eq_nan_iff {bits : Nat} :
    binary32.decode bits = .nan ↔ bits / 2 ^ 23 % 2 ^ 8 = 255 ∧ bits % 2 ^ 23 ≠ 0 := by
  have hdecode : binary32.decode bits
      = if bits / 2 ^ 23 % 2 ^ 8 = 255 then
          if bits % 2 ^ 23 = 0 then .infinite (decide (bits / 2 ^ 31 % 2 = 1)) else .nan
        else if bits / 2 ^ 23 % 2 ^ 8 = 0 then
          .finite (decide (bits / 2 ^ 31 % 2 = 1)) (bits % 2 ^ 23) (-149)
        else .finite (decide (bits / 2 ^ 31 % 2 = 1)) (bits % 2 ^ 23 + 2 ^ 23)
          (-149 + ((bits / 2 ^ 23 % 2 ^ 8 - 1 : Nat) : Int)) := rfl
  rw [hdecode]
  split
  next hall => split <;> simp_all
  next hall => split <;> simp_all

/-- Which fields are read as NaN. -/
theorem Reads.isNaN_iff {b : BitVec Format.binary32.numBits} {u : UnpackedFloat} (h : Reads b u) :
    u.isNaN = true ↔ (unpackExponent b).toNat = 255 ∧ (unpackMantissa b).toNat ≠ 0 := by
  cases h with
  | nan hexponent hfraction =>
      refine iff_of_true rfl ⟨congrArg BitVec.toNat hexponent, fun hzero => hfraction ?_⟩
      exact BitVec.eq_of_toNat_eq hzero
  | infinity hexponent hfraction =>
      exact iff_of_false Bool.false_ne_true fun hnan => hnan.2 (congrArg BitVec.toNat hfraction)
  | zero hexponent hfraction =>
      exact iff_of_false Bool.false_ne_true fun hnan => hnan.2 (congrArg BitVec.toNat hfraction)
  | subnormal hexponent hfraction hpos hlt =>
      refine iff_of_false Bool.false_ne_true fun hnan => ?_
      rw [hexponent] at hnan
      exact absurd hnan.1 (by decide)
  | normal hexponent hfield he hfraction hpos hlt =>
      refine iff_of_false Bool.false_ne_true fun hnan => ?_
      have := hnan.1
      omega

/-- **A number is NaN when its field is one of NaN.** -/
theorem isNaN_iff {x : Float32} : x.isNaN = true ↔ decode32 x = .nan := by
  rw [decode32, decode_eq_nan_iff, ← toNat_unpackExponent, ← toNat_unpackMantissa]
  exact (reads_unpack x.toBits.toBitVec).isNaN_iff

/-- **A field is given for NaN only**, and is then one of NaN. -/
theorem decode_bitsOf (x : Float32) (nan : NaN) :
    binary32.decode (bitsOf x nan).toNat = decode32 x := by
  rw [bitsOf]
  split
  next hnan => rw [nan.isNaN, isNaN_iff.mp hnan]
  next => rfl

/-! ## The places of numbers -/

/-- The place of a field by its sign and the rest of it. -/
def signedPlace : Sign → Nat → Int
  | .positive, rest => rest
  | .negative, rest => -1 - rest

theorem bit_cases : ∀ sign : BitVec 1, sign = 0#1 ∨ sign = 1#1 := by decide

theorem orderKey_eq (b : UInt32) : orderKey b
    = signedPlace (.ofBitVec (@unpackSign .binary32 b.toBitVec))
      ((@unpackExponent .binary32 b.toBitVec).toNat * 2 ^ 23
        + (@unpackMantissa .binary32 b.toBitVec).toNat) := by
  have hlt : b.toNat < 2 ^ 32 := b.toNat_lt
  have hhalf : twoTo 31 = 2 ^ 31 := rfl
  have hsign := toNat_unpackSign b
  rw [toNat_unpackExponent, toNat_unpackMantissa, orderKey, hhalf]
  rcases bit_cases (@unpackSign .binary32 b.toBitVec) with hplus | hminus
  · rw [hplus] at hsign ⊢
    have hlow : b.toNat / 2 ^ 31 % 2 = 0 := hsign.symm
    rw [if_pos (by omega)]
    show (b.toNat : Int) = ((b.toNat / 2 ^ 23 % 2 ^ 8 * 2 ^ 23 + b.toNat % 2 ^ 23 : Nat) : Int)
    omega
  · rw [hminus] at hsign ⊢
    have hhigh : b.toNat / 2 ^ 31 % 2 = 1 := hsign.symm
    rw [if_neg (by omega)]
    show (2 ^ 31 : Int) - 1 - b.toNat
      = -1 - ((b.toNat / 2 ^ 23 % 2 ^ 8 * 2 ^ 23 + b.toNat % 2 ^ 23 : Nat) : Int)
    omega

/-- The place of a number by its parts. -/
inductive Placed : UnpackedFloat → Int → Prop where
  | infinity (s : Sign) : Placed (.infinity s) (signedPlace s (255 * 2 ^ 23))
  | zero (s : Sign) : Placed (.zero s) (signedPlace s 0)
  | finite (s : Sign) {m exponent rest : Nat} {e : Int} (hpos : 0 < m)
      (he : e = (exponent : Int) - 149) (hrest : rest = exponent * 2 ^ 23 + m) (hm : m < 2 ^ 24)
      (hleast : exponent = 0 ∨ 2 ^ 23 ≤ m) (hmost : exponent < 254) :
      Placed (.finite s m e hpos) (signedPlace s rest)

theorem Reads.placed {b : BitVec Format.binary32.numBits} {u : UnpackedFloat} (h : Reads b u)
    (hnumber : u.isNaN = false) : Placed u (signedPlace (.ofBitVec (unpackSign b))
      ((unpackExponent b).toNat * 2 ^ 23 + (unpackMantissa b).toNat)) := by
  cases h with
  | nan hexponent hfraction => cases hnumber
  | infinity hexponent hfraction =>
      rw [hexponent, hfraction]
      exact .infinity _
  | zero hexponent hfraction =>
      rw [hexponent, hfraction]
      exact .zero _
  | @subnormal m hexponent hfraction hpos hlt =>
      rw [hexponent, hfraction]
      exact @Placed.finite _ _ 0 _ _ hpos rfl rfl (by omega) (.inl rfl) (by decide)
  | @normal m field e hexponent hfield he hfraction hpos hlt =>
      rw [hexponent]
      exact @Placed.finite _ _ (field - 1) _ _ hpos (by omega) (by omega) hlt (.inr (by omega))
        (by omega)

/-- **Every number has the place of its parts.** -/
theorem placed_parts {x : Float32} (h : x.isNaN = false) :
    Placed (parts x) (orderKey x.toBits) := by
  rw [orderKey_eq]
  exact (reads_unpack x.toBits.toBitVec).placed h

/-- Parts that are numbers are between the infinities. -/
theorem Placed.bounds {u : UnpackedFloat} {place : Int} (h : Placed u place) :
    -1 - 255 * 2 ^ 23 ≤ place ∧ place ≤ 255 * 2 ^ 23 := by
  cases h with
  | infinity s => cases s <;> decide
  | zero s => cases s <;> decide
  | finite s hpos he hrest hm hleast hmost =>
      cases s with
      | positive => simp only [signedPlace]; omega
      | negative => simp only [signedPlace]; omega

/-- Finite numbers are compared by their exponents and then by their significands, and so
    are their places. -/
theorem compare_rest {m m' exponent exponent' : Nat} {e e' : Int}
    (he : e = (exponent : Int) - 149) (he' : e' = (exponent' : Int) - 149) (hm : m < 2 ^ 24)
    (hm' : m' < 2 ^ 24) (hleast : exponent = 0 ∨ 2 ^ 23 ≤ m)
    (hleast' : exponent' = 0 ∨ 2 ^ 23 ≤ m') :
    (compare e e').then (compare m m')
      = compare (exponent * 2 ^ 23 + m) (exponent' * 2 ^ 23 + m') := by
  rcases Int.lt_trichotomy e e' with hlt | heq | hgt
  · rw [Std.compare_eq_lt.mpr hlt, Ordering.lt_then]
    exact (Std.compare_eq_lt.mpr (by omega)).symm
  · have hexponent : exponent = exponent' := by omega
    rw [Std.compare_eq_iff_eq.mpr heq, Ordering.eq_then, hexponent]
    rcases Nat.lt_trichotomy m m' with hlt | rfl | hgt
    · rw [Std.compare_eq_lt.mpr hlt, Std.compare_eq_lt.mpr (by omega)]
    · rw [Std.compare_self, Std.compare_self]
    · rw [Std.compare_eq_gt.mpr hgt, Std.compare_eq_gt.mpr (by omega)]
  · rw [Std.compare_eq_gt.mpr hgt, Ordering.gt_then]
    exact (Std.compare_eq_gt.mpr (by omega)).symm

/-- **The places of numbers are in the order of the numbers.** -/
theorem Placed.lt {u v : UnpackedFloat} {place place' : Int} (hu : Placed u place)
    (hv : Placed v place') (h : u.lt v = true) : place < place' := by
  have h : u.compare v = some .lt := eq_of_beq h
  cases hu with
  | infinity s =>
      cases hv with
      | infinity s' => revert h; cases s <;> cases s' <;> decide
      | zero s' => grind [UnpackedFloat.compare, signedPlace, cases Sign]
      | finite s' => grind [UnpackedFloat.compare, signedPlace, cases Sign]
  | zero s => cases hv <;> grind [UnpackedFloat.compare, signedPlace, cases Sign]
  | finite s hpos he hrest hm hleast =>
      cases hv with
      | infinity s' => grind [UnpackedFloat.compare, signedPlace, cases Sign]
      | zero s' => grind [UnpackedFloat.compare, signedPlace, cases Sign]
      | finite s' hpos' he' hrest' hm' hleast' =>
          have hcompare := compare_rest he he' hm hm' hleast hleast'
          rw [← hrest, ← hrest'] at hcompare
          cases s <;> cases s' <;>
            simp only [UnpackedFloat.compare, hcompare, Option.some.injEq, reduceCtorEq] at h
          case positive.positive =>
            have := Std.compare_eq_lt.mp h
            simp only [signedPlace]
            omega
          case negative.positive => simp only [signedPlace]; omega
          -- below zero the larger significand is the smaller number
          case negative.negative =>
            have := Std.compare_eq_gt.mp (Ordering.swap_eq_lt.mp h)
            simp only [signedPlace]
            omega

theorem lt_iff (x y : Float32) : x < y ↔ (parts x).lt (parts y) = true := by
  show decide _ = true ↔ _
  rw [decide_eq_true_iff]
  rfl

/-- Numbers that are compared are none of them NaN. -/
theorem isNaN_eq_of_lt {x y : Float32} (h : x < y) : x.isNaN = false ∧ y.isNaN = false := by
  have h : (parts x).compare (parts y) = some .lt := eq_of_beq ((lt_iff x y).mp h)
  show (parts x).isNaN = false ∧ (parts y).isNaN = false
  cases hx : parts x with
  | notANumber => rw [hx] at h; cases h
  | infinity | zero | finite =>
      refine ⟨rfl, ?_⟩
      cases hy : parts y with
      | notANumber => rw [hx, hy] at h; cases h
      | infinity | zero | finite => rfl

/-- **The order of fields is that of numbers.** -/
theorem orderKey_lt_of_lt {x y : Float32} (h : x < y) : orderKey x.toBits < orderKey y.toBits := by
  have ⟨hx, hy⟩ := isNaN_eq_of_lt h
  exact (placed_parts hx).lt (placed_parts hy) ((lt_iff x y).mp h)

/-- **NaN stands outside of the numbers**, above them all without a sign and below them all
    with one. -/
theorem NaN.outside (nan : NaN) {x : Float32} (hx : x.isNaN = false) :
    if nan.bits.toNat < 2 ^ 31 then orderKey x.toBits < orderKey nan.bits
    else orderKey nan.bits < orderKey x.toBits := by
  have hplace := (placed_parts hx).bounds
  have hlt := nan.bits.toNat_lt
  have hnan := decode_eq_nan_iff.mp nan.isNaN
  have hhalf : twoTo 31 = 2 ^ 31 := rfl
  rw [orderKey.eq_def nan.bits, hhalf]
  split
  next hclear => omega
  next hset => omega

end FeatureRank.Number
