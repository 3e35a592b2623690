import Mathlib
import FeatureRank.Number.Binary

/-! # Arithmetic up to the sign of zero

    The canonical form of a query takes the sign off a zero and leaves out a
    factor of one.  Neither changes a score by more than the sign of a zero: sums
    and products of numbers that are equal up to it (`Number.Alike`) are equal up
    to it (`Alike.add`, `Alike.mul`), a factor that is equal to one is one
    (`eq_one_of_beq`), and multiplying by it changes no number (`mul_one`). -/

namespace FeatureRank.Number

open Float.Model Float.Model.UnpackedFloat

/-! ## Numbers taken apart -/

/-- What a number is: its sign, its significand and its exponent, if it has them. -/
def parts (x : Float32) : UnpackedFloat := x.toModel.unpack

def ofParts (u : UnpackedFloat) : Float32 := .ofModel (.pack u)

theorem add_eq (x y : Float32) : x + y = ofParts (.add Format.binary32 (parts x) (parts y)) := rfl

theorem mul_eq (x y : Float32) : x * y = ofParts (.mul Format.binary32 (parts x) (parts y)) := rfl

theorem beq_eq (x y : Float32) : (x == y) = (parts x).beq (parts y) := rfl

theorem toBitVec_ofBitVec : ∀ b : BitVec 1, (Sign.ofBitVec b).toBitVec = b := by decide

/-- The sign, the exponent and the fraction of a field make the field again. -/
theorem packComponents_split {b : BitVec Format.binary32.numBits}
    {exponent : BitVec Format.binary32.exponentBits}
    {fraction : BitVec Format.binary32.mantissaBitsWithoutImplicit}
    (hexponent : unpackExponent b = exponent) (hfraction : unpackMantissa b = fraction) :
    packComponents .binary32 (Sign.ofBitVec (unpackSign b)) exponent fraction = b := by
  rw [packComponents, toBitVec_ofBitVec, ← hexponent, ← hfraction]
  ext i hi
  simp only [unpackSign, unpackExponent, unpackMantissa, BitVec.extractLsb]
  grind

/-- The significand of a normal number has its implicit bit above the fraction. -/
theorem toNat_implicit (fraction : BitVec 23) :
    (1#1 ++ fraction).toNat = 2 ^ 23 + fraction.toNat := by
  have hlt := fraction.isLt
  simp only [BitVec.toNat_append, BitVec.toNat_ofNat]
  rw [← Nat.shiftLeft_add_eq_or_of_lt hlt]
  rfl

/-- What a field stands for: no number, an infinity, a zero, or a significand with
    the least exponent or with 24 bits. -/
inductive Reads (b : BitVec Format.binary32.numBits) : UnpackedFloat → Prop where
  | nan (hexponent : unpackExponent b = -1#_) (hfraction : unpackMantissa b ≠ 0#_) :
      Reads b .notANumber
  | infinity (hexponent : unpackExponent b = -1#_) (hfraction : unpackMantissa b = 0#_) :
      Reads b (.infinity (Sign.ofBitVec (unpackSign b)))
  | zero (hexponent : unpackExponent b = 0#_) (hfraction : unpackMantissa b = 0#_) :
      Reads b (.zero (Sign.ofBitVec (unpackSign b)))
  | subnormal {m : Nat} (hexponent : unpackExponent b = 0#_)
      (hfraction : (unpackMantissa b).toNat = m) (hpos : 0 < m) (hlt : m < 2 ^ 23) :
      Reads b (.finite (Sign.ofBitVec (unpackSign b)) m (-149) hpos)
  | normal {m field : Nat} {e : Int} (hexponent : (unpackExponent b).toNat = field)
      (hfield : 0 < field ∧ field < 255) (he : e = (field : Int) - 150)
      (hfraction : m = 2 ^ 23 + (unpackMantissa b).toNat) (hpos : 0 < m) (hlt : m < 2 ^ 24) :
      Reads b (.finite (Sign.ofBitVec (unpackSign b)) m e hpos)

/-- Every field stands for one of these. -/
theorem reads_unpack (b : BitVec Format.binary32.numBits) :
    Reads b (UnpackedFloat.unpack .binary32 b) := by
  have hfraction : (unpackMantissa b).toNat < 2 ^ 23 := (unpackMantissa b).isLt
  have hexponent : (unpackExponent b).toNat < 2 ^ 8 := (unpackExponent b).isLt
  have hbias : ((Format.binary32.exponentBias : Nat) : Int) = 127 := rfl
  have hbits : ((Format.binary32.mantissaBitsWithoutImplicit : Nat) : Int) = 23 := rfl
  rw [UnpackedFloat.unpack]
  split
  next hall =>
    split
    next hzero => exact .infinity hall hzero
    next hsome => exact .nan hall hsome
  next hall =>
    split
    next hleast =>
      split
      next hzero => exact .zero hleast hzero
      next hsome =>
        have hpos : 0 < (unpackMantissa b).toNat :=
          Nat.pos_of_ne_zero fun h => hsome (BitVec.eq_of_toNat_eq h)
        have he : ((unpackExponent b).toNat : Int) - (127 + 23) + 1 = -149 := by
          rw [hleast]
          rfl
        simp only [hbias, hbits, he]
        exact .subnormal hleast rfl hpos hfraction
    next hleast =>
      have hlow : (unpackExponent b).toNat ≠ 0 := fun h => hleast (BitVec.eq_of_toNat_eq h)
      have hhigh : (unpackExponent b).toNat ≠ 255 := fun h => hall (BitVec.eq_of_toNat_eq h)
      refine .normal rfl ⟨by omega, by omega⟩ ?_ (toNat_implicit _) _ ?_
      · rw [hbias, hbits]
        omega
      · rw [toNat_implicit]
        omega

theorem log2_eq {m k : Nat} (hlow : 2 ^ k ≤ m) (hhigh : m < 2 ^ (k + 1)) : m.log2 = k := by
  have hne : m ≠ 0 := by
    have := Nat.two_pow_pos k
    omega
  exact Nat.le_antisymm (Nat.lt_succ_iff.mp ((Nat.log2_lt hne).mpr hhigh))
    ((Nat.le_log2 hne).mpr hlow)

/-- A field that stands for no number in the canonical way only is the field of
    what it stands for. -/
theorem Reads.pack {b : BitVec Format.binary32.numBits} {u : UnpackedFloat} (h : Reads b u)
    (hvalid : Format.binary32.Valid b) : UnpackedFloat.pack .binary32 u = b := by
  cases h with
  | nan hexponent hfraction => exact (hvalid.eq_packedNaN hexponent hfraction).symm
  | infinity hexponent hfraction => exact packComponents_split hexponent hfraction
  | zero hexponent hfraction => exact packComponents_split hexponent hfraction
  | @subnormal m hexponent hfraction hpos hlt =>
      have hlog : m.log2 < 23 := (Nat.log2_lt (Nat.ne_of_gt hpos)).mpr hlt
      have hnot : ¬m.log2 + 1 = Format.binary32.mantissaBits := by
        show ¬m.log2 + 1 = 24
        omega
      rw [UnpackedFloat.pack]
      simp only [hnot, if_false]
      rw [if_neg (by decide)]
      refine packComponents_split hexponent (BitVec.eq_of_toNat_eq ?_)
      rw [hfraction, BitVec.toNat_ofNat, Nat.mod_eq_of_lt hlt]
  | @normal m field e hexponent hfield he hfraction hpos hlt =>
      have hlog : m.log2 + 1 = Format.binary32.mantissaBits := by
        rw [log2_eq (k := 23) (by omega) hlt]
        rfl
      have hbiased : (e + ((Format.binary32.exponentBias : Nat) : Int)
          + ((Format.binary32.mantissaBitsWithoutImplicit : Nat) : Int)).toNat = field := by
        show (e + 127 + 23).toNat = field
        omega
      rw [UnpackedFloat.pack]
      simp only [hbiased, hlog, if_true]
      rw [if_neg (by show ¬256 ≤ field + 1; omega)]
      refine packComponents_split (BitVec.eq_of_toNat_eq ?_) (BitVec.eq_of_toNat_eq ?_)
      · rw [hexponent, BitVec.toNat_ofNat, Nat.mod_eq_of_lt (by show field < 256; omega)]
      · rw [BitVec.toNat_ofNat]
        show (unpackMantissa b).toNat = m % 2 ^ 23
        omega

/-- A number is made of its parts. -/
theorem ofParts_parts (x : Float32) : ofParts (parts x) = x := by
  obtain ⟨⟨bits, hvalid⟩⟩ := x
  have hpack : UnpackedFloat.pack .binary32 (UnpackedFloat.unpack .binary32 bits.toBitVec)
      = bits.toBitVec := (reads_unpack _).pack hvalid
  simp only [ofParts, parts, Float32.Model.pack, Float32.Model.unpack, hpack]

/-! ## A factor of one -/

theorem parts_one : parts 1.0 = .finite .positive (2 ^ 23) (-23) (Nat.two_pow_pos 23) := rfl

/-- A number that is equal to one is one. -/
theorem eq_one_of_beq {x : Float32} (h : (x == 1.0) = true) : x = 1.0 := by
  rw [beq_eq, parts_one] at h
  have hcompare : (parts x).compare (.finite .positive (2 ^ 23) (-23) (Nat.two_pow_pos 23))
      = some .eq := eq_of_beq h
  have hparts : parts x = parts 1.0 := by
    rw [parts_one]
    generalize parts x = u at hcompare ⊢
    cases u with
    | notANumber => cases hcompare
    | infinity s => cases s <;> cases hcompare
    | zero s => cases hcompare
    | finite s m e hpos =>
        cases s with
        | negative => cases hcompare
        | positive =>
            obtain ⟨he, hm⟩ := Ordering.then_eq_eq.mp (Option.some.inj hcompare)
            obtain rfl := Std.compare_eq_iff_eq.mp he
            obtain rfl := Std.compare_eq_iff_eq.mp hm
            rfl
  rw [← ofParts_parts x, hparts, ofParts_parts]

/-- Zeros below a significand are shifted out without a trace. -/
theorem shift_zeros (n : Nat) : ∀ m : Nat,
    (⟨m * 2 ^ n, false, false⟩ : ExtendedMantissa) >>> n = ⟨m, false, false⟩ := by
  induction n with
  | zero =>
      intro m
      simp only [Nat.pow_zero, Nat.mul_one]
      rfl
  | succ n ih =>
      intro m
      have hshift : m * 2 ^ (n + 1) = 2 * m * 2 ^ n := by
        rw [Nat.pow_succ', ← Nat.mul_assoc, Nat.mul_comm m 2]
      show ExtendedMantissa.shiftRightOne
        ((⟨m * 2 ^ (n + 1), false, false⟩ : ExtendedMantissa) >>> n) = _
      rw [hshift, ih, ExtendedMantissa.shiftRightOne]
      simp

/-- The exponent of the parts of a number is the one that rounding aims at. -/
theorem Reads.targetExponent {b : BitVec Format.binary32.numBits} {s : Sign} {m : Nat} {e : Int}
    {hpos : 0 < m} (h : Reads b (.finite s m e hpos)) :
    Format.binary32.targetExponent (totalExponent m e) = e := by
  show max ((m.log2 : Int) + 1 + e - 24) (-149) = e
  cases h with
  | subnormal hexponent hfraction hpos hlt =>
      have hlog : m.log2 < 23 := (Nat.log2_lt (Nat.ne_of_gt hpos)).mpr hlt
      omega
  | normal hexponent hfield he hfraction hpos hlt =>
      have hlog : m.log2 = 23 := log2_eq (by omega) hlt
      omega

/-- Zeros below a significand move its first bit up. -/
theorem log2_zeros {m : Nat} (hpos : 0 < m) (n : Nat) : (m * 2 ^ n).log2 = m.log2 + n := by
  refine log2_eq ?_ ?_
  · rw [Nat.pow_add]
    exact Nat.mul_le_mul_right _ (Nat.log2_self_le (Nat.ne_of_gt hpos))
  · rw [Nat.add_right_comm, Nat.pow_add]
    exact Nat.mul_lt_mul_of_pos_right Nat.lt_log2_self (Nat.two_pow_pos n)

theorem totalExponent_zeros {m : Nat} (hpos : 0 < m) (e : Int) (n : Nat) :
    totalExponent (m * 2 ^ n) (e - n) = totalExponent m e := by
  unfold totalExponent
  rw [log2_zeros hpos]
  omega

/-- Rounding takes the zeros below a significand away. -/
theorem round_zeros {m : Nat} {e : Int} (hpos : 0 < m)
    (h : Format.binary32.targetExponent (totalExponent m e) = e) (s : Sign) (n : Nat) :
    roundWithAccuracy .binary32 s (m * 2 ^ n) (e - n) .exact = .finite s m e hpos := by
  have hamount : (e - (e - n)).toNat = n := by omega
  have hexponent : e - (n : Int) + n = e := by omega
  have hfirst : shiftToTargetExponent .binary32 (m * 2 ^ n) (e - n) .exact
      = (⟨m, false, false⟩, e) := by
    simp only [shiftToTargetExponent, shiftToExponent, totalExponent_zeros hpos, h, hamount,
      hexponent, ExtendedMantissa.ofMantissaAndAccuracy, shift_zeros]
  -- a significand that was not rounded up is not shifted again
  have hagain : shiftToTargetExponent .binary32 m e .exact = (⟨m, false, false⟩, e) := by
    have hexact : e + ((0 : Nat) : Int) = e := Int.add_zero e
    simp only [shiftToTargetExponent, shiftToExponent, h, Int.sub_self, Int.toNat_zero, hexact]
    rfl
  have hne : m ≠ 0 := Nat.ne_of_gt hpos
  simp only [roundWithAccuracy, hfirst, ExtendedMantissa.roundedMantissa,
    ExtendedMantissa.accuracy, Accuracy.roundToNearestEven, hagain, hne, dite_false]

/-- **Multiplying by one changes no number.** -/
theorem mul_one (x : Float32) : x * 1.0 = x := by
  have hmul : UnpackedFloat.mul .binary32 (parts x) (parts 1.0) = parts x := by
    have hreads : Reads _ (parts x) := reads_unpack _
    rw [parts_one]
    generalize parts x = u at hreads ⊢
    cases u with
    | notANumber => rfl
    | infinity s => cases s <;> rfl
    | zero s => cases s <;> rfl
    | finite s m e hpos =>
        have hsign : s * .positive = s := by cases s <;> rfl
        show roundWithAccuracy .binary32 (s * .positive) (m * 2 ^ 23) (e - (23 : Nat)) .exact = _
        rw [hsign]
        exact round_zeros hpos hreads.targetExponent s 23
  rw [mul_eq, hmul, ofParts_parts]

/-! ## The sign of zero -/

/-- Numbers that are the same, or zeros of any sign. -/
def Alike (x y : Float32) : Prop := unsignedZero x = unsignedZero y

/-- Parts that are the same, or zeros of any sign. -/
def AlikeParts (u v : UnpackedFloat) : Prop := u = v ∨ ∃ s t, u = .zero s ∧ v = .zero t

theorem parts_zero : ∀ s : Sign, parts (ofParts (.zero s)) = .zero s
  | .negative => rfl
  | .positive => rfl

/-- A number is equal to zero just when it is one of the zeros. -/
theorem beq_zero_iff {x : Float32} : (x == 0.0) = true ↔ ∃ s, parts x = .zero s := by
  have hzero : parts 0.0 = .zero .positive := rfl
  rw [beq_eq, hzero]
  constructor
  · intro h
    have hcompare : (parts x).compare (.zero .positive) = some .eq := eq_of_beq h
    generalize parts x = u at hcompare ⊢
    cases u with
    | notANumber => cases hcompare
    | infinity s => cases s <;> cases hcompare
    | zero s => exact ⟨s, rfl⟩
    | finite s m e hpos => cases s <;> cases hcompare
  · rintro ⟨s, hs⟩
    rw [hs]
    rfl

theorem alike_iff {x y : Float32} : Alike x y ↔ AlikeParts (parts x) (parts y) := by
  have hzero : ((0.0 : Float32) == 0.0) = true := rfl
  unfold Alike unsignedZero
  constructor
  · intro h
    cases hx : x == 0.0 with
    | true =>
        cases hy : y == 0.0 with
        | true =>
            obtain ⟨s, hs⟩ := beq_zero_iff.mp hx
            obtain ⟨t, ht⟩ := beq_zero_iff.mp hy
            exact .inr ⟨s, t, hs, ht⟩
        | false =>
            rw [hx, hy, if_pos rfl, if_neg Bool.false_ne_true] at h
            rw [← h, hzero] at hy
            cases hy
    | false =>
        cases hy : y == 0.0 with
        | true =>
            rw [hx, hy, if_pos rfl, if_neg Bool.false_ne_true] at h
            rw [h, hzero] at hx
            cases hx
        | false =>
            rw [hx, hy, if_neg Bool.false_ne_true, if_neg Bool.false_ne_true] at h
            exact .inl (congrArg parts h)
  · rintro (h | ⟨s, t, hs, ht⟩)
    · rw [← ofParts_parts x, h, ofParts_parts]
    · rw [if_pos (beq_zero_iff.mpr ⟨s, hs⟩), if_pos (beq_zero_iff.mpr ⟨t, ht⟩)]

theorem AlikeParts.ofParts {u v : UnpackedFloat} (h : AlikeParts u v) :
    Alike (ofParts u) (ofParts v) := by
  rcases h with rfl | ⟨s, t, rfl, rfl⟩
  · rfl
  · exact alike_iff.mpr (.inr ⟨s, t, parts_zero s, parts_zero t⟩)

/-- A zero adds nothing, whatever its sign. -/
theorem AlikeParts.add {u u' v v' : UnpackedFloat} (hu : AlikeParts u u') (hv : AlikeParts v v') :
    AlikeParts (u.add .binary32 v) (u'.add .binary32 v') := by
  rcases hu with rfl | ⟨s, s', rfl, rfl⟩
  · rcases hv with rfl | ⟨t, t', rfl, rfl⟩
    · exact .inl rfl
    · cases u with
      | notANumber => exact .inl rfl
      | infinity r => exact .inl rfl
      | zero r => cases r <;> cases t <;> cases t' <;> exact .inr ⟨_, _, rfl, rfl⟩
      | finite r m e hpos => exact .inl rfl
  · rcases hv with rfl | ⟨t, t', rfl, rfl⟩
    · cases v with
      | notANumber => exact .inl rfl
      | infinity r => exact .inl rfl
      | zero r => cases r <;> cases s <;> cases s' <;> exact .inr ⟨_, _, rfl, rfl⟩
      | finite r m e hpos => exact .inl rfl
    · cases s <;> cases s' <;> cases t <;> cases t' <;> exact .inr ⟨_, _, rfl, rfl⟩

/-- A product with a zero is a zero or no number, whatever the sign of the zero. -/
theorem AlikeParts.mul {u u' v v' : UnpackedFloat} (hu : AlikeParts u u') (hv : AlikeParts v v') :
    AlikeParts (u.mul .binary32 v) (u'.mul .binary32 v') := by
  rcases hu with rfl | ⟨s, s', rfl, rfl⟩
  · rcases hv with rfl | ⟨t, t', rfl, rfl⟩
    · exact .inl rfl
    · cases u with
      | notANumber => exact .inl rfl
      | infinity r => exact .inl rfl
      | zero r => exact .inr ⟨_, _, rfl, rfl⟩
      | finite r m e hpos => exact .inr ⟨_, _, rfl, rfl⟩
  · rcases hv with rfl | ⟨t, t', rfl, rfl⟩
    · cases v with
      | notANumber => exact .inl rfl
      | infinity r => exact .inl rfl
      | zero r => exact .inr ⟨_, _, rfl, rfl⟩
      | finite r m e hpos => exact .inr ⟨_, _, rfl, rfl⟩
    · exact .inr ⟨_, _, rfl, rfl⟩

namespace Alike

theorem refl (x : Float32) : Alike x x := rfl

/-- **Sums of numbers that differ in the sign of a zero** differ in no more. -/
theorem add {x x' y y' : Float32} (hx : Alike x x') (hy : Alike y y') :
    Alike (x + y) (x' + y') := by
  rw [add_eq, add_eq]
  exact ((alike_iff.mp hx).add (alike_iff.mp hy)).ofParts

/-- **Products of numbers that differ in the sign of a zero** differ in no more. -/
theorem mul {x x' y y' : Float32} (hx : Alike x x') (hy : Alike y y') :
    Alike (x * y) (x' * y') := by
  rw [mul_eq, mul_eq]
  exact ((alike_iff.mp hx).mul (alike_iff.mp hy)).ofParts

end Alike

end FeatureRank.Number
