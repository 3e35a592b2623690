import FeatureRank.Proofs.Number.Arithmetic

/-! # Widening — a binary64 number holds a binary32 number exactly

    A format holds every number whose significand it has the bits for, at an exponent
    that it reaches (`BinaryFormat.Holds`).  Such a number is encoded without rounding,
    whatever zeros stand below its significand (`Holds.encode`), and its field stands
    for it again, with zeros below the significand up to the bits of the format
    (`Holds.decode`).  So a number that two formats hold may go through the one and
    comes to the field that it has in the other (`Holds.encode_through`).

    Both formats hold the finite numbers of binary32, and the bits of these are the
    same after widening and narrowing (`narrow_widen`). -/

namespace FeatureRank.Number

theorem twoTo_pos (n : Nat) : 0 < twoTo n := Nat.two_pow_pos n

theorem twoTo_add (m n : Nat) : twoTo (m + n) = twoTo m * twoTo n := Nat.pow_add 2 m n

namespace BinaryFormat

variable {f : BinaryFormat}

/-! ## Fields -/

/-- A field under a sign. -/
def signed (f : BinaryFormat) (negative : Bool) (field : Nat) : Nat :=
  (if negative then f.signField else 0) + field

/-- A field without its sign is an exponent and a fraction. -/
theorem split_unsigned {field : Nat} (h : field < f.signField) :
    field / twoTo f.fractionBits < twoTo f.exponentBits ∧
      field % twoTo f.fractionBits < twoTo f.fractionBits ∧
      field / twoTo f.fractionBits * twoTo f.fractionBits + field % twoTo f.fractionBits
        = field := by
  have hpos := twoTo_pos f.fractionBits
  rw [signField, twoTo_add] at h
  exact ⟨(Nat.div_lt_iff_lt_mul hpos).mpr h, Nat.mod_lt _ hpos, Nat.div_add_mod' _ _⟩

/-- Every field is a sign, an exponent and a fraction. -/
theorem exists_signed {bits : Nat} (h : bits < 2 * f.signField) :
    ∃ negative exponent fraction,
      exponent < twoTo f.exponentBits ∧ fraction < twoTo f.fractionBits ∧
        bits = f.signed negative (exponent * twoTo f.fractionBits + fraction) := by
  by_cases hsign : bits < f.signField
  · obtain ⟨hexponent, hfraction, hsplit⟩ := split_unsigned hsign
    refine ⟨false, _, _, hexponent, hfraction, ?_⟩
    rw [hsplit, signed, if_neg Bool.false_ne_true, Nat.zero_add]
  · obtain ⟨hexponent, hfraction, hsplit⟩ :=
      split_unsigned (show bits - f.signField < f.signField by omega)
    refine ⟨true, _, _, hexponent, hfraction, ?_⟩
    rw [hsplit, signed, if_pos rfl]
    omega

section

variable (negative : Bool) {exponent fraction : Nat}

/-- The sign stands above the exponent. -/
theorem signed_eq (exponent fraction : Nat) :
    f.signed negative (exponent * twoTo f.fractionBits + fraction)
      = ((if negative then twoTo f.exponentBits else 0) + exponent) * twoTo f.fractionBits
        + fraction := by
  cases negative with
  | false => simp only [signed, Bool.false_eq_true, if_false, Nat.zero_add]
  | true => simp only [signed, if_true, signField, twoTo_add, Nat.add_mul, Nat.add_assoc]

theorem signed_fraction (hfraction : fraction < twoTo f.fractionBits) :
    f.signed negative (exponent * twoTo f.fractionBits + fraction) % twoTo f.fractionBits
      = fraction := by
  rw [signed_eq, Nat.mul_add_mod', Nat.mod_eq_of_lt hfraction]

theorem signed_exponent (hexponent : exponent < twoTo f.exponentBits)
    (hfraction : fraction < twoTo f.fractionBits) :
    f.signed negative (exponent * twoTo f.fractionBits + fraction) / twoTo f.fractionBits
      % twoTo f.exponentBits = exponent := by
  rw [signed_eq, Nat.add_comm, Nat.add_mul_div_right _ _ (twoTo_pos _),
    Nat.div_eq_of_lt hfraction, Nat.zero_add]
  cases negative with
  | false => rw [if_neg Bool.false_ne_true, Nat.zero_add, Nat.mod_eq_of_lt hexponent]
  | true => rw [if_pos rfl, Nat.add_mod_left, Nat.mod_eq_of_lt hexponent]

theorem signed_negative {field : Nat} (hfield : field < f.signField) :
    decide (f.signed negative field / f.signField % 2 = 1) = negative := by
  cases negative with
  | false =>
      rw [signed, if_neg Bool.false_ne_true, Nat.zero_add, Nat.div_eq_of_lt hfield]
      rfl
  | true =>
      have hpos : 0 < f.signField := twoTo_pos _
      rw [signed, if_pos rfl, Nat.add_div_left _ hpos, Nat.div_eq_of_lt hfield]
      rfl

/-- An exponent below a bound makes a field below it. -/
theorem field_lt {bound : Nat} (hexponent : exponent < bound)
    (hfraction : fraction < twoTo f.fractionBits) :
    exponent * twoTo f.fractionBits + fraction < bound * twoTo f.fractionBits :=
  calc exponent * twoTo f.fractionBits + fraction
      < exponent * twoTo f.fractionBits + twoTo f.fractionBits := Nat.add_lt_add_left hfraction _
    _ = (exponent + 1) * twoTo f.fractionBits := (Nat.succ_mul _ _).symm
    _ ≤ bound * twoTo f.fractionBits := Nat.mul_le_mul_right _ hexponent

/-- **What a finite field stands for.** -/
theorem decode_signed (hexponent : exponent < twoTo f.exponentBits - 1)
    (hfraction : fraction < twoTo f.fractionBits) :
    f.decode (f.signed negative (exponent * twoTo f.fractionBits + fraction))
      = if exponent = 0 then .finite negative fraction f.leastExponent
        else .finite negative (fraction + twoTo f.fractionBits)
          (f.leastExponent + (exponent - 1 : Nat)) := by
  have hlt : exponent < twoTo f.exponentBits := by omega
  have hfield : exponent * twoTo f.fractionBits + fraction < f.signField := by
    rw [signField, twoTo_add]
    exact field_lt hlt hfraction
  simp only [BinaryFormat.decode, signed_fraction negative hfraction,
    signed_exponent negative hlt hfraction, signed_negative negative hfield]
  rw [if_neg (Nat.ne_of_lt hexponent)]

end

/-! ## Exact encoding -/

/-- A quotient without a remainder is not rounded. -/
theorem roundQuotient_mul (q : Nat) {den : Nat} (hpos : 0 < den) :
    roundQuotient (q * den) den = q := by
  simp only [roundQuotient, Nat.mul_div_cancel _ hpos, Nat.mul_mod_left, Nat.mul_zero, hpos,
    if_true]

/-- A significand and an exponent that a format holds: not too many bits, and none
    below the least place. -/
structure Holds (f : BinaryFormat) (m : Nat) (e : Int) : Prop where
  pos : 0 < m
  bits : m.log2 ≤ f.fractionBits
  low : f.leastExponent ≤ e

/-- The exponent of the last place of `m · 2 ^ e` in a format. -/
def place (f : BinaryFormat) (m : Nat) (e : Int) : Int :=
  max ((m.log2 : Int) + e - f.fractionBits) f.leastExponent

/-- The significand of `m · 2 ^ e` down to its last place. -/
def significand (f : BinaryFormat) (m : Nat) (e : Int) : Nat :=
  m * twoTo (e - f.place m e).toNat

/-- The unsigned field of `m · 2 ^ e`. -/
def fieldOf (f : BinaryFormat) (m : Nat) (e : Int) : Nat :=
  (f.place m e - f.leastExponent).toNat * twoTo f.fractionBits + f.significand m e

namespace Holds

variable {m : Nat} {e : Int}

theorem place_le (h : f.Holds m e) : f.place m e ≤ e := by
  have hbits := h.bits
  have hlow := h.low
  unfold place
  omega

/-- The first guess at the exponent is right: the bar is a power of two, below which the
    number does not fall. -/
theorem not_below (h : f.Holds m e) {j d : Nat} {guess : Int}
    (hguess : guess = (m.log2 + j : Nat) - (d : Int)) :
    ¬if 0 ≤ guess then m * twoTo j < twoTo d * twoTo guess.toNat
      else m * twoTo j * twoTo (-guess).toNat < twoTo d := by
  have hfirst : twoTo (m.log2 + j) ≤ m * twoTo j := by
    rw [twoTo_add]
    exact Nat.mul_le_mul_right _ (Nat.log2_self_le (Nat.ne_of_gt h.pos))
  split
  · rw [← twoTo_add, Nat.not_lt]
    rwa [show d + guess.toNat = m.log2 + j by omega]
  · rw [Nat.not_lt]
    have hup := Nat.mul_le_mul_right (twoTo (-guess).toNat) hfirst
    rwa [← twoTo_add, show m.log2 + j + (-guess).toNat = d by omega] at hup

/-- The significand is taken without a remainder. -/
theorem roundQuotient_place (h : f.Holds m e) {j d : Nat} (he : e = (j : Int) - d) :
    (if 0 ≤ f.place m e then roundQuotient (m * twoTo j) (twoTo d * twoTo (f.place m e).toNat)
      else roundQuotient (m * twoTo j * twoTo (-f.place m e).toNat) (twoTo d))
        = f.significand m e := by
  have hle := h.place_le
  split
  · have hj : twoTo j = twoTo (e - f.place m e).toNat * (twoTo d * twoTo (f.place m e).toNat) := by
      rw [← twoTo_add, ← twoTo_add]
      congr 1
      omega
    rw [hj, ← Nat.mul_assoc, roundQuotient_mul _ (Nat.mul_pos (twoTo_pos _) (twoTo_pos _))]
    rfl
  · have hj : twoTo j * twoTo (-f.place m e).toNat = twoTo (e - f.place m e).toNat * twoTo d := by
      rw [← twoTo_add, ← twoTo_add]
      congr 1
      omega
    rw [Nat.mul_assoc, hj, ← Nat.mul_assoc, roundQuotient_mul _ (twoTo_pos _)]
    rfl

/-- **A number that the format holds** is not rounded. -/
theorem nearest (h : f.Holds m e) {j d : Nat} (he : e = (j : Int) - d) :
    f.nearest (m * twoTo j) (twoTo d) = min (f.fieldOf m e) f.infinityField := by
  have hlog : (m * twoTo j).log2 = m.log2 + j := log2_zeros h.pos j
  have hden : (twoTo d).log2 = d := Nat.log2_two_pow
  have hne : m * twoTo j ≠ 0 := Nat.ne_of_gt (Nat.mul_pos h.pos (twoTo_pos j))
  have hplace : max (((m.log2 + j : Nat) : Int) - d - f.fractionBits) f.leastExponent
      = f.place m e := by
    unfold place
    omega
  simp only [BinaryFormat.nearest, if_neg hne, hlog, hden, if_neg (h.not_below rfl), hplace,
    h.roundQuotient_place he, fieldOf]

/-- **Exact encoding.**  A number that the format holds has its field, also when more
    zeros are written below its significand. -/
theorem encode (h : f.Holds m e) (hfinite : f.fieldOf m e < f.infinityField) (negative : Bool)
    (zeros : Nat) :
    f.encode (.finite negative (m * twoTo zeros) (e - zeros)) = f.signed negative (f.fieldOf m e) := by
  rw [← Nat.min_eq_left (Nat.le_of_lt hfinite)]
  simp only [BinaryFormat.encode, signed]
  congr 1
  split
  · rw [Nat.mul_assoc, ← twoTo_add]
    exact h.nearest (d := 0) (by omega)
  · exact h.nearest (by omega)

/-- The significand has the bits of the format, or stands at the least place. -/
theorem significand_bounds (h : f.Holds m e) :
    f.significand m e < 2 * twoTo f.fractionBits ∧
      (f.place m e = f.leastExponent ∨ twoTo f.fractionBits ≤ f.significand m e) := by
  have hbits := h.bits
  have hle := h.place_le
  have hlog : (f.significand m e).log2 = m.log2 + (e - f.place m e).toNat := log2_zeros h.pos _
  have hne : f.significand m e ≠ 0 := Nat.ne_of_gt (Nat.mul_pos h.pos (twoTo_pos _))
  constructor
  · have hlt : f.significand m e < 2 ^ (f.fractionBits + 1) := by
      refine (Nat.log2_lt hne).mp ?_
      unfold place at hlog
      omega
    rwa [Nat.pow_succ'] at hlt
  · by_cases hleast : f.place m e = f.leastExponent
    · exact .inl hleast
    · refine .inr ((Nat.le_log2 hne).mp ?_)
      unfold place at hlog hleast
      omega

/-- **Exact decoding.**  The field of a number that the format holds stands for that number. -/
theorem decode (h : f.Holds m e) (hfinite : f.fieldOf m e < f.infinityField) (negative : Bool) :
    f.decode (f.signed negative (f.fieldOf m e))
      = .finite negative (f.significand m e) (f.place m e) := by
  obtain ⟨hlt, hfull⟩ := h.significand_bounds
  have hpos := twoTo_pos f.fractionBits
  have hleast : f.leastExponent ≤ f.place m e := Int.le_max_right _ _
  by_cases hsub : f.significand m e < twoTo f.fractionBits
  · -- too few bits: the number stands at the least place, and its exponent field is zero
    have hplace : f.place m e = f.leastExponent := by omega
    have hone : 1 < twoTo f.exponentBits := by
      by_contra hnone
      have : f.infinityField = 0 := by
        rw [infinityField, Nat.sub_eq_zero_of_le (by omega), Nat.zero_mul]
      omega
    have hfield : f.fieldOf m e = 0 * twoTo f.fractionBits + f.significand m e := by
      rw [fieldOf, hplace, Int.sub_self, Int.toNat_zero]
    rw [hfield, decode_signed negative (by omega) hsub, if_pos rfl, hplace]
  · -- the first bit of the significand counts one on the exponent field
    obtain ⟨fraction, hfraction⟩ := Nat.le.dest (Nat.not_lt.mp hsub)
    have hfield : f.fieldOf m e
        = ((f.place m e - f.leastExponent).toNat + 1) * twoTo f.fractionBits + fraction := by
      rw [fieldOf, ← hfraction, Nat.succ_mul, Nat.add_assoc]
    have hexponent : (f.place m e - f.leastExponent).toNat + 1 < twoTo f.exponentBits - 1 := by
      rw [infinityField, hfield] at hfinite
      exact Nat.lt_of_mul_lt_mul_right (Nat.lt_of_le_of_lt (Nat.le_add_right _ _) hfinite)
    rw [hfield, decode_signed negative hexponent (by omega), if_neg (Nat.succ_ne_zero _),
      Nat.add_comm fraction, hfraction, Nat.add_sub_cancel]
    congr 1
    omega

/-- **Through another format.**  A number that both formats hold comes out of the one with
    the field that it has in the other. -/
theorem encode_through {g : BinaryFormat} (h : f.Holds m e) (hg : g.Holds m e)
    (hfinite : f.fieldOf m e < f.infinityField) (hgfinite : g.fieldOf m e < g.infinityField)
    (negative : Bool) :
    f.encode (g.decode (g.signed negative (g.fieldOf m e))) = f.signed negative (f.fieldOf m e) := by
  have hle := hg.place_le
  have hplace : g.place m e = e - ((e - g.place m e).toNat : Nat) := by omega
  rw [hg.decode hgfinite, significand, ← h.encode hfinite negative (e - g.place m e).toNat,
    ← hplace]

end Holds

/-- Zero of either sign is encoded as it is. -/
theorem encode_zero (negative : Bool) (e : Int) :
    f.encode (.finite negative 0 e) = f.signed negative 0 := by
  simp only [BinaryFormat.encode, signed, Nat.zero_mul, nearest, if_true, ite_self]

/-- **A finite field stands for a zero, or for a number that the format holds** and that
    has this field. -/
theorem decode_finite (negative : Bool) {exponent fraction : Nat}
    (hexponent : exponent < twoTo f.exponentBits - 1) (hfraction : fraction < twoTo f.fractionBits) :
    ∃ m e, f.decode (f.signed negative (exponent * twoTo f.fractionBits + fraction))
        = .finite negative m e ∧
      e ≤ f.leastExponent + exponent ∧
      (m = 0 ∧ exponent * twoTo f.fractionBits + fraction = 0 ∨
        f.Holds m e ∧ f.fieldOf m e = exponent * twoTo f.fractionBits + fraction) := by
  rw [decode_signed negative hexponent hfraction]
  by_cases hsub : exponent = 0
  · refine ⟨fraction, f.leastExponent, if_pos hsub, by omega, ?_⟩
    rw [hsub, Nat.zero_mul, Nat.zero_add]
    rcases Nat.eq_zero_or_pos fraction with hzero | hpos
    · exact .inl ⟨hzero, hzero⟩
    · have hlog : fraction.log2 < f.fractionBits :=
        (Nat.log2_lt (Nat.ne_of_gt hpos)).mpr hfraction
      have hplace : f.place fraction f.leastExponent = f.leastExponent := by
        unfold place
        omega
      refine .inr ⟨⟨hpos, Nat.le_of_lt hlog, Int.le_refl _⟩, ?_⟩
      rw [fieldOf, significand, hplace, Int.sub_self, Int.toNat_zero, Nat.zero_mul, Nat.zero_add]
      exact Nat.mul_one fraction
  · have hlog : (fraction + twoTo f.fractionBits).log2 = f.fractionBits := by
      refine log2_eq (Nat.le_add_left _ _) ?_
      rw [Nat.pow_succ, Nat.mul_two]
      exact Nat.add_lt_add_right hfraction _
    have hplace : f.place (fraction + twoTo f.fractionBits) (f.leastExponent + (exponent - 1 : Nat))
        = f.leastExponent + (exponent - 1 : Nat) := by
      unfold place
      omega
    refine ⟨_, _, if_neg hsub, by omega, .inr ⟨⟨?_, Nat.le_of_eq hlog, by omega⟩, ?_⟩⟩
    · exact Nat.lt_of_lt_of_le (twoTo_pos _) (Nat.le_add_left _ _)
    · obtain ⟨before, rfl⟩ := Nat.exists_eq_succ_of_ne_zero hsub
      have hbefore : (f.leastExponent + (before.succ - 1 : Nat) - f.leastExponent).toNat = before := by
        omega
      rw [fieldOf, significand, hplace, hbefore, Int.sub_self, Int.toNat_zero, Nat.succ_mul]
      show before * twoTo f.fractionBits + (fraction + twoTo f.fractionBits) * 1 = _
      omega

end BinaryFormat

/-! ## The two widths -/

open BinaryFormat Float.Model Float.Model.UnpackedFloat

/-- Bits that are no NaN are kept. -/
theorem toBits_ofBits {b : UInt64}
    (h : b.toNat / twoTo binary64.fractionBits % twoTo binary64.exponentBits
      ≠ twoTo binary64.exponentBits - 1) : (Float.ofBits b).toBits = b := by
  have hvalid : Format.binary64.Valid b.toBitVec := by
    refine ⟨fun hall => absurd ?_ h⟩
    have hexponent : b.toNat >>> 52 % 2 ^ 11 = 2 ^ 11 - 1 := congrArg BitVec.toNat hall
    rwa [Nat.shiftRight_eq_div_pow] at hexponent
  exact congrArg Float.toBits (Float.ofBits_toBits (.ofModel ⟨b, hvalid⟩))

/-- The bits of a finite number have an exponent that is not all ones. -/
theorem exponent_ne_of_isFinite {x : Float32} (h : x.isFinite = true) :
    x.toBits.toNat / twoTo binary32.fractionBits % twoTo binary32.exponentBits
      ≠ twoTo binary32.exponentBits - 1 := by
  intro hall
  have hexponent : @unpackExponent .binary32 x.toBits.toBitVec = -1#8 := by
    refine BitVec.eq_of_toNat_eq ?_
    show x.toBits.toNat >>> 23 % 2 ^ 8 = 2 ^ 8 - 1
    rw [Nat.shiftRight_eq_div_pow]
    exact hall
  have hfinite : (UnpackedFloat.unpack .binary32 x.toBits.toBitVec).isFinite = true := h
  rw [UnpackedFloat.unpack, if_pos hexponent] at hfinite
  split at hfinite <;> exact nomatch hfinite

/-- What a binary64 number stands for is what its bits were made of. -/
theorem decode64_ofBits (negative : Bool) {field : Nat} (h : field < binary64.infinityField) :
    decode64 (Float.ofBits (UInt64.ofNat (binary64.signed negative field)))
      = binary64.decode (binary64.signed negative field) := by
  have hfield : field < binary64.signField := Nat.lt_trans h (by decide)
  obtain ⟨hexponent, hfraction, hsplit⟩ := split_unsigned hfield
  have hlt : binary64.signed negative field < 2 ^ 64 := by
    have hsign : binary64.signField = 2 ^ 63 := rfl
    rw [signed]
    split <;> omega
  have hnat : (UInt64.ofNat (binary64.signed negative field)).toNat
      = binary64.signed negative field := Nat.mod_eq_of_lt hlt
  have hsigned := signed_exponent negative hexponent hfraction
  rw [hsplit] at hsigned
  rw [decode64, toBits_ofBits, hnat]
  rw [hnat]
  intro hall
  have hleast := Nat.div_mul_le_self field (twoTo binary64.fractionBits)
  rw [hsigned.symm.trans hall] at hleast
  exact Nat.not_lt.mpr hleast h

/-- A number that binary32 holds is held by binary64, and is finite there. -/
theorem binary64_holds {m : Nat} {e : Int} (h : binary32.Holds m e) (hfinite : e ≤ 105) :
    binary64.Holds m e ∧ binary64.fieldOf m e < binary64.infinityField := by
  have hbits : m.log2 ≤ 23 := h.bits
  have hlow : (-149 : Int) ≤ e := h.low
  have hwide : binary64.Holds m e := ⟨h.pos, Nat.le_trans hbits (by decide), by
    show (-1074 : Int) ≤ e
    omega⟩
  obtain ⟨hlt, -⟩ := hwide.significand_bounds
  have hplace := hwide.place_le
  refine ⟨hwide, ?_⟩
  show (binary64.place m e - (-1074)).toNat * 2 ^ 52 + binary64.significand m e < 2047 * 2 ^ 52
  have hlt' : binary64.significand m e < 2 * 2 ^ 52 := hlt
  omega

/-- The bits of a finite number are a sign, an exponent that is not all ones, and a
    fraction. -/
theorem bits_of_isFinite {x : Float32} (h : x.isFinite = true) :
    ∃ negative exponent fraction,
      exponent < twoTo binary32.exponentBits - 1 ∧ fraction < twoTo binary32.fractionBits ∧
        x.toBits.toNat
          = binary32.signed negative (exponent * twoTo binary32.fractionBits + fraction) := by
  have hbits : x.toBits.toNat < 2 * binary32.signField := x.toBits.toNat_lt
  obtain ⟨negative, exponent, fraction, hexponent, hfraction, hx⟩ := exists_signed hbits
  have hne := exponent_ne_of_isFinite h
  rw [hx, signed_exponent negative hexponent hfraction] at hne
  exact ⟨negative, exponent, fraction, by omega, hfraction, hx⟩

/-- **Widening is exact**: a finite binary32 number is found again when it is narrowed. -/
theorem narrow_widen {x : Float32} (h : x.isFinite = true) : narrow (widen x) = x := by
  obtain ⟨negative, exponent, fraction, hexponent, hfraction, hx⟩ := bits_of_isFinite h
  obtain ⟨m, e, hdecode, hhigh, hnumber⟩ := decode_finite negative hexponent hfraction
  have hencode : binary32.encode (decode64 (widen x)) = x.toBits.toNat := by
    rw [widen, decode32, hx, hdecode]
    rcases hnumber with ⟨rfl, hzero⟩ | ⟨hholds, hfield⟩
    · have hself : binary64.decode (binary64.signed negative 0)
          = .finite negative 0 binary64.leastExponent := by
        cases negative <;> rfl
      rw [encode_zero, decode64_ofBits negative (by decide), hself, encode_zero, hzero]
    · have hfinite : binary32.fieldOf m e < binary32.infinityField := by
        rw [hfield]
        exact field_lt hexponent hfraction
      have he : e ≤ 105 := by
        have hlt : exponent < 255 := hexponent
        have hle : e ≤ -149 + exponent := hhigh
        omega
      obtain ⟨hwide, hfinite'⟩ := binary64_holds hholds he
      have hself := hwide.encode hfinite' negative 0
      rw [Int.natCast_zero, Int.sub_zero, show m * twoTo 0 = m from Nat.mul_one m] at hself
      rw [hself, decode64_ofBits negative hfinite', hholds.encode_through hwide hfinite hfinite',
        hfield]
  rw [narrow, hencode, UInt32.ofNat_toNat, Float32.ofBits_toBits]

end FeatureRank.Number
