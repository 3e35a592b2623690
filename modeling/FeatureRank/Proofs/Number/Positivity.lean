import FeatureRank.Proofs.Number.Arithmetic

/-! # Positive numbers — where binary32 keeps them above zero

    A score divides counts, and rounding could make zero of a quotient that is not.  A
    count from one on is a positive number (`ofNat_pos`), and one below `2 ^ 64` is finite
    with all 24 bits of a significand (`normal_ofNat`), so the quotient of two of them is
    positive (`div_ofNat_pos`).

    Sums, products and quotients are never negative where their parts are not
    (`NonNegative`), so a sum with a count in it is positive (`NonNegative.add_ofNat_pos`).
    What carries this is one fact about rounding: a significand with enough bits, at an
    exponent that is not too small, is rounded to one of 24 bits (`round_normal`). -/

namespace FeatureRank.Number

open Float.Model Float.Model.UnpackedFloat

/-! ## Rounding -/

theorem mantissa_shiftRight (em : ExtendedMantissa) (n : Nat) :
    (em >>> n).mantissa = em.mantissa / 2 ^ n := by
  induction n with
  | zero => exact (Nat.div_one _).symm
  | succ n ih =>
      show (em >>> n).mantissa / 2 = _
      rw [ih, Nat.div_div_eq_div_mul, Nat.pow_succ]

theorem mantissa_ofMantissaAndAccuracy (m : Nat) (accuracy : Accuracy) :
    (ExtendedMantissa.ofMantissaAndAccuracy m accuracy).mantissa = m := by
  cases accuracy with
  | exact => rfl
  | inexact order => cases order <;> rfl

/-- Rounding gives a significand or the next one. -/
theorem roundedMantissa_bounds (em : ExtendedMantissa) :
    em.mantissa ≤ em.roundedMantissa ∧ em.roundedMantissa ≤ em.mantissa + 1 := by
  obtain ⟨m, roundBit, stickyBit⟩ := em
  have hmod : m % 2 < 2 := Nat.mod_lt m (by decide)
  cases roundBit <;> cases stickyBit <;>
    simp only [ExtendedMantissa.roundedMantissa, ExtendedMantissa.accuracy,
      Accuracy.roundToNearestEven] <;> omega

/-- A significand that is shifted to 24 bits has its first bit in front. -/
theorem div_two_pow_bounds {m : Nat} (h : 23 ≤ m.log2) :
    2 ^ 23 ≤ m / 2 ^ (m.log2 - 23) ∧ m / 2 ^ (m.log2 - 23) < 2 ^ 24 := by
  have hne : m ≠ 0 := by
    rintro rfl
    rw [Nat.log2_zero] at h
    omega
  obtain ⟨amount, hamount⟩ : ∃ amount, m.log2 = 23 + amount := ⟨m.log2 - 23, by omega⟩
  have hleast := Nat.log2_self_le hne
  have hmost := Nat.lt_log2_self (n := m)
  rw [hamount, Nat.add_sub_cancel_left, Nat.le_div_iff_mul_le (Nat.two_pow_pos _),
    Nat.div_lt_iff_lt_mul (Nat.two_pow_pos _), ← Nat.pow_add, ← Nat.pow_add]
  rw [hamount] at hleast hmost
  exact ⟨hleast, by rwa [Nat.add_right_comm] at hmost⟩

/-- A significand above the least exponent is shifted until it has 24 bits. -/
theorem shift_to_bits {m amount : Nat} {e : Int} (accuracy : Accuracy)
    (hbits : m.log2 = 23 + amount) (hlow : -149 ≤ e + amount) :
    ∃ em, shiftToTargetExponent .binary32 m e accuracy = (em, e + amount) ∧
      em.mantissa = m / 2 ^ amount := by
  have htarget : (Format.binary32.targetExponent (totalExponent m e) - e).toNat = amount := by
    show (max ((m.log2 : Int) + 1 + e - 24) (-149) - e).toNat = amount
    omega
  refine ⟨ExtendedMantissa.ofMantissaAndAccuracy m accuracy >>> amount, ?_, ?_⟩
  · simp only [shiftToTargetExponent, shiftToExponent, htarget]
  · rw [mantissa_shiftRight, mantissa_ofMantissaAndAccuracy]

/-- Rounding is two shifts, the second one of the rounded significand. -/
theorem round_of_shifts {m : Nat} {e e₁ e₂ : Int} {accuracy : Accuracy} {first last : ExtendedMantissa}
    (s : Sign) (hfirst : shiftToTargetExponent .binary32 m e accuracy = (first, e₁))
    (hlast : shiftToTargetExponent .binary32 first.roundedMantissa e₁ .exact = (last, e₂))
    (hpos : 0 < last.mantissa) :
    roundWithAccuracy .binary32 s m e accuracy = .finite s last.mantissa e₂ hpos := by
  have hne : last.mantissa ≠ 0 := Nat.ne_of_gt hpos
  simp only [roundWithAccuracy, hfirst, hlast, hne, dite_false]

/-- Parts with a sign and 24 bits. -/
def Normal (s : Sign) (exponent : Int) (u : UnpackedFloat) : Prop :=
  ∃ m hpos, 2 ^ 23 ≤ m ∧ m < 2 ^ 24 ∧ u = .finite s m exponent hpos

/-- **Rounding to 24 bits**: a significand that has as many, and does not stand too low, is
    rounded to one of just 24, with its first bit in the same place or in the next. -/
theorem round_normal (s : Sign) {m : Nat} {e : Int} (accuracy : Accuracy) (hbits : 23 ≤ m.log2)
    (hlow : -149 ≤ e + m.log2 - 23) :
    ∃ e', Normal s e' (roundWithAccuracy .binary32 s m e accuracy) ∧
      e + m.log2 - 23 ≤ e' ∧ e' ≤ e + m.log2 - 22 := by
  obtain ⟨amount, hamount⟩ : ∃ amount, m.log2 = 23 + amount := ⟨m.log2 - 23, by omega⟩
  obtain ⟨first, hshift, hfirst⟩ := shift_to_bits (e := e) accuracy hamount (by omega)
  obtain ⟨hleast, hmost⟩ := div_two_pow_bounds hbits
  obtain ⟨hrounded, hnext⟩ := roundedMantissa_bounds first
  rw [hamount, Nat.add_sub_cancel_left, ← hfirst] at hleast hmost
  by_cases hfull : first.roundedMantissa < 2 ^ 24
  · have hlog : first.roundedMantissa.log2 = 23 + 0 := log2_eq (by omega) hfull
    obtain ⟨last, hagain, hlast⟩ := shift_to_bits (e := e + amount) .exact hlog (by omega)
    rw [Nat.pow_zero, Nat.div_one] at hlast
    refine ⟨_, ⟨last.mantissa, by omega, by omega, by omega, round_of_shifts s hshift hagain _⟩,
      by omega, by omega⟩
  -- rounding up made one bit more, and the second shift takes it away
  · have hcarry : first.roundedMantissa = 2 ^ 24 := by omega
    have hlog : first.roundedMantissa.log2 = 23 + 1 := by rw [hcarry, Nat.log2_two_pow]
    obtain ⟨last, hagain, hlast⟩ := shift_to_bits (e := e + amount) .exact hlog (by omega)
    rw [hcarry] at hlast
    refine ⟨_, ⟨last.mantissa, by omega, by omega, by omega, round_of_shifts s hshift hagain _⟩,
      by omega, by omega⟩

/-! ## Packing -/

theorem parts_ofParts (u : UnpackedFloat) :
    parts (ofParts u) = UnpackedFloat.unpack .binary32 (UnpackedFloat.pack .binary32 u) := rfl

theorem sign_packComponents (s : Sign) (exponent : BitVec 8) (fraction : BitVec 23) :
    Sign.ofBitVec (unpackSign (packComponents .binary32 s exponent fraction)) = s := by
  have hsign : (unpackSign (packComponents .binary32 s exponent fraction)) = s.toBitVec := by
    show ((s.toBitVec ++ exponent ++ fraction).extractLsb' 31 1).cast _ = s.toBitVec
    rw [BitVec.extractLsb'_append_eq_of_le (by omega), BitVec.extractLsb'_append_eq_of_le (by omega)]
    simp
  rw [hsign]
  cases s <;> rfl

theorem parts_infinity : ∀ s : Sign, parts (ofParts (.infinity s)) = .infinity s
  | .negative => rfl
  | .positive => rfl

/-- A field of an exponent that is neither the least nor the greatest one is read with the
    bit in front of the fraction. -/
theorem unpack_normal (s : Sign) {m field : Nat} {e : Int} (hpos : 0 < m) (hleast : 2 ^ 23 ≤ m)
    (hmost : m < 2 ^ 24) (hfield : 0 < field ∧ field < 255) (he : e = (field : Int) - 150) :
    UnpackedFloat.unpack .binary32 (packComponents .binary32 s (.ofNat 8 field) (.ofNat 23 m))
      = .finite s m e hpos := by
  have hexponent : (BitVec.ofNat 8 field).toNat = field := by
    rw [BitVec.toNat_ofNat, Nat.mod_eq_of_lt (by omega)]
  have hfraction : (BitVec.ofNat 23 m).toNat = m - 2 ^ 23 := by
    rw [BitVec.toNat_ofNat]
    omega
  have hall : BitVec.ofNat 8 field ≠ -1#8 := by
    intro heq
    have : field = 255 := by rw [← hexponent, heq]; rfl
    omega
  have hnone : BitVec.ofNat 8 field ≠ 0#8 := by
    intro heq
    have : field = 0 := by rw [← hexponent, heq]; rfl
    omega
  have hreads := reads_unpack (packComponents .binary32 s (.ofNat 8 field) (.ofNat 23 m))
  have hunpackE : unpackExponent
      (packComponents .binary32 s (.ofNat 8 field) (.ofNat 23 m)) = .ofNat 8 field :=
    unpackExponent_packComponents
  have hunpackM : unpackMantissa
      (packComponents .binary32 s (.ofNat 8 field) (.ofNat 23 m)) = .ofNat 23 m :=
    unpackMantissa_packComponents
  generalize UnpackedFloat.unpack .binary32
    (packComponents .binary32 s (.ofNat 8 field) (.ofNat 23 m)) = v at hreads
  cases hreads with
  | nan h => exact absurd (hunpackE.symm.trans h) hall
  | infinity h => exact absurd (hunpackE.symm.trans h) hall
  | zero h => exact absurd (hunpackE.symm.trans h) hnone
  | subnormal h => exact absurd (hunpackE.symm.trans h) hnone
  | @normal m' field' e' h _ he' hm =>
      rw [hunpackE, hexponent] at h
      rw [hunpackM, hfraction] at hm
      obtain rfl : m' = m := by omega
      obtain rfl : e' = e := by omega
      rw [sign_packComponents]

/-- A number of 24 bits is kept as it is, or is too large and infinite. -/
theorem parts_of_normal {s : Sign} {e : Int} {u : UnpackedFloat} (h : Normal s e u)
    (hlow : -149 ≤ e) : parts (ofParts u) = if e ≤ 104 then u else .infinity s := by
  obtain ⟨m, hpos, hleast, hmost, rfl⟩ := h
  have hlog : m.log2 + 1 = Format.binary32.mantissaBits := by
    rw [log2_eq (k := 23) hleast hmost]
    rfl
  obtain ⟨field, hfield⟩ : ∃ field : Nat, (field : Int) = e + 150 := ⟨(e + 150).toNat, by omega⟩
  have hbiased : (e + ((Format.binary32.exponentBias : Nat) : Int)
      + ((Format.binary32.mantissaBitsWithoutImplicit : Nat) : Int)).toNat = field := by
    show (e + 127 + 23).toNat = field
    omega
  rw [parts_ofParts, UnpackedFloat.pack]
  simp only [hbiased, hlog, if_true]
  by_cases hhigh : e ≤ 104
  · rw [if_pos hhigh, if_neg (by show ¬256 ≤ field + 1; omega)]
    exact unpack_normal s hpos hleast hmost (by omega) (by omega)
  · rw [if_neg hhigh, if_pos (by show 256 ≤ field + 1; omega)]
    exact parts_infinity s

/-! ## Numbers that are not negative -/

/-- Parts of a number, with a plus in front. -/
inductive NonNegativeParts : UnpackedFloat → Prop where
  | infinity : NonNegativeParts (.infinity .positive)
  | zero : NonNegativeParts (.zero .positive)
  | finite {m : Nat} {e : Int} (hpos : 0 < m) : NonNegativeParts (.finite .positive m e hpos)

/-- A number that is not negative, and not minus zero. -/
def NonNegative (x : Float32) : Prop := NonNegativeParts (parts x)

/-- Parts with a plus are packed under a plus, and as a number. -/
theorem NonNegativeParts.pack {u : UnpackedFloat} (h : NonNegativeParts u) :
    ∃ (exponent : BitVec 8) (fraction : BitVec 23),
      UnpackedFloat.pack .binary32 u = packComponents .binary32 .positive exponent fraction ∧
        (exponent = -1#8 → fraction = 0#23) := by
  cases h with
  | infinity => exact ⟨-1#8, 0#23, rfl, fun _ => rfl⟩
  | zero => exact ⟨0#8, 0#23, rfl, fun _ => rfl⟩
  | @finite m e hpos =>
      rw [UnpackedFloat.pack]
      dsimp only
      generalize (e + ((Format.binary32.exponentBias : Nat) : Int)
        + ((Format.binary32.mantissaBitsWithoutImplicit : Nat) : Int)).toNat = field
      by_cases hhigh : 2 ^ 8 ≤ field + 1
      · rw [if_pos hhigh]
        exact ⟨-1#8, 0#23, rfl, fun _ => rfl⟩
      rw [if_neg hhigh]
      by_cases hlog : m.log2 + 1 = Format.binary32.mantissaBits
      · rw [if_pos hlog]
        refine ⟨.ofNat 8 field, .ofNat 23 m, rfl, ?_⟩
        intro hall
        have : (BitVec.ofNat 8 field).toNat = 255 := by rw [hall]; rfl
        rw [BitVec.toNat_ofNat] at this
        omega
      · rw [if_neg hlog]
        exact ⟨0#8, .ofNat 23 m, rfl, fun hall => absurd hall (by decide)⟩

/-- Parts that are not negative make a number that is not. -/
theorem NonNegativeParts.nonNegative {u : UnpackedFloat} (h : NonNegativeParts u) :
    NonNegative (ofParts u) := by
  obtain ⟨exponent, fraction, hpack, hnumber⟩ := h.pack
  have hsign := sign_packComponents .positive exponent fraction
  have hexponent : unpackExponent (packComponents .binary32 .positive exponent fraction)
      = exponent := unpackExponent_packComponents
  have hfraction : unpackMantissa (packComponents .binary32 .positive exponent fraction)
      = fraction := unpackMantissa_packComponents
  have hreads := reads_unpack (packComponents .binary32 .positive exponent fraction)
  rw [NonNegative, parts_ofParts, hpack]
  generalize UnpackedFloat.unpack .binary32
    (packComponents .binary32 .positive exponent fraction) = v at hreads ⊢
  cases hreads with
  | nan hall hsome =>
      exact absurd (hfraction.trans (hnumber (hexponent.symm.trans hall))) hsome
  | infinity => rw [hsign]; exact .infinity
  | zero => rw [hsign]; exact .zero
  | subnormal _ _ hpos => rw [hsign]; exact .finite hpos
  | normal _ _ _ _ hpos => rw [hsign]; exact .finite hpos

/-- Rounding keeps the sign. -/
theorem NonNegativeParts.round (m : Nat) (e : Int) (accuracy : Accuracy) :
    NonNegativeParts (roundWithAccuracy .binary32 .positive m e accuracy) := by
  simp only [roundWithAccuracy]
  split
  · exact .zero
  · exact .finite _

/-- Significands are added at the smaller exponent. -/
theorem add_finite {m m' : Nat} {e e' : Int} (hpos : 0 < m) (hpos' : 0 < m') :
    UnpackedFloat.add .binary32 (.finite .positive m e hpos) (.finite .positive m' e' hpos')
      = UnpackedFloat.round .binary32 .positive
        (m * 2 ^ (e - min e e').toNat + m' * 2 ^ (e' - min e e').toNat) (min e e') := by
  have hsum : (0 : Int) < ((m * 2 ^ (e - min e e').toNat : Nat) : Int)
      + ((m' * 2 ^ (e' - min e e').toNat : Nat) : Int) := by
    have := Nat.mul_pos hpos (Nat.two_pow_pos (e - min e e').toNat)
    omega
  simp only [UnpackedFloat.add, decreaseExponent, Nat.shiftLeft_eq, Sign.apply,
    UnpackedFloat.normalize, Std.compare_eq_gt.mpr hsum]
  rfl

namespace NonNegativeParts

variable {u v : UnpackedFloat}

theorem add (hu : NonNegativeParts u) (hv : NonNegativeParts v) :
    NonNegativeParts (u.add .binary32 v) := by
  cases hu with
  | infinity => cases hv <;> exact .infinity
  | zero =>
      cases hv with
      | infinity => exact .infinity
      | zero => exact .zero
      | finite hpos => exact .finite hpos
  | finite hpos =>
      cases hv with
      | infinity => exact .infinity
      | zero => exact .finite hpos
      | finite hpos' =>
          rw [add_finite]
          exact .round _ _ _

/-- Only zero times infinity is no number. -/
theorem mul {m : Nat} {e : Int} (hpos : 0 < m) (hv : NonNegativeParts v) :
    NonNegativeParts (UnpackedFloat.mul .binary32 (.finite .positive m e hpos) v) := by
  cases hv with
  | infinity => exact .infinity
  | zero => exact .zero
  | finite hpos' => exact .round _ _ _

/-- Only zero by zero and infinity by infinity are no number. -/
theorem div (hu : NonNegativeParts u) {m : Nat} {e : Int} (hpos : 0 < m) :
    NonNegativeParts (u.div .binary32 (.finite .positive m e hpos)) := by
  cases hu with
  | infinity => exact .infinity
  | zero => exact .zero
  | finite hpos' => exact .round _ _ _

end NonNegativeParts

/-- **Sums of numbers that are not negative** are not. -/
theorem NonNegative.add {x y : Float32} (hx : NonNegative x) (hy : NonNegative y) :
    NonNegative (x + y) := by
  rw [add_eq]
  exact (NonNegativeParts.add hx hy).nonNegative

/-! ## Positive numbers -/

/-- A number with a plus and 24 bits, of an exponent in some bounds. -/
def NormalIn (least most : Int) (x : Float32) : Prop :=
  ∃ e, Normal .positive e (parts x) ∧ least ≤ e ∧ e ≤ most

theorem pos_iff (x : Float32) : 0 < x ↔ (UnpackedFloat.zero .positive).lt (parts x) = true := by
  show decide _ = true ↔ _
  rw [decide_eq_true_iff]
  rfl

/-- A sum, a product or a quotient that is rounded to 24 bits is positive. -/
theorem pos_of_normal {e : Int} {u : UnpackedFloat} (h : Normal .positive e u) (hlow : -149 ≤ e) :
    0 < ofParts u := by
  rw [pos_iff, parts_of_normal h hlow]
  obtain ⟨m, hpos, -, -, rfl⟩ := h
  split <;> rfl

/-- A significand that takes on zeros as its exponent is lowered is rounded to 24 bits. -/
theorem round_normal_of_low {m : Nat} {e : Int} (hpos : 0 < m) (hlow : -149 ≤ e + m.log2 - 23) :
    ∃ e', Normal .positive e' (UnpackedFloat.round .binary32 .positive m e) ∧
      e + m.log2 - 23 ≤ e' ∧ e' ≤ e + m.log2 - 22 := by
  obtain ⟨amount, hamount⟩ : ∃ amount,
      (e - Format.binary32.targetExponent (totalExponent m e)).toNat = amount := ⟨_, rfl⟩
  have htarget : (e - max ((m.log2 : Int) + 1 + e - 24) (-149)).toNat = amount := hamount
  have hlog := log2_zeros hpos amount
  obtain ⟨e', hnormal, hleast, hmost⟩ := round_normal .positive (m := m * 2 ^ amount)
    (e := e - amount) .exact (by omega) (by omega)
  refine ⟨e', ?_, by omega, by omega⟩
  simpa only [UnpackedFloat.round, decreaseExponent, hamount, Nat.shiftLeft_eq] using hnormal

/-- **A count from one on** is rounded to 24 bits. -/
theorem normal_ofNat {n : Nat} (hn : 0 < n) :
    ∃ u e, Float32.ofNat n = ofParts u ∧ Normal .positive e u ∧
      (n.log2 : Int) - 23 ≤ e ∧ e ≤ (n.log2 : Int) - 22 := by
  have hshow : Float32.ofNat n = Float32.ofScientific n false 0 := rfl
  rw [hshow, Float32.ofScientific]
  by_cases hsmall : n < 2 ^ 23
  -- a small count is converted and multiplied by one
  · have hone : n.toUInt64.toFloat32 * 1.0 = ofParts (.ofNat Format.binary32 n.toUInt64.toNat) :=
      mul_one _
    have hsame : n.toUInt64.toNat = n := Nat.mod_eq_of_lt (by omega)
    have hround : UnpackedFloat.ofNat Format.binary32 n = .round .binary32 .positive n 0 := by
      rw [UnpackedFloat.ofNat, UnpackedFloat.ofInt, UnpackedFloat.normalize,
        Std.compare_eq_gt.mpr (by omega : (0 : Int) < (n : Int))]
      rfl
    obtain ⟨e, hnormal, hleast, hmost⟩ := round_normal_of_low (e := 0) hn (by omega)
    rw [dif_pos ⟨hsmall, by decide⟩]
    exact ⟨_, e, hone, by rw [hsame, hround]; exact hnormal, by omega, by omega⟩
  -- a larger one gets zeros below and loses them in rounding
  · have hne : n ≠ 0 := Nat.ne_of_gt hn
    have hbits : (2 : Int) ^ Format.binary32.exponentBits = 256 := rfl
    have hlarge : UnpackedFloat.ofScientific Format.binary32 n (Int.ofNat 0)
        = roundWithAccuracy .binary32 .positive (n * 2 ^ 24) (-24) .exact := by
      rw [UnpackedFloat.ofScientific, dif_neg hne, if_neg (by decide),
        if_neg (by rw [hbits]; exact Int.not_lt.mpr (by show _ ≤ (0 : Int); omega)),
        if_pos (by decide)]
      show roundWithAccuracy .binary32 .positive (n <<< 24 * 1) (-24) .exact = _
      rw [Nat.mul_one, Nat.shiftLeft_eq]
    have hlog := log2_zeros hn 24
    obtain ⟨e, hnormal, hleast, hmost⟩ := round_normal .positive (m := n * 2 ^ 24)
      (e := -24) .exact (by omega) (by omega)
    rw [dif_neg fun h => hsmall h.1]
    exact ⟨_, e, rfl, hlarge ▸ hnormal, by omega, by omega⟩

/-- **A count from one on is positive**, however large. -/
theorem ofNat_pos {n : Nat} (hn : 0 < n) : 0 < Float32.ofNat n := by
  obtain ⟨u, e, hu, hnormal, hlow, -⟩ := normal_ofNat hn
  rw [hu]
  exact pos_of_normal hnormal (by omega)

/-- A count of 64 bits is finite. -/
theorem normalIn_ofNat {n : Nat} (hn : 0 < n) (hlt : n < 2 ^ 64) :
    NormalIn (-23) 42 (Float32.ofNat n) := by
  obtain ⟨u, e, hu, hnormal, hlow, hhigh⟩ := normal_ofNat hn
  have hlog : n.log2 < 64 := (Nat.log2_lt (Nat.ne_of_gt hn)).mpr hlt
  refine ⟨e, ?_, by omega, by omega⟩
  rw [hu, parts_of_normal hnormal (by omega), if_pos (by omega)]
  exact hnormal

/-- The quotient of numbers of 24 bits, when it is not too small, is rounded to 24 bits. -/
theorem div_normal {u v : UnpackedFloat} {e e' : Int} (hu : Normal .positive e u)
    (hv : Normal .positive e' v) (hlow : -125 ≤ e - e') :
    ∃ e'', Normal .positive e'' (u.div .binary32 v) ∧ e - e' - 24 ≤ e'' ∧ e'' ≤ e - e' - 22 := by
  obtain ⟨m, hpos, hleast, hmost, rfl⟩ := hu
  obtain ⟨m', hpos', hleast', hmost', rfl⟩ := hv
  have hlog : m.log2 = 23 := log2_eq hleast hmost
  have hlog' : m'.log2 = 23 := log2_eq hleast' hmost'
  -- the quotient is taken with 24 zeros below the first significand
  have htarget : min (e - e') (Format.binary32.targetExponent
      (totalExponent m e - totalExponent m' e')) = e - e' - 24 := by
    show min (e - e') (max ((m.log2 : Int) + 1 + e - ((m'.log2 : Int) + 1 + e') - 24) (-149)) = _
    omega
  have hamount : (e - e' - (e - e' - 24)).toNat = 24 := by omega
  have hdiv : UnpackedFloat.div .binary32 (.finite .positive m e hpos) (.finite .positive m' e' hpos')
      = roundWithAccuracy .binary32 .positive (m * 2 ^ 24 / m') (e - e' - 24)
        (accuracyOfFraction (m * 2 ^ 24 % m') m') := by
    simp only [UnpackedFloat.div, divCore, htarget, hamount, Nat.shiftLeft_eq]
    rfl
  have hbelow : 2 ^ 23 ≤ m * 2 ^ 24 / m' := (Nat.le_div_iff_mul_le hpos').mpr (by omega)
  have habove : m * 2 ^ 24 / m' < 2 ^ 25 := (Nat.div_lt_iff_lt_mul hpos').mpr (by omega)
  have hne : m * 2 ^ 24 / m' ≠ 0 := by omega
  have hfirst : 23 ≤ (m * 2 ^ 24 / m').log2 := (Nat.le_log2 hne).mpr hbelow
  have hlast : (m * 2 ^ 24 / m').log2 < 25 := (Nat.log2_lt hne).mpr habove
  obtain ⟨e'', hnormal, hlow'', hhigh''⟩ := round_normal .positive (e := e - e' - 24)
    (accuracyOfFraction (m * 2 ^ 24 % m') m') hfirst (by omega)
  rw [hdiv]
  exact ⟨e'', hnormal, by omega, by omega⟩

namespace NormalIn

variable {least most least' most' : Int} {x y : Float32}

theorem pos (h : NormalIn least most x) : 0 < x := by
  obtain ⟨e, ⟨m, hpos, -, -, hparts⟩, -⟩ := h
  rw [pos_iff, hparts]
  rfl

theorem nonNegative (h : NormalIn least most x) : NonNegative x := by
  obtain ⟨e, ⟨m, hpos, -, -, hparts⟩, -⟩ := h
  rw [NonNegative, hparts]
  exact .finite hpos

/-- **The quotient of numbers of 24 bits** has as many, where its exponent is one of a number. -/
theorem div (hx : NormalIn least most x) (hy : NormalIn least' most' y)
    (hlow : -125 ≤ least - most') (hhigh : most - least' ≤ 126) :
    NormalIn (least - most' - 24) (most - least' - 22) (x / y) := by
  obtain ⟨e, hu, hleast, hmost⟩ := hx
  obtain ⟨e', hv, hleast', hmost'⟩ := hy
  obtain ⟨e'', hnormal, hlow'', hhigh''⟩ := div_normal hu hv (by omega)
  refine ⟨e'', ?_, by omega, by omega⟩
  show Normal .positive e'' (parts (ofParts (.div Format.binary32 (parts x) (parts y))))
  rw [parts_of_normal hnormal (by omega), if_pos (by omega)]
  exact hnormal

end NormalIn

/-- A product with a number that is not negative. -/
theorem NonNegative.mul {least most : Int} {x y : Float32} (hx : NormalIn least most x)
    (hy : NonNegative y) : NonNegative (x * y) := by
  obtain ⟨e, ⟨m, hpos, -, -, hparts⟩, -⟩ := hx
  rw [mul_eq, hparts]
  exact (NonNegativeParts.mul hpos hy).nonNegative

/-- A quotient by a number of 24 bits, which may be infinite. -/
theorem NonNegative.div {least most : Int} {x y : Float32} (hx : NonNegative x)
    (hy : NormalIn least most y) : NonNegative (x / y) := by
  obtain ⟨e, ⟨m, hpos, -, -, hparts⟩, -⟩ := hy
  show NonNegative (ofParts (.div Format.binary32 (parts x) (parts y)))
  rw [hparts]
  exact (NonNegativeParts.div hx hpos).nonNegative

/-- A count is not negative, however large. -/
theorem nonNegative_ofNat {n : Nat} (hn : 0 < n) : NonNegative (Float32.ofNat n) := by
  obtain ⟨u, e, hu, ⟨m, hpos, -, -, rfl⟩, -⟩ := normal_ofNat hn
  rw [hu]
  exact (NonNegativeParts.finite hpos).nonNegative

/-- **A count makes a sum positive** that was not negative without it. -/
theorem NonNegative.add_ofNat_pos {x : Float32} (hx : NonNegative x) {n : Nat} (hn : 0 < n) :
    0 < x + Float32.ofNat n := by
  obtain ⟨v, e, hv, hnormal, hlow, -⟩ := normal_ofNat hn
  rw [add_eq, hv, parts_of_normal hnormal (by omega)]
  unfold NonNegative at hx
  generalize parts x = u at hx
  have hinfinity : 0 < ofParts (.infinity .positive) := by
    rw [pos_iff, parts_infinity]
    rfl
  by_cases hhigh : e ≤ 104
  · rw [if_pos hhigh]
    cases hx with
    | infinity =>
        obtain ⟨m, hpos, -, -, rfl⟩ := hnormal
        exact hinfinity
    | zero =>
        have hpos' := pos_of_normal hnormal (by omega)
        obtain ⟨m, hpos, -, -, rfl⟩ := hnormal
        exact hpos'
    | @finite m' e' hpos' =>
        obtain ⟨m, hpos, hleast, -, rfl⟩ := hnormal
        rw [add_finite]
        -- the sum is no less than the count, so its first bit stands no lower
        generalize hamount : (e - min e' e).toNat = amount
        generalize m' * 2 ^ (e' - min e' e).toNat = other
        have hsum : 2 ^ (23 + amount) ≤ other + m * 2 ^ amount := by
          rw [Nat.pow_add]
          exact Nat.le_trans (Nat.mul_le_mul_right _ hleast) (Nat.le_add_left _ _)
        have hsome : 0 < other + m * 2 ^ amount := Nat.lt_of_lt_of_le (Nat.two_pow_pos _) hsum
        have hlog := (Nat.le_log2 (Nat.ne_of_gt hsome)).mpr hsum
        obtain ⟨e'', hrounded, hleast'', -⟩ := round_normal_of_low (e := min e' e) hsome (by omega)
        exact pos_of_normal hrounded (by omega)
  · rw [if_neg hhigh]
    cases hx <;> exact hinfinity

end FeatureRank.Number
