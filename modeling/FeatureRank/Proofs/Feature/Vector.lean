import FeatureRank.Feature.Vector
import FeatureRank.Proofs.Outcome

/-! # Vectors as partial maps

    A feature vector is known by its size, its default and the values of the
    ordinals that are set (`FeatureVector.eq_of_get?`).  Everything that fills or
    reuses a vector is described by what it does to `get?`. -/

namespace FeatureRank

namespace FeatureVector

theorem get?_of_le {v : FeatureVector} {i : Nat} (h : v.size ≤ i) : v.get? i = none := by
  unfold get?
  rw [Array.getElem?_eq_none h]
  rfl

theorem get?_of_lt {v : FeatureVector} {i : Nat} (h : i < v.values.size) :
    v.get? i = v.values[i] := by
  unfold get?
  rw [Array.getElem?_eq_getElem h]
  rfl

/-- The values of a vector, as a list. -/
theorem getElem?_values {v : FeatureVector} {i : Nat} (h : i < v.size) :
    v.values.toList[i]? = some (v.get? i) := by
  have hlt : i < v.values.size := h
  rw [get?_of_lt hlt, Array.getElem?_toList, Array.getElem?_eq_getElem hlt]

/-- Vectors that read the same at every ordinal are the same. -/
theorem eq_of_get? {a b : FeatureVector} (hsize : a.size = b.size)
    (hdefault : a.default = b.default) (h : ∀ i, a.get? i = b.get? i) : a = b := by
  obtain ⟨values, default⟩ := a
  obtain ⟨values', default'⟩ := b
  have hvalues : values = values' := by
    refine Array.ext hsize ?_
    intro i hi hi'
    have := h i
    rw [get?_of_lt (v := ⟨values, default⟩) hi, get?_of_lt (v := ⟨values', default'⟩) hi'] at this
    exact this
  have hdefault' : default = default' := hdefault
  rw [hvalues, hdefault']

@[simp] theorem size_ofSize (size : Nat) (default : Float32) :
    (ofSize size default).size = size := Array.size_replicate

@[simp] theorem get?_ofSize (size : Nat) (default : Float32) (i : Nat) :
    (ofSize size default).get? i = none := by
  by_cases h : i < (ofSize size default).size
  · rw [get?_of_lt h]
    exact Array.getElem_replicate _
  · exact get?_of_le (Nat.le_of_not_lt h)

/-- A vector that was made for the same size and default is as good as a new one. -/
theorem renew_eq {reuse : Option FeatureVector} {size : Nat} {default : Float32}
    (h : ∀ v, reuse = some v → v.size = size ∧ v.default = default) :
    renew reuse size default = ofSize size default := by
  cases reuse with
  | none => rfl
  | some v =>
      obtain ⟨hsize, hdefault⟩ := h v rfl
      simp only [renew, reset, hsize, hdefault]
      exact ite_self _

/-- An ordinal below the size can be set, and nothing else changes. -/
theorem set_ok {v : FeatureVector} {ordinal : Nat} (h : ordinal < v.size) (value : Float32) :
    ∃ v', v.set ordinal value = .ok v' ∧ v'.size = v.size ∧ v'.default = v.default ∧
      ∀ i, v'.get? i = if i = ordinal then some value else v.get? i := by
  refine ⟨_, if_pos h, Array.size_setIfInBounds, rfl, ?_⟩
  intro i
  unfold get?
  rw [Array.getElem?_setIfInBounds]
  by_cases hi : i = ordinal
  · have hlt : ordinal < v.values.size := h
    rw [if_pos hi.symm, if_pos hlt, if_pos hi]
    rfl
  · rw [if_neg (fun h => hi h.symm), if_neg hi]

/-- What setting an ordinal comes to, when it succeeds. -/
theorem set_eq_ok {v v' : FeatureVector} {ordinal : Nat} {value : Float32}
    (h : v.set ordinal value = .ok v') :
    ordinal < v.size ∧ v'.size = v.size ∧ v'.default = v.default ∧
      ∀ i, v'.get? i = if i = ordinal then some value else v.get? i := by
  have hlt : ordinal < v.size := by
    by_contra hge
    rw [set, if_neg hge] at h
    exact nomatch h
  obtain ⟨v'', hset, hrest⟩ := set_ok hlt value
  rw [h] at hset
  rw [Except.ok.inj hset]
  exact ⟨hlt, hrest⟩

/-! ## The part of a vector that a feature reads -/

/-- The vector with only the ordinals below one. -/
def below (v : FeatureVector) (ordinal : Nat) : FeatureVector :=
  { v with values := v.values.mapIdx fun i value => if i < ordinal then value else none }

@[simp] theorem size_below (v : FeatureVector) (ordinal : Nat) :
    (v.below ordinal).size = v.size := Array.size_mapIdx

@[simp] theorem default_below (v : FeatureVector) (ordinal : Nat) :
    (v.below ordinal).default = v.default := rfl

theorem get?_below (v : FeatureVector) (ordinal i : Nat) :
    (v.below ordinal).get? i = if i < ordinal then v.get? i else none := by
  by_cases h : i < v.size
  · have h' : i < (v.below ordinal).size := by rw [size_below]; exact h
    rw [get?_of_lt h', get?_of_lt h]
    exact Array.getElem_mapIdx _
  · have hle : v.size ≤ i := Nat.le_of_not_lt h
    rw [get?_of_le (v := v.below ordinal) (by rw [size_below]; exact hle), get?_of_le hle, ite_self]

/-- The vector with another value for the ordinals that are not set. -/
def withDefault (v : FeatureVector) (default : Float32) : FeatureVector := { v with default }

@[simp] theorem size_withDefault (v : FeatureVector) (default : Float32) :
    (v.withDefault default).size = v.size := rfl

@[simp] theorem get?_withDefault (v : FeatureVector) (default : Float32) (i : Nat) :
    (v.withDefault default).get? i = v.get? i := rfl

theorem below_withDefault (v : FeatureVector) (default : Float32) (ordinal : Nat) :
    (v.withDefault default).below ordinal = (v.below ordinal).withDefault default := rfl

end FeatureVector

end FeatureRank
