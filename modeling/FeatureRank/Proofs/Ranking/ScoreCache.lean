import FeatureRank.Number.Binary
import FeatureRank.Proofs.Feature.Vector
import FeatureRank.Ranking.ScoreCache

/-! # The score cache — what is kept of a vector and what comes back

    A cache keeps one score for each feature of a document, NaN where the feature
    did not match (`FeatureVector.kept`).  Replaying sets the ordinals whose score
    is a number and no others (`ScoreCache.setMatched_ok`), so a vector comes back
    without its values that are no numbers (`FeatureVector.replayed`).  An entry
    that is there stays (`ScoreCache.get?_insertOnce`). -/

namespace FeatureRank

namespace FeatureVector

/-- What a score cache keeps of a vector: the values of some ordinals in order,
    NaN for those that are not set. -/
def kept (v : FeatureVector) (first count : Nat) : List Float32 :=
  (List.range' first count).map fun i => (v.get? i).getD Number.nan32

/-- The cache keeps the value of the first ordinal and then those of the others. -/
theorem kept_succ (v : FeatureVector) (first count : Nat) :
    v.kept first (count + 1)
      = (v.get? first).getD Number.nan32 :: v.kept (first + 1) count := by
  simp only [FeatureVector.kept, List.range'_succ, List.map_cons]

@[simp] theorem length_kept (v : FeatureVector) (first count : Nat) :
    (v.kept first count).length = count := by
  unfold kept
  rw [List.length_map, List.length_range']

theorem getElem?_kept {v : FeatureVector} {count i : Nat} (hi : i < count) :
    (v.kept 0 count)[i]? = some ((v.get? i).getD Number.nan32) := by
  unfold kept
  rw [List.getElem?_map, List.getElem?_range' hi, Option.map_some, Nat.zero_add, Nat.one_mul]

/-- The vector without the values that are no numbers. -/
def replayed (v : FeatureVector) : FeatureVector :=
  { v with values := (v.values.toList.map (·.filter (!·.isNaN))).toArray }

@[simp] theorem size_replayed (v : FeatureVector) : v.replayed.size = v.size := by
  unfold replayed size
  rw [List.size_toArray, List.length_map, Array.length_toList]

theorem get?_replayed (v : FeatureVector) (i : Nat) :
    v.replayed.get? i = (v.get? i).filter (!·.isNaN) := by
  unfold replayed get?
  rw [List.getElem?_toArray, List.getElem?_map, Array.getElem?_toList]
  cases v.values[i]? with
  | none => rfl
  | some value => rfl

/-- **A vector comes back as it was** just when all its values are numbers. -/
theorem replayed_eq_iff {v : FeatureVector} :
    v.replayed = v ↔ ∀ i x, v.get? i = some x → x.isNaN = false := by
  constructor
  · intro h i x hx
    have hi : (v.get? i).filter (!·.isNaN) = v.get? i := by rw [← get?_replayed, h]
    rw [hx] at hi
    cases hnan : x.isNaN with
    | false => rfl
    | true =>
        have hnone : (some x).filter (!·.isNaN) = none := by rw [Option.filter_some, hnan]; rfl
        rw [hnone] at hi
        exact nomatch hi
  · intro h
    refine eq_of_get? (size_replayed v) rfl ?_
    intro i
    rw [get?_replayed]
    cases hi : v.get? i with
    | none => rfl
    | some x =>
        rw [Option.filter_some, h i x hi]
        rfl

end FeatureVector

/-! ## Scores that are numbers -/

/-- A score that is no number stands for a missing one. -/
theorem filter_of_isNaN {score : Float32} (h : score.isNaN = true) :
    (some score).filter (!·.isNaN) = none := by
  rw [Option.filter_some, h]
  rfl

/-- A score that is a number stands for itself. -/
theorem filter_of_not_isNaN {score : Float32} (h : ¬score.isNaN = true) :
    (some score).filter (!·.isNaN) = some score := by
  rw [Option.filter_some, Bool.eq_false_iff.mpr h]
  rfl

namespace ScoreCache

/-- Recorded scores put into a vector: those that are numbers are set. -/
theorem setMatched_ok (scores : List Float32) :
    ∀ (v : FeatureVector) (ordinal : Nat), ordinal + scores.length ≤ v.size →
      ∃ v', setMatched v ordinal scores = .ok v' ∧ v'.size = v.size ∧ v'.default = v.default ∧
        (∀ i < ordinal, v'.get? i = v.get? i) ∧
        ∀ i, v'.get? (ordinal + i)
          = ((scores[i]?).filter (!·.isNaN)).or (v.get? (ordinal + i)) := by
  induction scores with
  | nil =>
      intro v ordinal _
      exact ⟨v, rfl, rfl, rfl, fun _ _ => rfl, fun _ => rfl⟩
  | cons score rest ih =>
      intro v ordinal hsize
      rw [List.length_cons] at hsize
      by_cases hnan : score.isNaN = true
      · obtain ⟨v', hv', hsize', hdefault', hbefore, hget⟩ := ih v (ordinal + 1) (by omega)
        refine ⟨v', ?_, hsize', hdefault', fun i hi => hbefore i (by omega), ?_⟩
        · unfold setMatched
          rw [if_pos hnan]
          exact bind_eq_ok.mpr ⟨v, rfl, hv'⟩
        · intro i
          cases i with
          | zero =>
              rw [Nat.add_zero, hbefore ordinal (Nat.lt_succ_self ordinal), List.getElem?_cons_zero,
                filter_of_isNaN hnan, Option.none_or]
          | succ i =>
              rw [show ordinal + (i + 1) = ordinal + 1 + i by omega]
              exact hget i
      · obtain ⟨v₁, hv₁, hsize₁, hdefault₁, hget₁⟩ :=
          FeatureVector.set_ok (show ordinal < v.size by omega) score
        obtain ⟨v', hv', hsize', hdefault', hbefore, hget⟩ := ih v₁ (ordinal + 1) (by omega)
        refine ⟨v', ?_, hsize'.trans hsize₁, hdefault'.trans hdefault₁, ?_, ?_⟩
        · unfold setMatched
          rw [if_neg hnan]
          exact bind_eq_ok.mpr ⟨v₁, hv₁, hv'⟩
        · intro i hi
          rw [hbefore i (by omega), hget₁ i, if_neg (by omega)]
        · intro i
          cases i with
          | zero =>
              rw [Nat.add_zero, hbefore ordinal (Nat.lt_succ_self ordinal), hget₁, if_pos rfl,
                List.getElem?_cons_zero, filter_of_not_isNaN hnan, Option.some_or]
          | succ i =>
              rw [show ordinal + (i + 1) = ordinal + 1 + i by omega, hget i, hget₁,
                if_neg (by omega)]
              rfl

/-- Replaying sets numbers only. -/
theorem setMatched_isNumber {scores : List Float32} {ordinal : Nat} {v v' : FeatureVector}
    (hv : ∀ i x, v.get? i = some x → x.isNaN = false)
    (h : setMatched v ordinal scores = .ok v') :
    ∀ i x, v'.get? i = some x → x.isNaN = false := by
  induction scores generalizing ordinal v with
  | nil =>
      rw [← Except.ok.inj h]
      exact hv
  | cons score rest ih =>
      unfold setMatched at h
      by_cases hnan : score.isNaN = true
      · rw [if_pos hnan] at h
        obtain ⟨v₁, hv₁, h⟩ := bind_eq_ok.mp h
        rw [← Except.ok.inj hv₁] at h
        exact ih hv h
      · rw [if_neg hnan] at h
        obtain ⟨v₁, hv₁, h⟩ := bind_eq_ok.mp h
        obtain ⟨-, -, -, hget⟩ := FeatureVector.set_eq_ok hv₁
        refine ih ?_ h
        intro i x hx
        rw [hget i] at hx
        by_cases hi : i = ordinal
        · rw [if_pos hi] at hx
          rw [← Option.some.inj hx]
          exact Bool.eq_false_iff.mpr hnan
        · rw [if_neg hi] at hx
          exact hv i x hx

/-- **What is kept of a vector comes back** without the values that are no numbers. -/
theorem setMatched_kept {v : FeatureVector} {features : Nat} (hsize : features ≤ v.size)
    (hbeyond : ∀ i, features ≤ i → v.get? i = none) :
    setMatched (.ofSize v.size v.default) 0 (v.kept 0 features) = .ok v.replayed := by
  obtain ⟨v', hv', hsize', hdefault', -, hget⟩ := setMatched_ok (v.kept 0 features)
    (.ofSize v.size v.default) 0 (by
      rw [FeatureVector.length_kept, FeatureVector.size_ofSize]
      omega)
  rw [hv']
  refine congrArg Except.ok (FeatureVector.eq_of_get? ?_ hdefault' ?_)
  · rw [hsize', FeatureVector.size_ofSize, FeatureVector.size_replayed]
  · intro i
    have hi := hget i
    rw [Nat.zero_add, FeatureVector.get?_ofSize, Option.or_none] at hi
    rw [hi, FeatureVector.get?_replayed]
    by_cases hlt : i < features
    · rw [FeatureVector.getElem?_kept hlt]
      cases v.get? i with
      | none => exact filter_of_isNaN (by decide)
      | some value => rfl
    · rw [List.getElem?_eq_none (by rw [FeatureVector.length_kept]; omega),
        hbeyond i (Nat.le_of_not_lt hlt)]

/-- Replaying changes neither the size of a vector nor its default. -/
theorem setMatched_size {scores : List Float32} {ordinal : Nat} {v v' : FeatureVector}
    (h : setMatched v ordinal scores = .ok v') : v'.size = v.size ∧ v'.default = v.default := by
  induction scores generalizing ordinal v with
  | nil =>
      rw [← Except.ok.inj h]
      exact ⟨rfl, rfl⟩
  | cons score rest ih =>
      unfold setMatched at h
      by_cases hnan : score.isNaN = true
      · rw [if_pos hnan] at h
        obtain ⟨v₁, hv₁, h⟩ := bind_eq_ok.mp h
        rw [Except.ok.inj hv₁]
        exact ih h
      · rw [if_neg hnan] at h
        obtain ⟨v₁, hv₁, h⟩ := bind_eq_ok.mp h
        obtain ⟨-, hsize, hdefault, -⟩ := FeatureVector.set_eq_ok hv₁
        exact ⟨(ih h).1.trans hsize, (ih h).2.trans hdefault⟩

/-- What the cache holds for a document stays once it is there. -/
theorem get?_insertOnce (c : ScoreCache) (doc : Nat) (scores : List Float32) (other : Nat) :
    (c.insertOnce doc scores).get? other
      = if other = doc ∧ c.get? doc = none then some scores else c.get? other := by
  unfold insertOnce get?
  rw [Std.TreeMap.getElem?_insertIfNew]
  by_cases hother : other = doc
  · rw [hother]
    by_cases hmem : doc ∈ c.entries
    · have hsome : c.entries[doc]? ≠ none := by
        rw [Std.TreeMap.getElem?_eq_some_getElem hmem]
        exact fun h => nomatch h
      rw [if_neg (by simp [hmem]), if_neg (fun h => hsome h.2)]
    · have hnone : c.entries[doc]? = none := Std.TreeMap.getElem?_eq_none hmem
      rw [if_pos (by simp [hmem]), if_pos ⟨rfl, hnone⟩]
  · rw [if_neg (by simp [Ne.symm hother]), if_neg (fun h => hother h.1)]

theorem contains_eq_false {c : ScoreCache} {doc : Nat} :
    c.contains doc = false ↔ c.get? doc = none := by
  unfold contains get?
  rw [Std.TreeMap.contains_eq_isSome_getElem?, Option.isSome_eq_false_iff, Option.isNone_iff_eq_none]

theorem contains_insertOnce {c : ScoreCache} {doc other : Nat} {scores : List Float32}
    (h : c.contains other = true) : (c.insertOnce doc scores).contains other = true := by
  unfold contains insertOnce at *
  rw [Std.TreeMap.contains_insertIfNew, h, Bool.or_true]

/-- A cache that holds what another one holds. -/
def Extends (more c : ScoreCache) : Prop :=
  ∀ doc scores, c.get? doc = some scores → more.get? doc = some scores

theorem Extends.refl (c : ScoreCache) : c.Extends c := fun _ _ h => h

theorem Extends.trans {a b c : ScoreCache} (hab : a.Extends b) (hbc : b.Extends c) :
    a.Extends c := fun doc scores h => hab doc scores (hbc doc scores h)

/-- **Recording changes no entry.** -/
theorem insertOnce_extends (c : ScoreCache) (doc : Nat) (scores : List Float32) :
    (c.insertOnce doc scores).Extends c := by
  intro other held h
  rw [get?_insertOnce, if_neg ?_]
  · exact h
  · rintro ⟨rfl, hnone⟩
    rw [h] at hnone
    exact nomatch hnone

theorem contains_of_get? {c : ScoreCache} {doc : Nat} {scores : List Float32}
    (h : c.get? doc = some scores) : c.contains doc = true := by
  cases hcontains : c.contains doc with
  | true => rfl
  | false =>
      rw [contains_eq_false.mp hcontains] at h
      exact nomatch h

end ScoreCache

end FeatureRank
