import FeatureRank.Proofs.Feature.FirstMatch
import FeatureRank.Proofs.Ranking.Replay

/-! # The meaning of a ranking weight

    What a ranking weight makes of a document is read off the terms of the
    document, or off the scores that were kept for it
    (`RankingWeight.scoredOn`).  A scorer that has come to the document scores
    just this and keeps the scores (`RankingScorer.Tracks.score_ofDocs`), and the
    explanation is read off the terms too (`RankingWeight.explain_ofDocs`). -/

namespace FeatureRank

open DocWalk

/-! ## Vectors and kept scores -/

namespace FeatureVector

/-- The vector with a value for an ordinal, as it was when the ordinal is beyond it. -/
def put (v : FeatureVector) (ordinal : Nat) (value : Float32) : FeatureVector :=
  { v with values := v.values.setIfInBounds ordinal (some value) }

@[simp] theorem size_put (v : FeatureVector) (ordinal : Nat) (value : Float32) :
    (v.put ordinal value).size = v.size := Array.size_setIfInBounds

theorem set_eq_put {v : FeatureVector} {ordinal : Nat} (h : ordinal < v.size) (value : Float32) :
    v.set ordinal value = .ok (v.put ordinal value) := if_pos h

theorem get?_put_self {v : FeatureVector} {ordinal : Nat} (h : ordinal < v.size)
    (value : Float32) : (v.put ordinal value).get? ordinal = some value :=
  ((set_eq_ok (set_eq_put h value)).2.2.2 ordinal).trans (if_pos rfl)

theorem get?_put_of_ne (v : FeatureVector) {ordinal i : Nat} (value : Float32) (h : i ≠ ordinal) :
    (v.put ordinal value).get? i = v.get? i := by
  show (v.values.setIfInBounds ordinal (some value))[i]?.join = v.values[i]?.join
  rw [Array.getElem?_setIfInBounds_ne h.symm]

/-- The vector with kept scores from an ordinal on; NaN leaves its ordinal as it is. -/
def putKept (v : FeatureVector) (ordinal : Nat) : List Float32 → FeatureVector
  | [] => v
  | score :: rest => (if score.isNaN then v else v.put ordinal score).putKept (ordinal + 1) rest

@[simp] theorem size_putKept (scores : List Float32) :
    ∀ (v : FeatureVector) (ordinal : Nat), (v.putKept ordinal scores).size = v.size := by
  induction scores with
  | nil => exact fun _ _ => rfl
  | cons score rest ih =>
      intro v ordinal
      unfold putKept
      rw [ih]
      split
      · rfl
      · exact size_put v ordinal score

theorem setMatched_eq_putKept (scores : List Float32) :
    ∀ {v : FeatureVector} {ordinal : Nat}, ordinal + scores.length ≤ v.size →
      ScoreCache.setMatched v ordinal scores = .ok (v.putKept ordinal scores) := by
  induction scores with
  | nil => exact fun _ => rfl
  | cons score rest ih =>
      intro v ordinal hroom
      rw [List.length_cons] at hroom
      unfold ScoreCache.setMatched putKept
      by_cases hnan : score.isNaN = true
      · rw [if_pos hnan, if_pos hnan]
        exact ih (by omega)
      · rw [if_neg hnan, if_neg hnan, set_eq_put (by omega)]
        exact ih (by rw [size_put]; omega)

end FeatureVector

/-- Kept scores that have room in a vector of some features. -/
def ScoreCache.Fits (features : Nat) (cache : Option ScoreCache) : Prop :=
  ∀ key kept, cache.bind (·.get? key) = some kept → kept.length ≤ features

namespace ScoreCache.Fits

theorem none (features : Nat) : ScoreCache.Fits features none := fun _ _ h => nomatch h

theorem empty (features : Nat) : ScoreCache.Fits features (some .empty) := by
  intro key kept h
  exact nomatch h

/-- A cache that fits, or an empty one for none. -/
theorem getD_empty {features : Nat} {cache : Option ScoreCache}
    (h : ScoreCache.Fits features cache) : ScoreCache.Fits features (some (cache.getD .empty)) := by
  cases cache with
  | none => exact empty features
  | some held => exact h

end ScoreCache.Fits

namespace RankingWeight

/-! ## What a ranking weight says -/

/-- The values of the features of a document from an ordinal on. -/
def collectOn (doc : List TermId) (ordinal : Nat) (vector : FeatureVector) :
    List Weight → RankingScorer.Collected
  | [] => { vector }
  | weight :: rest =>
    if weight.matchesDoc doc then
      let score := weight.valueOn doc (some vector)
      let collected := collectOn doc (ordinal + 1) (vector.put ordinal score) rest
      { collected with
        scores := score :: collected.scores
        extras := (weight.extraOn (some vector)).toList ++ collected.extras }
    else
      let collected := collectOn doc (ordinal + 1) vector rest
      { collected with scores := Number.nan32 :: collected.scores }

theorem length_collectOn (doc : List TermId) (weights : List Weight) :
    ∀ (ordinal : Nat) (vector : FeatureVector),
      (collectOn doc ordinal vector weights).scores.length = weights.length := by
  induction weights with
  | nil => exact fun _ _ => rfl
  | cons weight rest ih =>
      intro ordinal vector
      unfold collectOn
      by_cases hmatch : weight.matchesDoc doc = true
      · rw [if_pos hmatch]
        simp [ih]
      · rw [if_neg hmatch]
        simp [ih]

theorem size_collectOn (doc : List TermId) (weights : List Weight) :
    ∀ (ordinal : Nat) (vector : FeatureVector),
      (collectOn doc ordinal vector weights).vector.size = vector.size := by
  induction weights with
  | nil => exact fun _ _ => rfl
  | cons weight rest ih =>
      intro ordinal vector
      unfold collectOn
      by_cases hmatch : weight.matchesDoc doc = true
      · rw [if_pos hmatch]
        exact (ih _ _).trans (FeatureVector.size_put _ _ _)
      · rw [if_neg hmatch]
        exact ih _ _

/-- The vector that the values of a document are put into. -/
def emptyVector (w : RankingWeight) : FeatureVector :=
  .ofSize w.ranker.featureCount w.ranker.default

/-- The values of the features of a document, from the scores that were kept for it
    if there are any. -/
def gatheredOn (w : RankingWeight) (doc : List TermId) :
    Option (List Float32) → RankingScorer.Collected
  | some kept => { vector := w.emptyVector.putKept 0 kept }
  | none => collectOn doc 0 w.emptyVector w.weights

/-- The vector of a document has a place for each value of the ranker. -/
theorem size_gatheredOn (w : RankingWeight) (doc : List TermId) (kept : Option (List Float32)) :
    (w.gatheredOn doc kept).vector.size = w.ranker.featureCount := by
  cases kept with
  | some scores =>
      exact (FeatureVector.size_putKept _ _ _).trans (FeatureVector.size_ofSize _ _)
  | none => exact (size_collectOn _ _ _ _).trans (FeatureVector.size_ofSize _ _)

/-- What the score of a document is made of. -/
def scoredOn (w : RankingWeight) (doc : List TermId) (kept : Option (List Float32)) : Scored where
  value := w.ranker.score (w.gatheredOn doc kept).vector
  features := some (w.gatheredOn doc kept).vector
  extras := if w.ranker.isLogging then (w.gatheredOn doc kept).extras else []

/-- The cache after a document was scored. -/
def keptOn (w : RankingWeight) (doc : List TermId) (key : Nat) (cache : Option ScoreCache) :
    Option ScoreCache :=
  match cache.bind (·.get? key) with
  | some _ => cache
  | none => cache.map (·.insertOnce key (collectOn doc 0 w.emptyVector w.weights).scores)

/-- Scoring a document says nothing new about the others. -/
theorem get?_keptOn (w : RankingWeight) (doc : List TermId) {key other : Nat}
    (hne : other ≠ key) (cache : Option ScoreCache) :
    (w.keptOn doc key cache).bind (·.get? other) = cache.bind (·.get? other) := by
  unfold keptOn
  cases cache with
  | none => rfl
  | some held =>
      cases hkept : (some held).bind (·.get? key) with
      | some kept => rfl
      | none => exact (ScoreCache.get?_insertOnce held key _ other).trans (if_neg fun h => hne h.1)

/-- A cache that held nothing for a document holds its scores now. -/
theorem get?_keptOn_self (w : RankingWeight) (doc : List TermId) {key : Nat} {held : ScoreCache}
    (h : held.get? key = none) :
    (w.keptOn doc key (some held)).bind (·.get? key)
      = some (collectOn doc 0 w.emptyVector w.weights).scores := by
  have hnone : (some held).bind (·.get? key) = none := h
  unfold keptOn
  rw [hnone]
  exact (ScoreCache.get?_insertOnce held key _ key).trans (if_pos ⟨rfl, h⟩)

/-- A cache that held the scores of a document stays as it is. -/
theorem keptOn_of_held (w : RankingWeight) (doc : List TermId) {key : Nat}
    {cache : Option ScoreCache} (h : (cache.bind (·.get? key)).isSome = true) :
    w.keptOn doc key cache = cache := by
  obtain ⟨kept, hkept⟩ := Option.isSome_iff_exists.mp h
  unfold keptOn
  rw [hkept]

theorem isSome_keptOn (w : RankingWeight) (doc : List TermId) (key : Nat)
    (cache : Option ScoreCache) : (w.keptOn doc key cache).isSome = cache.isSome := by
  unfold keptOn
  cases cache.bind (·.get? key) with
  | some kept => rfl
  | none => exact Option.isSome_map

theorem fits_keptOn {w : RankingWeight} (hcount : w.weights.length ≤ w.ranker.featureCount)
    {cache : Option ScoreCache} (hfits : ScoreCache.Fits w.ranker.featureCount cache)
    (doc : List TermId) (key : Nat) :
    ScoreCache.Fits w.ranker.featureCount (w.keptOn doc key cache) := by
  intro other kept hkept
  by_cases hother : other = key
  · cases hcache : cache with
    | none =>
        rw [hcache] at hkept
        exact nomatch hkept
    | some held =>
        cases hheld : held.get? key with
        | some old =>
            have hsame : w.keptOn doc key cache = cache := by
              simp [keptOn, hcache, hheld]
            rw [hsame] at hkept
            exact hfits other kept hkept
        | none =>
            have hnew : w.keptOn doc key cache = some (held.insertOnce key
                (collectOn doc 0 w.emptyVector w.weights).scores) := by
              simp [keptOn, hcache, hheld]
            rw [hnew, hother, Option.bind_some, ScoreCache.get?_insertOnce,
              if_pos ⟨rfl, hheld⟩] at hkept
            rw [← Option.some.inj hkept, length_collectOn]
            exact hcount
  · rw [get?_keptOn w doc hother] at hkept
    exact hfits other kept hkept

end RankingWeight

/-! ## Scoring -/

section

variable {docs : List (List TermId)} {index : Nat} {doc : List TermId}
  (hdoc : docs[index]? = some doc)

include hdoc in
/-- **Collecting the values** of a document from scorers that were brought to it. -/
theorem RankingScorer.collect_ofDocs {weights : List Weight} :
    ∀ {walks : List (Option FeatureScorer)} {ordinal : Nat} {vector : FeatureVector},
      walks.map (·.filter (·.stop = .doc (index + 1)))
        = weights.map (·.scorerAt? (Segment.ofDocs docs) (index + 1)) →
      ordinal + weights.length ≤ vector.size →
      collect (index + 1) ordinal vector walks
        = .ok (RankingWeight.collectOn doc ordinal vector weights) := by
  induction weights with
  | nil =>
      intro walks ordinal vector hwalks _
      rw [List.map_eq_nil_iff.mp (hwalks.trans rfl)]
      rfl
  | cons weight rest ih =>
      intro walks ordinal vector hwalks hroom
      cases walks with
      | nil => exact nomatch hwalks
      | cons walk others =>
          rw [List.map_cons, List.map_cons, List.cons.injEq] at hwalks
          rw [List.length_cons] at hroom
          unfold collect RankingWeight.collectOn
          rw [hwalks.1]
          rcases Weight.scorerAt?_ofDocs hdoc weight with ⟨hnot, hnone⟩ | ⟨hmatch, s, hs, hreads⟩
          · rw [hnone, hnot]
            exact bind_eq_ok.mpr ⟨_, ih hwalks.2 (by omega), rfl⟩
          · rw [hs, hmatch]
            simp only [hreads.extra]
            refine bind_eq_ok.mpr ⟨_, hreads.score (some vector), ?_⟩
            refine bind_eq_ok.mpr ⟨_, FeatureVector.set_eq_put (by omega) _, ?_⟩
            exact bind_eq_ok.mpr
              ⟨_, ih hwalks.2 (by rw [FeatureVector.size_put]; omega), rfl⟩

include hdoc in
/-- What is gathered for a document is read off its terms or its kept scores. -/
theorem RankingScorer.Tracks.gather_ofDocs {w : RankingWeight} {reader : SegmentReader}
    {s : RankingScorer} (h : Tracks w reader s) (hsegment : reader.segment = .ofDocs docs)
    (hcount : w.weights.length ≤ w.ranker.featureCount)
    (hfits : ScoreCache.Fits w.ranker.featureCount s.walk.cache)
    (hstop : s.walk.stop = .doc (index + 1)) :
    s.gather (index + 1)
      = .ok (w.gatheredOn doc (s.walk.cache.bind (·.get? (reader.docBase + (index + 1)))),
          w.keptOn doc (reader.docBase + (index + 1)) s.walk.cache) := by
  have habsolute : s.walk.absolute (index + 1) = reader.docBase + (index + 1) :=
    congrArg (· + (index + 1)) h.docBase
  cases hkept : s.walk.cache.bind (·.get? (reader.docBase + (index + 1))) with
  | some scores =>
      obtain ⟨held, hcache, hget⟩ := Option.bind_eq_some_iff.mp hkept
      have hset : ScoreCache.setMatched (s.ranker.newVector s.vector) 0 scores
          = .ok (w.emptyVector.putKept 0 scores) := by
        rw [h.newVector]
        refine FeatureVector.setMatched_eq_putKept scores ?_
        rw [Nat.zero_add, FeatureVector.size_ofSize]
        exact hfits _ scores hkept
      have hafter : w.keptOn doc (reader.docBase + (index + 1)) s.walk.cache = some held := by
        simp [RankingWeight.keptOn, hcache, hget]
      rw [gather_held hcache (by rw [habsolute]; exact hget) hset, hafter]
      rfl
  | none =>
      have hfree : s.walk.isHeld (index + 1) = false := by
        unfold Disjunction.isHeld
        cases hcache : s.walk.cache with
        | none => rfl
        | some held =>
            simp only [hcache] at hkept
            rw [habsolute]
            exact ScoreCache.contains_eq_false.mpr hkept
      have hsettled := h.settled (hsegment ▸ Segment.built_ofDocs docs) hstop
        (Nat.succ_pos index) hfree
      rw [hsegment] at hsettled
      have hcollect : collect (index + 1) 0 (.ofSize w.ranker.featureCount w.ranker.default)
          s.walk.walks = .ok (RankingWeight.collectOn doc 0 w.emptyVector w.weights) := by
        refine collect_ofDocs hdoc hsettled ?_
        rw [Nat.zero_add, FeatureVector.size_ofSize]
        exact hcount
      have hafter : w.keptOn doc (reader.docBase + (index + 1)) s.walk.cache
          = s.walk.cache.map (·.insertOnce (reader.docBase + (index + 1))
              (RankingWeight.collectOn doc 0 w.emptyVector w.weights).scores) := by
        unfold RankingWeight.keptOn
        rw [hkept]
      rw [h.gather_free hfree hcollect, hafter]
      rfl

include hdoc in
/-- **The score of a document** is read off its terms or its kept scores, and the
    cache keeps the scores that it had not. -/
theorem RankingScorer.Tracks.score_ofDocs {w : RankingWeight} {reader : SegmentReader}
    {s : RankingScorer} (h : Tracks w reader s) (hsegment : reader.segment = .ofDocs docs)
    (hcount : w.weights.length ≤ w.ranker.featureCount)
    (hfits : ScoreCache.Fits w.ranker.featureCount s.walk.cache)
    (hstop : s.walk.stop = .doc (index + 1)) :
    ∃ s', s.score = .ok (s', w.scoredOn doc
        (s.walk.cache.bind (·.get? (reader.docBase + (index + 1))))) ∧
      Tracks w reader s' ∧ stop s' = stop s ∧
      s'.walk.cache = w.keptOn doc (reader.docBase + (index + 1)) s.walk.cache := by
  let kept := s.walk.cache.bind (·.get? (reader.docBase + (index + 1)))
  have hscore : s.score = .ok ({ s with
      walk := { s.walk with
        cache := w.keptOn doc (reader.docBase + (index + 1)) s.walk.cache }
      vector := some (w.gatheredOn doc kept).vector }, w.scoredOn doc kept) := by
    unfold RankingScorer.score
    rw [hstop]
    refine bind_eq_ok.mpr ⟨_, h.gather_ofDocs hdoc hsegment hcount hfits hstop, ?_⟩
    simp only [h.ranker]
    rfl
  exact ⟨_, hscore, h.score hscore, (score_stop hscore).1, rfl⟩

/-! ## Explanations -/

namespace RankingWeight

/-- The explanations of features from an ordinal on, and the vector that the
    explained values fill. -/
def explanationsOn (doc : List TermId) (ordinal : Nat) (vector : FeatureVector) :
    List (String × Weight) → List Explanation × FeatureVector
  | [] => ([], vector)
  | (name, weight) :: rest =>
    let explanation := weight.explanationOn doc (some vector)
    let label := "Feature " ++ toString ordinal ++ "(" ++ name ++ "):"
    if explanation.isMatch then
      let (others, after) :=
        explanationsOn doc (ordinal + 1) (vector.put ordinal explanation.value) rest
      (.matched explanation.value label [explanation] :: others, after)
    else
      let (others, after) := explanationsOn doc (ordinal + 1) vector rest
      (.noMatch (label ++ " [no match, default value of " ++
        Number.twoPlaces after.default ++ " used]") :: others, after)

/-- The explanation of the score of a document. -/
def explanationOn (w : RankingWeight) (doc : List TermId) : Explanation :=
  let (details, vector) := explanationsOn doc 0 w.emptyVector (w.features.names.zip w.weights)
  .matched (w.ranker.score vector) ("LtrModel: " ++ w.ranker.name ++ " using features:") details

/-- The explained values fill the vector that the scores fill. -/
theorem vector_explanationsOn (doc : List TermId) (items : List (String × Weight)) :
    ∀ (ordinal : Nat) (vector : FeatureVector),
      (explanationsOn doc ordinal vector items).2
        = (collectOn doc ordinal vector (items.map (·.2))).vector := by
  induction items with
  | nil => exact fun _ _ => rfl
  | cons item rest ih =>
      intro ordinal vector
      unfold explanationsOn
      rw [List.map_cons, collectOn]
      simp only [Weight.isMatch_explanationOn]
      cases hmatch : item.2.matchesDoc doc with
      | true =>
          simp only [if_true, Weight.value_explanationOn (some vector) hmatch]
          exact ih (ordinal + 1) _
      | false =>
          simp only [Bool.false_eq_true, if_false]
          exact ih (ordinal + 1) vector

/-- Values from an ordinal on leave those before it as they are. -/
theorem get?_collectOn_of_lt (doc : List TermId) (weights : List Weight) :
    ∀ {ordinal i : Nat} (vector : FeatureVector), i < ordinal →
      (collectOn doc ordinal vector weights).vector.get? i = vector.get? i := by
  induction weights with
  | nil => exact fun _ _ => rfl
  | cons weight rest ih =>
      intro ordinal i vector hlt
      unfold collectOn
      cases weight.matchesDoc doc with
      | true =>
          simp only [if_true]
          rw [ih _ (Nat.lt_succ_of_lt hlt), FeatureVector.get?_put_of_ne vector _ (Nat.ne_of_lt hlt)]
      | false =>
          simp only [Bool.false_eq_true, if_false]
          exact ih vector (Nat.lt_succ_of_lt hlt)

/-- **The explanations of features show the vector**: there is one for each feature,
    with the value of a feature that matches and with none for the others. -/
theorem explanationsOn_shows (doc : List TermId) (items : List (String × Weight)) :
    ∀ {ordinal : Nat} {vector : FeatureVector}, ordinal + items.length ≤ vector.size →
      (∀ i, ordinal ≤ i → vector.get? i = none) →
      (explanationsOn doc ordinal vector items).1.length = items.length ∧
        ∀ (i : Nat) (detail : Explanation),
          (explanationsOn doc ordinal vector items).1[i]? = some detail →
          (explanationsOn doc ordinal vector items).2.get? (ordinal + i)
            = if detail.isMatch then some detail.value else none := by
  induction items with
  | nil => exact fun _ _ => ⟨rfl, fun i detail h => nomatch h⟩
  | cons item rest ih =>
      intro ordinal vector hroom hfree
      rw [List.length_cons] at hroom
      have hhere : ∀ vector' : FeatureVector,
          (explanationsOn doc (ordinal + 1) vector' rest).2.get? ordinal = vector'.get? ordinal := by
        intro vector'
        rw [vector_explanationsOn]
        exact get?_collectOn_of_lt doc _ vector' (Nat.lt_succ_self ordinal)
      unfold explanationsOn
      by_cases hmatch : (item.2.explanationOn doc (some vector)).isMatch = true
      · simp only [hmatch, if_true]
        let value := (item.2.explanationOn doc (some vector)).value
        have hput : (vector.put ordinal value).get? ordinal = some value :=
          FeatureVector.get?_put_self (by omega) value
        have hroom' : (ordinal + 1) + rest.length ≤ (vector.put ordinal value).size := by
          rw [FeatureVector.size_put]
          omega
        obtain ⟨hlength, hshows⟩ := ih hroom' fun i hi => by
          rw [FeatureVector.get?_put_of_ne vector value (by omega)]
          exact hfree i (by omega)
        refine ⟨congrArg (· + 1) hlength, fun i detail hdetail => ?_⟩
        cases i with
        | zero =>
            rw [← Option.some.inj hdetail]
            exact (hhere _).trans hput
        | succ i =>
            have hi := hshows i detail hdetail
            rwa [Nat.add_right_comm] at hi
      · simp only [hmatch, if_false, Bool.false_eq_true]
        have hroom' : (ordinal + 1) + rest.length ≤ vector.size := by omega
        obtain ⟨hlength, hshows⟩ := ih hroom' fun i hi => hfree i (by omega)
        refine ⟨congrArg (· + 1) hlength, fun i detail hdetail => ?_⟩
        cases i with
        | zero =>
            rw [← Option.some.inj hdetail]
            exact (hhere _).trans (hfree ordinal (Nat.le_refl _))
        | succ i =>
            have hi := hshows i detail hdetail
            rwa [Nat.add_right_comm] at hi

include hdoc in
theorem explainFeatures_ofDocs (items : List (String × Weight)) :
    ∀ {ordinal : Nat} {vector : FeatureVector}, ordinal + items.length ≤ vector.size →
      explainFeatures (Segment.ofDocs docs) (index + 1) ordinal vector items
        = .ok (explanationsOn doc ordinal vector items) := by
  induction items with
  | nil => exact fun _ => rfl
  | cons item rest ih =>
      intro ordinal vector hroom
      rw [List.length_cons] at hroom
      unfold explainFeatures explanationsOn
      refine bind_eq_ok.mpr ⟨_, Weight.explain_ofDocs hdoc (some vector) item.2, ?_⟩
      by_cases hmatch : (item.2.explanationOn doc (some vector)).isMatch = true
      · simp only [hmatch, if_true]
        refine bind_eq_ok.mpr ⟨_, FeatureVector.set_eq_put (by omega) _, ?_⟩
        exact bind_eq_ok.mpr ⟨_, ih (by rw [FeatureVector.size_put]; omega), rfl⟩
      · simp only [hmatch, if_false, Bool.false_eq_true]
        exact bind_eq_ok.mpr ⟨_, ih (by omega), rfl⟩

include hdoc in
theorem explain_ofDocs {w : RankingWeight} (hcount : w.weights.length ≤ w.ranker.featureCount) :
    w.explain (Segment.ofDocs docs) (index + 1) = .ok (w.explanationOn doc) := by
  have hroom : 0 + (w.features.names.zip w.weights).length ≤ w.emptyVector.size := by
    rw [Nat.zero_add, List.length_zip, emptyVector, FeatureVector.size_ofSize]
    exact Nat.le_trans (Nat.min_le_right _ _) hcount
  exact bind_eq_ok.mpr ⟨_, explainFeatures_ofDocs hdoc _ hroom, rfl⟩

end RankingWeight

end

end FeatureRank
