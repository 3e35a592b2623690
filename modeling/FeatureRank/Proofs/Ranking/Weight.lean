import FeatureRank.Proofs.Feature.Query
import FeatureRank.Proofs.Outcome
import FeatureRank.Proofs.Ranking.WeightCache
import FeatureRank.Ranking.Weight

/-! # Weights of ranking queries — one for each feature, made once

    However a weight cache was filled, a ranking query that gets its weights has
    afterwards one in the cache for each of its features
    (`RankingQuery.weight_eq_ok`); from a faithful cache they are the ones that
    the searcher makes for the features alone (`FeatureQuery.weightAlone`).
    Whatever asks for the same features again, in canonical form or not, then
    makes nothing (`RankingQuery.weight_of_holds`). -/

namespace FeatureRank

/-- The weight of the query of one feature by itself: tied to a vector of
    `features` values, in canonical form, made by a searcher. -/
def FeatureQuery.weightAlone (searcher : Searcher) (features : Nat) (q : FeatureQuery) :
    Except Refusal Weight :=
  (q.bind features).bind fun tied => (tied.canonical searcher.isEmpty).weight searcher

/-- A cache that has a weight for the query of a feature. -/
def WeightCache.Holds (c : WeightCache) (emptyShard : Bool) (features : Nat) (q : FeatureQuery)
    (w : Weight) : Prop :=
  ∃ tied, q.bind features = .ok tied ∧ c.get? (tied.canonical emptyShard) = some w

namespace WeightCache

theorem Holds.extends {c more : WeightCache} {emptyShard : Bool} {features : Nat}
    {q : FeatureQuery} {w : Weight} (h : c.Holds emptyShard features q w)
    (hmore : more.Extends c) : more.Holds emptyShard features q w := by
  obtain ⟨tied, htied, hget⟩ := h
  exact ⟨tied, htied, hmore _ _ hget⟩

/-- The canonical form of a query has the weight of the query. -/
theorem Holds.canonical {c : WeightCache} {emptyShard : Bool} {features : Nat}
    {q : FeatureQuery} {w : Weight} (h : c.Holds emptyShard features q w) :
    c.Holds emptyShard features (q.canonical emptyShard) w := by
  obtain ⟨tied, htied, hget⟩ := h
  obtain ⟨t, ht, hsame⟩ := FeatureQuery.bind_canonical emptyShard htied
  exact ⟨t, ht, by rw [hsame]; exact hget⟩

theorem Holds.weightAlone {searcher : Searcher} {c : WeightCache} {features : Nat}
    {q : FeatureQuery} {w : Weight} (h : c.Holds searcher.isEmpty features q w)
    (hc : c.Faithful searcher) : q.weightAlone searcher features = .ok w := by
  obtain ⟨tied, htied, hget⟩ := h
  unfold FeatureQuery.weightAlone
  rw [htied]
  exact hc.get? hget

/-- Faithful caches have the same weights for the same queries. -/
theorem holds_unique {searcher : Searcher} {c c' : WeightCache} {features : Nat}
    (hc : c.Faithful searcher) (hc' : c'.Faithful searcher) {queries : List FeatureQuery}
    {ws : List Weight} (h : List.Forall₂ (c.Holds searcher.isEmpty features) queries ws) :
    ∀ {ws' : List Weight}, List.Forall₂ (c'.Holds searcher.isEmpty features) queries ws' →
      ws = ws' := by
  induction h with
  | nil =>
      intro ws' h'
      exact (List.forall₂_nil_left_iff.mp h').symm
  | cons hfirst _ ih =>
      intro ws' h'
      obtain ⟨w', rest', hfirst', hrest', heq⟩ := List.forall₂_cons_left_iff.mp h'
      have hsame := (hfirst.weightAlone hc).symm.trans (hfirst'.weightAlone hc')
      rw [heq, Except.ok.inj hsame, ih hrest']

end WeightCache

/-- What asking for the weight of one feature leaves in the cache. -/
theorem FeatureQuery.weightIn_eq_ok {searcher : Searcher} {features : Nat}
    {cache made : WeightCache} {q : FeatureQuery} {w : Weight}
    (h : q.weightIn searcher features cache = (made, .ok w)) :
    made.Holds searcher.isEmpty features q w ∧ made.Extends cache ∧
      made.MadeOver searcher cache := by
  unfold weightIn at h
  cases hbind : q.bind features with
  | error refusal =>
      rw [hbind] at h
      exact nomatch (Prod.mk.inj h).2
  | ok tied =>
      rw [hbind] at h
      obtain ⟨hget, hextends, hmade⟩ :=
        WeightCache.getOrCreate_eq_ok (fun _ => FeatureQuery.weight_cacheable) h
      refine ⟨⟨tied, hbind, hget⟩, hextends, ?_⟩
      rcases hmade with hsame | ⟨hw, hinsert⟩
      · rw [hsame]; exact .refl searcher cache
      · rw [hinsert]; exact .insertOnce cache hw

/-- A feature whose weight is there gets that, from any searcher. -/
theorem FeatureQuery.weightIn_of_holds {searcher : Searcher} {features : Nat}
    {cache : WeightCache} {q : FeatureQuery} {w : Weight}
    (h : cache.Holds searcher.isEmpty features q w) :
    q.weightIn searcher features cache = (cache, .ok w) := by
  obtain ⟨tied, htied, hget⟩ := h
  unfold weightIn
  rw [htied]
  exact WeightCache.getOrCreate_of_get? hget _

namespace RankingQuery

/-- The weights of all features, each of them in the cache. -/
theorem featureWeights_eq_ok {searcher : Searcher} {features : Nat} {queries : List FeatureQuery} :
    ∀ {cache made : WeightCache} {weights : List Weight},
      featureWeights searcher features cache queries = (made, .ok weights) →
      List.Forall₂ (made.Holds searcher.isEmpty features) queries weights ∧
        made.Extends cache ∧ made.MadeOver searcher cache := by
  induction queries with
  | nil =>
      intro cache made weights h
      obtain ⟨hmade, hweights⟩ := Prod.mk.inj h
      rw [← hmade, ← Except.ok.inj hweights]
      exact ⟨List.Forall₂.nil, .refl cache, .refl searcher cache⟩
  | cons query rest ih =>
      intro cache made weights h
      unfold featureWeights at h
      cases hfirst : query.weightIn searcher features cache with
      | mk between outcome =>
          rw [hfirst] at h
          cases outcome with
          | error refusal => exact nomatch (Prod.mk.inj h).2
          | ok weight =>
              cases hrest : featureWeights searcher features between rest with
              | mk last outcome =>
                  simp only [hrest] at h
                  cases outcome with
                  | error refusal => exact nomatch (Prod.mk.inj h).2
                  | ok others =>
                      obtain ⟨hmade, hweights⟩ := Prod.mk.inj h
                      rw [← hmade, ← Except.ok.inj hweights]
                      obtain ⟨hholds, hextends, hover⟩ := FeatureQuery.weightIn_eq_ok hfirst
                      obtain ⟨hothers, hmore, hlast⟩ := ih hrest
                      exact ⟨List.Forall₂.cons (hholds.extends hmore) hothers,
                        hmore.trans hextends, hlast.trans hover⟩

/-- Features whose weights are all there get those, from any searcher. -/
theorem featureWeights_of_holds {searcher : Searcher} {features : Nat} {cache : WeightCache}
    {queries : List FeatureQuery} {weights : List Weight}
    (h : List.Forall₂ (cache.Holds searcher.isEmpty features) queries weights) :
    featureWeights searcher features cache queries = (cache, .ok weights) := by
  induction h with
  | nil => rfl
  | cons hfirst _ ih =>
      unfold featureWeights
      simp only [FeatureQuery.weightIn_of_holds hfirst, ih]

/-- The weights of a ranking query are those of its features. -/
theorem weight_parts {q : RankingQuery} {searcher : Searcher} {cache made : WeightCache}
    {w : RankingWeight} (h : q.weight searcher cache = (made, .ok w)) :
    featureWeights searcher q.ranker.featureCount cache q.queries = (made, .ok w.weights) ∧
      w.ranker = q.ranker ∧ w.features = q.features := by
  unfold weight at h
  cases hweights : featureWeights searcher q.ranker.featureCount cache q.queries with
  | mk last outcome =>
      rw [hweights] at h
      cases outcome with
      | error refusal => exact nomatch (Prod.mk.inj h).2
      | ok weights =>
          obtain ⟨hmade, hw⟩ := Prod.mk.inj h
          rw [← hmade, ← Except.ok.inj hw]
          exact ⟨rfl, rfl, rfl⟩

/-- **What a ranking query with its weights leaves in the cache**: one weight for
    each feature, beside all that was there. -/
theorem weight_eq_ok {q : RankingQuery} {searcher : Searcher} {cache made : WeightCache}
    {w : RankingWeight} (h : q.weight searcher cache = (made, .ok w)) :
    List.Forall₂ (made.Holds searcher.isEmpty q.ranker.featureCount) q.queries w.weights ∧
      made.Extends cache ∧ (cache.Faithful searcher → made.Faithful searcher) ∧
      w.ranker = q.ranker ∧ w.features = q.features := by
  obtain ⟨hweights, hranker, hfeatures⟩ := weight_parts h
  obtain ⟨hholds, hextends, hover⟩ := featureWeights_eq_ok hweights
  exact ⟨hholds, hextends, fun hfaithful => hfaithful.over hover, hranker, hfeatures⟩

/-- What it adds to the cache it made itself. -/
theorem weight_madeOver {q : RankingQuery} {searcher : Searcher} {cache made : WeightCache}
    {w : RankingWeight} (h : q.weight searcher cache = (made, .ok w)) :
    made.MadeOver searcher cache := (featureWeights_eq_ok (weight_parts h).1).2.2

/-- A ranking query has its weight when its features have theirs. -/
theorem weight_of_featureWeights {q : RankingQuery} {searcher : Searcher}
    {cache made : WeightCache} {weights : List Weight}
    (h : featureWeights searcher q.ranker.featureCount cache q.queries = (made, .ok weights)) :
    q.weight searcher cache = (made, .ok ⟨weights, q.ranker, q.features⟩) := by
  unfold weight
  rw [h]

/-- A ranking query whose weights are all there makes none. -/
theorem weight_of_holds {q : RankingQuery} {searcher : Searcher} {cache : WeightCache}
    {weights : List Weight}
    (h : List.Forall₂ (cache.Holds searcher.isEmpty q.ranker.featureCount) q.queries weights) :
    q.weight searcher cache = (cache, .ok ⟨weights, q.ranker, q.features⟩) :=
  weight_of_featureWeights (featureWeights_of_holds h)

/-! ## Queries of accepted models -/

/-- The ranking query of an accepted model has a query and a value of its ranker
    for each feature. -/
theorem ofModel_size {name : String} {features : FeatureSet} {ranker : Ranker}
    {compilation : Nat} {model : Model}
    (hmodel : Model.make name features ranker compilation = .ok model)
    {context : QueryContext} {params : Params} {q : RankingQuery}
    (h : ofModel model context params = .ok q) :
    q.ranker = ranker ∧ q.features = features ∧ ranker.featureCount = features.size ∧
      q.queries.length = features.size := by
  unfold Model.make at hmodel
  by_cases hcount : ranker.featureCount = features.size
  · rw [if_pos hcount] at hmodel
    have hmodel := Except.ok.inj hmodel
    obtain ⟨queries, hqueries, hq⟩ := bind_eq_ok.mp h
    rw [← hmodel] at hqueries hq
    rw [← Except.ok.inj hq]
    exact ⟨rfl, rfl, hcount, (mapM_eq_ok.mp hqueries).length_eq.symm⟩
  · rw [if_neg hcount] at hmodel
    exact nomatch hmodel

end RankingQuery

end FeatureRank
