import Mathlib.Logic.Function.Iterate
import FeatureRank.Proofs.Index.Postings
import FeatureRank.Proofs.Ranking.Scorer
import FeatureRank.Proofs.Ranking.Weight

/-! # Ranking by the definition — whichever way the documents are visited

    A ranking scorer goes over all documents of its segment, one after the other
    (`RankingScorer.stop_iterate_next`), and gives each the score that the
    definition gives it: the ranker applied to the vector in which each feature has
    the score of a fresh scorer of its own (`RankingQuery.scores_by_definition`). -/

namespace FeatureRank

namespace RankingScorer

open DocWalk

/-- **The documents of a segment, in order and each once.** -/
theorem stop_iterate_next (w : RankingWeight) (reader : SegmentReader)
    (cache : Option ScoreCache) (k : Nat) :
    Reached w reader cache (next^[k] (w.scorer reader cache)) ∧
      stop (next^[k] (w.scorer reader cache))
        = if k ≤ reader.maxDoc then .doc k else .exhausted := by
  induction k with
  | zero =>
      rw [if_pos (Nat.zero_le _)]
      exact ⟨Reached.fresh, rfl⟩
  | succ k ih =>
      obtain ⟨hreached, hstop⟩ := ih
      rw [Function.iterate_succ_apply']
      refine ⟨hreached.next, ?_⟩
      by_cases hk : k ≤ reader.maxDoc
      · rw [if_pos hk] at hstop
        rw [next_doc hstop, hreached.tracks.advance_stop (Nat.succ_pos k)]
      · rw [if_neg hk] at hstop
        rw [if_neg (by omega), next_exhausted hstop]
        exact hstop

end RankingScorer

/-- **A ranking scorer scores by the definition.**  In every state it gets into,
    wherever it stands on a document whose scores are not held, each feature of the
    vector has the score that a fresh scorer of its query alone gives for the
    ordinals before it, and the score is that of the ranker; and it stops on every
    document in turn. -/
theorem RankingQuery.scores_by_definition {name : String} {features : FeatureSet}
    {ranker : Ranker} {compilation : Nat} {model : Model}
    (hmodel : Model.make name features ranker compilation = .ok model)
    {context : QueryContext} {params : Params} {q : RankingQuery}
    (hquery : ofModel model context params = .ok q)
    {searcher : Searcher} {cache made : WeightCache} (hfaithful : cache.Faithful searcher)
    {w : RankingWeight} (hweight : q.weight searcher cache = (made, .ok w))
    {reader : SegmentReader} (hbuilt : reader.segment.Built) (scores : Option ScoreCache) :
    (∀ s doc, RankingScorer.Reached w reader scores s → DocWalk.stop s = .doc doc → 0 < doc →
      s.walk.isHeld doc = false →
      ∃ s' scored v, s.score = .ok (s', scored) ∧ scored.features = some v ∧
        scored.value = ranker.score v ∧
        v.size = features.size ∧ v.default = ranker.default ∧
        ∀ i < features.size, ∃ query weight, q.queries[i]? = some query ∧
          query.weightAlone searcher features.size = .ok weight ∧
          weight.scoreAt reader.segment doc (some (v.below i)) = .ok (v.get? i)) ∧
    ∀ k, DocWalk.stop (DocWalk.next^[k] (w.scorer reader scores))
      = if k ≤ reader.maxDoc then .doc k else .exhausted := by
  obtain ⟨hranker, -, hcount, hlength⟩ := ofModel_size hmodel hquery
  obtain ⟨hholds, -, hmade, hwranker, -⟩ := weight_eq_ok hweight
  rw [hranker, hcount] at hholds
  rw [hranker] at hwranker
  refine ⟨?_, fun k => (RankingScorer.stop_iterate_next w reader scores k).2⟩
  intro s doc hreached hstop hpos hfree
  have hweights : w.weights.length ≤ w.ranker.featureCount := by
    rw [hwranker, hcount, ← hlength, hholds.length_eq]
  obtain ⟨s', scored, v, hscore, hfeatures, hdescribes, hvalue, -⟩ :=
    hreached.tracks.score_ok hbuilt hweights hstop hpos hfree
  rw [hwranker] at hvalue
  refine ⟨s', scored, v, hscore, hfeatures, hvalue, ?_, ?_, ?_⟩
  · rw [hdescribes.size, hwranker, hcount]
  · rw [hdescribes.default, hwranker]
  · intro i hi
    rw [← hlength] at hi
    have hqi := List.getElem?_eq_getElem hi
    obtain ⟨weight, hwi, hheld⟩ := forall₂_getElem? hholds hqi
    exact ⟨_, weight, hqi, hheld.weightAlone (hmade hfaithful), hdescribes.value i weight hwi⟩

/-- A sum over a feature that did not match reads the default of the ranker. -/
theorem RankingQuery.scores_by_definition_unmatched_input :
    let features : FeatureSet :=
      ⟨"two", [.prebuilt "rare" .nothing, .derived "copy" ⟨[(0, 1.0)], 0.0, none⟩]⟩
    let ranker : Ranker := .linear "two" [0.0, 1.0] 0.5
    let w : RankingWeight := ⟨[.nothing, .derived ⟨[(0, 1.0)], 0.0, none⟩], ranker, features⟩
    let reader : SegmentReader := ⟨(Segment.empty.add [1]).1, 0, 0⟩
    ∃ s' scored v, (DocWalk.next (w.scorer reader none)).score = .ok (s', scored) ∧
      scored.features = some v ∧ v.get? 0 = none ∧ v.get? 1 = some 0.5 := by
  intro features ranker w reader
  have hspec := RankingQuery.scores_by_definition
    (show Model.make "two" features ranker = .ok ⟨"two", features, ranker, 0⟩ from rfl)
    (show RankingQuery.ofPrebuilt ⟨"two", features, ranker, 0⟩ = .ok
      ⟨[.nothing, .derived ⟨[(0, 1.0)], 0.0, none⟩], features, ranker, 0⟩ from rfl)
    (WeightCache.Faithful.empty ⟨(Shard.empty.add "a" [1] 1).1, none⟩)
    (show RankingQuery.weight _ _ .empty = (_, .ok w) from rfl)
    (show reader.segment.Built from Segment.Built.empty.add [1]) none
  obtain ⟨s', scored, v, hscore, hfeatures, -, -, hdefault, hvalues⟩ :=
    hspec.1 _ 1 (RankingScorer.Reached.fresh.next) rfl (by decide) rfl
  have hrare : v.get? 0 = none := by
    obtain ⟨query, weight, hquery, hweight, hvalue⟩ := hvalues 0 (by decide)
    rw [← Option.some.inj hquery] at hweight
    rw [← Except.ok.inj hweight] at hvalue
    exact (Except.ok.inj hvalue).symm
  have hread : (v.below 1).get 0 = 0.5 := by
    rw [FeatureVector.get, FeatureVector.get?_below, if_pos Nat.zero_lt_one, hrare]
    exact hdefault
  have hcopy : some ((0.0 : Float32) + 1.0 * (v.below 1).get 0) = v.get? 1 := by
    obtain ⟨query, weight, hquery, hweight, hvalue⟩ := hvalues 1 (by decide)
    rw [← Option.some.inj hquery] at hweight
    rw [← Except.ok.inj hweight] at hvalue
    exact Except.ok.inj hvalue
  refine ⟨s', scored, v, hscore, hfeatures, hrare, ?_⟩
  rw [← hcopy, hread]
  decide
end FeatureRank
