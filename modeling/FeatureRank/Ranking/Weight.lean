import FeatureRank.Ranking.Query
import FeatureRank.Ranking.Scorer
import FeatureRank.Ranking.WeightCache

/-! # Weights of ranking queries

    A ranking weight has a weight for each feature, taken from the weight cache
    of the request where it has one. -/

namespace FeatureRank

structure RankingWeight where
  weights : List Weight
  ranker : Ranker
  features : FeatureSet

/-- The weight of the query of one feature: bound to the vector of the ranking
    query, in canonical form, and made once for a request. -/
def FeatureQuery.weightIn (searcher : Searcher) (features : Nat) (cache : WeightCache)
    (query : FeatureQuery) : WeightCache × Except Refusal Weight :=
  match query.bind features with
  | .error refusal => (cache, .error refusal)
  | .ok tied =>
    cache.getOrCreate (tied.canonical searcher.isEmpty) (FeatureQuery.weight searcher)

namespace RankingQuery

/-- The weights of the queries of features, in order.  What was recorded before
    one is refused stays recorded. -/
def featureWeights (searcher : Searcher) (features : Nat) :
    WeightCache → List FeatureQuery → WeightCache × Except Refusal (List Weight)
  | cache, [] => (cache, .ok [])
  | cache, query :: rest =>
    match query.weightIn searcher features cache with
    | (cache, .error refusal) => (cache, .error refusal)
    | (cache, .ok weight) =>
      match featureWeights searcher features cache rest with
      | (cache, .error refusal) => (cache, .error refusal)
      | (cache, .ok weights) => (cache, .ok (weight :: weights))

def weight (q : RankingQuery) (searcher : Searcher) (cache : WeightCache) :
    WeightCache × Except Refusal RankingWeight :=
  match featureWeights searcher q.ranker.featureCount cache q.queries with
  | (cache, .error refusal) => (cache, .error refusal)
  | (cache, .ok weights) => (cache, .ok ⟨weights, q.ranker, q.features⟩)

end RankingQuery

namespace RankingWeight

def description (w : RankingWeight) : String := "rankerquery(" ++ w.ranker.name ++ ")"

/-- The scorer for a segment, which matches every document of it. -/
def scorer (w : RankingWeight) (reader : SegmentReader) (cache : Option ScoreCache) :
    RankingScorer where
  walk := .ofWalks reader.maxDoc (w.weights.map (·.scorer? reader.segment)) reader.docBase cache
  ranker := w.ranker

/-- The explanations of features from an ordinal on, and the vector that the
    explained values fill. -/
def explainFeatures (segment : Segment) (doc : Nat) (ordinal : Nat) (vector : FeatureVector) :
    List (String × Weight) → Checked (List Explanation × FeatureVector)
  | [] => return ([], vector)
  | (name, weight) :: rest => do
    let explanation ← weight.explain segment doc (some vector)
    let label := "Feature " ++ toString ordinal ++ "(" ++ name ++ "):"
    if explanation.isMatch then
      let vector ← vector.set ordinal explanation.value
      let (others, vector) ← explainFeatures segment doc (ordinal + 1) vector rest
      return (.matched explanation.value label [explanation] :: others, vector)
    else
      let (others, vector) ← explainFeatures segment doc (ordinal + 1) vector rest
      return (.noMatch (label ++ " [no match, default value of " ++
        Number.twoPlaces vector.default ++ " used]") :: others, vector)

/-- How the score of a document comes about, feature by feature; the score cache
    is not asked. -/
def explain (w : RankingWeight) (segment : Segment) (doc : Nat) : Checked Explanation := do
  let (details, vector) ←
    explainFeatures segment doc 0 (w.ranker.newVector none) (w.features.names.zip w.weights)
  return .matched (w.ranker.score vector)
    ("LtrModel: " ++ w.ranker.name ++ " using features:") details

end RankingWeight

end FeatureRank
