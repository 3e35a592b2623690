import FeatureRank.Feature.Scorer
import FeatureRank.Model.Ranker
import FeatureRank.Ranking.Disjunction

/-! # Scoring by a model

    A ranking scorer visits every document of a segment.  To score one it fills a
    feature vector, from the score cache if the scores of the document are held
    there, else by scoring the features that match in the order of their ordinals,
    and gives the vector to the ranker. -/

namespace FeatureRank

/-- What the score of a document is made of. -/
structure Scored where
  value : Float32
  /-- the vector that the ranker was given -/
  features : Option FeatureVector := none
  /-- what the features leave to a log beside their values, in order -/
  extras : List (String × Float32) := []

structure RankingScorer where
  walk : Disjunction FeatureScorer
  ranker : Ranker
  /-- the vector of the document scored before, for reuse -/
  vector : Option FeatureVector := none

namespace RankingScorer

instance : DocWalk RankingScorer where
  stop s := s.walk.stop
  advance target s := { s with walk := s.walk.advance target }
  cost s := DocWalk.cost s.walk

/-- The values of the features of one document. -/
structure Collected where
  vector : FeatureVector
  /-- one score for each feature, NaN where it did not match -/
  scores : List Float32 := []
  extras : List (String × Float32) := []

/-- The values of the features from an ordinal on.  A feature that stands on the
    document is scored with the vector of the features before it. -/
def collect (doc : Nat) (ordinal : Nat) (vector : FeatureVector) :
    List (Option FeatureScorer) → Checked Collected
  | [] => return { vector }
  | walk :: rest =>
    match walk.filter (·.stop = .doc doc) with
    | some scorer => do
      let score ← scorer.score (some vector)
      let collected ← collect doc (ordinal + 1) (← vector.set ordinal score) rest
      return { collected with
        scores := score :: collected.scores
        extras := (scorer.extra? (some vector)).toList ++ collected.extras }
    | none => do
      let collected ← collect doc (ordinal + 1) vector rest
      return { collected with scores := Number.nan32 :: collected.scores }

/-- The values of the features of a document, and the cache with its scores.
    Scores that the cache held leave nothing to a log. -/
def gather (s : RankingScorer) (doc : Nat) : Checked (Collected × Option ScoreCache) := do
  let vector := s.ranker.newVector s.vector
  match s.walk.cache with
  | none => return (← collect doc 0 vector s.walk.walks, none)
  | some cache =>
    match ← cache.replay (s.walk.absolute doc) vector with
    | some vector => return ({ vector }, some cache)
    | none =>
      let collected ← collect doc 0 vector s.walk.walks
      return (collected, some (cache.insertOnce (s.walk.absolute doc) collected.scores))

/-- The score of the current document. -/
def score (s : RankingScorer) : Checked (RankingScorer × Scored) :=
  match s.walk.stop with
  | .exhausted => .error .notOnDocument
  | .doc doc => do
    let (collected, cache) ← s.gather doc
    let scored : Scored := {
      value := s.ranker.score collected.vector
      features := some collected.vector
      extras := if s.ranker.isLogging then collected.extras else [] }
    return ({ s with walk := { s.walk with cache }, vector := some collected.vector }, scored)

end RankingScorer

end FeatureRank
