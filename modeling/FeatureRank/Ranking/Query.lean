import FeatureRank.Model.Basic
import FeatureRank.Statistics

/-! # Ranking queries

    A ranking query scores documents by a model: it has the query of each feature
    in order, and the ranker that turns the values of the features into a score. -/

namespace FeatureRank

structure RankingQuery where
  queries : List FeatureQuery
  features : FeatureSet
  ranker : Ranker
  /-- the compilation that the ranker came from -/
  compilation : Nat := 0

namespace RankingQuery

/-- The ranking query of a model for the parameters of a request. -/
def ofModel (model : Model) (context : QueryContext) (params : Params) :
    Except Refusal RankingQuery := do
  return ⟨← model.features.queries context params, model.features, model.ranker,
    model.compilation⟩

/-- The ranking query of a model whose features carry their queries; it takes no
    parameters. -/
def ofPrebuilt (model : Model) : Except Refusal RankingQuery := ofModel model .empty []

/-- The ranker that leaves values to a log and scores nothing. -/
def logRanker (features : FeatureSet) : Ranker := .logging (.null features.size)

/-- A query that only logs the values of features. -/
def ofFeatures (features : FeatureSet) (context : QueryContext) (params : Params) :
    Except Refusal RankingQuery := do
  return ⟨← features.queries context params, features, logRanker features, 0⟩

/-- The same features, logged instead of ranked. -/
def logged (q : RankingQuery) : RankingQuery := { q with ranker := logRanker q.features }

/-- The query with that of each feature in canonical form. -/
def canonical (q : RankingQuery) (searcher : Searcher) : RankingQuery :=
  { q with queries := q.queries.map (·.canonical searcher.isEmpty) }

def terms (q : RankingQuery) : List TermId := q.queries.flatMap (·.terms)

/-- Queries are told apart by the queries of their features, the names of the
    features, and the compilation of the ranker. -/
def same (a b : RankingQuery) : Bool :=
  a.queries == b.queries && a.features.same b.features && a.compilation == b.compilation

/-- What a hash of the query covers; the compilation of the ranker is left out. -/
def signature (q : RankingQuery) : String × List String × List FeatureQuery × String :=
  (q.features.name, q.features.names, q.queries, q.ranker.name)

end RankingQuery

end FeatureRank
