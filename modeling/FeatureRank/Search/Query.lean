import FeatureRank.Ranking.Weight

/-! # Queries of a request

    A request asks by model, possibly boosted, or by a plain query.  The weight
    of a query is what scores with it on one shard; it has a scorer for each
    segment, and takes the score cache of its ranking query along. -/

namespace FeatureRank

inductive Query where
  | ranking (query : RankingQuery)
  | boost (query : Query) (factor : Float32)
  | plain (query : FeatureQuery)

namespace Query

/-- The name of the kind of query. -/
def kind : Query → String
  | .ranking _ => "sltr"
  | .boost _ _ => "boost"
  | .plain query => query.kind

/-- The kind of a query, or of the query under its boost. -/
def innerKind : Query → String
  | .boost query _ => query.kind
  | query => query.kind

/-- The ranking query of one that is a ranking query, or one under a single boost. -/
def ranking? : Query → Option RankingQuery
  | .ranking query | .boost (.ranking query) _ => some query
  | _ => none

def terms : Query → List TermId
  | .ranking query => query.terms
  | .boost query _ => query.terms
  | .plain query => query.terms

end Query

/-- What a weight is made for. -/
inductive ScoreMode where
  | scores
  /-- only to know which documents match -/
  | matching
deriving DecidableEq, Repr

inductive QueryWeight where
  | plain (weight : Weight)
  | ranking (weight : RankingWeight)
  | boost (inner : QueryWeight) (factor : Float32)

/-- The weight of a query on a shard, with the weights of its features taken from
    a cache and added to it.  Where ranking is switched off a ranking query is
    refused before anything else; where only matches count it is a constant, as
    it matches every document. -/
def Query.weight (searcher : Searcher) (enabled : Bool) (mode : ScoreMode) (cache : WeightCache) :
    Query → WeightCache × Except Refusal QueryWeight
  | .ranking query =>
    if enabled then
      match mode with
      | .matching => (cache, .ok (.plain (.constant 1.0 false)))
      | .scores =>
        match query.weight searcher cache with
        | (cache, .error refusal) => (cache, .error refusal)
        | (cache, .ok weight) => (cache, .ok (.ranking weight))
    else (cache, .error .disabled)
  | .boost query factor =>
    match query.weight searcher enabled mode cache with
    | (cache, .error refusal) => (cache, .error refusal)
    | (cache, .ok inner) => (cache, .ok (.boost inner factor))
  | .plain query =>
    match (query.canonical searcher.isEmpty).weight searcher with
    | .error refusal => (cache, .error refusal)
    | .ok weight => (cache, .ok (.plain weight))

namespace QueryWeight

def description : QueryWeight → String
  | .plain weight => weight.description
  | .ranking weight => weight.description
  | .boost inner factor => Weight.boostText inner.description factor

/-- Whether later phases of a request may use the weight again; that of a ranking
    query belongs to its query. -/
def cacheable : QueryWeight → Bool
  | .plain weight => weight.cacheable
  | .ranking _ => false
  | .boost inner _ => inner.cacheable

/-- How the score of a document of a segment comes about. -/
def explain (segment : Segment) (doc : Nat) : QueryWeight → Checked Explanation
  | .plain weight => weight.explain segment doc none
  | .ranking weight => weight.explain segment doc
  | .boost inner factor => do
    let explanation ← inner.explain segment doc
    return Weight.explainBoost explanation (Weight.boostText inner.description factor) factor

end QueryWeight

inductive QueryScorer where
  | plain (scorer : FeatureScorer)
  | ranking (scorer : RankingScorer)
  | boost (inner : QueryScorer) (factor : Float32)

/-- The scorer for a segment, none when nothing in it can match. -/
def QueryWeight.scorer? (reader : SegmentReader) (cache : Option ScoreCache) :
    QueryWeight → Option QueryScorer
  | .plain weight => (weight.scorer? reader.segment).map .plain
  | .ranking weight => some (.ranking (weight.scorer reader cache))
  | .boost inner factor => (inner.scorer? reader cache).map (.boost · factor)

namespace QueryScorer

def stop : QueryScorer → Stop
  | .plain s => s.stop
  | .ranking s => DocWalk.stop s
  | .boost inner _ => inner.stop

def advance (target : Nat) : QueryScorer → QueryScorer
  | .plain s => .plain (s.advance target)
  | .ranking s => .ranking (DocWalk.advance target s)
  | .boost inner factor => .boost (inner.advance target) factor

def cost : QueryScorer → Nat
  | .plain s => s.cost
  | .ranking s => DocWalk.cost s
  | .boost inner _ => inner.cost

instance : DocWalk QueryScorer where
  stop := QueryScorer.stop
  advance := QueryScorer.advance
  cost := QueryScorer.cost

/-- The score cache that the scorer reads and fills. -/
def cache : QueryScorer → Option ScoreCache
  | .plain _ => none
  | .ranking s => s.walk.cache
  | .boost inner _ => inner.cache

/-- The score of the current document. -/
def score : QueryScorer → Checked (QueryScorer × Scored)
  | .plain s => return (.plain s, { value := ← s.score none })
  | .ranking s => do
    let (s, scored) ← s.score
    return (.ranking s, scored)
  | .boost inner factor => do
    let (inner, scored) ← inner.score
    return (.boost inner factor, { scored with value := scored.value * factor })

end QueryScorer

end FeatureRank
