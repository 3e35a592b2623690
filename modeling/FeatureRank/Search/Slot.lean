import FeatureRank.Counters
import FeatureRank.Search.Request
import FeatureRank.Search.Visit
import FeatureRank.Settings
import FeatureRank.Text.Words

/-! # Slots

    A query of a request as it is run on one shard: with the caches of its
    ranking query, which live as long as the request and belong to the shard.

    What a request does is tracked: it ends with a value or a failure, and the
    counters keep what was counted in either case. -/

namespace FeatureRank

inductive Failure where
  | refused (refusal : Refusal)
  | fault (fault : Fault)
deriving DecidableEq, Repr

/-- A computation that counts and may fail; what was counted stays. -/
abbrev Tracked := ExceptT Failure (StateM Counters)

namespace Tracked

def count (counter : Counter) : Tracked Unit := modifyGet fun c => ((), c.increment counter)

def ofExcept {α : Type} : Except Refusal α → Tracked α
  | .ok value => pure value
  | .error refusal => throw (.refused refusal)

def ofChecked {α : Type} : Checked α → Tracked α
  | .ok value => pure value
  | .error fault => throw (.fault fault)

end Tracked

/-- A query on one shard. -/
structure Slot where
  query : Query
  /-- the name by which a log may ask for the query -/
  name : Option String := none
  /-- the score cache, none when feature scores are not kept -/
  scores : Option ScoreCache := none
  weights : WeightCache := .empty

/-- The slot of a query for a new request.  Every ranking query by a model is
    counted, and those that are refused are counted as errors too. -/
def QueryRequest.slot (dictionary : Dictionary) (settings : Settings) :
    QueryRequest → Tracked Slot
  | .byModel model params caching => do
    Tracked.count .total
    match RankingQuery.ofModel model ⟨some dictionary⟩ params with
    | .ok query =>
      return {
        query := .ranking query
        scores := if caching.getD settings.cachesScores then some .empty else none }
    | .error refusal => do
      Tracked.count .errors
      throw (.refused refusal)
  | .prebuilt model => return { query := .ranking (← Tracked.ofExcept (RankingQuery.ofPrebuilt model)) }
  | .boost inner factor => do
    let slot ← inner.slot dictionary settings
    return { slot with query := .boost slot.query factor }
  | .anyTerm text => return { query := .plain (.anyTerm (dictionary.known (Text.words text))) }
  | .phrase text => return { query := .plain (.phrase (dictionary.phrase (Text.words text))) }

/-- A slot with the weight of its query. -/
structure WeightedSlot where
  slot : Slot
  weight : QueryWeight

/-- The slot with its weight; the weights of features come from its cache. -/
def Slot.weighted (s : Slot) (searcher : Searcher) (settings : Settings) (mode : ScoreMode) :
    Tracked WeightedSlot := do
  let (weights, weight) := s.query.weight searcher settings.enabled mode s.weights
  modify (·.noteWeight weight)
  return ⟨{ s with weights }, ← Tracked.ofExcept weight⟩

end FeatureRank
