import FeatureRank.Search.ShardRequest

/-! # Logging the hits of a shard

    Logs are written from the score caches when every logged query has kept
    scores.  Otherwise the hits are scored again by queries that only log, with
    the weights that were made while ranking; such a query shares the score cache
    of the ranking query where there is one. -/

namespace FeatureRank

namespace ShardRequest

/-- The slot of the query that a log records. -/
def slotOf? (r : ShardRequest) : LogTarget → Option Slot
  | .query place => r.queries[place]?
  | .stage place => r.rescores[place]?.bind (·.query?)

/-- The request with other scores kept for the query of a log. -/
def keepScores (r : ShardRequest) (scores : Option ScoreCache) : LogTarget → ShardRequest
  | .query place => { r with queries := r.queries.modify place ({ · with scores }) }
  | .stage place =>
    { r with rescores := r.rescores.modify place fun
        | .query slot queryWeight rescoreWeight window =>
          .query { slot with scores } queryWeight rescoreWeight window
        | stage => stage }

/-- The logged queries in the order of the logs, with what they are logged for. -/
def logged (r : ShardRequest) : List (Logger × Slot × RankingQuery) :=
  r.loggers.filterMap fun logger => do
    let slot ← r.slotOf? logger.target
    return (logger, slot, ← slot.query.ranking?)

/-- Whether a slot has kept the scores of any document. -/
def hasScores (slot : Slot) : Bool :=
  match slot.scores with
  | some cache => !cache.isEmpty
  | none => false

/-- The recorder for a log. -/
def recorder (logger : Logger) (query : RankingQuery) : LogRecorder where
  features := query.features.names
  missingAsZero := logger.missingAsZero

/-- The features that a list of kept scores says matched. -/
def keptMatches (features : Nat) (scores : List Float32) : List (Nat × Float32) :=
  (scores.take features).zipIdx.filterMap fun (score, ordinal) =>
    if score.isNaN then none else some (ordinal, score)

/-- The logs of documents from the scores that were kept for them; a document
    without any has no log. -/
def replayLogs (recorder : LogRecorder) (scores : Option ScoreCache) (docs : List Nat) :
    Checked LogRecorder :=
  docs.zipIdx.foldlM
    (fun recorder (doc, hit) =>
      match scores.bind (·.get? doc) with
      | some kept => (recorder.nextDoc hit).acceptAll (keptMatches recorder.featureCount kept)
      | none => .ok recorder)
    recorder

/-- The logs of documents that are scored again, with the weights of a cache. -/
def rescoreLogs (searcher : Searcher) (settings : Settings) (docs : List Nat) :
    List Logger → WeightCache → ShardRequest → Tracked (List (String × LogRecorder))
  | [], _, _ => return []
  | logger :: rest, weights, r =>
    match (r.slotOf? logger.target).bind fun slot => slot.query.ranking?.map ((slot, ·)) with
    | none => rescoreLogs searcher settings docs rest weights r
    | some (slot, query) => do
      let logSlot : Slot := {
        query := .ranking (query.canonical searcher).logged
        scores := some (slot.scores.getD .empty)
        weights }
      let w ← logSlot.weighted searcher settings .scores
      let (visits, scores) ← Tracked.ofChecked
        (w.weight.visit searcher.shard docs w.slot.scores)
      let recorder ← Tracked.ofChecked ((recorder logger query).recordVisits visits)
      let r := if slot.scores.isSome then r.keepScores scores logger.target else r
      return (logger.name, recorder) :: (← rescoreLogs searcher settings docs rest w.slot.weights r)

/-- The finished recorders of all logs, in order. -/
def recorders (r : ShardRequest) (searcher : Searcher) (settings : Settings) (docs : List Nat) :
    Tracked (List (String × LogRecorder)) :=
  if r.logged.all fun (_, slot, _) => hasScores slot then
    r.logged.mapM fun (logger, slot, query) => do
      return (logger.name, ← Tracked.ofChecked
        (replayLogs (recorder logger query) slot.scores docs))
  else
    let weights := r.logged.foldl (fun merged (_, slot, _) => merged.merge slot.weights) .empty
    rescoreLogs searcher settings docs r.loggers weights r

/-- Hits with their logs under a name; a log replaces an older one of the name. -/
def attach (name : String) (logs : List (Nat × List LogEntry)) (hits : List SearchHit) :
    List SearchHit :=
  logs.foldl
    (fun hits (hit, log) => hits.modify hit fun h => { h with logs := h.logs.insert name log })
    hits

/-- The hits of the shard with all logs. -/
def log (r : ShardRequest) (searcher : Searcher) (settings : Settings) (hits : List SearchHit) :
    Tracked (List SearchHit) :=
  if r.loggers.isEmpty || hits.isEmpty then return hits
  else do
    let recorders ← r.recorders searcher settings (hits.map (·.doc))
    return recorders.foldl
      (fun hits (name, recorder) => attach name recorder.take.1 hits)
      hits

end ShardRequest

end FeatureRank
