import FeatureRank.Corpus
import FeatureRank.Search.Logging

/-! # The engine

    An engine spreads documents over shards and runs requests on all of them.
    A request first scores and rescores each shard, with statistics of the shard
    or of all shards; the best hits of all shards are then explained and logged,
    the logs always with the statistics of the shard. -/

namespace FeatureRank

structure Engine where
  dictionary : Dictionary := {}
  shards : Array Shard
  settings : Settings := {}
  counters : Counters := {}

namespace SearchHit

def bits (h : SearchHit) : UInt32 := Number.bitsOf h.score h.nan

/-- Whether a hit goes before another: by score from the greatest down, then by
    shard, then by document. -/
def isBefore (a b : SearchHit) : Bool :=
  let x := Number.orderKey a.bits
  let y := Number.orderKey b.bits
  y < x || (x == y && (a.shard < b.shard || (a.shard == b.shard && a.doc ≤ b.doc)))

/-- Hits with the best first. -/
def sort (hits : List SearchHit) : List SearchHit := hits.mergeSort isBefore

end SearchHit

namespace Engine

/-- An engine without documents, with one shard at least. -/
def ofShards (count : Nat) (settings : Settings := {}) : Engine where
  shards := Array.replicate (max count 1) .empty
  settings

def docCount (e : Engine) : Nat := e.shards.foldl (fun sum s => sum + s.docCount) 0

def shardCount (e : Engine) : Nat := e.shards.size

/-- The engine with one more document, and the absolute number of the document.
    A document that names no shard goes to the next one in turn. -/
def add (e : Engine) (d : SourceDocument) : Checked (Engine × Nat) :=
  let place := (d.shard.getD e.docCount) % e.shardCount
  match e.shards[place]? with
  | none => .error .noShard
  | some shard =>
    let (dictionary, terms) := e.dictionary.learn (Text.words d.content)
    let (shard, doc) := shard.add d.id terms e.settings.segmentSize
    .ok ({ e with dictionary, shards := e.shards.setIfInBounds place shard }, doc)

def addAll (e : Engine) (documents : List SourceDocument) : Checked Engine :=
  documents.foldlM (fun e d => return (← e.add d).1) e

/-- The engine with what a computation counted, and how that ended. -/
def track {α : Type} (e : Engine) (run : Tracked α) : Engine × Except Failure α :=
  let (result, counters) := (ExceptT.run run).run e.counters
  ({ e with counters }, result)

/-- The hits of one shard as hits of the engine. -/
def hitsOf (place : Nat) (shard : Shard) (hits : List ShardHit) : List SearchHit :=
  hits.map fun h => {
    key := (shard.key? h.doc).getD "", shard := place
    doc := h.doc, score := h.score, nan := h.nan }

/-- Every shard with its place and its part of a request. -/
abbrev Parts := List (Nat × Shard × ShardRequest)

/-- The request taken apart for each shard. -/
def parts (e : Engine) (request : SearchRequest) : Tracked Parts :=
  e.shards.toList.zipIdx.mapM fun (shard, place) => do
    return (place, shard, ← ShardRequest.ofRequest e.dictionary e.settings request)

/-- The statistics over all shards of the terms of a request, if it asks for them. -/
def globalOf (e : Engine) (request : SearchRequest) (parts : Parts) : Option GlobalStatistics :=
  if request.global then
    some (.collect e.shards.toList (distinctTerms (parts.flatMap fun (_, _, r) => r.terms)))
  else none

/-- The hits of every shard, and the parts with their caches filled. -/
def scoreParts (settings : Settings) (global : Option GlobalStatistics) :
    Parts → Tracked (Parts × List SearchHit)
  | [] => return ([], [])
  | (place, shard, r) :: rest => do
    let (r, hits) ← r.score ⟨shard, global⟩ (settings.under place)
    let (rest, others) ← scoreParts settings global rest
    return ((place, shard, r) :: rest, hitsOf place shard hits ++ others)

/-- The hits of a shard with explanations and logs. -/
def fetch (settings : Settings) (global : Option GlobalStatistics) (explain : Bool)
    (shard : Shard) (r : ShardRequest) (hits : List SearchHit) : Tracked (List SearchHit) := do
  let hits ←
    if explain then
      hits.mapM fun h => do
        return { h with explanation := some (← r.explain ⟨shard, global⟩ settings h.doc) }
    else pure hits
  r.log { shard } settings hits

/-- The hits of a request: scored on every shard, the best ones fetched. -/
def response (e : Engine) (request : SearchRequest) : Tracked SearchResponse := do
  let parts ← e.parts request
  let global := e.globalOf request parts
  let (parts, candidates) ← scoreParts e.settings global parts
  let best := (SearchHit.sort candidates).take request.size
  let fetched ← parts.mapM fun (place, shard, r) =>
    fetch e.settings global request.explain shard r (best.filter (·.shard == place))
  return ⟨candidates.length, SearchHit.sort fetched.flatten⟩

def search (e : Engine) (request : SearchRequest) : Engine × Except Failure SearchResponse :=
  e.track (e.response request)

/-- The values of features for the documents of some keys on one shard, logged
    under the name of the set. -/
def shardFeatures (e : Engine) (features : FeatureSet) (params : Params) (keys : List String)
    (missingAsZero : Bool) (place : Nat) (shard : Shard) : Tracked (List SearchHit) := do
  let hits := keys.filterMap fun key =>
    (shard.docOf? key).map fun doc => ({ key, shard := place, doc, score := 0.0 } : SearchHit)
  if hits.isEmpty then return []
  let query ← Tracked.ofExcept (RankingQuery.ofFeatures features ⟨some e.dictionary⟩ params)
  let slot : Slot := { query := .ranking query }
  let w ← slot.weighted { shard } e.settings .scores
  let (visits, _) ← Tracked.ofChecked (w.weight.visit shard (hits.map (·.doc)) none)
  let recorder : LogRecorder := { features := features.names, missingAsZero }
  let recorder ← Tracked.ofChecked (recorder.recordVisits visits)
  return ShardRequest.attach features.name recorder.take.1 hits

/-- The values of features for the documents of some keys, shard by shard. -/
def logFeatures (e : Engine) (features : FeatureSet) (params : Params) (keys : List String)
    (missingAsZero : Bool) : Engine × Except Failure (List SearchHit) :=
  e.track do
    let hits ← e.shards.toList.zipIdx.mapM fun (shard, place) =>
      e.shardFeatures features params keys missingAsZero place shard
    return hits.flatten

end Engine

end FeatureRank
