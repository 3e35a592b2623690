import FeatureRank.Log.Recorder
import FeatureRank.Search.Scoring

/-! # Requests on one shard

    A request is taken apart anew for each shard, since its ranking queries keep
    caches for the shard.  The specs of its logs are resolved to the queries they
    point at; a spec that points at nothing, or at something that is no ranking
    query, is refused. -/

namespace FeatureRank

/-- Where in a request the query of a log is. -/
inductive LogTarget where
  | query (place : Nat)
  | stage (place : Nat)
deriving DecidableEq, Repr

/-- A log with the query whose features it records. -/
structure Logger where
  name : String
  missingAsZero : Bool
  target : LogTarget

structure ShardRequest where
  filter : Option Slot
  queries : List Slot
  rescores : List (Rescore Slot)
  loggers : List Logger := []

namespace ShardRequest

/-- The place of the last query of a name. -/
def placeOf? (name : String) (queries : List Slot) : Option Nat :=
  (queries.zipIdx.reverse.find? fun (slot, _) => slot.name = some name).map (·.2)

/-- The place of the ranking query that has a name. -/
def resolveQuery (name : String) (queries : List Slot) : Except Refusal LogTarget :=
  match placeOf? name queries with
  | none => .error (.unknownQuery name)
  | some place =>
    match queries[place]? with
    | none => .error (.unknownQuery name)
    | some slot =>
      if slot.query.ranking?.isSome then .ok (.query place)
      else .error (.notRanking name slot.query.innerKind)

/-- The rescore stage of a place, which has to be by a ranking query. -/
def resolveStage (place : Nat) (rescores : List (Rescore Slot)) : Except Refusal LogTarget :=
  match rescores[place]? with
  | none => .error (.noRescore place rescores.length)
  | some stage =>
    match stage.query? with
    | none => .error (.wrongRescore place stage.kind)
    | some slot =>
      if slot.query.ranking?.isSome then .ok (.stage place)
      else .error (.rescoreNotRanking place slot.query.kind)

/-- The log of a spec, none for a spec that points nowhere. -/
def resolve (queries : List Slot) (rescores : List (Rescore Slot)) (s : LogSpec) :
    Except Refusal (Option Logger) := do
  match s.namedQuery, s.rescoreIndex with
  | some name, _ => return some ⟨s.loggerName, s.missingAsZero, ← resolveQuery name queries⟩
  | none, some place => return some ⟨s.loggerName, s.missingAsZero, ← resolveStage place rescores⟩
  | none, none => return none

/-- A rescore stage with the query of its request as a slot. -/
def stage (dictionary : Dictionary) (settings : Settings) :
    Rescore QueryRequest → Tracked (Rescore Slot)
  | .query query queryWeight rescoreWeight window => do
    return .query (← query.slot dictionary settings) queryWeight rescoreWeight window
  | .scale factor window => return .scale factor window

/-- A request taken apart for one shard: its filter, its queries, its rescore
    stages and its logs, in this order. -/
def ofRequest (dictionary : Dictionary) (settings : Settings) (request : SearchRequest) :
    Tracked ShardRequest := do
  let filter ← request.filter.mapM (·.slot dictionary settings)
  let queries ← request.queries.mapM fun (name, query) => do
    return { ← query.slot dictionary settings with name }
  let rescores ← request.rescores.mapM (stage dictionary settings)
  let loggers ← Tracked.ofExcept (request.logs.mapM (resolve queries rescores))
  return ⟨filter, queries, rescores, loggers.filterMap id⟩

/-- The terms whose statistics the queries need. -/
def terms (r : ShardRequest) : List TermId :=
  (r.filter.toList ++ r.queries ++ r.rescores.filterMap (·.query?)).flatMap (·.query.terms)

/-- The hits of a shard after all rescore stages. -/
def score (r : ShardRequest) (searcher : Searcher) (settings : Settings) :
    Tracked (ShardRequest × List ShardHit) := do
  let (queries, hits) ← Slot.scoreAll searcher settings r.filter r.queries
  let (rescores, hits) ← Rescore.applyAll searcher settings r.rescores hits
  return ({ r with queries, rescores }, hits)

/-- How the score of a document comes about before any rescore stage: the sum of
    the queries that it matches, from `-0.0` on. -/
def explain (r : ShardRequest) (searcher : Searcher) (settings : Settings) (doc : Nat) :
    Tracked Explanation :=
  match searcher.shard.locate? doc with
  | none => return .noMatch "unknown document"
  | some (reader, doc) => do
    let explanations ← r.queries.mapM fun slot => do
      let w ← slot.weighted searcher settings .scores
      Tracked.ofChecked (w.weight.explain reader.segment doc)
    let details := explanations.filter (·.isMatch)
    return .matched (details.foldl (fun sum e => sum + e.value) (-0.0)) "sum of:" details

end ShardRequest

end FeatureRank
