import FeatureRank.Search.Slot

/-! # Scoring a shard

    The hits of a shard are the documents that match the filter and at least one
    query; a hit scores the sum of the queries it matches, from `0.0` on and in
    the order of the request.  Rescore stages then change the scores of the best
    hits one after the other. -/

namespace FeatureRank

/-- A document of a shard with its score. -/
structure ShardHit where
  doc : Nat
  score : Float32
  /-- which NaN the score is, if it is one -/
  nan : Number.NaN := .positive

namespace ShardHit

/-- A document with a score that was computed for it. -/
def ofScore (settings : Settings) (doc : Nat) (score : Float32) : ShardHit where
  doc
  score
  nan := if score.isNaN then settings.nan [doc] else .positive

def bits (h : ShardHit) : UInt32 := Number.bitsOf h.score h.nan

/-- Whether a hit goes before another: by score from the greatest down, then by
    document. -/
def isBefore (a b : ShardHit) : Bool :=
  let x := Number.orderKey a.bits
  let y := Number.orderKey b.bits
  y < x || (x == y && a.doc ≤ b.doc)

/-- Hits with the best first. -/
def sort (hits : List ShardHit) : List ShardHit := hits.mergeSort isBefore

end ShardHit

namespace WeightedSlot

/-- Sums with the scores of one more query. -/
def addScores (sums : Std.TreeMap Nat Float32) (scores : List (Nat × Scored)) :
    Std.TreeMap Nat Float32 :=
  scores.foldl
    (fun sums (doc, scored) =>
      sums.alter doc fun sum => some (sum.getD 0.0 + scored.value))
    sums

/-- The sums of the allowed documents of a segment over all slots, in order. -/
def scoreSegment (reader : SegmentReader) (allowed : Nat → Bool)
    (sums : Std.TreeMap Nat Float32) :
    List WeightedSlot → Checked (List WeightedSlot × Std.TreeMap Nat Float32)
  | [] => return ([], sums)
  | w :: rest => do
    let (scored, scores) ← w.weight.pass reader allowed w.slot.scores
    let (rest, sums) ← scoreSegment reader allowed (addScores sums scored) rest
    return ({ w with slot := { w.slot with scores } } :: rest, sums)

/-- The documents of a segment that a filter lets through. -/
def allowedBy (filter : Option QueryWeight) (reader : SegmentReader) : Nat → Bool :=
  match filter with
  | none => fun _ => true
  | some w =>
    let docs := w.docs reader
    fun doc => docs.contains doc

/-- The hits of all segments, in the order of the documents. -/
def scoreSegments (settings : Settings) (filter : Option QueryWeight) :
    List SegmentReader → List WeightedSlot → Checked (List WeightedSlot × List ShardHit)
  | [], slots => return (slots, [])
  | reader :: rest, slots => do
    let (slots, sums) ← scoreSegment reader (allowedBy filter reader) {} slots
    let (slots, others) ← scoreSegments settings filter rest slots
    let hits := sums.toList.map fun (doc, score) => .ofScore settings (reader.docBase + doc) score
    return (slots, hits ++ others)

end WeightedSlot

/-- The hits of a shard, and the slots with their caches filled. -/
def Slot.scoreAll (searcher : Searcher) (settings : Settings) (filter : Option Slot)
    (slots : List Slot) : Tracked (List Slot × List ShardHit) := do
  let filter ← filter.mapM (·.weighted searcher settings .matching)
  let weighted ← slots.mapM (·.weighted searcher settings .scores)
  let (weighted, hits) ← Tracked.ofChecked
    (WeightedSlot.scoreSegments settings (filter.map (·.weight)) searcher.shard.readers weighted)
  return (weighted.map (·.slot), hits)

namespace Rescore

/-- The score of a hit that a query stage gave a score or did not match. -/
def combine (queryWeight rescoreWeight score : Float32) (rescored : Option Float32) : Float32 :=
  score * queryWeight + (rescored.map (· * rescoreWeight)).getD 0.0

/-- The hits with the scores of the best ones changed by a stage, best first. -/
def apply (searcher : Searcher) (settings : Settings) (hits : List ShardHit) :
    Rescore Slot → Tracked (Rescore Slot × List ShardHit)
  | .scale factor window =>
    let sorted := ShardHit.sort hits
    let touched := (sorted.take window).map fun h => .ofScore settings h.doc (h.score * factor)
    return (.scale factor window, ShardHit.sort (touched ++ sorted.drop window))
  | .query slot queryWeight rescoreWeight window => do
    let sorted := ShardHit.sort hits
    let best := sorted.take window
    let w ← slot.weighted searcher settings .scores
    let (visits, scores) ← Tracked.ofChecked
      (w.weight.visit searcher.shard (best.map (·.doc)) w.slot.scores)
    let rescored := visits.map fun (index, _, scored) => (index, scored.value)
    let touched := best.zipIdx.map fun (h, index) =>
      .ofScore settings h.doc (combine queryWeight rescoreWeight h.score (rescored.lookup index))
    return (.query { w.slot with scores } queryWeight rescoreWeight window,
      ShardHit.sort (touched ++ sorted.drop window))

/-- The hits after all stages; each computes scores of its own. -/
def applyAll (searcher : Searcher) (settings : Settings) :
    List (Rescore Slot) → List ShardHit → Tracked (List (Rescore Slot) × List ShardHit)
  | [], hits => return ([], hits)
  | stage :: rest, hits => do
    let (stage, hits) ← apply searcher (settings.under 0) hits stage
    let (rest, hits) ← applyAll searcher (settings.under 1) rest hits
    return (stage :: rest, hits)

end Rescore

end FeatureRank
