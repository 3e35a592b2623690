import FeatureRank.Search.Query

/-! # Passes and visits

    Two ways to score the documents of a shard by one weight: a pass over all
    documents of a segment that match, and visits to documents of a list.  Both
    take the score cache and give it back with what was added. -/

namespace FeatureRank

namespace QueryScorer

/-- The scores of the allowed documents from the next one on, in ascending order;
    `stops` bounds how often the scorer can stop. -/
def passFrom (allowed : Nat → Bool) : Nat → QueryScorer →
    Checked (List (Nat × Scored) × QueryScorer)
  | 0, s => return ([], s)
  | stops + 1, s =>
    let s := DocWalk.next s
    match s.stop with
    | .exhausted => return ([], s)
    | .doc doc =>
      if allowed doc then do
        let (s, scored) ← s.score
        let (rest, s) ← passFrom allowed stops s
        return ((doc, scored) :: rest, s)
      else passFrom allowed stops s

/-- The documents from the next one on. -/
def docsFrom : Nat → QueryScorer → List Nat
  | 0, _ => []
  | stops + 1, s =>
    let s := DocWalk.next s
    match s.stop with
    | .exhausted => []
    | .doc doc => doc :: docsFrom stops s

/-- A visit to each of some documents of the segment, which are in ascending
    order; a document that does not match is passed over. -/
def visitAll : List (Nat × Nat) → QueryScorer →
    Checked (List (Nat × Nat × Scored) × QueryScorer)
  | [], s => return ([], s)
  | (index, doc) :: rest, s =>
    let s := DocWalk.reach doc s
    if s.stop = .doc doc then do
      let (s, scored) ← s.score
      let (visits, s) ← visitAll rest s
      return ((index, doc, scored) :: visits, s)
    else visitAll rest s

end QueryScorer

namespace QueryWeight

/-- The scores of the allowed documents of a segment; a segment has no more stops
    than documents. -/
def pass (w : QueryWeight) (reader : SegmentReader) (allowed : Nat → Bool)
    (cache : Option ScoreCache) : Checked (List (Nat × Scored) × Option ScoreCache) :=
  match w.scorer? reader cache with
  | none => return ([], cache)
  | some s => do
    let (scores, s) ← s.passFrom allowed reader.maxDoc
    return (scores, s.cache.or cache)

/-- The documents of a segment that match, in ascending order. -/
def docs (w : QueryWeight) (reader : SegmentReader) : List Nat :=
  match w.scorer? reader none with
  | none => []
  | some s => s.docsFrom reader.maxDoc

/-- Visits to the documents of some places of a list that lie in a segment. -/
def visitSegment (w : QueryWeight) (reader : SegmentReader) (places : List (Nat × Nat))
    (cache : Option ScoreCache) :
    Checked (List (Nat × Nat × Scored) × Option ScoreCache) :=
  match w.scorer? reader cache with
  | none => return ([], cache)
  | some s => do
    let wanted := places.filterMap fun (doc, index) =>
      if reader.covers doc then some (index, doc - reader.docBase) else none
    let (visits, s) ← s.visitAll wanted
    return (visits, s.cache.or cache)

/-- Visits to the documents of a list, segment by segment. -/
def visitSegments (w : QueryWeight) (places : List (Nat × Nat)) :
    List SegmentReader → Option ScoreCache →
    Checked (List (Nat × Nat × Scored) × Option ScoreCache)
  | [], cache => return ([], cache)
  | reader :: rest, cache => do
    let (visits, cache) ← w.visitSegment reader places cache
    let (others, cache) ← visitSegments w places rest cache
    return (visits ++ others, cache)

/-- Visits to the documents of a list of absolute numbers, in ascending order and
    equal numbers in the order of the list.  Each visit has the place in the list,
    the number inside the segment and the score; a number that the shard does not
    have and a document that does not match are passed over. -/
def visit (w : QueryWeight) (shard : Shard) (docs : List Nat) (cache : Option ScoreCache) :
    Checked (List (Nat × Nat × Scored) × Option ScoreCache) :=
  w.visitSegments (docs.zipIdx.mergeSort fun a b => a.1 ≤ b.1) shard.readers cache

end QueryWeight

end FeatureRank
