import FeatureRank.Index.Segment

/-! # Shards

    A shard is a sequence of segments.  Inside a shard a document is addressed
    by its absolute number, which is the number of documents in the segments
    before its own plus its number there, so the documents are numbered 1, 2, …
    across the segments.  Each document also has the key it was added under.

    Absolute numbers and bases are natural numbers here; a shard of fewer than 2³²
    documents, each of fewer than 2³² tokens, is the same in numbers of 32 bits
    (`PackedShard.packs_ofDocs`). -/

namespace FeatureRank

structure Shard where
  segments : Array Segment := #[]
  /-- the keys of the documents in the order of their absolute numbers -/
  keys : Array String := #[]
deriving Inhabited

/-- A segment in its place: which one it is, and how many documents precede it. -/
structure SegmentReader where
  segment : Segment
  ordinal : Nat
  docBase : Nat

namespace SegmentReader

def maxDoc (r : SegmentReader) : Nat := r.segment.maxDoc

/-- Whether the segment holds the document of an absolute number. -/
def covers (r : SegmentReader) (doc : Nat) : Bool :=
  r.docBase < doc && doc ≤ r.docBase + r.maxDoc

end SegmentReader

namespace Shard

def empty : Shard := {}

def docCount (s : Shard) : Nat := s.keys.size

/-- The segment that takes the next document: the last one while it has room,
    else a new one. -/
def openSegment (s : Shard) (segmentSize : Nat) : Array Segment × Segment :=
  match s.segments.back? with
  | some last =>
    if segmentSize ≤ last.maxDoc then (s.segments, .empty) else (s.segments.pop, last)
  | none => (#[], .empty)

/-- A shard with one more document, and its absolute number. -/
def add (s : Shard) (key : String) (terms : List TermId) (segmentSize : Nat) : Shard × Nat :=
  let (full, segment) := s.openSegment segmentSize
  let docBase := s.docCount - segment.maxDoc
  let (segment, doc) := segment.add terms
  (⟨full.push segment, s.keys.push key⟩, docBase + doc)

/-- The segments of a list in their places, the first one at the given place. -/
def readersFrom (ordinal docBase : Nat) : List Segment → List SegmentReader
  | [] => []
  | segment :: rest =>
    ⟨segment, ordinal, docBase⟩ :: readersFrom (ordinal + 1) (docBase + segment.maxDoc) rest

def readers (s : Shard) : List SegmentReader := readersFrom 0 0 s.segments.toList

/-- The segment that holds an absolute number, and the number inside it. -/
def locate? (s : Shard) (doc : Nat) : Option (SegmentReader × Nat) :=
  (s.readers.find? (·.covers doc)).map fun r => (r, doc - r.docBase)

def key? (s : Shard) : Nat → Option String
  | 0 => none
  | doc + 1 => s.keys[doc]?

/-- The first document with a key. -/
def docOf? (s : Shard) (key : String) : Option Nat := (s.keys.idxOf? key).map (· + 1)

def sumOver (s : Shard) (count : Segment → Nat) : Nat :=
  s.segments.toList.foldl (fun sum segment => sum + count segment) 0

def docFrequency (s : Shard) (term : TermId) : Nat := s.sumOver (·.docFrequency term)

def termFrequency (s : Shard) (term : TermId) : Nat := s.sumOver (·.termFrequency term)

/-- The number of tokens of all documents. -/
def tokens (s : Shard) : Nat := s.sumOver (·.tokens)

end Shard

end FeatureRank
