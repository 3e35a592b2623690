import FeatureRank.Index.Shard

/-! # Statistics

    What a score needs to know about the collection and about a term.  A search
    of one shard reads them off the shard, or off statistics that were collected
    over all shards beforehand, which makes the scores of different shards
    comparable. -/

namespace FeatureRank

structure CollectionStatistics where
  docs : Nat := 0
  /-- the number of tokens of all documents -/
  tokens : Nat := 0
deriving DecidableEq, Repr

/-- The average number of tokens of a document, zero without documents. -/
def CollectionStatistics.averageLength (c : CollectionStatistics) : Float32 :=
  if c.docs = 0 then 0.0 else Float32.ofNat c.tokens / Float32.ofNat c.docs

structure TermStatistics where
  /-- the number of documents that hold the term -/
  docs : Nat := 0
  /-- the number of its occurrences -/
  occurrences : Nat := 0
deriving DecidableEq, Repr

def Shard.collection (s : Shard) : CollectionStatistics := ⟨s.docCount, s.tokens⟩

def Shard.termStatistics (s : Shard) (term : TermId) : TermStatistics :=
  ⟨s.docFrequency term, s.termFrequency term⟩

/-- Statistics over several shards, with those of some terms. -/
structure GlobalStatistics where
  collection : CollectionStatistics
  terms : List (TermId × TermStatistics)
deriving Repr

namespace GlobalStatistics

/-- The statistics of shards taken together. -/
def collect (shards : List Shard) (terms : List TermId) : GlobalStatistics where
  collection :=
    shards.foldl (fun sum s => ⟨sum.docs + s.docCount, sum.tokens + s.tokens⟩) {}
  terms := terms.map fun term =>
    (term, shards.foldl
      (fun sum s =>
        ⟨sum.docs + s.docFrequency term, sum.occurrences + s.termFrequency term⟩) {})

def term? (g : GlobalStatistics) (term : TermId) : Option TermStatistics := g.terms.lookup term

end GlobalStatistics

/-- A shard as a search sees it. -/
structure Searcher where
  shard : Shard
  global : Option GlobalStatistics := none

namespace Searcher

def isEmpty (s : Searcher) : Bool := s.shard.docCount == 0

def collection (s : Searcher) : CollectionStatistics :=
  match s.global with
  | some g => g.collection
  | none => s.shard.collection

/-- The statistics of a term: the global ones if it was collected. -/
def term (s : Searcher) (term : TermId) : TermStatistics :=
  (s.global.bind (·.term? term)).getD (s.shard.termStatistics term)

end Searcher

/-! ## Terms of a query -/

/-- Terms in ascending order, each once. -/
def distinctTerms (terms : List TermId) : List TermId :=
  (terms.mergeSort (· ≤ ·)).eraseReps

/-- The terms of a query in ascending order, each with how often it occurs. -/
def queryFrequencies (terms : List TermId) : List (TermId × Nat) :=
  (distinctTerms terms).map fun term => (term, terms.count term)

end FeatureRank
