import FeatureRank.Feature.Weight

/-! # The weight cache

    Weights of canonical queries, made once for a request, so that all of its
    phases score with the same statistics.  The weight that was recorded for a
    query first stays. -/

namespace FeatureRank

structure WeightCache where
  entries : List (FeatureQuery × Weight) := []
deriving Inhabited

namespace WeightCache

def empty : WeightCache := {}

def size (c : WeightCache) : Nat := c.entries.length

def isEmpty (c : WeightCache) : Bool := c.entries.isEmpty

def get? (c : WeightCache) (query : FeatureQuery) : Option Weight := c.entries.lookup query

/-- A weight for a query, unless it has one already. -/
def insertOnce (c : WeightCache) (query : FeatureQuery) (weight : Weight) : WeightCache :=
  if (c.get? query).isSome then c else ⟨(query, weight) :: c.entries⟩

/-- The weight of a query, made when it has none.  A new weight is recorded if
    later phases may use it again. -/
def getOrCreate (c : WeightCache) (query : FeatureQuery)
    (create : FeatureQuery → Except Refusal Weight) : WeightCache × Except Refusal Weight :=
  match c.get? query with
  | some weight => (c, .ok weight)
  | none =>
    match create query with
    | .error refusal => (c, .error refusal)
    | .ok weight =>
      if weight.cacheable then (c.insertOnce query weight, .ok weight) else (c, .ok weight)

/-- The weights of two caches; those of the first one stay. -/
def merge (c other : WeightCache) : WeightCache :=
  other.entries.foldr (fun (query, weight) merged => merged.insertOnce query weight) c

end WeightCache

end FeatureRank
