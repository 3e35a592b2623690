import Std.Data.TreeMap
import FeatureRank.Feature.Vector

/-! # The score cache

    The feature scores of the documents that one request has scored on one shard,
    by absolute number, so that a later phase of the request can replay them.
    What was recorded for a document first stays. -/

namespace FeatureRank

structure ScoreCache where
  /-- one score for each feature, NaN where the feature did not match -/
  entries : Std.TreeMap Nat (List Float32) := {}
deriving Inhabited

namespace ScoreCache

def empty : ScoreCache := {}

def size (c : ScoreCache) : Nat := c.entries.size

def isEmpty (c : ScoreCache) : Bool := c.entries.isEmpty

def contains (c : ScoreCache) (doc : Nat) : Bool := c.entries.contains doc

def get? (c : ScoreCache) (doc : Nat) : Option (List Float32) := c.entries[doc]?

/-- The scores of a document, unless it has some already. -/
def insertOnce (c : ScoreCache) (doc : Nat) (scores : List Float32) : ScoreCache :=
  ⟨c.entries.insertIfNew doc scores⟩

/-- A vector with scores from an ordinal on; NaN leaves its ordinal as it is. -/
def setMatched (vector : FeatureVector) (ordinal : Nat) : List Float32 → Checked FeatureVector
  | [] => .ok vector
  | score :: rest => do
    let vector ← if score.isNaN then pure vector else vector.set ordinal score
    setMatched vector (ordinal + 1) rest

/-- The vector with the recorded scores of a document, none when nothing was
    recorded for it. -/
def replay (c : ScoreCache) (doc : Nat) (vector : FeatureVector) :
    Checked (Option FeatureVector) :=
  match c.get? doc with
  | some scores => return some (← setMatched vector 0 scores)
  | none => return none

end ScoreCache

end FeatureRank
