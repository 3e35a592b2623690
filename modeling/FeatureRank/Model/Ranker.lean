import FeatureRank.Model.Tree
import FeatureRank.Refusal

/-! # Rankers

    A ranker gives a feature vector one score.  Its definition, as a model file
    holds it, becomes a ranker for a number of features, and is refused when it
    does not fit that number. -/

namespace FeatureRank

inductive Ranker where
  /-- the sum of each feature by its weight, from `0.0` on -/
  | linear (name : String) (weights : List Float32) (default : Float32)
  /-- the sum of the outputs of all trees, from `-0.0` on -/
  | ensemble (name : String) (trees : List Tree) (features : Nat) (default : Float32)
  /-- no score, for when only the values of the features count -/
  | null (features : Nat)
  /-- a ranker that also hands each vector it scores to a log -/
  | logging (inner : Ranker)
deriving DecidableEq

namespace Ranker

def name : Ranker → String
  | .linear name .. | .ensemble name .. => name
  | .null _ => "null_ranker"
  | .logging inner => inner.name

def featureCount : Ranker → Nat
  | .linear _ weights _ => weights.length
  | .ensemble _ _ features _ | .null features => features
  | .logging inner => inner.featureCount

/-- What a feature that did not match reads as. -/
def default : Ranker → Float32
  | .linear _ _ default | .ensemble _ _ _ default => default
  | .null _ => 0.0
  | .logging inner => inner.default

def isLogging : Ranker → Bool
  | .logging _ => true
  | _ => false

/-- A vector for the next document, out of an old one where it fits. -/
def newVector (r : Ranker) (reuse : Option FeatureVector) : FeatureVector :=
  .renew reuse r.featureCount r.default

def linearScore (weights : List Float32) (v : FeatureVector) : Float32 :=
  weights.zipIdx.foldl (fun sum (weight, ordinal) => sum + weight * v.get ordinal) 0.0

def treesScore (trees : List Tree) (v : FeatureVector) : Float32 :=
  trees.foldl (fun sum tree => sum + tree.eval v) (-0.0)

def score (v : FeatureVector) : Ranker → Float32
  | .linear _ weights _ => linearScore weights v
  | .ensemble _ trees _ _ => treesScore trees v
  | .null _ => 0.0
  | .logging inner => inner.score v

end Ranker

/-- A ranker as a model file defines it. -/
inductive RankerDefinition where
  | linear (weights : List Float32) (default : Float32)
  | ensemble (trees : List Tree) (default : Float32)
  | null
deriving DecidableEq

namespace RankerDefinition

/-- The ranker for a number of features.  Every split must be on one of them,
    and a linear ranker has a weight for each. -/
def ranker (name : String) (features : Nat) : RankerDefinition → Except Refusal Ranker
  | .linear weights default =>
    if weights.length = features then .ok (.linear name weights default)
    else .error (.featureCount name weights.length features)
  | .ensemble trees default =>
    match Tree.greatestOf? trees with
    | some feature =>
      if feature < features then .ok (.ensemble name trees features default)
      else .error (.definition name (.splitOutOfRange feature features))
    | none => .ok (.ensemble name trees features default)
  | .null => .ok (.null features)

end RankerDefinition

end FeatureRank
