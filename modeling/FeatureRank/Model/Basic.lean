import FeatureRank.Feature.Set
import FeatureRank.Model.Ranker

/-! # Models

    A model is a ranker with the features it was trained on, and the two agree
    on how many features there are.  Two compilations of one file are different
    models, so a model carries a mark of the compilation it came from. -/

namespace FeatureRank

structure Model where
  name : String
  features : FeatureSet
  ranker : Ranker
  compilation : Nat := 0

namespace Model

def make (name : String) (features : FeatureSet) (ranker : Ranker) (compilation : Nat := 0) :
    Except Refusal Model :=
  if ranker.featureCount = features.size then .ok ⟨name, features, ranker, compilation⟩
  else .error (.featureCount name ranker.featureCount features.size)

/-- A model over queries that were made ahead of time. -/
def prebuilt (name : String) (queries : List (String × FeatureQuery)) (ranker : Ranker) :
    Except Refusal Model := do
  let features ← FeatureSet.make name (queries.map fun (n, q) => .prebuilt n q)
  make name features ranker

end Model

/-- A model as a file holds it. -/
structure ModelFile where
  name : String
  features : StoredFeatureSet
  definition : RankerDefinition
deriving DecidableEq

/-- The model of a file: its features in order, then the ranker that fits them. -/
def ModelFile.compile (file : ModelFile) (compilation : Nat := 0) : Except Refusal Model := do
  let features ← file.features.compile
  let ranker ← file.definition.ranker file.name features.size
  Model.make file.name features ranker compilation

end FeatureRank
