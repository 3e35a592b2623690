import FeatureRank.Feature.Template

/-! # Feature sets

    The features of a model in order; the place of a feature is its ordinal.  A
    stored set is compiled: the inputs of derived features become ordinals, and
    may only point backwards. -/

namespace FeatureRank

/-- A feature ready to become a query. -/
inductive Feature where
  | stored (feature : StoredFeature)
  | derived (name : String) (sum : DerivedSum)
  | prebuilt (name : String) (query : FeatureQuery)

namespace Feature

def name : Feature → String
  | .stored f => f.name
  | .derived name _ | .prebuilt name _ => name

def query (context : QueryContext) (params : Params) : Feature → Except Refusal FeatureQuery
  | .stored f => f.query context params
  | .derived _ sum => .ok (.derived sum)
  | .prebuilt _ query => .ok query

end Feature

structure FeatureSet where
  name : String
  features : List Feature

namespace FeatureSet

/-- The first name that an earlier one repeats. -/
def repeated? (earlier : List String) : List String → Option String
  | [] => none
  | name :: rest =>
    if earlier.contains name then some name else repeated? (name :: earlier) rest

/-- A set of features whose names differ. -/
def make (name : String) (features : List Feature) : Except Refusal FeatureSet :=
  match repeated? [] (features.map (·.name)) with
  | some feature => .error (.definition name (.repeatedFeature feature))
  | none => .ok ⟨name, features⟩

def size (s : FeatureSet) : Nat := s.features.length

def names (s : FeatureSet) : List String := s.features.map (·.name)

def ordinal? (s : FeatureSet) (name : String) : Option Nat := s.names.idxOf? name

/-- The queries of all features in order, or the first refusal. -/
def queries (s : FeatureSet) (context : QueryContext) (params : Params) :
    Except Refusal (List FeatureQuery) :=
  s.features.mapM (·.query context params)

/-- Sets are told apart by their names and the names of their features. -/
def same (a b : FeatureSet) : Bool := a.name == b.name && a.names == b.names

end FeatureSet

structure StoredFeatureSet where
  name : String
  features : List StoredFeature
deriving DecidableEq

namespace StoredFeatureSet

/-- The ordinals and weights of the inputs of a derived feature. -/
def resolve (feature : String) (earlier : List String) :
    List DerivedInput → Except Refusal (List (Nat × Float32))
  | [] => .ok []
  | input :: rest =>
    match earlier.idxOf? input.feature with
    | some ordinal => return (ordinal, input.weight) :: (← resolve feature earlier rest)
    | none => .error (.unknownFeature feature input.feature)

/-- A feature with the names of those before it resolved. -/
def compileFeature (earlier : List String) (f : StoredFeature) : Except Refusal Feature :=
  match f.template with
  | .derived inputs constant logged => do
    let inputs ← resolve f.name earlier inputs
    return .derived f.name ⟨inputs, constant, if logged then some f.name else none⟩
  | _ => .ok (.stored f)

def compileFrom (earlier : List String) : List StoredFeature → Except Refusal (List Feature)
  | [] => .ok []
  | f :: rest => do
    let feature ← compileFeature earlier f
    return feature :: (← compileFrom (earlier ++ [f.name]) rest)

def compile (s : StoredFeatureSet) : Except Refusal FeatureSet := do
  FeatureSet.make s.name (← compileFrom [] s.features)

end StoredFeatureSet

end FeatureRank
