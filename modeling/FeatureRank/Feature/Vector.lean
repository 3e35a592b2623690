import FeatureRank.Fault

/-! # Feature vectors

    The values of the features for one document, by ordinal.  A feature that did
    not match the document has no value of its own and reads as the default of
    the model, which is also what an ordinal beyond the vector reads as. -/

namespace FeatureRank

structure FeatureVector where
  values : Array (Option Float32)
  default : Float32

namespace FeatureVector

def ofSize (size : Nat) (default : Float32) : FeatureVector :=
  ⟨Array.replicate size none, default⟩

def size (v : FeatureVector) : Nat := v.values.size

/-- Every ordinal back at the default. -/
def reset (v : FeatureVector) : FeatureVector := ofSize v.size v.default

/-- The vector with a value for an ordinal below its size. -/
def set (v : FeatureVector) (ordinal : Nat) (value : Float32) : Checked FeatureVector :=
  if ordinal < v.size then .ok { v with values := v.values.setIfInBounds ordinal (some value) }
  else .error .noOrdinal

/-- The value of a feature that matched. -/
def get? (v : FeatureVector) (ordinal : Nat) : Option Float32 := v.values[ordinal]?.join

def get (v : FeatureVector) (ordinal : Nat) : Float32 := (v.get? ordinal).getD v.default

/-- What every ordinal of the vector reads as. -/
def toList (v : FeatureVector) : List Float32 := v.values.toList.map (·.getD v.default)

/-- The features that matched, with their values. -/
def matched (v : FeatureVector) : List (Nat × Float32) :=
  v.values.toList.zipIdx.filterMap fun (value, ordinal) => value.map ((ordinal, ·))

/-- A vector without values for the next document: the old one with its values
    taken out when size and default agree, else a new one. -/
def renew (reuse : Option FeatureVector) (size : Nat) (default : Float32) : FeatureVector :=
  match reuse with
  | some v => if v.size = size && v.default == default then v.reset else ofSize size default
  | none => ofSize size default

end FeatureVector

end FeatureRank
