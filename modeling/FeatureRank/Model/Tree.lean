import FeatureRank.Feature.Vector

/-! # Decision trees

    A tree asks for the value of one feature after the other and ends at an
    output.  A value below the threshold of a split goes left; NaN is below
    nothing and goes right. -/

namespace FeatureRank

inductive Tree where
  | split (feature : Nat) (threshold : Float32) (left right : Tree)
  | leaf (output : Float32)
deriving DecidableEq, Inhabited

namespace Tree

def eval (v : FeatureVector) : Tree → Float32
  | .split feature threshold left right =>
    if v.get feature < threshold then left.eval v else right.eval v
  | .leaf output => output

/-- The greater of two ordinals where there are any. -/
def greater? : Option Nat → Option Nat → Option Nat
  | some a, some b => some (max a b)
  | some a, none => some a
  | none, b => b

/-- The greatest feature that a tree splits on. -/
def greatestFeature? : Tree → Option Nat
  | .split feature _ left right =>
    greater? (some feature) (greater? left.greatestFeature? right.greatestFeature?)
  | .leaf _ => none

/-- The greatest feature that any of several trees splits on. -/
def greatestOf? (trees : List Tree) : Option Nat :=
  trees.foldl (fun g tree => greater? g tree.greatestFeature?) none

end Tree

end FeatureRank
