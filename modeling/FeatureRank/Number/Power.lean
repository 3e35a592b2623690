/-! # Powers of two and of ten -/

namespace FeatureRank.Number

def twoTo (n : Nat) : Nat := Nat.pow 2 n

def tenTo (n : Nat) : Nat := Nat.pow 10 n

end FeatureRank.Number
