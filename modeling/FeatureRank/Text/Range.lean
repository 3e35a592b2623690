/-! # Tables of character ranges

    A character property is a table of disjoint ranges in ascending order, and
    a look-up is a binary search for the range that holds the character. -/

namespace FeatureRank.Text

/-- The characters `first` to `last`, which share a value. -/
structure CharRange (α : Type) where
  first : Nat
  last : Nat
  value : α

/-- The range at an index from `low` to below `high` that holds a character. -/
def findRange {α : Type} (table : Array (CharRange α)) (c : Nat) (low high : Nat) :
    Option (CharRange α) :=
  if h : low < high ∧ high ≤ table.size then
    let middle := (low + high) / 2
    have inside : middle < table.size := by omega
    let range := table[middle]
    if c < range.first then findRange table c low middle
    else if range.last < c then findRange table c (middle + 1) high
    else some range
  else none
termination_by high - low

/-- The range of a table that holds a character. -/
def lookup {α : Type} (table : Array (CharRange α)) (c : Char) : Option (CharRange α) :=
  findRange table c.toNat 0 table.size

/-- Ranges of a property that a character has or has not. -/
def ofPairs (pairs : Array (Nat × Nat)) : Array (CharRange Unit) :=
  pairs.map fun (first, last) => ⟨first, last, ()⟩

def holds (table : Array (CharRange Unit)) (c : Char) : Bool := (lookup table c).isSome

end FeatureRank.Text
