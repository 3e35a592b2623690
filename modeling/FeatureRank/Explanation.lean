import FeatureRank.Number.Text

/-! # Explanations

    A tree that shows how a score came about: whether a query matched, the value
    it gave, and the values that went into it. -/

namespace FeatureRank

structure Explanation where
  isMatch : Bool
  value : Float32
  description : String
  details : List Explanation
deriving Inhabited

namespace Explanation

def matched (value : Float32) (description : String) (details : List Explanation := []) :
    Explanation := ⟨true, value, description, details⟩

def noMatch (description : String) : Explanation := ⟨false, 0.0, description, []⟩

mutual

/-- One line for each node, indented by two spaces for each level. -/
def linesAt (level : Nat) : Explanation → String
  | ⟨_, value, description, details⟩ =>
    String.ofList (List.replicate (2 * level) ' ') ++ Number.plainStyle.text32 value ++ " " ++
      description ++ "\n" ++ linesOfAll (level + 1) details

def linesOfAll (level : Nat) : List Explanation → String
  | [] => ""
  | e :: rest => linesAt level e ++ linesOfAll level rest

end

/-- The tree as a text. -/
def text (e : Explanation) : String := linesAt 0 e

end Explanation

end FeatureRank
