import FeatureRank.Text.LetterCase

/-! # Lower case

    A text in lower case is its characters in lower case, but for two that need
    more: a capital I with a dot becomes two characters, and a capital sigma
    takes its final form at the end of a word. -/

namespace FeatureRank.Text

/-- Whether the next character that counts is a cased letter. -/
def meetsCased (text : List Char) : Bool :=
  match text.dropWhile isCaseIgnorable with
  | c :: _ => isCased c
  | [] => false

/-- Lower case of the rest of a text, given the characters before it in reverse.
    A sigma is final when a letter comes before it and none after it. -/
def lowerFrom : List Char → List Char → List Char
  | _, [] => []
  | before, c :: rest =>
    let lower :=
      if c = 'Σ' then [if meetsCased before && !meetsCased rest then 'ς' else 'σ']
      else if c = '\u0130' then ['i', '\u0307']
      else [lowerChar c]
    lower ++ lowerFrom (c :: before) rest

def toLower (text : String) : String := String.ofList (lowerFrom [] text.toList)

end FeatureRank.Text
