import FeatureRank.Text.Alphanumeric
import FeatureRank.Text.LowerCase
import FeatureRank.Text.WordClass

/-! # Words of a text

    A text falls into pieces at word boundaries, by the default rules for
    finding words, and a piece with a letter or a digit in it is a word.  The
    rules look at the classes of the characters around a position: marks,
    formats and joiners belong to the character before them, so the rules about
    letters and numbers see through them. -/

namespace FeatureRank.Text

namespace WordClass

def isLetter : WordClass → Bool
  | .letter | .hebrewLetter => true
  | _ => false

def endsLine : WordClass → Bool
  | .carriageReturn | .lineFeed | .newline => true
  | _ => false

/-- A mark, format or joiner, which belongs to the character before it. -/
def attaches : WordClass → Bool
  | .extend | .format | .joiner => true
  | _ => false

/-- Punctuation that stays inside a word between two letters. -/
def joinsLetters : WordClass → Bool
  | .midLetter | .midNumberLetter | .singleQuote => true
  | _ => false

/-- Punctuation that stays inside a number between two digits. -/
def joinsDigits : WordClass → Bool
  | .midNumber | .midNumberLetter | .singleQuote => true
  | _ => false

/-- A class that a connector such as the low line sticks to. -/
def connects (c : WordClass) : Bool :=
  c.isLetter || c == .numeric || c == .katakana

end WordClass

/-- What the rules know about the text before a position. -/
structure Seen where
  /-- the class of the character right before -/
  last : WordClass
  /-- the class that marks, formats and joiners after it do not hide -/
  base : WordClass
  /-- the base before that one -/
  earlier : WordClass
  /-- whether an odd number of regional indicators ends here -/
  oddRegional : Bool

/-- What the rules know about the text after a character. -/
structure Ahead where
  /-- the class of the first character that is not attached to the one before -/
  base : WordClass
  /-- whether that character is a pictograph and a joiner stands right before it -/
  joinedPictograph : Bool

/-- Looks past the marks, formats and joiners at the start of a text. -/
def Ahead.of (text : List Char) : Ahead := go false text
where
  go (afterJoiner : Bool) : List Char → Ahead
    | [] => ⟨.other, false⟩
    | c :: rest =>
      let cls := wordClass c
      if cls.attaches then go (cls == .joiner) rest
      else ⟨cls, afterJoiner && isPictograph c⟩

/-- Whether what follows may stand after punctuation that joins a class of
    characters. -/
def Ahead.satisfies (a : Ahead) (joined : WordClass → Bool) : Bool :=
  joined a.base || a.joinedPictograph

namespace Seen

def start (c : WordClass) : Seen := ⟨c, c, .other, c == .regional⟩

/-- What is known once a character of class `c` is passed; `pictograph` tells
    whether it is one.  After a line end a mark has nothing to belong to and
    stands for itself.  A pictograph after a joiner stands for no letter, number
    or sign, even where it is one on its own. -/
def pass (s : Seen) (c : WordClass) (pictograph : Bool) : Seen :=
  if c.attaches && !s.base.endsLine then { s with last := c }
  else if s.last == .joiner && pictograph then ⟨c, .other, .other, false⟩
  else ⟨c, c, s.base, c == .regional && !s.oddRegional⟩

/-- Whether there is no boundary between what was seen and a character of class
    `c`; `pictograph` tells whether it is one, `rest` is the text after it.
    Punctuation that joins letters or digits also joins a pictograph after a
    joiner to the letter or digit before it. -/
def joins (s : Seen) (c : WordClass) (pictograph : Bool) (rest : List Char) : Bool :=
  if s.last == .carriageReturn && c == .lineFeed then true
  else if s.last.endsLine || c.endsLine then false
  else if s.last == .joiner && pictograph then true
  else if s.last == .space && c == .space then true
  else if c.attaches then true
  else if s.base.isLetter && c.isLetter then true
  else if s.base.isLetter && c.joinsLetters && (Ahead.of rest).satisfies WordClass.isLetter then true
  else if s.earlier.isLetter && s.base.joinsLetters && c.isLetter then true
  else if s.base == .hebrewLetter && c == .singleQuote then true
  else if s.base == .hebrewLetter && c == .doubleQuote
    && (Ahead.of rest).satisfies (· == .hebrewLetter) then true
  else if s.earlier == .hebrewLetter && s.base == .doubleQuote && c == .hebrewLetter then true
  else if s.base == .numeric && (c == .numeric || c.isLetter) then true
  else if s.base.isLetter && c == .numeric then true
  else if s.earlier == .numeric && s.base.joinsDigits && c == .numeric then true
  else if s.base == .numeric && c.joinsDigits && (Ahead.of rest).satisfies (· == .numeric) then true
  else if s.base == .katakana && c == .katakana then true
  else if (s.base.connects || s.base == .connector) && c == .connector then true
  else if s.base == .connector && c.connects then true
  else s.base == .regional && s.oddRegional && c == .regional

end Seen

/-- The pieces of the rest of a text, after the reversed start of a piece. -/
def piecesFrom (seen : Seen) (piece : List Char) : List Char → List (List Char)
  | [] => [piece.reverse]
  | c :: rest =>
    let cls := wordClass c
    let pictograph := isPictograph c
    if seen.joins cls pictograph rest then
      piecesFrom (seen.pass cls pictograph) (c :: piece) rest
    else
      piece.reverse :: piecesFrom (seen.pass cls pictograph) [c] rest

/-- A text cut at its word boundaries. -/
def pieces : List Char → List (List Char)
  | [] => []
  | c :: rest => piecesFrom (Seen.start (wordClass c)) [c] rest

/-- The words of a text, in lower case. -/
def words (text : String) : List String :=
  ((pieces (toLower text).toList).filter (·.any isAlphanumeric)).map String.ofList

end FeatureRank.Text
