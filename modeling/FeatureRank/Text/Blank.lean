/-! # Blank characters

    White space of any writing system, and texts without it at their ends. -/

namespace FeatureRank.Text

/-- White space, line ends included. -/
def isBlank (c : Char) : Bool :=
  let n := c.toNat
  (0x9 ≤ n && n ≤ 0xD) || n == 0x20 || n == 0x85 || n == 0xA0 || n == 0x1680 ||
    (0x2000 ≤ n && n ≤ 0x200A) || n == 0x2028 || n == 0x2029 || n == 0x202F || n == 0x205F ||
    n == 0x3000

/-- A text without the blanks at its two ends. -/
def trim (text : List Char) : List Char :=
  ((text.dropWhile isBlank).reverse.dropWhile isBlank).reverse

/-- The lines of a text: each ends at a line feed, which takes a carriage return
    before it along, and the last needs no end. -/
def lines (text : List Char) : List (List Char) :=
  go [] text
where
  /-- The lines of a rest of the text, after the reversed start of a line. -/
  go : List Char → List Char → List (List Char)
    | [], [] => []
    | line, [] => [line.reverse]
    | line, '\n' :: rest =>
      (match line with
        | '\r' :: before => before.reverse
        | _ => line.reverse) :: go [] rest
    | line, c :: rest => go (c :: line) rest

end FeatureRank.Text
