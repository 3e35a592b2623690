/-! # The dictionary

    Words get the numbers 1, 2, … in the order in which they are first indexed,
    and keep them.  All shards of an engine share one dictionary, so a word has
    the same number everywhere.  How a text falls into words is not its concern:
    it is given words. -/

namespace FeatureRank

abbrev TermId := Nat

/-- The words seen so far; the word at index `i` has the number `i + 1`. -/
structure Dictionary where
  words : Array String := #[]
deriving DecidableEq, Repr, Inhabited

namespace Dictionary

def empty : Dictionary := {}

def size (d : Dictionary) : Nat := d.words.size

def id? (d : Dictionary) (word : String) : Option TermId :=
  (d.words.idxOf? word).map (· + 1)

def word? (d : Dictionary) : TermId → Option String
  | 0 => none
  | id + 1 => d.words[id]?

/-- The number of a word, a new one if it was never seen. -/
def learnWord (d : Dictionary) (word : String) : Dictionary × TermId :=
  match d.id? word with
  | some id => (d, id)
  | none => (⟨d.words.push word⟩, d.size + 1)

/-- The numbers of the words of a document that is indexed. -/
def learn (d : Dictionary) : List String → Dictionary × List TermId
  | [] => (d, [])
  | word :: rest =>
    let (d, id) := d.learnWord word
    let (d, ids) := d.learn rest
    (d, id :: ids)

/-- The numbers of the words that were seen, in order; the others cannot match. -/
def known (d : Dictionary) (words : List String) : List TermId :=
  words.filterMap d.id?

/-- The words that were never seen, in order. -/
def unknown (d : Dictionary) (words : List String) : List String :=
  words.filter fun word => (d.id? word).isNone

/-- The numbers of the words of a phrase; a phrase with a word that was never
    seen cannot match and has none. -/
def phrase (d : Dictionary) (words : List String) : List TermId :=
  if (d.unknown words).isEmpty then d.known words else []

end Dictionary

end FeatureRank
