import Std.Data.TreeMap
import FeatureRank.Fault
import FeatureRank.Index.Dictionary

/-! # Segments

    A segment is an inverted index of a run of documents.  Its documents are
    numbered from 1 in the order in which they came; for each term it keeps a
    posting for each document that holds the term, in ascending order.

    Documents, positions, frequencies and lengths are natural numbers here.  In
    numbers of 32 bits, and with sums of tokens in 64 bits, a segment is the same
    while it has fewer than 2³² documents, each of fewer than 2³² tokens
    (`PackedSegment.Packs`). -/

namespace FeatureRank

/-- The occurrences of one term in one document; positions count from 1. -/
structure Posting where
  doc : Nat
  frequency : Nat
  positions : Array Nat
deriving DecidableEq, Repr, Inhabited

structure Segment where
  postings : Std.TreeMap TermId (Array Posting) := {}
  /-- the number of tokens of each document -/
  lengths : Array Nat := #[]
  /-- the number of tokens of all documents -/
  tokens : Nat := 0
deriving Inhabited

/-- Postings with one more occurrence, in the newest document. -/
def noteOccurrence (doc position : Nat) (postings : Array Posting) : Array Posting :=
  match postings.back? with
  | some newest =>
    if newest.doc = doc then
      postings.pop.push
        { newest with
          frequency := newest.frequency + 1
          positions := newest.positions.push position }
    else postings.push ⟨doc, 1, #[position]⟩
  | none => #[⟨doc, 1, #[position]⟩]

namespace Segment

def empty : Segment := {}

/-- The number of documents, which is the greatest document number too. -/
def maxDoc (s : Segment) : Nat := s.lengths.size

/-- The occurrences of a document's terms, from a position on. -/
def noteTerms (doc : Nat) :
    Nat → List TermId → Std.TreeMap TermId (Array Posting) → Std.TreeMap TermId (Array Posting)
  | _, [], postings => postings
  | position, term :: rest, postings =>
    noteTerms doc (position + 1) rest
      (postings.alter term fun old => some (noteOccurrence doc position (old.getD #[])))

/-- A segment with one more document, and the number of that document. -/
def add (s : Segment) (terms : List TermId) : Segment × Nat :=
  let doc := s.maxDoc + 1
  ({ postings := noteTerms doc 1 terms s.postings
     lengths := s.lengths.push terms.length
     tokens := s.tokens + terms.length },
   doc)

def isValid (s : Segment) (doc : Nat) : Bool := 1 ≤ doc && doc ≤ s.maxDoc

/-- The postings of a term, none when no document holds it. -/
def postingsOf (s : Segment) (term : TermId) : List Posting :=
  (s.postings.getD term #[]).toList

/-- The number of documents that hold a term. -/
def docFrequency (s : Segment) (term : TermId) : Nat := (s.postingsOf term).length

/-- The number of occurrences of a term. -/
def termFrequency (s : Segment) (term : TermId) : Nat :=
  (s.postingsOf term).foldl (fun sum p => sum + p.frequency) 0

/-- The number of tokens of a document of the segment. -/
def length (s : Segment) (doc : Nat) : Checked Nat :=
  match doc with
  | 0 => .error .noDocument
  | index + 1 =>
    match s.lengths[index]? with
    | some length => .ok length
    | none => .error .noDocument

end Segment

end FeatureRank
