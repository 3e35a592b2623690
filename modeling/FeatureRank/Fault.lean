/-! # Faults

    A fault is a broken precondition inside the library: asking for something
    that is not there.  No request brings one about; an operation that has a
    precondition says so in its type and answers with the fault. -/

namespace FeatureRank

/-- Which precondition was broken. -/
inductive Fault where
  /-- the length of a document that the segment does not hold -/
  | noDocument
  /-- the posting of a cursor that has run out -/
  | noPosting
  /-- a place of a feature vector beyond its size -/
  | noOrdinal
  /-- a feature beyond those of its set -/
  | noFeature
  /-- a feature value while no hit is being logged -/
  | valueBeforeHit
  /-- an extra value while no hit is being logged -/
  | extraBeforeHit
  /-- a logged value for a feature beyond those of the log -/
  | noEntry
  /-- a score while the scorer stands on no document -/
  | notOnDocument
  /-- a document for an engine without shards -/
  | noShard
deriving DecidableEq, Repr

/-- The text of a fault, for the faults that have one. -/
def Fault.message? : Fault → Option String
  | .valueBeforeHit => some "accept called before next_doc"
  | .extraBeforeHit => some "extra logging requested before next_doc"
  | _ => none

/-- A computation with a precondition. -/
abbrev Checked := Except Fault

end FeatureRank
