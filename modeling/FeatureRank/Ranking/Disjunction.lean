import FeatureRank.Ranking.ScoreCache
import FeatureRank.Walk.Stop

/-! # Disjunctions

    A walk over every document of a segment that takes one walk for each feature
    along.  On each document the walks of the features stand on it or beyond it,
    so the features that match are those whose walks stand on it.  The walks wait
    in a queue by their stops and only those behind the document move; for a
    document whose scores are in the score cache none does. -/

namespace FeatureRank

structure Disjunction (ω : Type) where
  docs : AllDocs
  /-- the walk of each feature by ordinal, none for one that matches nothing -/
  walks : List (Option ω)
  /-- the ordinals of the walks with their stops, the earliest first -/
  queue : List (Stop × Nat)
  /-- the number of documents in the segments before this one -/
  docBase : Nat
  cache : Option ScoreCache

namespace Disjunction

variable {ω : Type}

/-- Whether a place in the queue is before another: by stop, then by ordinal. -/
def isBefore (a b : Stop × Nat) : Bool :=
  if a.1 = b.1 then a.2 ≤ b.2 else a.1.le b.1

/-- The queue with one more place. -/
def enqueue (place : Stop × Nat) : List (Stop × Nat) → List (Stop × Nat)
  | [] => [place]
  | first :: rest =>
    if isBefore place first then place :: first :: rest else first :: enqueue place rest

def stop (d : Disjunction ω) : Stop := d.docs.stop

/-- The absolute number of a document of the segment. -/
def absolute (d : Disjunction ω) (doc : Nat) : Nat := d.docBase + doc

/-- Whether the scores of a document are in the cache. -/
def isHeld (d : Disjunction ω) (doc : Nat) : Bool :=
  match d.cache with
  | some cache => cache.contains (d.absolute doc)
  | none => false

variable [DocWalk ω]

/-- The disjunction over the walks of a segment, before its first document. -/
def ofWalks (maxDoc : Nat) (walks : List (Option ω)) (docBase : Nat)
    (cache : Option ScoreCache) : Disjunction ω where
  docs := { maxDoc }
  walks
  queue := walks.zipIdx.foldl
    (fun queue (walk, ordinal) =>
      match walk with
      | some w => enqueue (DocWalk.stop w, ordinal) queue
      | none => queue)
    []
  docBase
  cache

/-- One walk moved to a target and put back into the queue. -/
def moveWalk (target : Nat) (walks : List (Option ω)) (queue : List (Stop × Nat))
    (ordinal : Nat) : List (Option ω) × List (Stop × Nat) :=
  match walks[ordinal]?.join with
  | some w =>
    let w := DocWalk.advance target w
    (walks.set ordinal (some w), enqueue (DocWalk.stop w, ordinal) queue)
  | none => (walks, queue)

/-- The walks that are behind a target moved to it. -/
def moveWalks (target : Nat) (walks : List (Option ω)) (queue : List (Stop × Nat)) :
    List (Option ω) × List (Stop × Nat) :=
  let (late, rest) := queue.span (·.1.behind target)
  late.foldl (fun (walks, queue) (_, ordinal) => moveWalk target walks queue ordinal) (walks, rest)

/-- The walks brought up to the document of a stop, unless its scores are held. -/
def settle (d : Disjunction ω) : Disjunction ω :=
  match d.stop with
  | .exhausted => d
  | .doc doc =>
    if d.isHeld doc then d
    else
      let (walks, queue) := moveWalks doc d.walks d.queue
      { d with walks, queue }

def advance (target : Nat) (d : Disjunction ω) : Disjunction ω :=
  settle { d with docs := d.docs.advance target }

instance : DocWalk (Disjunction ω) where
  stop := Disjunction.stop
  advance := Disjunction.advance
  cost d := d.docs.maxDoc

end Disjunction

end FeatureRank
