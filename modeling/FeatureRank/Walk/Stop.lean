/-! # Stops and walks

    A walk goes over some of the documents of a segment in ascending order.  It
    stands before the first document, on one, or past the last, and moves to the
    first of its documents that is not before a target.  Everything that matches
    or scores documents is a walk. -/

namespace FeatureRank

/-- Where a walk stands: on the document of a number, which is 0 before the
    first move, or past the last document. -/
inductive Stop where
  | doc (number : Nat)
  | exhausted
deriving DecidableEq, Repr, Inhabited

namespace Stop

/-- Before the first move. -/
def start : Stop := .doc 0

/-- Whether a walk has to move to reach a target. -/
def behind : Stop → Nat → Bool
  | .doc d, target => d < target
  | .exhausted, _ => false

def le : Stop → Stop → Bool
  | _, .exhausted => true
  | .exhausted, .doc _ => false
  | .doc a, .doc b => a ≤ b

/-- The earlier of two stops. -/
def earlier (a b : Stop) : Stop := if a.le b then a else b

end Stop

/-- A walk over documents in ascending order. -/
class DocWalk (ω : Type) where
  stop : ω → Stop
  /-- to the first document that is not before the target -/
  advance : Nat → ω → ω
  /-- how many documents there are to visit, at most -/
  cost : ω → Nat

namespace DocWalk

variable {ω : Type} [DocWalk ω]

/-- To the next document; a walk that has run out stays there. -/
def next (w : ω) : ω :=
  match stop w with
  | .doc d => advance (d + 1) w
  | .exhausted => w

/-- To a target, unless the walk stands there or beyond already. -/
def reach (target : Nat) (w : ω) : ω :=
  if (stop w).behind target then advance target w else w

end DocWalk

/-! ## The two plainest walks -/

/-- Every document of a segment. -/
structure AllDocs where
  maxDoc : Nat
  stop : Stop := .start
deriving DecidableEq, Repr

namespace AllDocs

def advance (target : Nat) (w : AllDocs) : AllDocs :=
  let doc := max target 1
  { w with stop := if w.maxDoc < doc then .exhausted else .doc doc }

instance : DocWalk AllDocs where
  stop := AllDocs.stop
  advance := AllDocs.advance
  cost := AllDocs.maxDoc

end AllDocs

/-- No document at all. -/
structure NoDocs where
  stop : Stop := .start
deriving DecidableEq, Repr

namespace NoDocs

instance : DocWalk NoDocs where
  stop := NoDocs.stop
  advance _ _ := ⟨.exhausted⟩
  cost _ := 0

/-- The score of a walk that stands nowhere. -/
def score (_ : NoDocs) : Float32 := 0.0

end NoDocs

end FeatureRank
