import FeatureRank.Index.Segment
import FeatureRank.Walk.Stop

/-! # Cursors and their union

    A cursor walks the documents of one term, and a union those of several: it
    stands on the first document that any of its cursors stands on.  Each cursor
    of a union has a label, by which the caller finds what belongs to the term. -/

namespace FeatureRank

/-- A walk over the postings of one term. -/
structure Cursor where
  /-- the posting of the current document and those after it; all of them
      before the first move -/
  ahead : List Posting
  total : Nat
  stop : Stop

namespace Cursor

def ofPostings (postings : List Posting) : Cursor := ⟨postings, postings.length, .start⟩

/-- The stop at the first of some postings. -/
def stopAt : List Posting → Stop
  | [] => .exhausted
  | p :: _ => .doc p.doc

def advance (target : Nat) (c : Cursor) : Cursor :=
  let ahead := c.ahead.dropWhile (·.doc < target)
  { c with ahead, stop := stopAt ahead }

instance : DocWalk Cursor where
  stop := Cursor.stop
  advance := Cursor.advance
  cost := Cursor.total

/-- The posting that the cursor stands on, the first one before the first move. -/
def posting (c : Cursor) : Checked Posting :=
  match c.ahead with
  | p :: _ => .ok p
  | [] => .error .noPosting

def frequency (c : Cursor) : Checked Nat := return (← c.posting).frequency

def positions (c : Cursor) : Checked (Array Nat) := return (← c.posting).positions

end Cursor

/-- A walk over the documents of any of several terms. -/
structure Union (τ : Type) where
  cursors : List (τ × Cursor)
  stop : Stop

namespace Union

variable {τ : Type}

def ofCursors (cursors : List (τ × Cursor)) : Union τ := ⟨cursors, .start⟩

/-- The earliest stop of some cursors. -/
def earliest (cursors : List (τ × Cursor)) : Stop :=
  cursors.foldl (fun stop (_, c) => stop.earlier c.stop) .exhausted

def advance (target : Nat) (u : Union τ) : Union τ :=
  let cursors := u.cursors.map fun (label, c) => (label, DocWalk.reach target c)
  ⟨cursors, earliest cursors⟩

def cost (u : Union τ) : Nat := u.cursors.foldl (fun sum (_, c) => sum + c.total) 0

instance : DocWalk (Union τ) where
  stop := Union.stop
  advance := Union.advance
  cost := Union.cost

/-- The cursors that stand where the union stands. -/
def matching (u : Union τ) : List (τ × Cursor) :=
  u.cursors.filter fun (_, c) => c.stop == u.stop

end Union

end FeatureRank
