import FeatureRank.Walk.Cursor

/-! # Phrases

    A phrase occurs in a document at a position when each of its terms stands
    there, one position further for each term.  The walk follows the first term
    and brings the cursors of the others along; it stops where all of them stand
    on one document and the phrase occurs in it. -/

namespace FeatureRank

structure PhraseWalk where
  /-- the cursor of the first term -/
  lead : Cursor
  /-- the cursors of the second term and those after it -/
  others : List Cursor
  stop : Stop := .start
  /-- how often the phrase occurs in the document -/
  occurrences : Nat := 0

namespace PhraseWalk

/-- The posting of a cursor that stands on a document. -/
def postingAt? (doc : Nat) (c : Cursor) : Option Posting :=
  match c.ahead with
  | p :: _ => if c.stop == .doc doc then some p else none
  | [] => none

/-- Whether the terms after the first go on from a position of the first. -/
def continues : Nat → List Posting → Bool
  | _, [] => true
  | position, p :: rest => p.positions.contains (position + 1) && continues (position + 1) rest

/-- How often the phrase occurs in a document of the first term: not at all
    unless every other cursor stands on that document too. -/
def countAt (doc : Nat) (lead : Posting) (others : List Cursor) : Nat :=
  match others.mapM (postingAt? doc) with
  | some rest => lead.positions.toList.countP fun start => continues start rest
  | none => 0

def finished (total : Nat) (others : List Cursor) : PhraseWalk :=
  { lead := ⟨[], total, .exhausted⟩, others, stop := .exhausted }

/-- To the first of some documents of the first term that holds the phrase. -/
def seek (total : Nat) : List Posting → List Cursor → PhraseWalk
  | [], others => finished total others
  | p :: rest, others =>
    let others := others.map (DocWalk.reach p.doc)
    match countAt p.doc p others with
    | 0 =>
      if others.any (·.stop == .exhausted) then finished total others
      else seek total rest others
    | n + 1 => ⟨⟨p :: rest, total, .doc p.doc⟩, others, .doc p.doc, n + 1⟩

/-- Before the first move every cursor stands on document 0 with its first
    posting ahead, and a walk that is told to go no further counts there. -/
def countUnmoved (w : PhraseWalk) (target : Nat) : Nat :=
  match w.lead.ahead with
  | p :: _ => if target = 0 && w.lead.stop == .start then countAt 0 p w.others else 0
  | [] => 0

def advance (target : Nat) (w : PhraseWalk) : PhraseWalk :=
  match w.countUnmoved target with
  | 0 => seek w.lead.total (w.lead.ahead.dropWhile (·.doc < target)) w.others
  | n + 1 => { w with stop := .start, occurrences := n + 1 }

/-- As many documents as the rarest term has. -/
def cost (w : PhraseWalk) : Nat := w.others.foldl (fun least c => min least c.total) w.lead.total

instance : DocWalk PhraseWalk where
  stop := PhraseWalk.stop
  advance := PhraseWalk.advance
  cost := PhraseWalk.cost

/-- The walk for the postings of the terms of a phrase, none when a term has no
    posting or there is no term. -/
def ofPostings? : List (List Posting) → Option PhraseWalk
  | [] => none
  | lead :: others =>
    if (lead :: others).any (·.isEmpty) then none
    else some { lead := .ofPostings lead, others := others.map .ofPostings }

end PhraseWalk

end FeatureRank
