import FeatureRank.Proofs.Feature.FirstMatch
import FeatureRank.Proofs.Walk.Contract

/-! # Scorers as walks over the documents that match

    The scorer of a weight keeps the contract of a walk over the documents of its
    segment that the weight matches (`Weight.scorer?_obeys`).  Wherever calls lead it,
    it says of the document where it stands what the weight says of that document's
    terms (`Weight.says_of_moved`). -/

namespace FeatureRank

open DocWalk

/-- The number of a document that matches something; documents are numbered from 1. -/
def Numbered {α : Type} (docs : List α) (matching : α → Prop) (n : Nat) : Prop :=
  ∃ index doc, n = index + 1 ∧ docs[index]? = some doc ∧ matching doc

/-- Only whether the documents match is of consequence. -/
theorem Numbered.congr {α : Type} {docs : List α} {matching other : α → Prop}
    (h : ∀ doc ∈ docs, matching doc ↔ other doc) (n : Nat) :
    Numbered docs matching n ↔ Numbered docs other n := by
  constructor
  · rintro ⟨index, doc, rfl, hdoc, hmatch⟩
    exact ⟨index, doc, rfl, hdoc, (h doc (List.mem_of_getElem? hdoc)).mp hmatch⟩
  · rintro ⟨index, doc, rfl, hdoc, hmatch⟩
    exact ⟨index, doc, rfl, hdoc, (h doc (List.mem_of_getElem? hdoc)).mpr hmatch⟩

namespace Weight

section

variable {docs : List (List TermId)} {w : Weight} {s v : FeatureScorer}
  (hs : w.scorer? (Segment.ofDocs docs) = some s)

include hs in
/-- **A scorer keeps the contract** over the documents that its weight matches. -/
theorem scorer?_obeys : Obeys (Numbered docs fun doc => w.matchesDoc doc = true) s := by
  refine (scorer?_direct (Segment.built_ofDocs docs) hs).obeys ?_
  intro target hpos
  obtain ⟨index, rfl⟩ : ∃ index, target = index + 1 := ⟨target - 1, by omega⟩
  -- it stops on a match, passes over none and is not behind
  refine Stop.IsFirst.of_stop ?_ ?_ (behind_advance hs index)
  · intro number hstop
    obtain ⟨place, doc, rfl, -, hdoc, hmatch, -⟩ := matches_of_stop hs hstop
    exact ⟨place, doc, rfl, hdoc, hmatch⟩
  · rintro n hn ⟨place, doc, rfl, hdoc, hmatch⟩
    exact stop_le_of_matches hs (Nat.le_of_succ_le_succ hn) hdoc hmatch

include hs in
/-- Wherever calls lead a scorer, it stands on a document that matches as if it was brought
    straight there. -/
theorem advance_of_moved (hmoved : Moved s v) {index : Nat} (hstop : v.stop = .doc (index + 1)) :
    v = s.advance (index + 1) := by
  have hdirect := scorer?_direct (Segment.built_ofDocs docs) hs
  have hahead : ∀ t, 0 < t → (stop (DocWalk.advance t s)).behind t = false := by
    intro t ht
    obtain ⟨before, rfl⟩ : ∃ before, t = before + 1 := ⟨t - 1, by omega⟩
    exact behind_advance hs before
  exact hdirect.eq_advance_of_stop hahead hmoved hstop (Nat.succ_pos index)

include hs in
/-- **A scorer says of the document where it stands** what its weight says of the terms,
    whatever calls came before. -/
theorem says_of_moved (hmoved : Moved s v) {index : Nat} (hstop : v.stop = .doc (index + 1)) :
    ∃ doc, docs[index]? = some doc ∧ w.matchesDoc doc = true ∧ w.Says doc v := by
  have hsame := advance_of_moved hs hmoved hstop
  rw [hsame] at hstop ⊢
  obtain ⟨place, doc, hplace, -, hdoc, hmatch, hreads⟩ := matches_of_stop hs hstop
  obtain rfl : index = place := Nat.succ.inj hplace
  exact ⟨doc, hdoc, hmatch, hreads⟩

/-- A weight without a scorer matches no document. -/
theorem not_numbered_of_none (h : w.scorer? (Segment.ofDocs docs) = none) (n : Nat) :
    ¬Numbered docs (fun doc => w.matchesDoc doc = true) n := by
  rintro ⟨index, doc, -, hdoc, hmatch⟩
  rw [← isSome_scorerAt? hdoc w, scorerAt?, h] at hmatch
  exact nomatch hmatch

end

end Weight

end FeatureRank
