import FeatureRank.Proofs.Index.Postings
import FeatureRank.Proofs.Walk.Direct

/-! # Walks stay inside — every stop is a document of the segment

    A walk over postings of a segment stands on documents of the segment only.
    For each kind of walk this is an invariant of the postings that it still has
    ahead (`Cursor.Inside`, `Union.Inside`, `PhraseWalk.Inside`), kept by every
    move to a document; where such a move ends is a document of the segment. -/

namespace FeatureRank

open DocWalk

/-- A stop on one of the first `last` documents, or past all of them. -/
def Stop.Inside (last : Nat) (s : Stop) : Prop := ∀ doc, s = .doc doc → 0 < doc ∧ doc ≤ last

theorem Stop.Inside.exhausted (last : Nat) : Stop.exhausted.Inside last := fun _ h => nomatch h

/-! ## Cursors -/

/-- The stop at the first of some postings is on one of their documents. -/
theorem Cursor.stopAt_inside {last : Nat} {postings : List Posting}
    (h : ∀ p ∈ postings, 0 < p.doc ∧ p.doc ≤ last) : (Cursor.stopAt postings).Inside last := by
  intro doc hdoc
  cases postings with
  | nil => exact nomatch hdoc
  | cons p rest =>
      rw [← Stop.doc.inj hdoc]
      exact h p List.mem_cons_self

/-- A cursor with postings of the segment ahead, before its first move or on a
    document of the segment. -/
structure Cursor.Inside (last : Nat) (c : Cursor) : Prop where
  ahead : ∀ p ∈ c.ahead, 0 < p.doc ∧ p.doc ≤ last
  stop : c.stop = .start ∨ c.stop.Inside last

namespace Cursor

theorem Inside.fresh {last : Nat} {postings : List Posting} (h : InOrder last postings) :
    (Cursor.ofPostings postings).Inside last := ⟨h.inside, Or.inl rfl⟩

/-- A cursor that is brought to a document stops inside. -/
theorem Inside.reach {last target : Nat} {c : Cursor} (h : c.Inside last) (hpos : 0 < target) :
    (reach target c).Inside last ∧ (reach target c).stop.Inside last := by
  by_cases hbehind : (DocWalk.stop c).behind target = true
  · rw [reach_behind hbehind]
    have hahead : ∀ p ∈ c.ahead.dropWhile (·.doc < target), 0 < p.doc ∧ p.doc ≤ last :=
      fun p hp => h.ahead p ((List.dropWhile_sublist _).subset hp)
    exact ⟨⟨hahead, Or.inr (stopAt_inside hahead)⟩, stopAt_inside hahead⟩
  · rw [reach_ahead (Bool.eq_false_iff.mpr hbehind)]
    refine ⟨h, h.stop.resolve_left ?_⟩
    intro hstart
    refine hbehind ?_
    rw [show DocWalk.stop c = .start from hstart]
    exact decide_eq_true hpos

end Cursor

/-! ## Unions -/

/-- A union of cursors that are all inside. -/
def Union.Inside {τ : Type} (last : Nat) (u : Union τ) : Prop := ∀ x ∈ u.cursors, x.2.Inside last

theorem Union.Inside.advance {τ : Type} {last target : Nat} {u : Union τ} (h : u.Inside last)
    (hpos : 0 < target) :
    (u.advance target).Inside last ∧ (u.advance target).stop.Inside last := by
  constructor
  · intro x hx
    obtain ⟨y, hy, heq⟩ := List.mem_map.mp hx
    rw [← heq]
    exact ((h y hy).reach hpos).1
  · intro doc hdoc
    obtain ⟨x, hx, hat⟩ := Union.earliest_eq_doc hdoc
    obtain ⟨y, hy, heq⟩ := List.mem_map.mp hx
    rw [← heq] at hat
    exact ((h y hy).reach hpos).2 doc hat

/-! ## Phrases -/

/-- A phrase whose first term has postings of the segment ahead. -/
def PhraseWalk.Inside (last : Nat) (w : PhraseWalk) : Prop :=
  ∀ p ∈ w.lead.ahead, 0 < p.doc ∧ p.doc ≤ last

namespace PhraseWalk

/-- Seeking ends on a posting of the first term, with those after it ahead. -/
theorem seek_stands (total : Nat) (postings : List Posting) :
    ∀ others : List Cursor, (seek total postings others).lead.ahead.Sublist postings ∧
      (seek total postings others).stop = Cursor.stopAt (seek total postings others).lead.ahead := by
  induction postings with
  | nil => intro others; exact ⟨List.Sublist.refl _, rfl⟩
  | cons p rest ih =>
      intro others
      simp only [seek]
      cases countAt p.doc p (others.map (reach p.doc)) with
      | zero =>
          by_cases hout : (others.map (reach p.doc)).any (·.stop == .exhausted) = true
          · simp only [hout, if_true]
            exact ⟨List.nil_sublist _, rfl⟩
          · simp only [hout]
            obtain ⟨hsub, hstop⟩ := ih (others.map (reach p.doc))
            exact ⟨hsub.trans (List.sublist_cons_self p rest), hstop⟩
      | succ n => exact ⟨List.Sublist.refl _, rfl⟩

theorem Inside.advance {last target : Nat} {w : PhraseWalk} (h : w.Inside last)
    (hpos : 0 < target) :
    (w.advance target).Inside last ∧ (w.advance target).stop.Inside last := by
  rw [advance_eq_seek hpos]
  obtain ⟨hsub, hstop⟩ :=
    seek_stands w.lead.total (w.lead.ahead.dropWhile (·.doc < target)) w.others
  have hinside : (seek w.lead.total (w.lead.ahead.dropWhile (·.doc < target)) w.others).Inside
      last := fun p hp => h p ((List.dropWhile_sublist _).subset (hsub.subset hp))
  refine ⟨hinside, ?_⟩
  rw [hstop]
  exact Cursor.stopAt_inside hinside

end PhraseWalk

/-! ## All documents -/

theorem AllDocs.advance_inside {last : Nat} (target : Nat) {w : AllDocs} (h : w.maxDoc = last) :
    (w.advance target).maxDoc = last ∧ (w.advance target).stop.Inside last := by
  refine ⟨h, ?_⟩
  intro doc hdoc
  simp only [AllDocs.advance] at hdoc
  split at hdoc
  · exact nomatch hdoc
  · have := Stop.doc.inj hdoc
    omega

end FeatureRank
