import FeatureRank.Proofs.Feature.Scorer
import FeatureRank.Proofs.Index.Contents

/-! # Cursors over documents

    A cursor that is brought to a document of a segment is on its posting there if
    the document holds the term, and past it if not (`Weight.movedTo_cases`).  So a
    union of cursors stands on a document just when that holds some of the terms
    (`Weight.stop_unionAt`), and a phrase walk just when the terms stand in it one
    after the other (`Weight.phraseWalk_cases`). -/

namespace FeatureRank

open DocWalk

/-! ## Terms of a document -/

/-- The labels of the terms that a document holds, with how often it does. -/
def occurring {τ : Type} (doc : List TermId) (terms : List (TermId × τ)) : List (τ × Nat) :=
  terms.filterMap fun (term, label) =>
    if term ∈ doc then some (label, doc.count term) else none

/-- Whether terms stand one after the other in a document, from an index on. -/
def standsAt (doc : List TermId) : Nat → List TermId → Bool
  | _, [] => true
  | index, term :: rest => doc[index]? == some term && standsAt doc (index + 1) rest

/-- How often a phrase occurs in a document; a phrase without terms does not. -/
def phraseCount (doc : List TermId) : List TermId → Nat
  | [] => 0
  | term :: rest => (List.range doc.length).countP fun index => standsAt doc index (term :: rest)

theorem mem_of_standsAt {doc terms : List TermId} {index : Nat}
    (h : standsAt doc index terms = true) : ∀ term ∈ terms, term ∈ doc := by
  induction terms generalizing index with
  | nil => exact fun _ hmem => nomatch hmem
  | cons term rest ih =>
      obtain ⟨hterm, hrest⟩ := Bool.and_eq_true_iff.mp h
      intro t ht
      rcases List.mem_cons.mp ht with rfl | hmem
      · exact List.mem_of_getElem? (beq_iff_eq.mp hterm)
      · exact ih hrest t hmem

/-- A document without one of its terms does not hold a phrase. -/
theorem phraseCount_eq_zero {doc terms : List TermId} {term : TermId} (hterm : term ∈ terms)
    (hnot : term ∉ doc) : phraseCount doc terms = 0 := by
  cases terms with
  | nil => rfl
  | cons first rest =>
      refine List.countP_eq_zero.mpr ?_
      intro index _ hstands
      exact hnot (mem_of_standsAt hstands term hterm)

namespace Weight

/-! ## One cursor -/

section

variable {docs : List (List TermId)} {index : Nat} {doc : List TermId}
  (hdoc : docs[index]? = some doc)

/-- The cursor of a term on a segment of some documents, brought to a document. -/
def movedTo (docs : List (List TermId)) (number : Nat) (term : TermId) : Cursor :=
  reach number (.ofPostings ((Segment.ofDocs docs).postingsOf term))

theorem movedTo_succ (docs : List (List TermId)) (index : Nat) (term : TermId) :
    (movedTo docs (index + 1) term).ahead = postingsFrom term (index + 1) (docs.drop index) ∧
      (movedTo docs (index + 1) term).stop
        = Cursor.stopAt (movedTo docs (index + 1) term).ahead := by
  refine ⟨?_, rfl⟩
  show ((Segment.ofDocs docs).postingsOf term).dropWhile (·.doc < index + 1) = _
  rw [Segment.postingsOf_ofDocs, Nat.add_comm index 1]
  exact dropWhile_postingsFrom term docs 1 index

/-- A cursor never stops before the document that it is brought to. -/
theorem behind_movedTo (docs : List (List TermId)) (index : Nat) (term : TermId) :
    (movedTo docs (index + 1) term).stop.behind (index + 1) = false := by
  obtain ⟨hahead, hstop⟩ := movedTo_succ docs index term
  rw [hstop, hahead]
  cases hpostings : postingsFrom term (index + 1) (docs.drop index) with
  | nil => rfl
  | cons p rest =>
      have hle := (doc_postingsFrom (hpostings ▸ List.mem_cons_self : p ∈ postingsFrom _ _ _)).1
      exact decide_eq_false (Nat.not_lt.mpr hle)

include hdoc in
/-- **Where a cursor is brought to**: on the posting of the document if it holds
    the term, else past it. -/
theorem movedTo_cases (term : TermId) :
    (term ∉ doc ∧ (movedTo docs (index + 1) term).ahead
        = postingsFrom term (index + 2) (docs.drop (index + 1))) ∨
    (term ∈ doc ∧ (movedTo docs (index + 1) term).ahead
        = ⟨index + 1, doc.count term, (positionsOf term 1 doc).toArray⟩
          :: postingsFrom term (index + 2) (docs.drop (index + 1))) := by
  have hdrop : docs.drop index = doc :: docs.drop (index + 1) := by
    obtain ⟨hlt, rfl⟩ := List.getElem?_eq_some_iff.mp hdoc
    exact List.drop_eq_getElem_cons hlt
  rw [(movedTo_succ docs index term).1, hdrop, postingsFrom]
  cases hpositions : positionsOf term 1 doc with
  | nil => exact Or.inl ⟨positionsOf_eq_nil.mp hpositions, rfl⟩
  | cons position rest =>
      refine Or.inr ⟨?_, ?_⟩
      · by_contra hnot
        rw [positionsOf_eq_nil.mpr hnot] at hpositions
        cases hpositions
      · rw [← length_positionsOf term doc 1, hpositions]
        rfl

/-- Postings of later documents do not stop on this one. -/
theorem stopAt_later {term : TermId} {postings : List Posting}
    (h : postings.Sublist (postingsFrom term (index + 2) (docs.drop (index + 1)))) :
    Cursor.stopAt postings ≠ .doc (index + 1) := by
  cases postings with
  | nil => exact nofun
  | cons p rest =>
      have hle := (doc_postingsFrom (h.subset List.mem_cons_self)).1
      intro hstop
      have hat : p.doc = index + 1 := Stop.doc.inj hstop
      omega

include hdoc in
theorem stop_movedTo (term : TermId) :
    (movedTo docs (index + 1) term).stop = .doc (index + 1) ↔ term ∈ doc := by
  rw [(movedTo_succ docs index term).2]
  rcases movedTo_cases hdoc term with ⟨hnot, hahead⟩ | ⟨hmem, hahead⟩
  · rw [hahead]
    exact iff_of_false (stopAt_later (List.Sublist.refl _)) hnot
  · rw [hahead]
    exact iff_of_true rfl hmem

/-! ## Unions -/

variable {τ : Type}

/-- The union of the cursors of terms, brought to a document. -/
def unionAt (docs : List (List TermId)) (number : Nat) (terms : List (TermId × τ)) : Union τ :=
  (Union.ofCursors (cursors (Segment.ofDocs docs) terms)).advance number

/-- Terms without postings have no cursor; the others have theirs in order. -/
theorem cursors_unionAt (docs : List (List TermId)) (number : Nat) (terms : List (TermId × τ)) :
    (unionAt docs number terms).cursors = terms.filterMap fun x =>
      if (Segment.ofDocs docs).postingsOf x.1 = [] then none
      else some (x.2, movedTo docs number x.1) := by
  show (cursors (Segment.ofDocs docs) terms).map
    (fun x => (x.1, reach number x.2)) = _
  unfold cursors
  rw [List.map_filterMap]
  refine List.filterMap_congr ?_
  rintro ⟨term, label⟩ -
  cases hpostings : (Segment.ofDocs docs).postingsOf term with
  | nil => simp [hpostings]
  | cons p rest => simp [hpostings, movedTo]

include hdoc in
theorem postingsOf_ne_nil {term : TermId} (h : term ∈ doc) :
    (Segment.ofDocs docs).postingsOf term ≠ [] := by
  intro hnil
  have hstop := (stop_movedTo hdoc term).mpr h
  rw [movedTo, hnil] at hstop
  exact nomatch hstop

include hdoc in
/-- The cursors that stand on the document are those of the terms that it holds. -/
theorem filter_cursors (terms : List (TermId × τ)) :
    (unionAt docs (index + 1) terms).cursors.filter (fun x => x.2.stop == .doc (index + 1))
      = terms.filterMap fun x =>
          if x.1 ∈ doc then some (x.2, movedTo docs (index + 1) x.1) else none := by
  rw [cursors_unionAt, List.filter_filterMap]
  refine List.filterMap_congr ?_
  rintro ⟨term, label⟩ -
  by_cases hmem : term ∈ doc
  · simp [hmem, postingsOf_ne_nil hdoc hmem, (stop_movedTo hdoc term).mpr hmem]
  · have hnot : (movedTo docs (index + 1) term).stop ≠ .doc (index + 1) :=
      fun h => hmem ((stop_movedTo hdoc term).mp h)
    by_cases hnil : (Segment.ofDocs docs).postingsOf term = []
    · simp [hmem, hnil]
    · simp [hmem, hnil, hnot]

/-- A union never stops before the document that it is brought to. -/
theorem behind_unionAt (docs : List (List TermId)) (index : Nat) (terms : List (TermId × τ)) :
    (unionAt docs (index + 1) terms).stop.behind (index + 1) = false := by
  cases hstop : (unionAt docs (index + 1) terms).stop with
  | exhausted => rfl
  | doc d =>
      obtain ⟨x, hx, hat⟩ := Union.earliest_eq_doc hstop
      rw [show (Union.ofCursors _).cursors.map _ = (unionAt docs (index + 1) terms).cursors from rfl,
        cursors_unionAt] at hx
      obtain ⟨⟨term, label⟩, -, heq⟩ := List.mem_filterMap.mp hx
      simp only [Option.ite_none_left_eq_some, Option.some.injEq] at heq
      rw [← heq.2] at hat
      rw [← hat]
      exact behind_movedTo docs index term

include hdoc in
/-- A union stops on a document that holds any of the terms. -/
theorem stop_unionAt (terms : List (TermId × τ)) :
    (unionAt docs (index + 1) terms).stop = .doc (index + 1) ↔ ∃ x ∈ terms, x.1 ∈ doc := by
  constructor
  · intro hstop
    obtain ⟨x, hx, hat⟩ := Union.earliest_eq_doc hstop
    have hmem : x ∈ (unionAt docs (index + 1) terms).cursors.filter
        (fun x => x.2.stop == .doc (index + 1)) :=
      List.mem_filter.mpr ⟨hx, by simpa using hat⟩
    rw [filter_cursors hdoc] at hmem
    obtain ⟨y, hy, heq⟩ := List.mem_filterMap.mp hmem
    simp only [Option.ite_none_right_eq_some] at heq
    exact ⟨y, hy, heq.1⟩
  · rintro ⟨x, hx, hmem⟩
    have hcursor : (x.2, movedTo docs (index + 1) x.1) ∈ (unionAt docs (index + 1) terms).cursors := by
      rw [cursors_unionAt]
      exact List.mem_filterMap.mpr ⟨x, hx, by simp [postingsOf_ne_nil hdoc hmem]⟩
    -- the union stops no later than the cursor of the term, and not before the document
    have hle : (unionAt docs (index + 1) terms).stop.le
        (movedTo docs (index + 1) x.1).stop = true := Union.earliest_le hcursor
    have hnot := behind_unionAt docs index terms
    rw [(stop_movedTo hdoc x.1).mpr hmem] at hle
    cases hstop : (unionAt docs (index + 1) terms).stop with
    | exhausted =>
        rw [hstop] at hle
        exact nomatch hle
    | doc d =>
        rw [hstop] at hle hnot
        have hlo : ¬d < index + 1 := of_decide_eq_false hnot
        have hhi : d ≤ index + 1 := of_decide_eq_true hle
        rw [show d = index + 1 by omega]

include hdoc in
/-- The frequencies that a union finds are those in the document. -/
theorem frequencies_unionAt {terms : List (TermId × τ)}
    (hstop : (unionAt docs (index + 1) terms).stop = .doc (index + 1)) :
    FeatureScorer.frequencies (unionAt docs (index + 1) terms) = .ok (occurring doc terms) := by
  unfold FeatureScorer.frequencies Union.matching
  rw [hstop, filter_cursors hdoc]
  clear hstop
  induction terms with
  | nil => rfl
  | cons x rest ih =>
      rcases movedTo_cases hdoc x.1 with ⟨hnot, -⟩ | ⟨hmem, hahead⟩
      · simpa [occurring, hnot] using ih
      · have hposting : (movedTo docs (index + 1) x.1).frequency = .ok (doc.count x.1) := by
          unfold Cursor.frequency Cursor.posting
          rw [hahead]
          rfl
        simp only [List.filterMap_cons, if_pos hmem, List.mapM_cons, hposting, occurring]
        exact bind_eq_ok.mpr ⟨_, rfl, bind_eq_ok.mpr ⟨_, ih, rfl⟩⟩

/-! ## Phrases -/

/-- The postings of a phrase's terms in a document that holds all of them. -/
def postingIn (doc : List TermId) (number : Nat) (term : TermId) : Posting :=
  ⟨number, doc.count term, (positionsOf term 1 doc).toArray⟩

include hdoc in
theorem postingAt?_movedTo (term : TermId) :
    PhraseWalk.postingAt? (index + 1) (movedTo docs (index + 1) term)
      = if term ∈ doc then some (postingIn doc (index + 1) term) else none := by
  have hstop := stop_movedTo hdoc term
  unfold PhraseWalk.postingAt?
  rcases movedTo_cases hdoc term with ⟨hnot, -⟩ | ⟨hmem, hahead⟩
  · have hne : (movedTo docs (index + 1) term).stop ≠ .doc (index + 1) :=
      fun h => hnot (hstop.mp h)
    rw [if_neg hnot]
    cases (movedTo docs (index + 1) term).ahead with
    | nil => rfl
    | cons p rest => simp [hne]
  · rw [hahead, if_pos hmem]
    simp [hstop.mpr hmem, postingIn]

theorem continues_postingIn (doc : List TermId) (number position : Nat) (terms : List TermId) :
    PhraseWalk.continues position (terms.map (postingIn doc number))
      = standsAt doc position terms := by
  induction terms generalizing position with
  | nil => rfl
  | cons term rest ih =>
      rw [List.map_cons, PhraseWalk.continues, standsAt, ih, postingIn, List.contains_toArray]
      congr 1
      rw [Bool.eq_iff_iff, List.contains_iff_mem, mem_positionsOf, beq_iff_eq]

include hdoc in
/-- **How often the phrase occurs** is counted right when the cursors of the other
    terms are brought to the document. -/
theorem countAt_movedTo (term : TermId) (rest : List TermId) :
    PhraseWalk.countAt (index + 1) (postingIn doc (index + 1) term)
        (rest.map (movedTo docs (index + 1)))
      = phraseCount doc (term :: rest) := by
  have hothers : (rest.map (movedTo docs (index + 1))).mapM (PhraseWalk.postingAt? (index + 1))
      = if ∀ t ∈ rest, t ∈ doc then some (rest.map (postingIn doc (index + 1))) else none := by
    induction rest with
    | nil => rfl
    | cons t others ih =>
        rw [List.map_cons, List.mapM_cons, ih, postingAt?_movedTo hdoc]
        by_cases ht : t ∈ doc
        · by_cases hall : ∀ t ∈ others, t ∈ doc
          · rw [if_pos ht, if_pos hall, if_pos (List.forall_mem_cons.mpr ⟨ht, hall⟩)]
            rfl
          · rw [if_pos ht, if_neg hall, if_neg fun h => hall (List.forall_mem_cons.mp h).2]
            rfl
        · rw [if_neg ht, if_neg fun h => ht (List.forall_mem_cons.mp h).1]
          rfl
  unfold PhraseWalk.countAt
  rw [hothers]
  by_cases hall : ∀ t ∈ rest, t ∈ doc
  · rw [if_pos hall]
    -- positions of the first term are indices, moved by one
    simp only [continues_postingIn, postingIn, positionsOf_eq_filter, List.countP_filter,
      List.range'_eq_map_range, List.countP_map, phraseCount]
    refine List.countP_congr ?_
    intro k _
    simp [standsAt, Nat.add_comm 1 k, and_comm]
  · rw [if_neg hall]
    simp only [not_forall] at hall
    obtain ⟨t, hmem, hnot⟩ := hall
    exact (phraseCount_eq_zero (List.mem_cons_of_mem term hmem) hnot).symm

/-- The walk of a phrase over the postings of its terms. -/
def phraseWalk (docs : List (List TermId)) (term : TermId) (rest : List TermId) : PhraseWalk where
  lead := .ofPostings ((Segment.ofDocs docs).postingsOf term)
  others := rest.map fun t => .ofPostings ((Segment.ofDocs docs).postingsOf t)

theorem advance_phraseWalk (docs : List (List TermId)) (index : Nat) (term : TermId)
    (rest : List TermId) :
    Alike ((phraseWalk docs term rest).advance (index + 1))
      (PhraseWalk.standOn ((Segment.ofDocs docs).postingsOf term).length
        (phraseWalk docs term rest).others
        (PhraseWalk.holding (phraseWalk docs term rest).others
          (movedTo docs (index + 1) term).ahead)) := by
  have hasc := ((Segment.built_ofDocs docs).inOrder term).ascending
  rw [PhraseWalk.advance_eq_seek (Nat.succ_pos index)]
  exact PhraseWalk.seek_alike _ _ (hasc.sublist (List.dropWhile_sublist _)) _ fun _ _ => rfl

theorem stop_standOn (total : Nat) (others : List Cursor) (postings : List Posting) :
    (PhraseWalk.standOn total others postings).stop = Cursor.stopAt postings := by
  cases postings <;> rfl

/-- The walk of a phrase never stops before the document that it is brought to. -/
theorem behind_phraseWalk (docs : List (List TermId)) (index : Nat) (term : TermId)
    (rest : List TermId) :
    ((phraseWalk docs term rest).advance (index + 1)).stop.behind (index + 1) = false := by
  have halike := advance_phraseWalk docs index term rest
  rw [show PhraseWalk.stop _ = _ from halike.stop_eq]
  rw [show stop (PhraseWalk.standOn _ _ _) = _ from stop_standOn _ _ _]
  cases hholding : PhraseWalk.holding (phraseWalk docs term rest).others
      (movedTo docs (index + 1) term).ahead with
  | nil => rfl
  | cons p later =>
      have hmem : p ∈ (movedTo docs (index + 1) term).ahead :=
        (List.dropWhile_sublist _).subset (hholding ▸ List.mem_cons_self)
      rw [(movedTo_succ docs index term).1] at hmem
      exact decide_eq_false (Nat.not_lt.mpr (doc_postingsFrom hmem).1)

include hdoc in
/-- **The walk of a phrase** stops on a document where the phrase occurs, and has
    counted how often. -/
theorem phraseWalk_cases (term : TermId) (rest : List TermId) :
    (phraseCount doc (term :: rest) = 0 ∧
      ((phraseWalk docs term rest).advance (index + 1)).stop ≠ .doc (index + 1)) ∨
    (0 < phraseCount doc (term :: rest) ∧
      ((phraseWalk docs term rest).advance (index + 1)).stop = .doc (index + 1) ∧
      ((phraseWalk docs term rest).advance (index + 1)).occurrences
        = phraseCount doc (term :: rest)) := by
  have halike := advance_phraseWalk docs index term rest
  have hlater : ∀ postings : List Posting,
      postings.Sublist (postingsFrom term (index + 2) (docs.drop (index + 1))) →
      Alike ((phraseWalk docs term rest).advance (index + 1))
        (PhraseWalk.standOn ((Segment.ofDocs docs).postingsOf term).length
          (phraseWalk docs term rest).others postings) →
      ((phraseWalk docs term rest).advance (index + 1)).stop ≠ .doc (index + 1) := by
    intro postings hsub halike
    rw [show PhraseWalk.stop _ = _ from halike.stop_eq]
    rw [show stop (PhraseWalk.standOn _ _ _) = _ from stop_standOn _ _ _]
    exact stopAt_later hsub
  rcases movedTo_cases hdoc term with ⟨hnot, hahead⟩ | ⟨hmem, hahead⟩
  · rw [hahead] at halike
    exact Or.inl ⟨phraseCount_eq_zero List.mem_cons_self hnot,
      hlater _ (List.dropWhile_sublist _) halike⟩
  · have hcount : PhraseWalk.occurrencesIn (phraseWalk docs term rest).others
        (postingIn doc (index + 1) term) = phraseCount doc (term :: rest) := by
      rw [← countAt_movedTo hdoc term rest]
      unfold PhraseWalk.occurrencesIn phraseWalk
      rw [List.map_map]
      rfl
    rw [hahead] at halike
    unfold PhraseWalk.holding at halike
    rcases Nat.eq_zero_or_pos (phraseCount doc (term :: rest)) with hzero | hpos
    · refine Or.inl ⟨hzero, ?_⟩
      rw [List.dropWhile_cons_of_pos (by
        show (PhraseWalk.occurrencesIn _ (postingIn doc (index + 1) term) == 0) = true
        rw [hcount, hzero]
        rfl)] at halike
      exact hlater _ (List.dropWhile_sublist _) halike
    · rw [List.dropWhile_cons_of_neg (by
        show ¬(PhraseWalk.occurrencesIn _ (postingIn doc (index + 1) term) == 0) = true
        rw [hcount, beq_iff_eq]
        exact Nat.ne_of_gt hpos)] at halike
      have heq := halike.eq_of_doc (d := index + 1) rfl
      rw [heq]
      exact Or.inr ⟨hpos, rfl, hcount⟩

/-! ## Terms without postings -/

/-- The weight of any terms has a scorer where some cursor is. -/
theorem cursors_eq_nil {docs : List (List TermId)} {terms : List (TermId × τ)}
    (h : cursors (Segment.ofDocs docs) terms = []) {index : Nat} {doc : List TermId}
    (hdoc : docs[index]? = some doc) : ∀ x ∈ terms, x.1 ∉ doc := by
  intro x hx hmem
  have hstop := (stop_unionAt hdoc terms).mpr ⟨x, hx, hmem⟩
  rw [unionAt, h] at hstop
  exact nomatch hstop

/-- A phrase has a walk when every term has postings. -/
theorem ofPostings?_cases (docs : List (List TermId)) (term : TermId) (rest : List TermId) :
    PhraseWalk.ofPostings? ((term :: rest).map (Segment.ofDocs docs).postingsOf)
        = some (phraseWalk docs term rest) ∨
    (PhraseWalk.ofPostings? ((term :: rest).map (Segment.ofDocs docs).postingsOf) = none ∧
      ∃ t ∈ term :: rest, (Segment.ofDocs docs).postingsOf t = []) := by
  rw [List.map_cons, PhraseWalk.ofPostings?, ← List.map_cons]
  by_cases hany : ((term :: rest).map (Segment.ofDocs docs).postingsOf).any (·.isEmpty) = true
  · rw [if_pos hany]
    refine Or.inr ⟨rfl, ?_⟩
    obtain ⟨postings, hmem, hempty⟩ := List.any_eq_true.mp hany
    obtain ⟨t, ht, rfl⟩ := List.mem_map.mp hmem
    exact ⟨t, ht, List.isEmpty_iff.mp hempty⟩
  · rw [if_neg hany, List.map_map]
    exact Or.inl rfl

end

end Weight

end FeatureRank
