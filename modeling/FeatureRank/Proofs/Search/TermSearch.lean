import FeatureRank.Proofs.Feature.Walking
import FeatureRank.Proofs.Index.Inversion
import FeatureRank.Proofs.Search.QueryTerms

/-! # Term search — walks over the documents that hold a term

    The segments of a shard split its documents, one part after the other
    (`Shard.Holds.segment_contents`).  On each segment the scorers of BM25 and of a
    language model walk the documents that hold some term of the query, whichever
    statistics their searcher sees, and where they stand the union has the cursors of
    just those terms that the document holds (`Searcher.term_walks_exact`). -/

namespace FeatureRank

open DocWalk

/-! ## The documents of a segment -/

/-- The documents that a segment of a shard holds, of all documents of the shard. -/
def SegmentReader.contents {α : Type} (r : SegmentReader) (docs : List α) : List α :=
  (docs.drop r.docBase).take r.maxDoc

namespace Shard

/-- Segments that are made of documents hold them part after part. -/
theorem contents_readersFrom {chunks : List (List (List TermId))} (ordinal : Nat) :
    ∀ (before : List (List TermId)) {r : SegmentReader},
      r ∈ readersFrom ordinal before.length (chunks.map Segment.ofDocs) →
      r.segment = .ofDocs (r.contents (before ++ chunks.flatten)) := by
  -- on the segments that are left, with the documents of those before them general
  induction chunks generalizing ordinal with
  | nil => exact fun _ _ hr => nomatch hr
  | cons chunk rest ih =>
      intro before r hr
      rw [List.map_cons, readersFrom, Segment.maxDoc_ofDocs, ← List.length_append] at hr
      rw [List.flatten_cons]
      rcases List.mem_cons.mp hr with rfl | hlater
      · show Segment.ofDocs chunk
          = .ofDocs (((before ++ (chunk ++ rest.flatten)).drop before.length).take
            (Segment.ofDocs chunk).maxDoc)
        rw [List.drop_left, Segment.maxDoc_ofDocs, List.take_left]
      · rw [← List.append_assoc]
        exact ih (ordinal + 1) (before ++ chunk) hlater

/-- **Each segment of a shard is made of its part of the documents.** -/
theorem Holds.segment_contents {docs : List IndexedDocument} {s : Shard} (h : s.Holds docs)
    {r : SegmentReader} (hr : r ∈ s.readers) :
    r.segment = .ofDocs (r.contents (docs.map (·.2))) := by
  obtain ⟨chunks, hchunks, hflatten⟩ := h.segments
  rw [readers, hchunks] at hr
  rw [← hflatten]
  exact contents_readersFrom 0 [] hr

theorem mem_of_mem_contents {α : Type} {r : SegmentReader} {docs : List α} {doc : α}
    (h : doc ∈ r.contents docs) : doc ∈ docs :=
  List.mem_of_mem_drop (List.mem_of_mem_take h)

end Shard

/-! ## Unions that have run out -/

/-- A union that has run out has only cursors that have. -/
theorem Union.exhausted_advance {τ : Type} {cursors : List (τ × Cursor)}
    (h : earliest cursors = .exhausted) (target : Nat) :
    earliest (cursors.map fun x => (x.1, reach target x.2)) = .exhausted := by
  -- the union stands on its earliest cursor, so none is left that could move
  have hkeep : cursors.map (fun x => (x.1, reach target x.2)) = cursors := by
    refine (List.map_congr_left ?_).trans (List.map_id cursors)
    intro x hx
    have hle : Stop.exhausted.le x.2.stop = true := h ▸ earliest_le hx
    have hstop : x.2.stop = .exhausted := by
      cases hcursor : x.2.stop with
      | exhausted => rfl
      | doc d =>
          rw [hcursor] at hle
          exact nomatch hle
    have hstay : reach target x.2 = x.2 :=
      reach_ahead (by show x.2.stop.behind target = false; rw [hstop]; rfl)
    rw [hstay]
    rfl
  rw [hkeep, h]

/-! ## Walks for terms -/

/-- The scorer of BM25 walks the union of the cursors of its terms. -/
theorem Weight.scorer?_anyTerm {segment : Segment} {terms : List (TermId × Float32)}
    {average : Float32} {s : FeatureScorer}
    (hs : (Weight.anyTerm terms average).scorer? segment = some s) :
    s = .anyTerm segment (.ofCursors (cursors segment terms)) average := by
  rw [scorer?] at hs
  cases hcursors : cursors segment terms with
  | nil =>
      rw [hcursors] at hs
      cases hs
  | cons first rest =>
      rw [hcursors] at hs
      exact (Option.some.inj hs).symm

/-- So does the scorer of a language model. -/
theorem Weight.scorer?_languageModel {segment : Segment}
    {terms : List (TermId × Float32 × Float32)} {length average : Float32} {s : FeatureScorer}
    (hs : (Weight.languageModel terms length average).scorer? segment = some s) :
    s = .languageModel segment (.ofCursors (cursors segment terms)) length average := by
  rw [scorer?] at hs
  cases hcursors : cursors segment terms with
  | nil =>
      rw [hcursors] at hs
      cases hs
  | cons first rest =>
      rw [hcursors] at hs
      exact (Option.some.inj hs).symm

section

variable {τ : Type}

/-- A union on a document of a segment with a cursor for each term of a query that the
    document holds, on the posting of the document and with the label of the term. -/
structure Union.StandsFor (segment : Segment) (terms : List TermId) (label : TermId → τ)
    (number : Nat) (doc : List TermId) (u : Union τ) : Prop where
  matching : u.matching = (heldTerms terms doc).map fun t =>
    (label t, reach number (.ofPostings (segment.postingsOf t)))
  frequency : ∀ t ∈ heldTerms terms doc,
    (reach number (Cursor.ofPostings (segment.postingsOf t))).frequency = .ok (doc.count t)

/-- A scorer that walks the documents which hold some term of a query: it keeps the
    contract, stays past the last one, and stands for the terms of the document that it
    is on. -/
structure TermWalk (segment : Segment) (docs : List (List TermId)) (terms : List TermId)
    (label : TermId → τ) (wrap : Union τ → FeatureScorer) (s : FeatureScorer) : Prop where
  obeys : Obeys (Numbered docs fun doc => ∃ t ∈ terms, t ∈ doc) s
  stays : ∀ v, Moved s v → v.stop = .exhausted → ∀ target, (v.advance target).stop = .exhausted
  stands : ∀ v index, Moved s v → v.stop = .doc (index + 1) →
    ∃ doc u, docs[index]? = some doc ∧ v = wrap u ∧
      u.StandsFor segment terms label (index + 1) doc

/-- A scorer, if there is one, walks the documents that hold some term; without one there is
    no such document. -/
def TermWalks (segment : Segment) (docs : List (List TermId)) (terms : List TermId)
    (label : TermId → τ) (wrap : Union τ → FeatureScorer) : Option FeatureScorer → Prop
  | none => ∀ n, ¬Numbered docs (fun doc => ∃ t ∈ terms, t ∈ doc) n
  | some s => TermWalk segment docs terms label wrap s

variable {docs : List (List TermId)} {statistic : TermId → Nat} {label : TermId → Nat → τ}
  {terms : List TermId}
  (hstatistic : ∀ doc ∈ docs, ∀ t ∈ terms, t ∈ doc → statistic t ≠ 0)

include hstatistic in
/-- The union of weighted terms stands for the terms of the document that it is on. -/
theorem standsFor_unionAt {index : Nat} {doc : List TermId} (hdoc : docs[index]? = some doc)
    (hstop : (Weight.unionAt docs (index + 1) (weightedTerms statistic label terms)).stop
      = .doc (index + 1)) :
    (Weight.unionAt docs (index + 1) (weightedTerms statistic label terms)).StandsFor
      (.ofDocs docs) terms (fun t => label t (terms.count t)) (index + 1) doc where
  matching := by
    rw [Union.matching, hstop, Weight.filter_cursors hdoc, filterMap_weightedTerms
      (hstatistic doc (List.mem_of_getElem? hdoc))]
    rfl
  frequency := by
    intro t ht
    rcases Weight.movedTo_cases hdoc t with ⟨hnot, -⟩ | ⟨-, hahead⟩
    · exact absurd (mem_heldTerms.mp ht).2 hnot
    · show (Weight.movedTo docs (index + 1) t).frequency = _
      rw [Cursor.frequency, Cursor.posting, hahead]
      rfl

include hstatistic in
/-- **The scorer of weighted terms walks the documents that hold some of them**, when no
    term of a document has a statistic of zero. -/
theorem termWalks_of_weighted {w : Weight} (wrap : Union τ → FeatureScorer)
    (hmatches : ∀ doc, w.matchesDoc doc
      = (weightedTerms statistic label terms).any fun x => decide (x.1 ∈ doc))
    (hscorer : ∀ s, w.scorer? (Segment.ofDocs docs) = some s → s = wrap (.ofCursors
      (Weight.cursors (Segment.ofDocs docs) (weightedTerms statistic label terms))))
    (hstop : ∀ u, (wrap u).stop = u.stop)
    (hadvance : ∀ target u, (wrap u).advance target = wrap (u.advance target)) :
    TermWalks (.ofDocs docs) docs terms (fun t => label t (terms.count t)) wrap
      (w.scorer? (Segment.ofDocs docs)) := by
  have hsame : ∀ n, Numbered docs (fun doc => w.matchesDoc doc = true) n
      ↔ Numbered docs (fun doc => ∃ t ∈ terms, t ∈ doc) n := by
    refine Numbered.congr ?_
    intro doc hdoc
    rw [hmatches doc]
    exact any_weightedTerms (hstatistic doc hdoc)
  cases hs : w.scorer? (Segment.ofDocs docs) with
  | none =>
      intro n hholds
      exact Weight.not_numbered_of_none hs n ((hsame n).mpr hholds)
  | some s =>
      have hwrap := hscorer s hs
      refine ⟨(Weight.scorer?_obeys hs).congr hsame, ?_, ?_⟩
      · intro v hmoved hout target
        rw [hwrap] at hmoved
        obtain ⟨u, hu, rfl⟩ := hmoved.of_map hstop hadvance
        rw [hstop] at hout
        rw [hadvance, hstop]
        -- only a union that has moved can have run out
        cases hu with
        | unmoved => exact nomatch hout
        | call _ hcall =>
            obtain ⟨rfl, -⟩ := hcall.eq_advance
            exact Union.exhausted_advance hout target
      -- on a document the union is the fresh one brought there, whatever calls came before
      · intro v index hmoved hat
        obtain ⟨doc, hdoc, -, -⟩ := Weight.says_of_moved hs hmoved hat
        have hv := Weight.advance_of_moved hs hmoved hat
        rw [hwrap, hadvance] at hv
        rw [hv, hstop] at hat
        exact ⟨doc, _, hdoc, hv, standsFor_unionAt hstatistic hdoc hat⟩

end

/-- What a segment of a shard is made of, and that a searcher of the shard has statistics of
    every term in it. -/
theorem Searcher.Over.segment_statistics {added : List (IndexedDocument × Nat)}
    {searcher : Searcher} (hover : searcher.Over (Shard.ofDocs added)) {r : SegmentReader}
    (hr : r ∈ (Shard.ofDocs added).readers) :
    r.segment = .ofDocs (r.contents (added.map (·.1.2))) ∧
      ∀ doc ∈ r.contents (added.map (·.1.2)), ∀ t ∈ doc,
        (searcher.term t).docs ≠ 0 ∧ (searcher.term t).occurrences ≠ 0 := by
  have hholds := Shard.holds_ofDocs added
  constructor
  · rw [hholds.segment_contents hr, List.map_map]
    rfl
  · intro doc hdoc t ht
    obtain ⟨d, hd, rfl⟩ := List.mem_map.mp (Shard.mem_of_mem_contents hdoc)
    exact hover.term_ne_zero hholds (List.mem_map_of_mem hd) ht

/-- **The scorers of BM25 and of a language model walk exactly the documents that hold a
    term** of the query: on each segment of a shard, whatever the sizes of segments, and for
    a searcher with the statistics of the shard as for one with those of several shards,
    whichever terms were collected. -/
theorem Searcher.term_walks_exact {added : List (IndexedDocument × Nat)} {searcher : Searcher}
    (hover : searcher.Over (Shard.ofDocs added)) {r : SegmentReader}
    (hr : r ∈ (Shard.ofDocs added).readers) (terms : List TermId) :
    let docs := r.contents (added.map (·.1.2))
    let average := searcher.collection.averageLength
    r.segment = .ofDocs docs ∧
    TermWalks r.segment docs terms
      (fun t => searcher.anyTermLabel t (terms.count t))
      (FeatureScorer.anyTerm r.segment · average)
      ((Weight.ofAnyTerm searcher terms).scorer? r.segment) ∧
    TermWalks r.segment docs terms
      (fun t => searcher.languageModelLabel t (terms.count t))
      (FeatureScorer.languageModel r.segment · (Float32.ofNat terms.length) average)
      ((Weight.ofLanguageModel searcher terms).scorer? r.segment) := by
  intro docs average
  obtain ⟨hsegment, hstatistics⟩ := hover.segment_statistics hr
  rw [hsegment]
  refine ⟨rfl, ?_, ?_⟩
  · refine termWalks_of_weighted (fun doc hdoc t _ hmem => (hstatistics doc hdoc t hmem).1)
      (FeatureScorer.anyTerm (.ofDocs docs) · average)
      (fun _ => rfl) ?_ (fun _ => rfl) (fun _ _ => rfl)
    exact fun s => Weight.scorer?_anyTerm
  · refine termWalks_of_weighted (fun doc hdoc t _ hmem => (hstatistics doc hdoc t hmem).2)
      (FeatureScorer.languageModel (.ofDocs docs) · (Float32.ofNat terms.length) average)
      (fun _ => rfl) ?_ (fun _ => rfl) (fun _ _ => rfl)
    exact fun s => Weight.scorer?_languageModel

/-- The second segment of a shard, for a searcher with the statistics of two shards, which
    were collected for one of the terms only. -/
theorem Searcher.term_walks_exact_collected :
    let added : List (IndexedDocument × Nat) :=
      [(("a", [1, 2]), 2), (("b", [4]), 2), (("c", [2, 2, 3]), 2)]
    let shard := Shard.ofDocs added
    let other := Shard.ofDocs [(("d", [3]), 1)]
    let searcher : Searcher := ⟨shard, some (.collect [other, shard] [2])⟩
    let r : SegmentReader := ⟨.ofDocs [[2, 2, 3]], 1, 2⟩
    searcher.Over shard ∧ r ∈ shard.readers ∧
    r.contents (added.map (·.1.2)) = [[2, 2, 3]] ∧
    r.segment = .ofDocs (r.contents (added.map (·.1.2))) ∧
    TermWalks r.segment (r.contents (added.map (·.1.2))) [3, 2, 9, 2]
      (fun t => searcher.anyTermLabel t ([3, 2, 9, 2].count t))
      (FeatureScorer.anyTerm r.segment · searcher.collection.averageLength)
      ((Weight.ofAnyTerm searcher [3, 2, 9, 2]).scorer? r.segment) ∧
    TermWalks r.segment (r.contents (added.map (·.1.2))) [3, 2, 9, 2]
      (fun t => searcher.languageModelLabel t ([3, 2, 9, 2].count t))
      (FeatureScorer.languageModel r.segment · (Float32.ofNat 4)
        searcher.collection.averageLength)
      ((Weight.ofLanguageModel searcher [3, 2, 9, 2]).scorer? r.segment) := by
  intro added shard other searcher r
  have hover : searcher.Over shard :=
    .collected (List.mem_cons_of_mem other List.mem_cons_self) [2]
  have hreaders : shard.readers = [⟨.ofDocs [[1, 2], [4]], 0, 0⟩, r] := rfl
  have hr : r ∈ shard.readers := by
    rw [hreaders]
    exact List.mem_cons_of_mem _ List.mem_cons_self
  exact ⟨hover, hr, rfl, term_walks_exact hover hr [3, 2, 9, 2]⟩

end FeatureRank
