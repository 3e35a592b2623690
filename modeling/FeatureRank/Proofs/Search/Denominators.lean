import FeatureRank.Proofs.Number.Positivity
import FeatureRank.Proofs.Search.TermSearch

/-! # Denominators — what a score divides by is never zero

    The statistics of a term and those of the collection are counted in different
    places, and a searcher may take them from different ones: the collection from all
    shards and a term that was not collected from its own shard.  Still they bound each
    other.  A shard never counts more documents with a term than documents, nor more of
    them than occurrences, nor more of these than tokens (`Shard.Built.counts`), and that
    survives adding shards up (`Searcher.OverBuilt.bounds`).

    Where a scorer of BM25 or of a language model stands, its document holds a term
    (`Searcher.ScoresOver`).  So every number that a score divides by is positive
    (`Searcher.denominators_positive`). -/

namespace FeatureRank

open DocWalk

/-! ## Counts of a shard -/

/-- A document with a term has it at least once. -/
theorem countP_le_sum_count (docs : List IndexedDocument) (term : TermId) :
    docs.countP (term ∈ ·.2) ≤ (docs.map (·.2.count term)).sum := by
  induction docs with
  | nil => exact Nat.le_refl 0
  | cons first rest ih =>
      rw [List.countP_cons, List.map_cons, List.sum_cons, Nat.add_comm]
      refine Nat.add_le_add ?_ ih
      split
      next hterm => exact List.count_pos_iff.mpr (of_decide_eq_true hterm)
      next => exact Nat.zero_le _

/-- **The counts of a shard bound each other.** -/
theorem Shard.Built.counts {s : Shard} (h : s.Built) (term : TermId) :
    s.docFrequency term ≤ s.docCount ∧ s.docFrequency term ≤ s.termFrequency term ∧
      s.termFrequency term ≤ s.tokens := by
  obtain ⟨docs, hdocs⟩ := h.holds
  rw [hdocs.docFrequency, hdocs.docCount, hdocs.termFrequency, hdocs.tokens]
  refine ⟨List.countP_le_length, countP_le_sum_count docs term, ?_⟩
  exact List.sum_le_sum fun d _ => List.count_le_length

/-! ## Counts that a searcher sees -/

/-- The statistics of a collection over several shards, which are sums. -/
theorem CollectionStatistics.foldl_eq (shards : List Shard) :
    ∀ start : CollectionStatistics,
      shards.foldl (fun (sum : CollectionStatistics) s =>
          ⟨sum.docs + s.docCount, sum.tokens + s.tokens⟩) start
        = ⟨start.docs + (shards.map (·.docCount)).sum, start.tokens + (shards.map (·.tokens)).sum⟩ := by
  induction shards with
  | nil => exact fun _ => rfl
  | cons first rest ih =>
      intro start
      simp only [List.foldl_cons, ih, List.map_cons, List.sum_cons, Nat.add_assoc]

namespace Searcher

/-- What a search of a shard may see when documents built every shard: the statistics of the
    shard, or those of some terms over several shards, of which it is one. -/
inductive OverBuilt (s : Shard) : Searcher → Prop where
  | alone (h : s.Built) : OverBuilt s ⟨s, none⟩
  | collected {shards : List Shard} (h : ∀ shard ∈ shards, shard.Built) (hs : s ∈ shards)
      (terms : List TermId) : OverBuilt s ⟨s, some (.collect shards terms)⟩

variable {s : Shard} {searcher : Searcher}

theorem OverBuilt.over (h : searcher.OverBuilt s) : searcher.Over s := by
  cases h with
  | alone => exact .alone
  | collected _ hs terms => exact .collected hs terms

theorem OverBuilt.built (h : searcher.OverBuilt s) : s.Built := by
  cases h with
  | alone h => exact h
  | collected h hs => exact h s hs

/-- **The counts that a searcher sees bound each other**, wherever each of them is from. -/
theorem OverBuilt.bounds (h : searcher.OverBuilt s) (term : TermId) :
    (searcher.term term).docs ≤ searcher.collection.docs ∧
      (searcher.term term).docs ≤ (searcher.term term).occurrences ∧
      (searcher.term term).occurrences ≤ searcher.collection.tokens := by
  cases h with
  | alone h => exact h.counts term
  | @collected shards h hs terms =>
      have hcollection : (GlobalStatistics.collect shards terms).collection
          = ⟨(shards.map (·.docCount)).sum, (shards.map (·.tokens)).sum⟩ := by
        rw [GlobalStatistics.collect, CollectionStatistics.foldl_eq, Nat.zero_add, Nat.zero_add]
      simp only [Searcher.term, Searcher.collection, Option.bind_some, hcollection,
        GlobalStatistics.term?_collect]
      by_cases hterm : term ∈ terms
      -- sums over the same shards
      · rw [if_pos hterm]
        exact ⟨List.sum_le_sum fun shard hshard => ((h shard hshard).counts term).1,
          List.sum_le_sum fun shard hshard => ((h shard hshard).counts term).2.1,
          List.sum_le_sum fun shard hshard => ((h shard hshard).counts term).2.2⟩
      -- the counts of the shard, which is one of those that were added up
      · rw [if_neg hterm]
        obtain ⟨hdocs, hoccurrences, htokens⟩ := (h s hs).counts term
        exact ⟨Nat.le_trans hdocs (List.le_sum_of_mem (List.mem_map_of_mem hs)), hoccurrences,
          Nat.le_trans htokens (List.le_sum_of_mem (List.mem_map_of_mem hs))⟩

/-- What a searcher sees of a term that a score may divide by: counts that bound each other
    and are not zero, as naturals and as numbers. -/
structure Divisors (searcher : Searcher) (term : TermId) : Prop where
  docs : 1 ≤ (searcher.term term).docs ∧ (searcher.term term).docs ≤ searcher.collection.docs
  occurrences : (searcher.term term).docs ≤ (searcher.term term).occurrences ∧
    (searcher.term term).occurrences ≤ searcher.collection.tokens
  /-- the argument of the logarithm, before it is rounded -/
  ratio : 1 ≤ (searcher.collection.docs : ℚ) / (searcher.term term).docs
  docs_pos : 0 < Float32.ofNat (searcher.term term).docs
  occurrences_pos : 0 < Float32.ofNat (searcher.term term).occurrences
  collection_pos : 0 < Float32.ofNat searcher.collection.docs
  /-- totals are kept in 64 bits -/
  average_pos : searcher.collection.docs < 2 ^ 64 → searcher.collection.tokens < 2 ^ 64 →
    0 < searcher.collection.averageLength

end Searcher

/-- The average length is a number of 24 bits when the totals are of 64 bits. -/
theorem CollectionStatistics.normalIn_averageLength {c : CollectionStatistics} (hdocs : 0 < c.docs)
    (htokens : 0 < c.tokens) (hdocs64 : c.docs < 2 ^ 64) (htokens64 : c.tokens < 2 ^ 64) :
    Number.NormalIn (-89) 43 c.averageLength := by
  rw [averageLength, if_neg (Nat.ne_of_gt hdocs)]
  exact (Number.normalIn_ofNat htokens htokens64).div (Number.normalIn_ofNat hdocs hdocs64)
    (by decide) (by decide)

namespace Searcher

variable {s : Shard} {searcher : Searcher}

/-- **A term that some document of the shard holds** may be divided by. -/
theorem OverBuilt.divisors (h : searcher.OverBuilt s) {docs : List IndexedDocument}
    (hs : s.Holds docs) {d : IndexedDocument} (hd : d ∈ docs) {term : TermId} (hterm : term ∈ d.2) :
    searcher.Divisors term := by
  obtain ⟨hdocs, hoccurrences, htokens⟩ := h.bounds term
  have hsome : 0 < (searcher.term term).docs :=
    Nat.pos_of_ne_zero (h.over.term_ne_zero hs hd hterm).1
  refine ⟨⟨hsome, hdocs⟩, ⟨hoccurrences, htokens⟩, ?_, Number.ofNat_pos hsome,
    Number.ofNat_pos (by omega), Number.ofNat_pos (by omega), ?_⟩
  · rw [one_le_div (by exact_mod_cast hsome)]
    exact_mod_cast hdocs
  · intro hdocs64 htokens64
    exact (CollectionStatistics.normalIn_averageLength (by omega) (by omega) hdocs64 htokens64).pos

end Searcher

/-- The denominator of BM25 is positive for a term that a document holds. -/
theorem Bm25.saturation_pos {length frequency : Nat} {least most : Int} {average : Float32}
    (hlength : 0 < length) (haverage : Number.NormalIn least most average)
    (hfrequency : 0 < frequency) :
    0 < lengthFactor length average + Float32.ofNat frequency := by
  have hk1 : Number.NormalIn (-23) (-23) k1 :=
    ⟨-23, ⟨10066330, by decide, by decide, by decide, rfl⟩, by decide, by decide⟩
  have hb : Number.NormalIn (-24) (-24) b :=
    ⟨-24, ⟨12582912, by decide, by decide, by decide, rfl⟩, by decide, by decide⟩
  have hrest : Number.NormalIn (-25) (-25) (1.0 - b) :=
    ⟨-25, ⟨8388608, by decide, by decide, by decide, rfl⟩, by decide, by decide⟩
  have hratio : Number.NonNegative (Float32.ofNat length / average) :=
    .div (Number.nonNegative_ofNat hlength) haverage
  have hfactor : Number.NonNegative (lengthFactor length average) :=
    .mul hk1 (hrest.nonNegative.add (.mul hb hratio))
  exact hfactor.add_ofNat_pos hfrequency

/-! ## Where scorers stand -/

/-- What a score of a document is made of, where a union stands on it for the terms of a
    query: its length, how often it holds each of them, and what the searcher sees of them. -/
structure Searcher.ScoresOver {τ : Type} (searcher : Searcher) (segment : Segment)
    (terms : List TermId) (label : TermId → τ) (doc : List TermId) (u : Union τ) : Prop where
  length : FeatureScorer.lengthAt segment u.stop = .ok doc.length
  length_pos : 1 ≤ doc.length
  frequencies : FeatureScorer.frequencies u
    = .ok ((heldTerms terms doc).map fun t => (label t, doc.count t))
  frequency : ∀ t ∈ heldTerms terms doc, 1 ≤ doc.count t ∧ doc.count t ≤ doc.length
  divisors : ∀ t ∈ heldTerms terms doc, searcher.Divisors t
  /-- the denominator that BM25 has for each of the terms -/
  saturation : searcher.collection.docs < 2 ^ 64 → searcher.collection.tokens < 2 ^ 64 →
    ∀ t ∈ heldTerms terms doc,
      0 < Bm25.lengthFactor doc.length searcher.collection.averageLength
        + Float32.ofNat (doc.count t)

/-- Wherever calls lead the scorer of a weight on a segment, it walks a union that has what
    a score is made of. -/
def Searcher.StandsSafely {τ : Type} (searcher : Searcher) (segment : Segment)
    (terms : List TermId) (label : TermId → τ) (wrap : Union τ → FeatureScorer) (w : Weight) :
    Prop :=
  ∀ fresh, w.scorer? segment = some fresh → ∀ reached, Moved fresh reached →
    ∀ index, reached.stop = .doc (index + 1) →
      ∃ u doc, reached = wrap u ∧ searcher.ScoresOver segment terms label doc u

section

variable {τ : Type} {searcher : Searcher} {terms : List TermId} {label : TermId → τ}

/-- The cursors of a union that stands for a document know how often it holds their terms. -/
theorem Union.StandsFor.frequencies {segment : Segment} {number : Nat} {doc : List TermId}
    {u : Union τ} (h : u.StandsFor segment terms label number doc) :
    FeatureScorer.frequencies u
      = .ok ((heldTerms terms doc).map fun t => (label t, doc.count t)) := by
  rw [FeatureScorer.frequencies, h.matching]
  refine mapM_eq_ok.mpr ?_
  rw [List.forall₂_map_left_iff, List.forall₂_map_right_iff, List.forall₂_same]
  intro t ht
  simp only [h.frequency t ht]
  rfl

/-- A walk over the documents with some term stands safely, when each of them has terms
    that may be divided by. -/
theorem TermWalks.standsSafely {docs : List (List TermId)} {wrap : Union τ → FeatureScorer}
    {w : Weight} (hstop : ∀ u, (wrap u).stop = u.stop)
    (h : TermWalks (.ofDocs docs) docs terms label wrap (w.scorer? (.ofDocs docs)))
    (hdivisors : ∀ doc ∈ docs, ∀ t ∈ doc, searcher.Divisors t) :
    searcher.StandsSafely (.ofDocs docs) terms label wrap w := by
  intro fresh hfresh reached hmoved index hat
  rw [hfresh] at h
  obtain ⟨doc, u, hdoc, rfl, hstands⟩ := h.stands reached index hmoved hat
  have hmem : ∀ t ∈ heldTerms terms doc, t ∈ doc := fun t ht => (mem_heldTerms.mp ht).2
  have hheld : ∀ t ∈ doc, searcher.Divisors t := hdivisors doc (List.mem_of_getElem? hdoc)
  -- the walk stands on documents that hold some term
  have hpos : 0 < doc.length := by
    obtain ⟨place, doc', hplace, hdoc', t, -, ht⟩ :=
      (h.obeys.matching_of_stop hmoved hat).resolve_left (Nat.succ_ne_zero index)
    obtain rfl : index = place := Nat.succ.inj hplace
    obtain rfl : doc = doc' := Option.some.inj (hdoc.symm.trans hdoc')
    exact List.length_pos_of_mem ht
  refine ⟨u, doc, rfl, ?_, hpos, hstands.frequencies, ?_, ?_, ?_⟩
  · rw [← hstop, hat]
    exact Segment.length_ofDocs hdoc
  · intro t ht
    exact ⟨List.count_pos_iff.mpr (hmem t ht), List.count_le_length⟩
  · exact fun t ht => hheld t (hmem t ht)
  · intro hdocs64 htokens64 t ht
    have hdivisors := hheld t (hmem t ht)
    obtain ⟨⟨hdocs, hcollection⟩, ⟨hoccurrences, htokens⟩, -⟩ := hdivisors
    exact Bm25.saturation_pos hpos
      (CollectionStatistics.normalIn_averageLength (by omega) (by omega) hdocs64 htokens64)
      (List.count_pos_iff.mpr (hmem t ht))

end

/-- **What a score divides by is never zero.**  For a searcher of a shard that documents
    built, with its statistics or with those of any shards of which it is one, whichever
    terms were collected: the counts of a term that has a posting in the shard bound each
    other and are positive, and so are all denominators where a scorer of BM25 or of a
    language model stands. -/
theorem Searcher.denominators_positive {s : Shard} {searcher : Searcher}
    (h : searcher.OverBuilt s) :
    (∀ r ∈ s.readers, ∀ t, r.segment.postingsOf t ≠ [] → searcher.Divisors t) ∧
    ∀ r ∈ s.readers, ∀ terms,
      searcher.StandsSafely r.segment terms (fun t => searcher.anyTermLabel t (terms.count t))
        (FeatureScorer.anyTerm r.segment · searcher.collection.averageLength)
        (.ofAnyTerm searcher terms) ∧
      searcher.StandsSafely r.segment terms
        (fun t => searcher.languageModelLabel t (terms.count t))
        (FeatureScorer.languageModel r.segment · (Float32.ofNat terms.length)
          searcher.collection.averageLength)
        (.ofLanguageModel searcher terms) := by
  obtain ⟨docs, hdocs⟩ := h.built.holds
  have hdivisors : ∀ r : SegmentReader, ∀ doc ∈ r.contents (docs.map (·.2)), ∀ t ∈ doc,
      searcher.Divisors t := by
    intro r doc hdoc t ht
    obtain ⟨d, hd, rfl⟩ := List.mem_map.mp (Shard.mem_of_mem_contents hdoc)
    exact h.divisors hdocs hd ht
  refine ⟨?_, ?_⟩
  · intro r hr t hposting
    have hsome : 0 < r.segment.docFrequency t := List.length_pos_iff.mpr hposting
    rw [hdocs.segment_contents hr, Segment.docFrequency_ofDocs] at hsome
    obtain ⟨doc, hdoc, ht⟩ := List.countP_pos_iff.mp hsome
    exact hdivisors r doc hdoc t (of_decide_eq_true ht)
  · intro r hr terms
    have hstatistics : ∀ doc ∈ r.contents (docs.map (·.2)), ∀ t ∈ doc,
        (searcher.term t).docs ≠ 0 ∧ (searcher.term t).occurrences ≠ 0 := by
      intro doc hdoc t ht
      have hdivisors := hdivisors r doc hdoc t ht
      have hdocs := hdivisors.docs
      have hoccurrences := hdivisors.occurrences
      omega
    rw [hdocs.segment_contents hr]
    refine ⟨TermWalks.standsSafely (fun _ => rfl) ?_ (hdivisors r),
      TermWalks.standsSafely (fun _ => rfl) ?_ (hdivisors r)⟩
    · exact termWalks_of_weighted (fun doc hdoc t _ ht => (hstatistics doc hdoc t ht).1) _
        (fun _ => rfl) (fun _ => Weight.scorer?_anyTerm) (fun _ => rfl) fun _ _ => rfl
    · exact termWalks_of_weighted (fun doc hdoc t _ ht => (hstatistics doc hdoc t ht).2) _
        (fun _ => rfl) (fun _ => Weight.scorer?_languageModel) (fun _ => rfl) fun _ _ => rfl

/-- Two shards whose statistics were collected for one term, and a term of one of them that
    was not collected: the scorer of this term stands on the document that holds it, among
    three terms, and divides by a positive number there. -/
theorem Searcher.denominators_positive_collected :
    let shard := ((Shard.empty.add "a" [1, 2] 1).1.add "b" [2, 2, 3] 1).1
    let other := (Shard.empty.add "c" [4, 2] 1).1
    let searcher : Searcher := ⟨shard, some (.collect [other, shard] [2])⟩
    let r : SegmentReader := ⟨.ofDocs [[2, 2, 3]], 1, 1⟩
    searcher.OverBuilt shard ∧
    (searcher.collection = ⟨3, 7⟩ ∧ searcher.term 2 = ⟨3, 4⟩ ∧ searcher.term 3 = ⟨1, 1⟩) ∧
    searcher.Divisors 2 ∧ searcher.Divisors 3 ∧
    searcher.StandsSafely r.segment [3, 9] (fun t => searcher.anyTermLabel t ([3, 9].count t))
      (FeatureScorer.anyTerm r.segment · searcher.collection.averageLength)
      (.ofAnyTerm searcher [3, 9]) ∧
    ∃ fresh u doc, (Weight.ofAnyTerm searcher [3, 9]).scorer? r.segment = some fresh ∧
      DocWalk.next fresh = .anyTerm r.segment u searcher.collection.averageLength ∧
      u.stop = .doc 1 ∧ doc.length = 3 ∧
      searcher.ScoresOver r.segment [3, 9] (fun t => searcher.anyTermLabel t ([3, 9].count t))
        doc u ∧
      0 < Bm25.lengthFactor 3 searcher.collection.averageLength + Float32.ofNat 1 := by
  intro shard other searcher r
  have hshard : shard.Built := (Shard.Built.empty.add "a" [1, 2] 1).add "b" [2, 2, 3] 1
  have hother : other.Built := Shard.Built.empty.add "c" [4, 2] 1
  have h : searcher.OverBuilt shard := by
    refine .collected ?_ (List.mem_cons_of_mem other List.mem_cons_self) [2]
    intro s hs
    rcases List.mem_cons.mp hs with rfl | hs
    · exact hother
    · rw [List.mem_singleton.mp hs]
      exact hshard
  have hreaders : shard.readers = [⟨.ofDocs [[1, 2]], 0, 0⟩, r] := rfl
  have hr : r ∈ shard.readers := by
    rw [hreaders]
    exact List.mem_cons_of_mem _ List.mem_cons_self
  have hsafe := ((denominators_positive h).2 r hr [3, 9]).1
  refine ⟨h, ⟨rfl, rfl, rfl⟩, (denominators_positive h).1 r hr 2 (by decide),
    (denominators_positive h).1 r hr 3 (by decide), hsafe, ?_⟩
  have hweight : Weight.ofAnyTerm searcher [3, 9]
      = .anyTerm [(3, Bm25.termWeight 1 3 1)] searcher.collection.averageLength := by
    rw [Weight.ofAnyTerm, queryFrequencies, distinctTerms_of_pairwise (by decide)]
    rfl
  obtain ⟨fresh, u, hfresh, hstart, hnext, hstop, hlength, hheld⟩ : ∃ fresh u,
      (Weight.ofAnyTerm searcher [3, 9]).scorer? r.segment = some fresh ∧
        DocWalk.stop fresh = .start ∧
        DocWalk.next fresh = .anyTerm r.segment u searcher.collection.averageLength ∧
        u.stop = .doc 1 ∧ FeatureScorer.lengthAt r.segment u.stop = .ok 3 ∧
        FeatureScorer.frequencies u = .ok [(Bm25.termWeight 1 3 1, 1)] := by
    rw [hweight]
    exact ⟨_, _, rfl, rfl, rfl, by with_unfolding_all rfl, by with_unfolding_all rfl,
      by with_unfolding_all rfl⟩
  have hat : DocWalk.stop (DocWalk.next fresh) = .doc 1 := by
    rw [hnext]
    exact hstop
  obtain ⟨u', doc, hu, hover⟩ := hsafe fresh hfresh _ (.call .unmoved (.next hstart)) 0 hat
  obtain rfl : u = u' := by
    injection hnext.symm.trans hu
  have hthree : doc.length = 3 := Except.ok.inj (hover.length.symm.trans hlength)
  refine ⟨fresh, u, doc, hfresh, hnext, hstop, hthree, hover, ?_⟩
  -- the scorer holds one term, which the document has once
  have hone := Except.ok.inj (hover.frequencies.symm.trans hheld)
  obtain ⟨t, ht, -⟩ := List.map_eq_singleton_iff.mp hone
  rw [ht] at hone
  have hcount : doc.count t = 1 := congrArg Prod.snd (List.cons.inj hone).1
  have hpos := hover.saturation (by decide) (by decide) t (ht ▸ List.mem_singleton_self t)
  rwa [hthree, hcount] at hpos

end FeatureRank
