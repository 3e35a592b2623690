import FeatureRank.Proofs.Search.TermSearch

/-! # Term scores — the formulas over the document itself

    The scores of BM25 and of a language model, written out over a query, a document and
    the statistics of a searcher (`Bm25.formula`, `LanguageModel.formula`): one sum from
    left to right over the terms that the document holds, in ascending order, with the
    operations of binary32 in the order of the formula.  A scorer that was made for a
    segment and moved by any calls gives the document where it stands just this score, to
    the bit (`Searcher.term_scores_by_formula`), so no other document has a part in it and
    neither has the order of the query. -/

namespace FeatureRank

open DocWalk

/-! ## The formulas -/

/-- BM25 with `k1 = 1.2` and `b = 0.75`. -/
def Bm25.formula (searcher : Searcher) (terms doc : List TermId) : Float32 :=
  let docs := Float32.ofNat searcher.collection.docs
  let length := Float32.ofNat doc.length / searcher.collection.averageLength
  (heldTerms terms doc).foldl
    (fun sum t =>
      let inQuery := Float32.ofNat (terms.count t)
      let inDoc := Float32.ofNat (doc.count t)
      let docsWithTerm := Float32.ofNat (searcher.term t).docs
      sum + inQuery * (docs / docsWithTerm).log2 * inDoc * (1.2 + 1.0)
        / (1.2 * (1.0 - 0.75 + 0.75 * length) + inDoc))
    0.0

/-- The language model with Dirichlet smoothing. -/
def LanguageModel.formula (searcher : Searcher) (terms doc : List TermId) : Float32 :=
  let docs := Float32.ofNat searcher.collection.docs
  let length := Float32.ofNat doc.length / searcher.collection.averageLength
  (heldTerms terms doc).foldl
    (fun sum t =>
      let inQuery := Float32.ofNat (terms.count t)
      let inDoc := Float32.ofNat (doc.count t)
      let occurrences := Float32.ofNat (searcher.term t).occurrences
      sum + ((1.0 : Float32) + inDoc * (docs / occurrences)).log2 * inQuery)
    0.0 - ((1.0 : Float32) + length).log2 * Float32.ofNat terms.length

theorem Bm25.formula_perm (searcher : Searcher) {terms other : List TermId}
    (h : terms.Perm other) (doc : List TermId) :
    formula searcher terms doc = formula searcher other doc := by
  simp only [formula, heldTerms_perm h doc, h.count_eq]

theorem LanguageModel.formula_perm (searcher : Searcher) {terms other : List TermId}
    (h : terms.Perm other) (doc : List TermId) :
    formula searcher terms doc = formula searcher other doc := by
  simp only [formula, heldTerms_perm h doc, h.count_eq, h.length_eq]

/-! ## What weights say by them -/

section

variable {searcher : Searcher} {terms doc : List TermId}

/-- The labels that a document finds of weighted terms, with how often it holds each. -/
theorem occurring_weightedTerms {τ : Type} {statistic : TermId → Nat} {label : TermId → Nat → τ}
    (hstatistic : ∀ t ∈ terms, t ∈ doc → statistic t ≠ 0) :
    occurring doc (weightedTerms statistic label terms)
      = (heldTerms terms doc).map fun t => (label t (terms.count t), doc.count t) :=
  filterMap_weightedTerms hstatistic fun x => (x.2, doc.count x.1)

theorem Weight.valueOn_ofAnyTerm (hdocs : ∀ t ∈ terms, t ∈ doc → (searcher.term t).docs ≠ 0)
    (vector : Option FeatureVector) :
    (ofAnyTerm searcher terms).valueOn doc vector = Bm25.formula searcher terms doc := by
  -- the labels are the first factors of the formula, so both sums have the same steps
  rw [ofAnyTerm_eq, valueOn, occurring_weightedTerms hdocs, Bm25.score, List.foldl_map]
  rfl

theorem Weight.valueOn_ofLanguageModel
    (hoccurrences : ∀ t ∈ terms, t ∈ doc → (searcher.term t).occurrences ≠ 0)
    (vector : Option FeatureVector) :
    (ofLanguageModel searcher terms).valueOn doc vector
      = LanguageModel.formula searcher terms doc := by
  rw [ofLanguageModel_eq, valueOn, occurring_weightedTerms hoccurrences, LanguageModel.score,
    List.map_map, List.foldl_map]
  rfl

end

/-! ## Scores -/

theorem Weight.ofAnyTerm_perm (searcher : Searcher) {terms other : List TermId}
    (h : terms.Perm other) : ofAnyTerm searcher terms = ofAnyTerm searcher other := by
  rw [ofAnyTerm_eq, ofAnyTerm_eq, weightedTerms, weightedTerms, queryFrequencies_perm h]

theorem Weight.ofLanguageModel_perm (searcher : Searcher) {terms other : List TermId}
    (h : terms.Perm other) : ofLanguageModel searcher terms = ofLanguageModel searcher other := by
  rw [ofLanguageModel_eq, ofLanguageModel_eq, weightedTerms, weightedTerms, queryFrequencies_perm h,
    h.length_eq]

/-- Wherever calls lead the scorer of a weight on a segment, it gives the document there a
    score that is read off that document. -/
def Weight.ScoresBy (segment : Segment) (docs : List (List TermId)) (w : Weight)
    (formula : List TermId → Float32) : Prop :=
  ∀ fresh, w.scorer? segment = some fresh → ∀ reached, Moved fresh reached →
    ∀ index, reached.stop = .doc (index + 1) →
      ∃ doc, docs[index]? = some doc ∧ ∀ vector, reached.score vector = .ok (formula doc)

/-- A weight whose value is given by a formula scores by that. -/
theorem Weight.scoresBy_of_valueOn {docs : List (List TermId)} {w : Weight}
    {formula : List TermId → Float32}
    (h : ∀ doc ∈ docs, ∀ vector, w.valueOn doc vector = formula doc) :
    w.ScoresBy (.ofDocs docs) docs formula := by
  intro fresh hfresh reached hmoved index hstop
  obtain ⟨doc, hdoc, -, hreads⟩ := says_of_moved hfresh hmoved hstop
  refine ⟨doc, hdoc, ?_⟩
  intro vector
  rw [hreads.score vector, h doc (List.mem_of_getElem? hdoc) vector]

/-- **The scores of BM25 and of a language model are their formulas over the document.**
    For the scorers of each segment of a shard, wherever calls have led them, and for a
    searcher with the statistics of the shard as for one with those of several shards; in
    whichever order the query has its terms, the weight and so each score is the same. -/
theorem Searcher.term_scores_by_formula {added : List (IndexedDocument × Nat)}
    {searcher : Searcher} (hover : searcher.Over (Shard.ofDocs added)) {r : SegmentReader}
    (hr : r ∈ (Shard.ofDocs added).readers) (terms : List TermId) :
    let docs := r.contents (added.map (·.1.2))
    (Weight.ofAnyTerm searcher terms).ScoresBy r.segment docs (Bm25.formula searcher terms) ∧
    (Weight.ofLanguageModel searcher terms).ScoresBy r.segment docs
      (LanguageModel.formula searcher terms) ∧
    ∀ other, terms.Perm other →
      Weight.ofAnyTerm searcher other = Weight.ofAnyTerm searcher terms ∧
      Weight.ofLanguageModel searcher other = Weight.ofLanguageModel searcher terms ∧
      ∀ doc, Bm25.formula searcher other doc = Bm25.formula searcher terms doc ∧
        LanguageModel.formula searcher other doc = LanguageModel.formula searcher terms doc := by
  intro docs
  obtain ⟨hsegment, hstatistics⟩ := hover.segment_statistics hr
  rw [hsegment]
  refine ⟨?_, ?_, ?_⟩
  · refine Weight.scoresBy_of_valueOn ?_
    intro doc hdoc vector
    exact Weight.valueOn_ofAnyTerm (fun t _ ht => (hstatistics doc hdoc t ht).1) vector
  · refine Weight.scoresBy_of_valueOn ?_
    intro doc hdoc vector
    exact Weight.valueOn_ofLanguageModel (fun t _ ht => (hstatistics doc hdoc t ht).2) vector
  · intro other hperm
    refine ⟨Weight.ofAnyTerm_perm searcher hperm.symm, Weight.ofLanguageModel_perm searcher hperm.symm,
      ?_⟩
    intro doc
    exact ⟨Bm25.formula_perm searcher hperm.symm doc, LanguageModel.formula_perm searcher hperm.symm doc⟩

/-- A segment of a shard without a term that another segment has: a scorer that jumps to
    its second document gives that document the formula over its own length and the one
    term that it holds, twice. -/
theorem Searcher.term_scores_by_formula_absent :
    let added : List (IndexedDocument × Nat) :=
      [(("a", [1, 2]), 2), (("b", [4]), 2), (("c", [2]), 2), (("d", [3, 2, 2]), 2)]
    let searcher : Searcher := ⟨Shard.ofDocs added, none⟩
    let r : SegmentReader := ⟨.ofDocs [[2], [3, 2, 2]], 1, 2⟩
    searcher.Over (Shard.ofDocs added) ∧ r ∈ (Shard.ofDocs added).readers ∧
    ((Weight.ofAnyTerm searcher [1, 2]).ScoresBy r.segment (r.contents (added.map (·.1.2)))
      (Bm25.formula searcher [1, 2]) ∧
    (Weight.ofLanguageModel searcher [1, 2]).ScoresBy r.segment (r.contents (added.map (·.1.2)))
      (LanguageModel.formula searcher [1, 2]) ∧
    ∀ other, [1, 2].Perm other →
      Weight.ofAnyTerm searcher other = Weight.ofAnyTerm searcher [1, 2] ∧
      Weight.ofLanguageModel searcher other = Weight.ofLanguageModel searcher [1, 2] ∧
      ∀ doc, Bm25.formula searcher other doc = Bm25.formula searcher [1, 2] doc ∧
        LanguageModel.formula searcher other doc = LanguageModel.formula searcher [1, 2] doc) ∧
    ∃ fresh, (Weight.ofAnyTerm searcher [1, 2]).scorer? r.segment = some fresh ∧
      fresh.stop = .start ∧ (DocWalk.advance 2 fresh).stop = .doc 2 ∧
      ∀ vector, (DocWalk.advance 2 fresh).score vector = .ok (0.0 +
        Float32.ofNat 1 * (Float32.ofNat 4 / Float32.ofNat 3).log2 * Float32.ofNat 2 * (1.2 + 1.0)
          / (1.2 * (1.0 - 0.75 + 0.75 * (Float32.ofNat 3 / (Float32.ofNat 7 / Float32.ofNat 4)))
            + Float32.ofNat 2)) := by
  intro added searcher r
  have hover : searcher.Over (Shard.ofDocs added) := .alone
  have hreaders : (Shard.ofDocs added).readers = [⟨.ofDocs [[1, 2], [4]], 0, 0⟩, r] := rfl
  have hr : r ∈ (Shard.ofDocs added).readers := by
    rw [hreaders]
    exact List.mem_cons_of_mem _ List.mem_cons_self
  have hscores := term_scores_by_formula hover hr [1, 2]
  refine ⟨hover, hr, hscores, ?_⟩
  have hweight : Weight.ofAnyTerm searcher [1, 2]
      = .anyTerm [(1, Bm25.termWeight 1 4 1), (2, Bm25.termWeight 1 4 3)]
          searcher.collection.averageLength := by
    rw [Weight.ofAnyTerm, queryFrequencies, distinctTerms_of_pairwise (by decide)]
    rfl
  obtain ⟨fresh, hfresh, hstart, hstop⟩ : ∃ fresh,
      (Weight.ofAnyTerm searcher [1, 2]).scorer? r.segment = some fresh ∧
        fresh.stop = .start ∧ (DocWalk.advance 2 fresh).stop = .doc 2 := by
    rw [hweight]
    exact ⟨_, rfl, rfl, by with_unfolding_all rfl⟩
  refine ⟨fresh, hfresh, hstart, hstop, fun vector => ?_⟩
  obtain ⟨doc, hdoc, hscore⟩ := hscores.1 fresh hfresh _
    (.call .unmoved (.advance hstart (by decide))) 1 hstop
  obtain rfl : [3, 2, 2] = doc := Option.some.inj hdoc
  rw [hscore]
  have hheld : heldTerms [1, 2] [3, 2, 2] = [2] := by decide +kernel
  rw [Bm25.formula, hheld]
  rfl

end FeatureRank
