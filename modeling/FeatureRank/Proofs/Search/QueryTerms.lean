import Mathlib.Algebra.Order.BigOperators.Group.List
import Mathlib.Algebra.Order.Group.Nat
import Mathlib.Data.Finset.Sort
import FeatureRank.Proofs.Search.Agreement

/-! # The terms of a query — which of them count on a document

    A query counts each of its terms once, in ascending order, whatever the order in
    which they are written (`distinctTerms_pairwise`, `queryFrequencies_perm`).  On a
    document only the terms count that it holds (`heldTerms`).

    A weight leaves out the terms whose statistics are zero.  A searcher of a shard,
    whether it sees the statistics of the shard or those of several, never sees less of
    a term than there is in the shard (`Searcher.Over.le_term`), so no term is left out
    that a document holds (`filterMap_weightedTerms`). -/

namespace FeatureRank

/-! ## Each term once, in order -/

/-- What is left of items in order is in order without repetitions. -/
theorem pairwise_eraseReps_loop (items : List TermId) :
    ∀ (last : TermId) (done : List TermId), (last :: items).Pairwise (· ≤ ·) →
      (done.reverse ++ [last]).Pairwise (· < ·) →
      (List.eraseRepsBy.loop (· == ·) last items done).Pairwise (· < ·) := by
  -- what is kept so far, with the last item, is in order without repetitions
  induction items with
  | nil =>
      intro last done _ hdone
      rw [List.eraseRepsBy.loop, List.reverse_cons]
      exact hdone
  | cons first rest ih =>
      intro last done hitems hdone
      obtain ⟨hlast, hrest⟩ := List.pairwise_cons.mp hitems
      rw [List.eraseRepsBy.loop]
      cases hsame : last == first with
      | true =>
          obtain rfl : last = first := beq_iff_eq.mp hsame
          exact ih last done hrest hdone
      | false =>
          have hne : last ≠ first := beq_eq_false_iff_ne.mp hsame
          have hlt : last < first := Nat.lt_of_le_of_ne (hlast first List.mem_cons_self) hne
          refine ih first (last :: done) hrest ?_
          rw [List.reverse_cons]
          refine List.pairwise_append.mpr ⟨hdone, List.pairwise_singleton _ _, ?_⟩
          intro x hx y hy
          rw [List.mem_singleton.mp hy]
          rcases List.mem_append.mp hx with hbefore | hhere
          · exact Nat.lt_trans
              ((List.pairwise_append.mp hdone).2.2 x hbefore last List.mem_cons_self) hlt
          · rw [List.mem_singleton.mp hhere]
            exact hlt

/-- **The terms of a query are counted in ascending order**, each once. -/
theorem distinctTerms_pairwise (terms : List TermId) :
    (distinctTerms terms).Pairwise (· < ·) := by
  have hsorted : (terms.mergeSort (· ≤ ·)).Pairwise (· ≤ ·) := by
    refine (List.pairwise_mergeSort ?_ ?_ terms).imp of_decide_eq_true
    · simpa using fun a b c => Nat.le_trans
    · simpa using Nat.le_total
  rw [distinctTerms, List.eraseReps, List.eraseRepsBy.eq_def]
  cases hterms : terms.mergeSort (· ≤ ·) with
  | nil => exact List.Pairwise.nil
  | cons first rest =>
      rw [hterms] at hsorted
      exact pairwise_eraseReps_loop rest first [] hsorted (List.pairwise_singleton _ _)

/-- Terms that ascend stay as they are. -/
theorem distinctTerms_of_pairwise {terms : List TermId} (h : terms.Pairwise (· < ·)) :
    distinctTerms terms = terms :=
  (distinctTerms_pairwise terms).eq_of_mem_iff h fun _ => mem_distinctTerms

/-- The order in which a query has its terms does not show. -/
theorem queryFrequencies_perm {terms other : List TermId} (h : terms.Perm other) :
    queryFrequencies terms = queryFrequencies other := by
  have hdistinct : distinctTerms terms = distinctTerms other := by
    refine (distinctTerms_pairwise terms).eq_of_mem_iff (distinctTerms_pairwise other) ?_
    intro t
    rw [mem_distinctTerms, mem_distinctTerms, h.mem_iff]
  rw [queryFrequencies, queryFrequencies, hdistinct]
  exact List.map_congr_left fun term _ => by rw [h.count_eq]

/-- The terms of a query that a document holds, each once, in ascending order. -/
def heldTerms (terms doc : List TermId) : List TermId :=
  (terms.toFinset ∩ doc.toFinset).sort (· ≤ ·)

theorem mem_heldTerms {terms doc : List TermId} {t : TermId} :
    t ∈ heldTerms terms doc ↔ t ∈ terms ∧ t ∈ doc := by
  rw [heldTerms, Finset.mem_sort, Finset.mem_inter, List.mem_toFinset, List.mem_toFinset]

theorem heldTerms_eq (terms doc : List TermId) :
    heldTerms terms doc = (distinctTerms terms).filter (· ∈ doc) := by
  -- lists in strict order with the same members are equal
  have hsorted : (heldTerms terms doc).Pairwise (· < ·) := (Finset.sortedLT_sort _).pairwise
  refine hsorted.eq_of_mem_iff ((distinctTerms_pairwise terms).filter _) ?_
  intro t
  rw [mem_heldTerms, List.mem_filter, mem_distinctTerms, decide_eq_true_eq]

theorem heldTerms_perm {terms other : List TermId} (h : terms.Perm other) (doc : List TermId) :
    heldTerms terms doc = heldTerms other doc := by
  rw [heldTerms, heldTerms, List.toFinset_eq_of_perm _ _ h]

/-! ## Searchers of a shard -/

/-- What a search of a shard may see: the statistics of the shard, or those of some terms
    over several shards, of which it is one. -/
inductive Searcher.Over (s : Shard) : Searcher → Prop where
  | alone : Over s ⟨s, none⟩
  | collected {shards : List Shard} (h : s ∈ shards) (terms : List TermId) :
      Over s ⟨s, some (.collect shards terms)⟩

/-- The statistics of a term over several shards, which are sums. -/
theorem TermStatistics.foldl_eq (shards : List Shard) (term : TermId) :
    ∀ start : TermStatistics,
      shards.foldl (fun (sum : TermStatistics) s =>
          ⟨sum.docs + s.docFrequency term, sum.occurrences + s.termFrequency term⟩) start
        = ⟨start.docs + (shards.map (·.docFrequency term)).sum,
            start.occurrences + (shards.map (·.termFrequency term)).sum⟩ := by
  induction shards with
  | nil => exact fun _ => rfl
  | cons first rest ih =>
      intro start
      simp only [List.foldl_cons, ih, List.map_cons, List.sum_cons, Nat.add_assoc]

/-- A term has the statistics that were collected for it, or none when it was not
    collected. -/
theorem GlobalStatistics.term?_collect (shards : List Shard) (terms : List TermId)
    (term : TermId) :
    (collect shards terms).term? term = if term ∈ terms then
      some ⟨(shards.map (·.docFrequency term)).sum, (shards.map (·.termFrequency term)).sum⟩
      else none := by
  simp only [term?, collect, TermStatistics.foldl_eq, Nat.zero_add]
  induction terms with
  | nil => rfl
  | cons first rest ih =>
      rw [List.map_cons, List.lookup_cons]
      cases hsame : term == first with
      | true =>
          obtain rfl : term = first := beq_iff_eq.mp hsame
          rw [if_pos List.mem_cons_self]
      | false =>
          have hne : term ≠ first := beq_eq_false_iff_ne.mp hsame
          simp only [ih, List.mem_cons, hne, false_or]

namespace Searcher.Over

variable {searcher : Searcher} {s : Shard}

/-- **A searcher never sees less of a term** than there is in its shard. -/
theorem le_term (h : searcher.Over s) (term : TermId) :
    s.docFrequency term ≤ (searcher.term term).docs ∧
      s.termFrequency term ≤ (searcher.term term).occurrences := by
  cases h with
  | alone => exact ⟨Nat.le_refl _, Nat.le_refl _⟩
  | @collected shards hmem terms =>
      show s.docFrequency term
          ≤ (((GlobalStatistics.collect shards terms).term? term).getD (s.termStatistics term)).docs ∧
        s.termFrequency term
          ≤ (((GlobalStatistics.collect shards terms).term? term).getD
            (s.termStatistics term)).occurrences
      rw [GlobalStatistics.term?_collect]
      by_cases hterm : term ∈ terms
      · rw [if_pos hterm]
        exact ⟨List.le_sum_of_mem (List.mem_map_of_mem hmem),
          List.le_sum_of_mem (List.mem_map_of_mem hmem)⟩
      · rw [if_neg hterm]
        exact ⟨Nat.le_refl _, Nat.le_refl _⟩

/-- A term that a document of the shard holds has statistics. -/
theorem term_ne_zero (h : searcher.Over s) {docs : List IndexedDocument} (hs : s.Holds docs)
    {d : IndexedDocument} (hd : d ∈ docs) {term : TermId} (hterm : term ∈ d.2) :
    (searcher.term term).docs ≠ 0 ∧ (searcher.term term).occurrences ≠ 0 := by
  obtain ⟨hdocs, hoccurrences⟩ := h.le_term term
  rw [hs.docFrequency] at hdocs
  rw [hs.termFrequency] at hoccurrences
  have hsome : 0 < docs.countP (term ∈ ·.2) :=
    List.countP_pos_iff.mpr ⟨d, hd, decide_eq_true hterm⟩
  have hcount : 0 < d.2.count term := List.count_pos_iff.mpr hterm
  have hsum : d.2.count term ≤ (docs.map (·.2.count term)).sum :=
    List.le_sum_of_mem (List.mem_map_of_mem hd)
  omega

end Searcher.Over

/-! ## Weighted terms -/

section

variable {τ : Type}

/-- The terms of a query, each with a label for its count, but for those whose statistic
    is zero. -/
def weightedTerms (statistic : TermId → Nat) (label : TermId → Nat → τ) (terms : List TermId) :
    List (TermId × τ) :=
  (queryFrequencies terms).filterMap fun (term, count) =>
    if statistic term = 0 then none else some (term, label term count)

/-- What BM25 knows of a term that a query has so many times. -/
def Searcher.anyTermLabel (searcher : Searcher) (term : TermId) (count : Nat) : Float32 :=
  Bm25.termWeight count searcher.collection.docs (searcher.term term).docs

/-- What a language model knows of it. -/
def Searcher.languageModelLabel (searcher : Searcher) (term : TermId) (count : Nat) :
    Float32 × Float32 :=
  (Float32.ofNat count,
    Float32.ofNat searcher.collection.docs / Float32.ofNat (searcher.term term).occurrences)

theorem Weight.ofAnyTerm_eq (searcher : Searcher) (terms : List TermId) :
    ofAnyTerm searcher terms = .anyTerm
      (weightedTerms (fun term => (searcher.term term).docs) searcher.anyTermLabel terms)
      searcher.collection.averageLength := rfl

theorem Weight.ofLanguageModel_eq (searcher : Searcher) (terms : List TermId) :
    ofLanguageModel searcher terms = .languageModel
      (weightedTerms (fun term => (searcher.term term).occurrences) searcher.languageModelLabel terms)
      (Float32.ofNat terms.length) searcher.collection.averageLength := rfl

variable {statistic : TermId → Nat} {label : TermId → Nat → τ} {terms doc : List TermId}
  (hstatistic : ∀ t ∈ terms, t ∈ doc → statistic t ≠ 0)

include hstatistic in
/-- **Of the weighted terms those are on a document that it holds**, each with its own
    label. -/
theorem filterMap_weightedTerms {ρ : Type} (f : TermId × τ → ρ) :
    (weightedTerms statistic label terms).filterMap
        (fun x => if x.1 ∈ doc then some (f x) else none)
      = (heldTerms terms doc).map fun t => f (t, label t (terms.count t)) := by
  rw [heldTerms_eq, ← List.filterMap_eq_map, ← List.filterMap_eq_filter, List.filterMap_filterMap,
    weightedTerms, queryFrequencies, List.filterMap_map, List.filterMap_filterMap]
  refine List.filterMap_congr ?_
  intro t ht
  by_cases hmem : t ∈ doc
  -- a term that the document holds is not left out for want of statistics
  · have hsome := hstatistic t (mem_distinctTerms.mp ht) hmem
    simp [hmem, hsome]
  · by_cases hzero : statistic t = 0
    · simp [Option.guard, hmem, hzero]
    · simp [Option.guard, hmem, hzero]

include hstatistic in
theorem any_weightedTerms :
    ((weightedTerms statistic label terms).any fun x => decide (x.1 ∈ doc)) = true
      ↔ ∃ t ∈ terms, t ∈ doc := by
  simp only [List.any_eq_true, decide_eq_true_eq]
  constructor
  · rintro ⟨x, hx, hmem⟩
    obtain ⟨⟨t, count⟩, ht, heq⟩ := List.mem_filterMap.mp hx
    obtain ⟨-, heq⟩ := Option.ite_none_left_eq_some.mp heq
    rw [← Option.some.inj heq] at hmem
    exact ⟨t, mem_of_mem_queryFrequencies ht, hmem⟩
  · rintro ⟨t, ht, hmem⟩
    refine ⟨(t, label t (terms.count t)), List.mem_filterMap.mpr ⟨(t, terms.count t), ?_, ?_⟩, hmem⟩
    · exact List.mem_map_of_mem (mem_distinctTerms.mpr ht)
    · exact if_neg (hstatistic t ht hmem)

end

end FeatureRank
