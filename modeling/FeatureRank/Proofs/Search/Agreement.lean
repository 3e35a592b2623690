import FeatureRank.Proofs.Search.Ends
import FeatureRank.Proofs.Search.Meaning
import FeatureRank.Proofs.Search.Request

/-! # What weights depend on

    Two searchers agree on some terms when the one has documents just when the
    other has, and both see the same collection and the same statistics of these
    terms (`Searcher.AgreeOn`).  A query has the same weight for both when they
    agree on its terms (`Query.weight_congr`), so `Query.terms` leaves out no
    statistic that a weight reads.  Whether a query has a weight at all depends on
    no searcher (`Query.weight_transfer`). -/

namespace FeatureRank

open Tracked

/-! ## Distinct terms -/

theorem mem_eraseReps_loop {x : TermId} (items : List TermId) :
    ∀ (last : TermId) (done : List TermId),
      x ∈ List.eraseRepsBy.loop (· == ·) last items done ↔ x ∈ done ∨ x = last ∨ x ∈ items := by
  induction items with
  | nil =>
      intro last done
      simp [List.eraseRepsBy.loop]
  | cons first rest ih =>
      intro last done
      unfold List.eraseRepsBy.loop
      cases hsame : last == first with
      | true =>
          obtain rfl : last = first := beq_iff_eq.mp hsame
          rw [ih]
          simp
      | false =>
          rw [ih]
          simp only [List.mem_cons]
          tauto

/-- Taking repetitions out of the terms of a query loses none. -/
theorem mem_distinctTerms {x : TermId} {terms : List TermId} :
    x ∈ distinctTerms terms ↔ x ∈ terms := by
  have hsorted : x ∈ terms.mergeSort (· ≤ ·) ↔ x ∈ terms := List.mem_mergeSort
  unfold distinctTerms List.eraseReps List.eraseRepsBy
  rw [← hsorted]
  cases terms.mergeSort (· ≤ ·) with
  | nil => exact Iff.rfl
  | cons first rest =>
      rw [mem_eraseReps_loop]
      simp

/-- A query counts only its own terms. -/
theorem mem_of_mem_queryFrequencies {x : TermId × Nat} {terms : List TermId}
    (h : x ∈ queryFrequencies terms) : x.1 ∈ terms := by
  obtain ⟨term, hterm, rfl⟩ := List.mem_map.mp h
  exact mem_distinctTerms.mp hterm

/-! ## Agreement -/

/-- Searchers that see the same collection and the same statistics of some terms. -/
structure Searcher.AgreeOn (terms : TermId → Prop) (a b : Searcher) : Prop where
  isEmpty : a.isEmpty = b.isEmpty
  collection : a.collection = b.collection
  term : ∀ t, terms t → a.term t = b.term t

namespace FeatureQuery

/-- Tying a query to a vector keeps its terms. -/
theorem terms_bind {features : Nat} {q tied : FeatureQuery} (h : q.bind features = .ok tied) :
    tied.terms = q.terms := by
  induction q generalizing tied with
  | boost inner factor ih =>
      unfold bind at h
      cases hinner : inner.bind features with
      | error refusal =>
          rw [hinner] at h
          cases h
      | ok tiedInner =>
          rw [hinner] at h
          rw [← Except.ok.inj h]
          show tiedInner.terms = inner.terms
          exact ih hinner
  | derived sum =>
      unfold bind at h
      split at h
      · cases h
      · rw [← Except.ok.inj h]
        rfl
  | anyTerm terms => rw [← Except.ok.inj h]
  | phrase terms => rw [← Except.ok.inj h]
  | languageModel terms => rw [← Except.ok.inj h]
  | constant score => rw [← Except.ok.inj h]
  | bound sum => rw [← Except.ok.inj h]
  | nothing => rw [← Except.ok.inj h]

theorem mem_terms_boosted {t : TermId} {factor : Float32} {q : FeatureQuery}
    (h : t ∈ (boosted factor q).terms) : t ∈ q.terms := by
  unfold boosted at h
  split at h
  · exact h
  · split at h
    · exact h
    · exact h

/-- The canonical form has no other terms. -/
theorem mem_terms_normal {t : TermId} {q : FeatureQuery} (h : t ∈ q.normal.terms) :
    t ∈ q.terms := by
  induction q with
  | anyTerm terms =>
      cases terms with
      | nil => exact h
      | cons term rest => exact List.mem_mergeSort.mp h
  | phrase terms =>
      cases terms with
      | nil => exact h
      | cons term rest => exact h
  | languageModel terms =>
      cases terms with
      | nil => exact h
      | cons term rest => exact List.mem_mergeSort.mp h
  | boost inner factor ih => exact ih (mem_terms_boosted h)
  | constant score => exact h
  | derived sum => exact h
  | bound sum => exact h
  | nothing => exact h

theorem mem_terms_canonical {t : TermId} {emptyShard : Bool} {q : FeatureQuery}
    (h : t ∈ (q.canonical emptyShard).terms) : t ∈ q.terms := by
  cases emptyShard with
  | true => exact nomatch h
  | false => exact mem_terms_normal h

end FeatureQuery

section

variable {terms : TermId → Prop} {a b : Searcher}

/-- A BM25 weight reads the collection and the statistics of its terms. -/
theorem Weight.ofAnyTerm_congr (h : a.AgreeOn terms b) {query : List TermId}
    (hquery : ∀ t ∈ query, terms t) : ofAnyTerm a query = ofAnyTerm b query := by
  unfold ofAnyTerm
  rw [h.collection]
  refine congrArg (fun weighted => Weight.anyTerm weighted _) (List.filterMap_congr ?_)
  rintro ⟨term, count⟩ hx
  have hterm := h.term term (hquery term (mem_of_mem_queryFrequencies hx))
  simp only [hterm]

/-- A language model reads the collection and the statistics of its terms. -/
theorem Weight.ofLanguageModel_congr (h : a.AgreeOn terms b) {query : List TermId}
    (hquery : ∀ t ∈ query, terms t) : ofLanguageModel a query = ofLanguageModel b query := by
  unfold ofLanguageModel
  rw [h.collection]
  refine congrArg (fun weighted => Weight.languageModel weighted _ _) (List.filterMap_congr ?_)
  rintro ⟨term, count⟩ hx
  have hterm := h.term term (hquery term (mem_of_mem_queryFrequencies hx))
  simp only [hterm]

/-- **The weight of a feature query reads the statistics of its terms only.** -/
theorem FeatureQuery.weight_congr (h : a.AgreeOn terms b) {q : FeatureQuery}
    (hq : ∀ t ∈ q.terms, terms t) : q.weight a = q.weight b := by
  induction q with
  | anyTerm query => exact congrArg Except.ok (Weight.ofAnyTerm_congr h hq)
  | languageModel query => exact congrArg Except.ok (Weight.ofLanguageModel_congr h hq)
  | boost inner factor ih =>
      unfold weight
      rw [ih hq]
  | phrase query => rfl
  | constant score => rfl
  | derived sum => rfl
  | bound sum => rfl
  | nothing => rfl

theorem FeatureQuery.weightIn_congr (h : a.AgreeOn terms b) (features : Nat)
    (cache : WeightCache) {q : FeatureQuery} (hq : ∀ t ∈ q.terms, terms t) :
    q.weightIn a features cache = q.weightIn b features cache := by
  unfold weightIn
  cases hbind : q.bind features with
  | error refusal => rfl
  | ok tied =>
      have hweight : (tied.canonical b.isEmpty).weight a = (tied.canonical b.isEmpty).weight b :=
        FeatureQuery.weight_congr h fun t ht => hq t (terms_bind hbind ▸ mem_terms_canonical ht)
      rw [h.isEmpty]
      show cache.getOrCreate _ _ = cache.getOrCreate _ _
      unfold WeightCache.getOrCreate
      rw [hweight]

namespace RankingQuery

theorem featureWeights_congr (h : a.AgreeOn terms b) (features : Nat)
    {queries : List FeatureQuery} :
    ∀ cache : WeightCache, (∀ q ∈ queries, ∀ t ∈ q.terms, terms t) →
      featureWeights a features cache queries = featureWeights b features cache queries := by
  induction queries with
  | nil => exact fun _ _ => rfl
  | cons q rest ih =>
      intro cache hqueries
      obtain ⟨hq, hrest⟩ := List.forall_mem_cons.mp hqueries
      unfold featureWeights
      rw [FeatureQuery.weightIn_congr h features cache hq]
      cases q.weightIn b features cache with
      | mk made outcome =>
          cases outcome with
          | error refusal => rfl
          | ok weight => simp only [ih made hrest]

theorem weight_congr (h : a.AgreeOn terms b) {q : RankingQuery} (hq : ∀ t ∈ q.terms, terms t)
    (cache : WeightCache) : q.weight a cache = q.weight b cache := by
  unfold weight
  rw [featureWeights_congr h q.ranker.featureCount cache fun query hquery t ht =>
    hq t (List.mem_flatMap.mpr ⟨query, hquery, ht⟩)]

end RankingQuery

/-- **The weight of a query reads the statistics of its terms only.** -/
theorem Query.weight_congr (h : a.AgreeOn terms b) {query : Query}
    (hquery : ∀ t ∈ query.terms, terms t) (enabled : Bool) (mode : ScoreMode)
    (cache : WeightCache) :
    query.weight a enabled mode cache = query.weight b enabled mode cache := by
  induction query with
  | ranking q =>
      unfold weight
      rw [RankingQuery.weight_congr h hquery]
  | boost inner factor ih =>
      unfold weight
      rw [ih hquery]
  | plain q =>
      unfold weight
      rw [h.isEmpty, FeatureQuery.weight_congr h fun t ht =>
        hquery t (FeatureQuery.mem_terms_canonical ht)]

theorem Slot.weighted_congr (h : a.AgreeOn terms b) {slot : Slot}
    (hslot : ∀ t ∈ slot.query.terms, terms t) (settings : Settings) (mode : ScoreMode) :
    slot.weighted a settings mode = slot.weighted b settings mode := by
  unfold weighted
  rw [Query.weight_congr h hslot]

end

/-! ## Caches that fit -/

/-- A ranking query with a query and a value of its ranker for each feature. -/
def RankingQuery.Sized (q : RankingQuery) : Prop :=
  q.ranker.featureCount = q.features.size ∧ q.queries.length = q.features.size

/-- A score cache that holds no list longer than the features of a query. -/
def Query.Fits (cache : Option ScoreCache) : Query → Prop
  | .ranking q => q.Sized ∧ ScoreCache.Fits q.features.size cache
  | .boost query _ => query.Fits cache
  | .plain _ => True

def Slot.Fits (slot : Slot) : Prop := slot.query.Fits slot.scores

/-- A cache fits the weight of a query just when it fits the query. -/
theorem Query.Fits.weight_iff {searcher : Searcher} {enabled : Bool} {query : Query}
    {before : Option ScoreCache} (hquery : query.Fits before) :
    ∀ {cache made : WeightCache} {w : QueryWeight},
      query.weight searcher enabled .scores cache = (made, .ok w) →
      ∀ scores, w.Fits scores ↔ query.Fits scores := by
  induction query with
  | ranking q =>
      intro cache made w h scores
      obtain ⟨-, ⟨hmode, -⟩ | ⟨-, v, hv, rfl⟩⟩ := weight_of_ranking h
      · cases hmode
      · obtain ⟨hholds, -, -, hranker, -⟩ := RankingQuery.weight_eq_ok hv
        obtain ⟨hcount, hlength⟩ := hquery.1
        simp only [QueryWeight.Fits, Query.Fits]
        rw [hranker, ← hholds.length_eq, hlength, hcount]
        exact ⟨fun hfits => ⟨hquery.1, hfits.2⟩, fun hfits => ⟨Nat.le_refl _, hfits.2⟩⟩
  | boost inner factor ih =>
      intro cache made w h scores
      obtain ⟨v, hv, rfl⟩ := weight_of_boost h
      exact ih hquery hv scores
  | plain q =>
      intro cache made w h scores
      obtain ⟨v, -, -, rfl⟩ := weight_of_plain h
      exact Iff.rfl

theorem Slot.Fits.weighted_iff {slot : Slot} (hslot : slot.Fits) {searcher : Searcher}
    {settings : Settings} {w : WeightedSlot}
    (h : (slot.weighted searcher settings .scores).Yields w) (scores : Option ScoreCache) :
    w.weight.Fits scores ↔ Slot.Fits { w.slot with scores } := by
  obtain ⟨hweight, heq⟩ := Slot.weighted_yields h
  rw [Query.Fits.weight_iff hslot hweight, heq]
  rfl

/-- The cache of a slot fits the weight that the slot gets. -/
theorem Slot.Fits.weighted {slot : Slot} (hslot : slot.Fits) {searcher : Searcher}
    {settings : Settings} {w : WeightedSlot}
    (h : (slot.weighted searcher settings .scores).Yields w) : w.weight.Fits w.slot.scores := by
  rw [hslot.weighted_iff h]
  rw [(Slot.weighted_yields h).2]
  exact hslot

/-- The caches of slots fit the weights that the slots get. -/
theorem Slot.weighted_fits {slots : List Slot} (hslots : ∀ slot ∈ slots, slot.Fits)
    {searcher : Searcher} {settings : Settings} {weighted : List WeightedSlot}
    (h : (slots.mapM fun slot : Slot => slot.weighted searcher settings .scores).Yields weighted) :
    ∀ w ∈ weighted, w.weight.Fits w.slot.scores := by
  intro w hw
  obtain ⟨slot, hslot, hyields⟩ := forall₂_mem (yields_mapM h).flip hw
  exact (hslots slot hslot).weighted hyields

/-- What a query of a request becomes as a slot. -/
inductive QueryRequest.Becomes (dictionary : Dictionary) : QueryRequest → Slot → Prop where
  | byModel {model : Model} {params : Params} {q : RankingQuery}
      (h : RankingQuery.ofModel model ⟨some dictionary⟩ params = .ok q) (caching : Option Bool)
      {scores : Option ScoreCache} (hscores : scores = none ∨ scores = some .empty) :
      Becomes dictionary (.byModel model params caching) { query := .ranking q, scores }
  | prebuilt {model : Model} {q : RankingQuery} (h : RankingQuery.ofPrebuilt model = .ok q) :
      Becomes dictionary (.prebuilt model) { query := .ranking q }
  | boost {inner : QueryRequest} {slot : Slot} (h : Becomes dictionary inner slot)
      (factor : Float32) :
      Becomes dictionary (.boost inner factor) { slot with query := .boost slot.query factor }
  | anyTerm (text : String) :
      Becomes dictionary (.anyTerm text)
        { query := .plain (.anyTerm (dictionary.known (Text.words text))) }
  | phrase (text : String) :
      Becomes dictionary (.phrase text)
        { query := .plain (.phrase (dictionary.phrase (Text.words text))) }

theorem QueryRequest.slot_becomes {dictionary : Dictionary} {settings : Settings}
    {query : QueryRequest} {slot : Slot} (h : (query.slot dictionary settings).Yields slot) :
    query.Becomes dictionary slot := by
  induction query generalizing slot with
  | byModel model params caching =>
      unfold QueryRequest.slot at h
      obtain ⟨_, -, h⟩ := yields_bind h
      cases hmade : RankingQuery.ofModel model ⟨some dictionary⟩ params with
      | error refusal =>
          rw [hmade] at h
          obtain ⟨_, -, h⟩ := yields_bind h
          exact absurd h not_yields_throw
      | ok q =>
          rw [hmade] at h
          rw [← yields_pure h]
          refine .byModel hmade caching ?_
          split
          · exact Or.inr rfl
          · exact Or.inl rfl
  | prebuilt model =>
      obtain ⟨q, hmade, h⟩ := yields_bind h
      rw [← yields_pure h]
      exact .prebuilt (yields_ofExcept hmade)
  | boost inner factor ih =>
      obtain ⟨slot', hslot', h⟩ := yields_bind h
      rw [← yields_pure h]
      exact .boost (ih hslot') factor
  | anyTerm text =>
      rw [← yields_pure h]
      exact .anyTerm text
  | phrase text =>
      rw [← yields_pure h]
      exact .phrase text

/-- The slot of a query by accepted models fits. -/
theorem QueryRequest.Becomes.fits {dictionary : Dictionary} {query : QueryRequest} {slot : Slot}
    (h : query.Becomes dictionary slot) (hquery : query.Accepted) : slot.Fits := by
  induction h with
  | @byModel model params q h caching scores hscores =>
      refine ⟨RankingQuery.Accepted.size ⟨model, _, _, hquery, h⟩, ?_⟩
      rcases hscores with rfl | rfl
      · exact ScoreCache.Fits.none _
      · exact ScoreCache.Fits.empty _
  | @prebuilt model q h =>
      exact ⟨RankingQuery.Accepted.size ⟨model, _, _, hquery, h⟩, ScoreCache.Fits.none _⟩
  | boost h factor ih => exact ih hquery
  | anyTerm text => exact trivial
  | phrase text => exact trivial

/-- A request as it is asked on a shard: the slots are those of the filter and of the
    scored queries, in order and by their names. -/
structure ShardRequest.IsOf (r : ShardRequest) (dictionary : Dictionary) (request : SearchRequest) :
    Prop where
  filter : Option.Rel (QueryRequest.Becomes dictionary) request.filter r.filter
  queries : List.Forall₂ (fun x slot => ∃ made, x.2.Becomes dictionary made ∧
    slot = { made with name := x.1 }) request.queries r.queries

/-- **Nothing is left out when a request is taken apart.** -/
theorem ShardRequest.ofRequest_isOf {dictionary : Dictionary} {settings : Settings}
    {request : SearchRequest} {r : ShardRequest}
    (h : (ofRequest dictionary settings request).Yields r) : r.IsOf dictionary request where
  filter := match request.filter, r.filter, ofRequest_filter h with
    | _, _, .none => .none
    | _, _, .some hslot => .some (QueryRequest.slot_becomes hslot)
  queries := by
    refine (ofRequest_parts h).1.imp ?_
    rintro x slot ⟨made, hmade, rfl⟩
    exact ⟨made, QueryRequest.slot_becomes hmade, rfl⟩

/-- The slot of a filter is that of a query. -/
theorem ShardRequest.IsOf.made_filter {dictionary : Dictionary} {request : SearchRequest}
    {r : ShardRequest} (h : r.IsOf dictionary request) {slot : Slot}
    (hslot : r.filter = some slot) :
    ∃ query : QueryRequest, query.Becomes dictionary slot :=
  match request.filter, r.filter, h.filter, hslot with
  | _, _, .some hmade, rfl => ⟨_, hmade⟩

/-! ## Which queries have weights -/

namespace FeatureQuery

/-- A query in which every sum is tied to a vector. -/
def Tied : FeatureQuery → Prop
  | .derived _ => False
  | .boost query _ => query.Tied
  | _ => True

theorem tied_bind {features : Nat} {q tied : FeatureQuery} (h : q.bind features = .ok tied) :
    tied.Tied := by
  induction q generalizing tied with
  | boost inner factor ih =>
      unfold bind at h
      cases hinner : inner.bind features with
      | error refusal =>
          rw [hinner] at h
          cases h
      | ok tiedInner =>
          rw [hinner] at h
          rw [← Except.ok.inj h]
          show tiedInner.Tied
          exact ih hinner
  | derived sum =>
      unfold bind at h
      split at h
      · cases h
      · rw [← Except.ok.inj h]
        exact trivial
  | anyTerm terms => rw [← Except.ok.inj h]; exact trivial
  | phrase terms => rw [← Except.ok.inj h]; exact trivial
  | languageModel terms => rw [← Except.ok.inj h]; exact trivial
  | constant score => rw [← Except.ok.inj h]; exact trivial
  | bound sum => rw [← Except.ok.inj h]; exact trivial
  | nothing => rw [← Except.ok.inj h]; exact trivial

theorem Tied.boosted {q : FeatureQuery} (h : q.Tied) (factor : Float32) :
    (boosted factor q).Tied := by
  unfold FeatureQuery.boosted
  split
  · exact trivial
  · split
    · exact h
    · exact h

theorem Tied.canonical {q : FeatureQuery} (h : q.Tied) (emptyShard : Bool) :
    (q.canonical emptyShard).Tied := by
  cases emptyShard with
  | true => exact trivial
  | false =>
      show q.normal.Tied
      induction q with
      | anyTerm terms => cases terms <;> exact trivial
      | phrase terms => cases terms <;> exact trivial
      | languageModel terms => cases terms <;> exact trivial
      | boost inner factor ih => exact (ih h).boosted factor
      | derived sum => exact h
      | constant score => exact trivial
      | bound sum => exact trivial
      | nothing => exact trivial

/-- A tied query has a weight. -/
theorem Tied.weight {q : FeatureQuery} (h : q.Tied) (searcher : Searcher) :
    ∃ w, q.weight searcher = .ok w := by
  induction q with
  | boost inner factor ih =>
      obtain ⟨w, hw⟩ := ih h
      exact ⟨.boost w factor, by simp only [FeatureQuery.weight, hw]⟩
  | derived sum => exact h.elim
  | anyTerm terms => exact ⟨_, rfl⟩
  | phrase terms => exact ⟨_, rfl⟩
  | languageModel terms => exact ⟨_, rfl⟩
  | constant score => exact ⟨_, rfl⟩
  | bound sum => exact ⟨_, rfl⟩
  | nothing => exact ⟨_, rfl⟩

/-- The weight of a feature whose sums can be tied is there or can be made. -/
theorem weightIn_of_bind {features : Nat} {q tied : FeatureQuery}
    (h : q.bind features = .ok tied) (searcher : Searcher) (cache : WeightCache) :
    ∃ made w, q.weightIn searcher features cache = (made, .ok w) := by
  obtain ⟨w, hw⟩ := ((tied_bind h).canonical searcher.isEmpty).weight searcher
  unfold weightIn WeightCache.getOrCreate
  simp only [h, hw]
  split
  · exact ⟨_, _, rfl⟩
  · split <;> exact ⟨_, _, rfl⟩

end FeatureQuery

theorem RankingQuery.featureWeights_of_bind {features : Nat} {queries : List FeatureQuery}
    (h : ∀ q ∈ queries, ∃ tied, q.bind features = .ok tied) (searcher : Searcher) :
    ∀ cache : WeightCache, ∃ made ws,
      featureWeights searcher features cache queries = (made, .ok ws) := by
  induction queries with
  | nil => exact fun cache => ⟨cache, [], rfl⟩
  | cons q rest ih =>
      intro cache
      obtain ⟨⟨tied, hbind⟩, hrest⟩ := List.forall_mem_cons.mp h
      obtain ⟨between, w, hw⟩ := FeatureQuery.weightIn_of_bind hbind searcher cache
      obtain ⟨made, ws, hws⟩ := ih hrest between
      exact ⟨made, w :: ws, by simp only [featureWeights, hw, hws]⟩

/-- A ranking query that has a weight for one searcher has one for any other. -/
theorem RankingQuery.weight_transfer {q : RankingQuery} {a : Searcher} {cache made : WeightCache}
    {w : RankingWeight} (h : q.weight a cache = (made, .ok w)) (b : Searcher)
    (other : WeightCache) : ∃ made' w', q.weight b other = (made', .ok w') := by
  obtain ⟨hholds, -⟩ := RankingQuery.weight_eq_ok h
  have hbind : ∀ query ∈ q.queries, ∃ tied, query.bind q.ranker.featureCount = .ok tied := by
    intro query hquery
    obtain ⟨weight, -, tied, htied, -⟩ := forall₂_mem hholds hquery
    exact ⟨tied, htied⟩
  obtain ⟨made', ws, hws⟩ := RankingQuery.featureWeights_of_bind hbind b other
  exact ⟨made', ⟨ws, q.ranker, q.features⟩, by simp only [RankingQuery.weight, hws]⟩

/-- A query whose plain part is tied. -/
def Query.Tied : Query → Prop
  | .ranking _ => True
  | .boost query _ => query.Tied
  | .plain query => query.Tied

/-- **Whether a query has a weight depends on no searcher.** -/
theorem Query.weight_transfer {query : Query} (htied : query.Tied) {a : Searcher}
    {enabled : Bool} {mode : ScoreMode} {cache : WeightCache} :
    ∀ {made : WeightCache} {w : QueryWeight},
      query.weight a enabled mode cache = (made, .ok w) → ∀ (b : Searcher) (other : WeightCache),
        ∃ made' w', query.weight b enabled mode other = (made', .ok w') := by
  induction query with
  | ranking q =>
      intro made w h b other
      obtain ⟨rfl, ⟨rfl, -, -⟩ | ⟨rfl, v, hv, -⟩⟩ := weight_of_ranking h
      · exact ⟨_, _, rfl⟩
      · obtain ⟨made', w', hmade⟩ := RankingQuery.weight_transfer hv b other
        exact ⟨made', .ranking w', by simp only [Query.weight, hmade, if_true]⟩
  | boost inner factor ih =>
      intro made w h b other
      obtain ⟨v, hv, -⟩ := weight_of_boost h
      obtain ⟨made', w', hmade⟩ := ih htied hv b other
      exact ⟨made', .boost w' factor, by simp only [Query.weight, hmade]⟩
  | plain q =>
      intro made w h b other
      obtain ⟨weight, hweight⟩ := (FeatureQuery.Tied.canonical htied b.isEmpty).weight b
      exact ⟨other, .plain weight, by simp only [Query.weight, hweight]⟩

theorem QueryRequest.Becomes.tied {dictionary : Dictionary} {query : QueryRequest} {slot : Slot}
    (h : query.Becomes dictionary slot) : slot.query.Tied := by
  induction h with
  | byModel h caching hscores => exact trivial
  | prebuilt h => exact trivial
  | boost h factor ih => exact ih
  | anyTerm text => exact trivial
  | phrase text => exact trivial

end FeatureRank
