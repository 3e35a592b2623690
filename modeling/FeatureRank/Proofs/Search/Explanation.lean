import FeatureRank.Proofs.Search.Answer

/-! # Explanations account for scores

    An explanation is made after the search by scorers of its own, which go straight to
    the document and fill a vector of their own.  It shows nevertheless what the search
    did: its details are of the queries that gave the document a score, with the values
    that they gave (`ShardRequest.Accounted`), and the features under the detail of a
    query by a model are the vector that its ranker was given (`Query.Accounts`). -/

namespace FeatureRank

open Tracked

/-! ## One query -/

/-- Explanations of features that show a vector: one for each ordinal, which matched
    just when the ordinal is set and then has its value. -/
structure FeatureVector.ShownBy (v : FeatureVector) (details : List Explanation) : Prop where
  size : v.size = details.length
  value : ∀ (i : Nat) (detail : Explanation), details[i]? = some detail →
    v.get? i = if detail.isMatch then some detail.value else none

/-- An explanation that accounts for what a query gave a document.  That of a query by
    a model shows the vector that the ranker was given, under however many boosts. -/
inductive Query.Accounts : Query → Scored → Explanation → Prop where
  | plain {query : FeatureQuery} {scored : Scored} {explanation : Explanation}
      (hmatch : explanation.isMatch = true) (hvalue : explanation.value = scored.value) :
      Accounts (.plain query) scored explanation
  | ranking {query : RankingQuery} {scored : Scored} {explanation : Explanation}
      {v : FeatureVector} (hmatch : explanation.isMatch = true)
      (hgiven : scored.features = some v) (hdefault : v.default = query.ranker.default)
      (hshown : v.ShownBy explanation.details) (hscore : scored.value = query.ranker.score v)
      (hvalue : explanation.value = query.ranker.score v) :
      Accounts (.ranking query) scored explanation
  | boost {query : Query} {scored : Scored} {explanation : Explanation}
      (h : Accounts query scored explanation) (factor : Float32) (description : String) :
      Accounts (.boost query factor) { scored with value := scored.value * factor }
        (.matched (explanation.value * factor) description [explanation, .matched factor "boost"])

namespace Query.Accounts

variable {query : Query} {scored : Scored} {explanation : Explanation}

theorem isMatch (h : query.Accounts scored explanation) : explanation.isMatch = true := by
  cases h with
  | plain hmatch hvalue => exact hmatch
  | ranking hmatch hgiven hdefault hshown hscore hvalue => exact hmatch
  | boost h factor description => rfl

/-- The explained value is the score. -/
theorem value (h : query.Accounts scored explanation) : explanation.value = scored.value := by
  induction h with
  | plain hmatch hvalue => exact hvalue
  | ranking hmatch hgiven hdefault hshown hscore hvalue => rw [hvalue, hscore]
  | @boost query scored explanation h factor description ih =>
      show explanation.value * factor = scored.value * factor
      rw [ih]

end Query.Accounts

theorem RankingWeight.default_collectOn (doc : List TermId) (weights : List Weight) :
    ∀ (ordinal : Nat) (vector : FeatureVector),
      (collectOn doc ordinal vector weights).vector.default = vector.default := by
  induction weights with
  | nil => exact fun _ _ => rfl
  | cons weight rest ih =>
      intro ordinal vector
      simp only [collectOn]
      split
      · exact ih _ (vector.put ordinal _)
      · exact ih _ vector

/-- **The explanation of a ranking weight shows the vector that its scores fill.** -/
theorem RankingWeight.shownBy_explanationOn {w : RankingWeight}
    (hnames : w.features.names.length = w.weights.length)
    (hcount : w.weights.length = w.ranker.featureCount) (doc : List TermId) :
    (w.gatheredOn doc none).vector.ShownBy (w.explanationOn doc).details ∧
      (w.explanationOn doc).value = w.ranker.score (w.gatheredOn doc none).vector := by
  let items := w.features.names.zip w.weights
  have hitems : items.map (·.2) = w.weights := List.map_snd_zip (Nat.le_of_eq hnames.symm)
  have hlength : items.length = w.ranker.featureCount := by
    rw [← hcount, ← hitems, List.length_map]
  have hvector : (explanationsOn doc 0 w.emptyVector items).2 = (w.gatheredOn doc none).vector := by
    rw [vector_explanationsOn, hitems]
    rfl
  obtain ⟨hdetails, hshows⟩ := explanationsOn_shows doc items
    (show 0 + items.length ≤ w.emptyVector.size by
      rw [hlength, Nat.zero_add]
      exact Nat.le_of_eq (FeatureVector.size_ofSize _ _).symm)
    fun i _ => FeatureVector.get?_ofSize _ _ i
  refine ⟨⟨?_, fun i detail hdetail => ?_⟩, ?_⟩
  · rw [size_gatheredOn]
    exact (hdetails.trans hlength).symm
  · have hi := hshows i detail hdetail
    rwa [Nat.zero_add, hvector] at hi
  · show w.ranker.score (explanationsOn doc 0 w.emptyVector items).2 = _
    rw [hvector]

/-- An explanation matches just when the document does. -/
theorem QueryWeight.isMatch_explanationOn (doc : List TermId) (w : QueryWeight) :
    (w.explanationOn doc).isMatch = w.matchesDoc doc := by
  induction w with
  | plain weight => exact Weight.isMatch_explanationOn doc none weight
  | ranking weight => rfl
  | boost inner factor ih => exact (Weight.isMatch_explainBoost _ _ _).trans ih

/-- **What a query gives a document that no scores are kept for is accounted for** by
    the explanation of its weight. -/
theorem Query.Fits.accounts {query : Query} {scores : Option ScoreCache}
    (hquery : query.Fits scores) {searcher : Searcher} {enabled : Bool} {doc : List TermId} :
    ∀ {cache made : WeightCache} {w : QueryWeight},
      query.weight searcher enabled .scores cache = (made, .ok w) → w.matchesDoc doc = true →
      query.Accounts (w.scoredOn doc none) (w.explanationOn doc) := by
  induction query with
  | ranking q =>
      intro cache made w h _
      obtain ⟨-, ⟨hmode, -⟩ | ⟨-, v, hv, rfl⟩⟩ := weight_of_ranking h
      · cases hmode
      · obtain ⟨hholds, -, -, hranker, hfeatures⟩ := RankingQuery.weight_eq_ok hv
        obtain ⟨hcount, hqueries⟩ := hquery.1
        have hlength : v.weights.length = q.features.size := by rw [← hholds.length_eq, hqueries]
        obtain ⟨hshown, hvalue⟩ := RankingWeight.shownBy_explanationOn
          (show v.features.names.length = v.weights.length by
            rw [hfeatures, hlength]
            exact List.length_map _)
          (show v.weights.length = v.ranker.featureCount by rw [hlength, hranker, hcount]) doc
        rw [hranker] at hvalue
        refine .ranking rfl rfl ?_ hshown ?_ hvalue
        · rw [← hranker]
          exact RankingWeight.default_collectOn doc v.weights 0 v.emptyVector
        · rw [← hranker]
          rfl
  | boost inner factor ih =>
      intro cache made w h hmatch
      obtain ⟨v, hv, rfl⟩ := weight_of_boost h
      have hinner : inner.Accounts (v.scoredOn doc none) (v.explanationOn doc) := ih hquery hv hmatch
      have hexplanation : (QueryWeight.boost v factor).explanationOn doc
          = .matched ((v.explanationOn doc).value * factor)
              (Weight.boostText v.description factor ++ ", product of:")
              [v.explanationOn doc, .matched factor "boost"] := if_pos hinner.isMatch
      rw [hexplanation]
      exact .boost hinner factor _
  | plain q =>
      intro cache made w h hmatch
      obtain ⟨v, -, -, rfl⟩ := weight_of_plain h
      exact .plain ((Weight.isMatch_explanationOn doc none v).trans hmatch)
        (Weight.value_explanationOn none hmatch)

/-! ## One shard -/

/-- An explanation that accounts for the score of a document.  The summands are what
    the queries of the request gave the document in their passes, under their places. -/
structure ShardRequest.Accounted (r : ShardRequest) (searcher : Searcher) (settings : Settings)
    (doc : Nat) (score : Float32) (explanation : Explanation) (summands : List (Nat × Scored)) :
    Prop where
  order : summands.Pairwise fun a b => a.1 < b.1
  gives : ∀ (place : Nat) (scored : Scored),
    (place, scored) ∈ summands ↔ r.Gives searcher settings (.query place) doc scored
  score : score = (summands.map (·.2.value)).foldl (· + ·) 0.0
  isMatch : explanation.isMatch = true
  value : explanation.value = (summands.map (·.2.value)).foldl (· + ·) (-0.0)
  values : explanation.details.map (·.value) = summands.map (·.2.value)
  details : List.Forall₂
    (fun summand detail => ∃ slot, r.queries[summand.1]? = some slot ∧
      slot.query.Accounts summand.2 detail)
    summands explanation.details

namespace Plan

variable {p : Plan} {r : ShardRequest} {settings : Settings} {docs : List IndexedDocument}
  {s : Shard} {global : Option GlobalStatistics}

/-- The slots whose queries match a document, with their places. -/
def matching (p : Plan) (doc : List TermId) : List (WeightedSlot × Nat) :=
  p.slots.zipIdx.filter (·.1.weight.matchesDoc doc)

/-- What the matching queries give a document. -/
def summands (p : Plan) (doc : List TermId) : List (Nat × Scored) :=
  (p.matching doc).map fun x => (x.2, x.1.weight.scoredOn doc none)

theorem mem_matching {doc : List TermId} {w : WeightedSlot} {place : Nat} :
    (w, place) ∈ p.matching doc ↔
      p.slots[place]? = some w ∧ w.weight.matchesDoc doc = true := by
  simp [matching, List.mem_zipIdx_iff_getElem?]

theorem details_eq (p : Plan) (doc : List TermId) :
    p.details doc = (p.matching doc).map (·.1.weight.explanationOn doc) := by
  have hslots : p.slots = p.slots.zipIdx.map (·.1) := (List.zipIdx_map_fst _ _).symm
  simp only [details, matching]
  conv => lhs; rw [hslots]
  rw [List.map_map, List.filter_map]
  simp only [Function.comp_def, QueryWeight.isMatch_explanationOn]

theorem values_summands (p : Plan) (doc : List TermId) :
    (p.summands doc).map (·.2.value) = p.slots.filterMap (·.scoreOf? doc) := by
  have hslots : p.slots = p.slots.zipIdx.map (·.1) := (List.zipIdx_map_fst _ _).symm
  conv => rhs; rw [hslots]
  rw [List.filterMap_map, summands, matching, List.map_map]
  induction p.slots.zipIdx with
  | nil => rfl
  | cons x rest ih =>
      cases hmatch : x.1.weight.matchesDoc doc with
      | true => simp [WeightedSlot.scoreOf?, hmatch, ih]
      | false => simp [WeightedSlot.scoreOf?, hmatch, ih]

/-- A plan filters by the weight that passes filter by. -/
theorem Made.filterWeight? {searcher : Searcher} (h : p.Made r searcher settings) :
    Slot.filterWeight? searcher settings r.filter = p.filter := by
  obtain ⟨filter, hfilter, hp⟩ := h.filter
  rw [hp]
  rcases yields_mapM_option hfilter.yields with ⟨hnone, rfl⟩ | ⟨slot, w, hslot, rfl, hw⟩
  · rw [hnone]
    rfl
  · rw [hslot, Slot.filterWeight?, Option.bind_some, (Slot.weighted_yields hw).1]
    rfl

/-- **What a query gives a document in its passes** is what its weight says of the
    terms, when the filter lets the document through. -/
theorem Made.gives_iff (hs : s.Holds docs) (hr : r.Plain) (h : p.Made r ⟨s, global⟩ settings)
    {n : Nat} {doc : List TermId} (hdoc : Shard.termsAt docs n = some doc)
    (hlets : p.lets doc = true) {place : Nat} {scored : Scored} :
    r.Gives ⟨s, global⟩ settings (.query place) n scored ↔ (place, scored) ∈ p.summands doc := by
  -- the passes of a slot, by the weight that the plan has for it
  have hpasses : ∀ (slot : Slot) (w : WeightedSlot), r.queries[place]? = some slot →
      p.slots[place]? = some w →
      slot.query.weight ⟨s, global⟩ settings.enabled .scores slot.weights
          = (w.slot.weights, .ok w.weight) ∧
        w.weight.passes (Slot.filterWeight? ⟨s, global⟩ settings r.filter) s.readers slot.scores
          = .ok (w.weight.scoresOn p.lets 0 slot.scores (Shard.numbered docs),
              w.weight.cacheOn p.lets 0 slot.scores (Shard.numbered docs)) := by
    intro slot w hslot hw
    obtain ⟨other, hother, hyields⟩ := forall₂_getElem? (yields_mapM h.slots.yields).flip hw
    obtain rfl : slot = other := Option.some.inj (hslot.symm.trans hother)
    obtain ⟨hweight, hsame⟩ := Slot.weighted_yields hyields
    have hfits := (hr.fits.queries slot (List.mem_of_getElem? hslot)).weighted hyields
    rw [hsame] at hfits
    rw [h.filterWeight?]
    exact ⟨hweight, hs.passes p.filter hfits⟩
  -- no score was kept before the passes, so none is read back in them
  have hgiven : ∀ (slot : Slot) (w : WeightedSlot) (scored : Scored), slot ∈ r.queries →
      ((n, scored) ∈ w.weight.scoresOn p.lets 0 slot.scores (Shard.numbered docs) ↔
        w.weight.matchesDoc doc = true ∧ w.weight.scoredOn doc none = scored) := by
    intro slot w scored hslot
    have hnone := get?_unscored (hr.unscored slot hslot)
    simp only [QueryWeight.scoresOn, List.mem_filterMap, hnone]
    constructor
    · rintro ⟨⟨other, m⟩, hmem, hx⟩
      rw [Option.ite_none_right_eq_some] at hx
      obtain ⟨hboth, heq⟩ := hx
      obtain ⟨rfl, rfl⟩ := Prod.mk.inj (Option.some.inj heq)
      obtain rfl : other = doc := Option.some.inj ((mem_numbered.mp hmem).symm.trans hdoc)
      exact ⟨(Bool.and_eq_true _ _ ▸ hboth).2, rfl⟩
    · rintro ⟨hmatch, rfl⟩
      exact ⟨(doc, n), mem_numbered.mpr hdoc, by simp [hlets, hmatch]⟩
  constructor
  · rintro ⟨hslot, ⟨weight, kept, made, hmade, hpass, -⟩, hscored⟩
    obtain ⟨w, hw, -⟩ := forall₂_getElem? (yields_mapM h.slots.yields) hslot
    obtain ⟨hweight, hscores⟩ := hpasses _ w hslot hw
    obtain rfl : w.weight = weight := Except.ok.inj (Prod.mk.inj (hweight.symm.trans hmade)).2
    rw [← (Prod.mk.inj (Except.ok.inj (hscores.symm.trans hpass))).1] at hscored
    obtain ⟨hmatch, rfl⟩ := (hgiven _ w _ (List.mem_of_getElem? hslot)).mp hscored
    exact List.mem_map.mpr ⟨(w, place), mem_matching.mpr ⟨hw, hmatch⟩, rfl⟩
  · intro hmem
    obtain ⟨⟨w, place'⟩, hmatching, heq⟩ := List.mem_map.mp hmem
    obtain ⟨rfl, hscored⟩ := Prod.mk.inj heq
    obtain ⟨hw, hmatch⟩ := mem_matching.mp hmatching
    obtain ⟨slot, hslot, -⟩ := forall₂_getElem? (yields_mapM h.slots.yields).flip hw
    obtain ⟨hweight, hscores⟩ := hpasses slot w hslot hw
    exact .query hslot ⟨w.weight, _, _, hweight, hscores, rfl⟩
      ((hgiven slot w scored (List.mem_of_getElem? hslot)).mpr ⟨hmatch, hscored⟩)

/-- **The explanation of a hit accounts for its score.** -/
theorem Made.accounted (hs : s.Holds docs) (hr : r.Plain) (h : p.Made r ⟨s, global⟩ settings)
    {n : Nat} {doc : List TermId} (hdoc : Shard.termsAt docs n = some doc) {score : Float32}
    (hscore : p.score? doc = some score) :
    r.Accounted ⟨s, global⟩ settings n score
      (.matched ((p.details doc).foldl (fun sum e => sum + e.value) (-0.0)) "sum of:" (p.details doc))
      (p.summands doc) := by
  obtain ⟨hlets, hsum⟩ := Option.ite_none_right_eq_some.mp hscore
  rw [(sumOn_unscored (h.unscored hr) doc 0).2, ← values_summands,
    Option.ite_none_left_eq_some] at hsum
  have hdetails : List.Forall₂
      (fun summand detail => ∃ slot, r.queries[summand.1]? = some slot ∧
        slot.query.Accounts summand.2 detail)
      (p.summands doc) (p.details doc) := by
    rw [details_eq, summands, List.forall₂_map_left_iff, List.forall₂_map_right_iff]
    refine List.forall₂_same.mpr fun x hx => ?_
    obtain ⟨hw, hmatch⟩ := mem_matching.mp hx
    obtain ⟨slot, hslot, hyields⟩ := forall₂_getElem? (yields_mapM h.slots.yields).flip hw
    have hfits : slot.query.Fits slot.scores := hr.fits.queries slot (List.mem_of_getElem? hslot)
    exact ⟨slot, hslot, hfits.accounts (Slot.weighted_yields hyields).1 hmatch⟩
  have hvalues : (p.details doc).map (·.value) = (p.summands doc).map (·.2.value) :=
    (map_eq_of_forall₂ (hdetails.imp fun summand detail hdetail => by
      obtain ⟨slot, -, haccounts⟩ := hdetail
      exact haccounts.value.symm)).symm
  refine ⟨?_, fun place scored => (h.gives_iff hs hr hdoc hlets).symm, (Option.some.inj hsum.2).symm,
    rfl, ?_, hvalues, hdetails⟩
  · refine List.pairwise_map.mpr (List.Pairwise.filter _ ?_)
    exact zipIdx_pairwise p.slots 0
  · show (p.details doc).foldl _ _ = _
    rw [← hvalues, List.foldl_map]

end Plan

/-- **The explanation of a scored document accounts for its score**: the plan for the shard
    says what the document scores and how this is explained. -/
theorem ShardRequest.Plain.accounted_of_explained {docs : List IndexedDocument} {s : Shard}
    {global : Option GlobalStatistics} {settings : Settings} {r after : ShardRequest}
    (hr : r.Plain) (hs : s.Holds docs) {place : Nat} {hits : List ShardHit}
    (hscore : (r.score ⟨s, global⟩ (settings.under place)).Yields (after, hits)) {hit : ShardHit}
    (hhit : hit ∈ hits) {explanation : Explanation}
    (hexplain : (after.explain ⟨s, global⟩ settings hit.doc).Yields explanation) :
    ∃ summands, r.Accounted ⟨s, global⟩ settings hit.doc hit.score explanation summands := by
  obtain ⟨p, hp⟩ := Plan.made_of_score hr hscore ⟨s, global⟩
  obtain ⟨hafter, hhits⟩ :=
    Prod.mk.inj (Except.ok.inj ((hp.score_ends hs hr.fits).eq_of_yields hscore))
  have hp := Plan.made_under.mp hp
  rw [← hhits, List.mem_filterMap] at hhit
  obtain ⟨⟨doc, n⟩, hnumbered, hhitOn⟩ := hhit
  rw [Plan.hitOn_unscored _ (hp.unscored hr)] at hhitOn
  obtain ⟨score, hscoreOn, rfl⟩ := Option.map_eq_some_iff.mp hhitOn
  have hdoc := Plan.mem_numbered.mp hnumbered
  rw [← hafter] at hexplain
  have heq := Except.ok.inj ((hp.explain_ends hs hr hdoc).eq_of_yields hexplain)
  rw [← heq]
  exact ⟨p.summands doc, hp.accounted hs hr hdoc hscoreOn⟩

/-! ## Responses -/

namespace Engine

/-- What fetching with explanations yields. -/
theorem fetch_explained {settings : Settings} {global : Option GlobalStatistics} {shard : Shard}
    {r : ShardRequest} {hits hits' : List SearchHit}
    (h : (fetch settings global true shard r hits).Yields hits') :
    List.Forall₂ (fun hit hit' => ∃ explanation,
        (r.explain ⟨shard, global⟩ settings hit.doc).Yields explanation ∧
          hit'.explanation = some explanation ∧ hit'.bare = hit.bare)
      hits hits' := by
  obtain ⟨shown, hshown, hlog⟩ := yields_bind h
  have hsame := ShardRequest.log_unread (f := fun hit => (hit.bare, hit.explanation))
    (fun _ _ => rfl) hlog
  rw [← List.forall₂_eq_eq_eq, List.forall₂_map_left_iff, List.forall₂_map_right_iff] at hsame
  refine forall₂_comp (yields_mapM hshown) hsame.flip ?_
  rintro hit s hit' hs hpair
  obtain ⟨explanation, hexplain, heq⟩ := yields_bind hs
  rw [← yields_pure heq] at hpair
  obtain ⟨hbare, hexplanation⟩ := Prod.mk.inj hpair
  exact ⟨explanation, hexplain, hexplanation, hbare⟩

/-- **Explanations account for scores**: every hit of a search without rescore stages
    that asks for explanations has one, which accounts for the score of the hit by what
    the queries gave its document on its shard. -/
theorem explanations_account {e : Engine} (hbuilt : e.Built) {request : SearchRequest}
    (hrequest : request.Accepted) (hrescores : request.rescores = [])
    (hexplain : request.explain = true) {response : SearchResponse}
    (h : (e.search request).2 = .ok response) {hit : SearchHit} (hhit : hit ∈ response.hits) :
    ∃ (parts : Parts) (shard : Shard) (r : ShardRequest) (explanation : Explanation)
      (summands : List (Nat × FeatureRank.Scored)),
      (e.parts request).Yields parts ∧ (hit.shard, shard, r) ∈ parts ∧
        hit.explanation = some explanation ∧
        r.Accounted ⟨shard, e.globalOf request parts⟩ e.settings hit.doc hit.score explanation
          summands := by
  obtain ⟨parts, after, candidates, fetched, hparts, hscored, hfetched, rfl⟩ :=
    response_yields (response_of_search h)
  -- the hit was fetched on some shard, and was a candidate there
  have hmem : hit ∈ fetched.flatten := (SearchHit.sort_perm _).mem_iff.mp hhit
  obtain ⟨hits, hhits, hmem⟩ := List.mem_flatten.mp hmem
  obtain ⟨part, hpart, hfetch⟩ := forall₂_mem hfetched.flip hhits
  rw [hexplain] at hfetch
  obtain ⟨candidate, hcandidate, explanation, hexplained, hexplanation, hbare⟩ :=
    forall₂_mem (fetch_explained hfetch).flip hmem
  obtain ⟨hbest, hshard⟩ := List.mem_filter.mp hcandidate
  have hcandidate := (SearchHit.sort_perm candidates).mem_iff.mp (List.mem_of_mem_take hbest)
  obtain ⟨r, found, hbefore, hmember, hr, hscore, hfilter⟩ := scored_part hparts hscored hpart
  have hfound : candidate ∈ hitsOf part.1 part.2.1 found := by
    rw [← hfilter]
    exact List.mem_filter.mpr ⟨hcandidate, hshard⟩
  obtain ⟨shardHit, hshardHit, rfl⟩ := List.mem_map.mp hfound
  obtain ⟨docs, hs⟩ := (hbuilt part.2.1 hmember).holds
  have hplain := ShardRequest.ofRequest_plain hrequest hrescores hr
  obtain ⟨summands, haccounted⟩ :=
    hplain.accounted_of_explained hs hscore hshardHit hexplained
  have hhitShard : hit.shard = part.1 := congrArg SearchHit.shard hbare
  have hhitDoc : hit.doc = shardHit.doc := congrArg SearchHit.doc hbare
  have hhitScore : hit.score = shardHit.score := congrArg SearchHit.score hbare
  refine ⟨parts, part.2.1, r, explanation, summands, hparts, ?_, hexplanation, ?_⟩
  · rw [hhitShard]
    exact hbefore
  · rw [hhitDoc, hhitScore]
    exact haccounted

/-- A boosted query by a model, with one feature that matches and one that does not,
    beside a query that does not match. -/
theorem explanations_account_boosted :
    let model : Model :=
      ⟨"m", ⟨"m", [.prebuilt "rare" .nothing, .prebuilt "two" (.constant 2.0)]⟩,
        .linear "m" [1.0, 1.0] 0.5, 0⟩
    let shard := (Shard.empty.add "a" [] 1).1
    let e : Engine := { shards := #[shard] }
    let request : SearchRequest := {
      queries := [(none, .boost (.byModel model [] (some true)) 2.0), (none, .anyTerm "")]
      explain := true }
    let explanation : Explanation :=
      .matched 5.0 "sum of:" [
        .matched 5.0 "boost(rankerquery(m), 2), product of:" [
          .matched 2.5 "LtrModel: m using features:" [
            .noMatch "Feature 0(rare): [no match, default value of 0.50 used]",
            .matched 2.0 "Feature 1(two):" [.matched 2.0 "constant(2)"]],
          .matched 2.0 "boost"]]
    let hit : SearchHit :=
      { key := "a", shard := 0, doc := 1, score := 5.0, explanation := some explanation }
    (e.search request).2 = .ok ⟨1, [hit]⟩ ∧
      ∃ (parts : Parts) (shard : Shard) (r : ShardRequest)
        (summands : List (Nat × FeatureRank.Scored)),
        (e.parts request).Yields parts ∧ (0, shard, r) ∈ parts ∧
          r.Accounted ⟨shard, none⟩ {} 1 5.0 explanation summands := by
  intro model shard e request explanation hit
  let q : RankingQuery := ⟨[.nothing, .constant 2.0], model.features, model.ranker, 0⟩
  let plain : Slot := { query := .plain (.anyTerm []) }
  let r : ShardRequest :=
    ⟨none, [{ query := .boost (.ranking q) 2.0, scores := some .empty }, plain], [], []⟩
  let after : ShardRequest := { r with queries := [{
      query := .boost (.ranking q) 2.0
      scores := some (ScoreCache.empty.insertOnce 1 [Number.nan32, 2.0])
      weights := (q.weight ⟨shard, none⟩ .empty).1 }, plain] }
  let scoredHit : SearchHit := { hit with explanation := none }
  have hscored : (ExceptT.run (e.scored request)).run e.counters
      = (.ok ([(0, shard, r)], [(0, shard, after)], [scoredHit]), { total := 1 }) := by
    subst scoredHit after plain r q hit explanation request e shard model
    rfl
  have hfetched : (ExceptT.run (e.fetchParts request [(0, shard, r)] [(0, shard, after)]
        [scoredHit])).run { total := 1 }
      = (.ok [[hit]], { total := 1 }) := by
    simp only [fetchParts, SearchHit.sort_singleton]
    subst scoredHit after plain r q hit explanation request e shard model
    rfl
  have hsearch : (e.search request).2 = .ok ⟨1, SearchHit.sort [hit]⟩ :=
    search_ok hscored hfetched
  rw [SearchHit.sort_singleton] at hsearch
  refine ⟨hsearch, ?_⟩
  have hbuilt : e.Built := Built.single (Shard.Built.empty.add "a" [] 1)
  have haccepted : request.Accepted := by
    refine ⟨?_, fun _ hmem => nomatch hmem⟩
    intro x hmem
    rcases List.mem_cons.mp hmem with rfl | hmem
    · rfl
    · rw [List.mem_singleton.mp hmem]
      trivial
  obtain ⟨parts, shard', r', explanation', summands, hparts, hmem, hsome, haccounted⟩ :=
    explanations_account hbuilt haccepted rfl rfl hsearch (List.mem_singleton.mpr rfl)
  obtain rfl : explanation = explanation' := Option.some.inj hsome
  exact ⟨parts, shard', r', summands, hparts, hmem, haccounted⟩

end Engine

end FeatureRank
