import FeatureRank.Proofs.Search.Plan

/-! # Making plans

    A request that could be scored on one shard can be scored on any other: whether
    its queries have weights depends on no shard (`Plan.made_of_score`).  Searchers
    that agree on the terms of the request make the same plan (`Plan.Made.congr`), so
    all shards with documents make the plan of one searcher that is known beforehand
    (`Searcher.reference`). -/

namespace FeatureRank

open Tracked

/-! ## Taking a request apart -/

theorem QueryRequest.slot_settled (dictionary : Dictionary) (settings : Settings)
    (query : QueryRequest) : (query.slot dictionary settings).Settled := by
  induction query with
  | byModel model params caching =>
      unfold slot
      refine Settled.bind ⟨_, Ends.count .total⟩ fun _ _ => ?_
      cases RankingQuery.ofModel model ⟨some dictionary⟩ params with
      | ok q => exact ⟨_, .pure _⟩
      | error refusal => exact ⟨_, (Ends.count .errors).bind (.throw (.refused refusal))⟩
  | prebuilt model =>
      unfold slot
      exact Settled.bind ⟨_, .ofExcept _⟩ fun _ _ => ⟨_, .pure _⟩
  | boost inner factor ih =>
      unfold slot
      exact ih.bind fun _ _ => ⟨_, .pure _⟩
  | anyTerm text => exact ⟨_, .pure _⟩
  | phrase text => exact ⟨_, .pure _⟩

/-- **Taking a request apart** ends alike whatever was counted. -/
theorem ShardRequest.ofRequest_settled (dictionary : Dictionary) (settings : Settings)
    (request : SearchRequest) : (ofRequest dictionary settings request).Settled := by
  have hstage : ∀ s, (stage dictionary settings s).Settled := by
    intro s
    cases s with
    | scale factor window => exact ⟨_, .pure _⟩
    | query query queryWeight rescoreWeight window =>
        exact (query.slot_settled dictionary settings).bind fun _ _ => ⟨_, .pure _⟩
  unfold ofRequest
  refine (Settled.mapM_option _ (·.slot_settled dictionary settings)).bind fun _ _ => ?_
  refine (Settled.mapM _ fun x =>
    (x.2.slot_settled dictionary settings).bind fun _ _ => ⟨_, .pure _⟩).bind fun _ _ => ?_
  refine (Settled.mapM _ hstage).bind fun _ _ => ?_
  exact Settled.bind ⟨_, .ofExcept _⟩ fun _ _ => ⟨_, .pure _⟩

/-! ## Weights -/

theorem Slot.weighted_ends {slot : Slot} {searcher : Searcher} {settings : Settings}
    {mode : ScoreMode} {made : WeightCache} {w : QueryWeight}
    (h : slot.query.weight searcher settings.enabled mode slot.weights = (made, .ok w)) :
    (slot.weighted searcher settings mode).Ends (.ok ⟨{ slot with weights := made }, w⟩) := by
  unfold weighted
  rw [h]
  exact fun _ => rfl

/-- A slot that has a weight for one searcher has one for any other. -/
theorem Slot.weighted_transfer {slot : Slot} (htied : slot.query.Tied) {a : Searcher}
    {settings : Settings} {mode : ScoreMode} {w : WeightedSlot}
    (h : (slot.weighted a settings mode).Yields w) (b : Searcher) {other : Slot}
    (hquery : other.query = slot.query) :
    ∃ w', (other.weighted b settings mode).Ends (.ok w') := by
  obtain ⟨made, weight, hmade⟩ :=
    Query.weight_transfer htied (Slot.weighted_yields h).1 b other.weights
  exact ⟨_, weighted_ends (by rw [hquery]; exact hmade)⟩

/-! ## Explanations of documents -/

/-- A number that no document has is not located. -/
theorem Shard.Holds.locate?_of_none {s : Shard} {docs : List IndexedDocument} (hs : s.Holds docs)
    {n : Nat} (hn : Shard.termsAt docs n = none) : s.locate? n = none := by
  refine hs.locate?_eq_none ?_
  cases n with
  | zero => exact .inl rfl
  | succ index =>
      have hindex : docs[index]? = none := Option.map_eq_none_iff.mp hn
      exact .inr (Nat.lt_succ_of_le (List.getElem?_eq_none_iff.mp hindex))

/-- **A document of a shard can be explained** by weights that the queries of a request
    have in their caches. -/
theorem ShardRequest.explain_ends {r : ShardRequest} {s : Shard} {docs : List IndexedDocument}
    (hs : s.Holds docs) {global : Option GlobalStatistics} {settings : Settings} {n : Nat}
    {doc : List TermId} (hdoc : Shard.termsAt docs n = some doc) {weights : List QueryWeight}
    (hweights : List.Forall₂ (fun slot w =>
      slot.query.weight ⟨s, global⟩ settings.enabled .scores slot.weights
        = (slot.weights, .ok w) ∧ w.Fits none) r.queries weights) :
    (r.explain ⟨s, global⟩ settings n).Ends (.ok (.matched
      (((weights.map (·.explanationOn doc)).filter (·.isMatch)).foldl
        (fun sum e => sum + e.value) (-0.0)) "sum of:"
      ((weights.map (·.explanationOn doc)).filter (·.isMatch)))) := by
  cases n with
  | zero => cases hdoc
  | succ index =>
      obtain ⟨d, hd, rfl⟩ := Option.map_eq_some_iff.mp hdoc
      obtain ⟨reader, chunk, inside, hlocate, hsegment, hinside⟩ := hs.locate? hd
      have hslots : Tracked.Ends (r.queries.mapM fun slot => do
          let w ← slot.weighted ⟨s, global⟩ settings .scores
          Tracked.ofChecked (w.weight.explain (.ofDocs chunk) (inside + 1)))
          (.ok (weights.map (·.explanationOn d.2))) := by
        refine Tracked.Ends.mapM (List.forall₂_map_right_iff.mpr (hweights.imp ?_))
        rintro slot w ⟨hweight, hfits⟩
        refine (Slot.weighted_ends hweight).bind ?_
        rw [w.explain_ofDocs hinside hfits]
        exact .pure _
      rw [ShardRequest.explain]
      simp only [hlocate, hsegment]
      exact hslots.bind (.pure _)

/-! ## Requests before scoring -/

/-- A request without rescore stages whose slots are as they were made. -/
structure ShardRequest.Plain (r : ShardRequest) : Prop where
  fits : r.Fits
  rescores : r.rescores = []
  filter : ∀ slot, r.filter = some slot → slot.query.Tied
  tied : ∀ slot ∈ r.queries, slot.query.Tied
  unscored : ∀ slot ∈ r.queries, slot.scores = none ∨ slot.scores = some .empty

theorem QueryRequest.Becomes.unscored {dictionary : Dictionary} {query : QueryRequest}
    {slot : Slot} (h : query.Becomes dictionary slot) :
    slot.scores = none ∨ slot.scores = some .empty := by
  induction h with
  | byModel h caching hscores => exact hscores
  | prebuilt h => exact Or.inl rfl
  | boost h factor ih => exact ih
  | anyTerm text => exact Or.inl rfl
  | phrase text => exact Or.inl rfl

theorem ShardRequest.ofRequest_plain {dictionary : Dictionary} {settings : Settings}
    {request : SearchRequest} {r : ShardRequest} (hrequest : request.Accepted)
    (hrescores : request.rescores = []) (h : (ofRequest dictionary settings request).Yields r) :
    r.Plain := by
  obtain ⟨-, hstages, -⟩ := ofRequest_parts h
  have hof := ofRequest_isOf h
  refine ⟨ofRequest_fits hrequest h, ?_, ?_, ?_, ?_⟩
  · rw [hrescores] at hstages
    exact List.forall₂_nil_left_iff.mp hstages
  · intro slot hslot
    obtain ⟨query, hmade⟩ := hof.made_filter hslot
    exact hmade.tied
  · intro slot hslot
    obtain ⟨x, -, made, hmade, rfl⟩ := forall₂_mem hof.queries.flip hslot
    exact hmade.tied
  · intro slot hslot
    obtain ⟨x, -, made, hmade, rfl⟩ := forall₂_mem hof.queries.flip hslot
    exact hmade.unscored

namespace Plan

variable {p : Plan} {r : ShardRequest} {searcher a b : Searcher} {settings : Settings}
  {docs : List IndexedDocument} {s : Shard} {global : Option GlobalStatistics}

/-! ## Plans that are made -/

/-- **A request that could be scored on one shard gets a plan on any other.** -/
theorem made_of_score (hr : r.Plain) {result : ShardRequest × List ShardHit}
    (h : (r.score a settings).Yields result) (b : Searcher) :
    ∃ p : Plan, p.Made r b settings := by
  unfold ShardRequest.score Slot.scoreAll at h
  obtain ⟨_, hall, -⟩ := yields_bind h
  obtain ⟨filter, hfilter, hall⟩ := yields_bind hall
  obtain ⟨weighted, hweighted, -⟩ := yields_bind hall
  have hfilter' : ∃ filter', Tracked.Ends
      (r.filter.mapM fun slot => slot.weighted b settings .matching) (.ok filter') := by
    rcases yields_mapM_option hfilter with ⟨hnone, -⟩ | ⟨slot, w, hslot, -, hw⟩
    · rw [hnone]
      exact ⟨none, .pure none⟩
    · obtain ⟨w', hw'⟩ := Slot.weighted_transfer (hr.filter slot hslot) hw b rfl
      rw [hslot]
      refine ⟨some w', ?_⟩
      show Tracked.Ends (some <$> slot.weighted b settings .matching) _
      rw [← bind_pure_comp]
      exact hw'.bind (.pure _)
  have hslots : ∃ slots, Tracked.Ends
      (r.queries.mapM fun slot => slot.weighted b settings .scores) (.ok slots) := by
    refine Tracked.Ends.mapM_mem fun slot hslot => ?_
    obtain ⟨w, -, hw⟩ := forall₂_mem (yields_mapM hweighted) hslot
    exact Slot.weighted_transfer (hr.tied slot hslot) hw b rfl
  obtain ⟨filter', hfilter'⟩ := hfilter'
  obtain ⟨slots, hslots⟩ := hslots
  exact ⟨⟨filter'.map (·.weight), slots, r.loggers⟩, hr.rescores, rfl, ⟨filter', hfilter', rfl⟩, hslots⟩

/-- **Searchers that agree on the terms of a request make the same plan.** -/
theorem Made.congr (hagree : a.AgreeOn (· ∈ r.terms) b) (h : p.Made r a settings) :
    p.Made r b settings := by
  have hterms : ∀ slot ∈ r.filter.toList ++ r.queries, ∀ t ∈ slot.query.terms, t ∈ r.terms := by
    intro slot hslot t ht
    unfold ShardRequest.terms
    exact List.mem_flatMap.mpr ⟨slot, List.mem_append_left _ hslot, ht⟩
  obtain ⟨filter, hfilter, hplan⟩ := h.filter
  refine ⟨h.rescores, h.loggers, ⟨filter, ?_, hplan⟩, ?_⟩
  · have hsame : (r.filter.mapM fun slot => slot.weighted a settings .matching)
        = r.filter.mapM fun slot => slot.weighted b settings .matching :=
      mapM_option_congr fun slot hslot => Slot.weighted_congr hagree
        (hterms slot (List.mem_append_left _ (Option.mem_toList.mpr hslot))) settings .matching
    rw [← hsame]
    exact hfilter
  · have hsame : (r.queries.mapM fun slot => slot.weighted a settings .scores)
        = r.queries.mapM fun slot => slot.weighted b settings .scores :=
      mapM_congr (List.forall₂_same.mpr fun slot hslot =>
        Slot.weighted_congr hagree (hterms slot (List.mem_append_right _ hslot)) settings .scores)
    rw [← hsame]
    exact h.slots

theorem Made.unscored (h : p.Made r searcher settings) (hr : r.Plain) : Unscored p.slots := by
  intro w hw
  obtain ⟨slot, hslot, hyields⟩ := h.slot_of_mem hw
  rw [(Slot.weighted_yields hyields).2]
  exact hr.unscored slot hslot

/-! ## Explanations -/

/-- The explanations of the queries that match a document. -/
def details (p : Plan) (doc : List TermId) : List Explanation :=
  (p.slots.map fun w => w.weight.explanationOn doc).filter (·.isMatch)

/-- **Every document of a shard that was scored can be explained**, by the weights that
    scored it. -/
theorem Made.explain_ends (hs : s.Holds docs) (hr : r.Plain) (h : p.Made r ⟨s, global⟩ settings)
    {n : Nat} {doc : List TermId} (hdoc : Shard.termsAt docs n = some doc) :
    ((p.after r docs).explain ⟨s, global⟩ settings n).Ends (.ok (.matched
      ((p.details doc).foldl (fun sum e => sum + e.value) (-0.0)) "sum of:" (p.details doc))) := by
  have hweights : List.Forall₂ (fun slot w => slot.query.weight ⟨s, global⟩ settings.enabled .scores
      slot.weights = (slot.weights, .ok w) ∧ w.Fits none) (p.after r docs).queries
      (p.slots.map (·.weight)) := by
    show List.Forall₂ _ ((p.slots.map _).map _) _
    rw [List.forall₂_map_left_iff, List.forall₂_map_left_iff, List.forall₂_map_right_iff]
    refine List.forall₂_same.mpr fun w hw => ?_
    obtain ⟨made, hmade, hyields⟩ := h.slot_of_mem hw
    obtain ⟨hweight, hslot⟩ := Slot.weighted_yields hyields
    have hquery : (p.slotAfter docs w).query = made.query := by
      show w.slot.query = made.query
      rw [hslot]
    have hagain : (p.slotAfter docs w).query.weight ⟨s, global⟩ settings.enabled .scores
        (p.slotAfter docs w).weights = (w.slot.weights, .ok w.weight) := by
      rw [hquery]
      exact Query.weight_again hweight
    exact ⟨hagain, ((hr.fits.queries made hmade).weighted hyields).withoutScores⟩
  have hends := ShardRequest.explain_ends hs hdoc hweights
  rw [List.map_map] at hends
  exact hends

end Plan

end FeatureRank
