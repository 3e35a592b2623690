import Mathlib.Algebra.Order.BigOperators.Group.List
import Mathlib.Algebra.Order.Ring.Nat
import FeatureRank.Proofs.Search.Fetching
import FeatureRank.Proofs.Search.Resolving

/-! # When a search succeeds, and what it counts

    Once a request is taken apart, a shard can be scored when ranking is switched on or
    there is nothing to rank by (`ShardRequest.score_succeeds`); scored hits can always
    be fetched, and that counts nothing (`Engine.fetchParts_silent`).  So a search
    succeeds just when the request is supplied, its logs resolve, and ranking is
    switched on where it is asked for, whatever the shards hold
    (`Engine.search_succeeds`). -/

namespace FeatureRank

open Tracked

/-! ## Weights -/

namespace Query

/-- A query that has a weight wherever ranking is switched on. -/
def Bindable : Query → Prop
  | .ranking query => query.Bindable
  | .boost query _ => query.Bindable
  | .plain query => query.Tied

/-- How many ranking queries there are, under any boosts. -/
def rankings : Query → Nat
  | .ranking _ => 1
  | .boost query _ => query.rankings
  | .plain _ => 0

/-- **A query has a weight when ranking is switched on or it does not rank**, and else is
    refused because ranking is switched off. -/
theorem weight_okIff {query : Query} (h : query.Bindable) (searcher : Searcher) (enabled : Bool)
    (mode : ScoreMode) (cache : WeightCache) :
    OkIff (· = .disabled) (query.weight searcher enabled mode cache).2
      (enabled = true ∨ query.rankings = 0) := by
  induction query with
  | ranking q =>
      cases enabled with
      | false => exact .error rfl fun h => h.elim (fun h => nomatch h) (fun h => nomatch h)
      | true =>
          cases mode with
          | matching => exact .inl ⟨.inl rfl, _, rfl⟩
          | scores =>
              obtain ⟨made, ws, hws⟩ := RankingQuery.featureWeights_of_bind h searcher cache
              have hweight : q.weight searcher cache = (made, .ok ⟨ws, q.ranker, q.features⟩) :=
                RankingQuery.weight_of_featureWeights hws
              simp only [weight, hweight, if_true]
              exact .inl ⟨.inl trivial, _, rfl⟩
  | boost inner factor ih =>
      unfold weight
      rcases ih h with ⟨hp, w, hw⟩ | ⟨hp, refusal, hw, hdisabled⟩
      · rw [← Prod.mk.eta (p := inner.weight searcher enabled mode cache), hw]
        exact .inl ⟨hp, _, rfl⟩
      · rw [← Prod.mk.eta (p := inner.weight searcher enabled mode cache), hw]
        exact .error hdisabled hp
  | plain q =>
      obtain ⟨w, hw⟩ := (FeatureQuery.Tied.canonical h searcher.isEmpty).weight searcher
      simp only [weight, hw]
      exact .inl ⟨.inr rfl, _, rfl⟩

end Query

/-- A slot gets its weight as its query does, which counts nothing. -/
theorem Slot.weighted_succeeds {slot : Slot} (h : slot.query.Bindable) (searcher : Searcher)
    (settings : Settings) (mode : ScoreMode) :
    (slot.weighted searcher settings mode).SucceedsIff
      (settings.enabled = true ∨ slot.query.rankings = 0) 0 := by
  intro before
  have hokIff := Query.weight_okIff h searcher settings.enabled mode slot.weights
  unfold weighted
  generalize slot.query.weight searcher settings.enabled mode slot.weights = weight at hokIff ⊢
  obtain ⟨made, outcome⟩ := weight
  rcases hokIff with ⟨hp, w, hw⟩ | ⟨hp, refusal, hw, rfl⟩
  · obtain rfl : outcome = .ok w := hw
    exact .inl ⟨hp, _, rfl⟩
  · obtain rfl : outcome = .error .disabled := hw
    exact .inr ⟨hp, .refused .disabled, before, rfl, rfl⟩

/-! ## Scoring -/

section

variable {docs : List IndexedDocument} {s : Shard}

theorem Slot.scoreAll_succeeds (hs : s.Holds docs) (global : Option GlobalStatistics)
    (settings : Settings) {filter : Option Slot} {slots : List Slot}
    (hfits : ∀ slot ∈ slots, slot.Fits) (hfilter : ∀ slot ∈ filter.toList, slot.query.Bindable)
    (hslots : ∀ slot ∈ slots, slot.query.Bindable) :
    (scoreAll ⟨s, global⟩ settings filter slots).SucceedsIff
      ((∀ slot ∈ filter.toList, settings.enabled = true ∨ slot.query.rankings = 0) ∧
        ∀ slot ∈ slots, settings.enabled = true ∨ slot.query.rankings = 0) 0 := by
  have hnone : ∀ items : List Slot, (items.map fun _ => 0).sum = 0 := by simp
  have hfirst := SucceedsIff.mapM_option fun slot (hslot : slot ∈ filter) =>
    slot.weighted_succeeds (hfilter slot (Option.mem_toList.mpr hslot)) ⟨s, global⟩ settings
      .matching
  have hsecond := SucceedsIff.mapM fun slot (hslot : slot ∈ slots) =>
    slot.weighted_succeeds (hslots slot hslot) ⟨s, global⟩ settings .scores
  rw [hnone] at hfirst hsecond
  unfold scoreAll
  refine hfirst.bind fun filter' _ => hsecond.bind_true fun weighted hweighted => ?_
  rw [hs.scoreSegments settings (filter'.map (·.weight)) (Slot.weighted_fits hfits hweighted)]
  exact .pure _

namespace Rescore

theorem apply_succeeds (hs : s.Holds docs) (global : Option GlobalStatistics)
    (settings : Settings) {hits : List ShardHit} (hhits : (hits.map (·.doc)).Nodup)
    {stage : Rescore Slot} (hfits : stage.Fits)
    (hstage : ∀ slot, stage.query? = some slot → slot.query.Bindable) :
    (apply ⟨s, global⟩ settings hits stage).SucceedsIff
      (∀ slot, stage.query? = some slot →
        settings.enabled = true ∨ slot.query.rankings = 0) 0 := by
  cases stage with
  | scale factor window =>
      exact (SucceedsIff.pure _).of_iff (iff_of_true trivial fun _ h => nomatch h)
  | query slot queryWeight rescoreWeight window =>
      rw [apply_query]
      refine ((slot.weighted_succeeds (hstage slot rfl) ⟨s, global⟩ settings .scores).bind_true
        fun w hw => ?_).of_iff ⟨fun h slot' heq => Option.some.inj heq ▸ h, fun h => h slot rfl⟩
      obtain ⟨visits, hvisits, -⟩ :=
        hs.visit ((hfits slot rfl).weighted hw) (bestDocs_nodup hhits window)
      rw [hvisits]
      exact .pure _

theorem applyAll_succeeds (hs : s.Holds docs) (global : Option GlobalStatistics)
    {stages : List (Rescore Slot)} :
    ∀ (settings : Settings) {hits : List ShardHit}, (hits.map (·.doc)).Nodup →
      (∀ stage ∈ stages, stage.Fits) →
      (∀ stage ∈ stages, ∀ slot, stage.query? = some slot → slot.query.Bindable) →
      (applyAll ⟨s, global⟩ settings stages hits).SucceedsIff
        (∀ stage ∈ stages, ∀ slot, stage.query? = some slot →
          settings.enabled = true ∨ slot.query.rankings = 0) 0 := by
  induction stages with
  | nil =>
      intro settings hits _ _ _
      exact (SucceedsIff.pure _).of_iff (iff_of_true trivial (List.forall_mem_nil _))
  | cons first rest ih =>
      intro settings hits hhits hfits hstages
      obtain ⟨hfit, hfits⟩ := List.forall_mem_cons.mp hfits
      obtain ⟨hstage, hstages⟩ := List.forall_mem_cons.mp hstages
      refine ((apply_succeeds hs global (settings.under 0) hhits hfit hstage).bind
        fun result hresult => (ih (settings.under 1) ?_ hfits hstages).bind_true fun _ _ =>
          .pure _).of_iff (by simp only [List.forall_mem_cons, Settings.under])
      exact (apply_fits hs hhits hfit hresult).2

end Rescore

end

namespace ShardRequest

variable {docs : List IndexedDocument} {s : Shard} {dictionary : Dictionary} {settings : Settings}
  {request : SearchRequest} {r : ShardRequest}

/-- The slots of all queries that a request asks. -/
def asked (r : ShardRequest) : List Slot :=
  r.filter.toList ++ r.queries ++ r.rescores.filterMap (·.query?)

theorem forall_asked {p : Slot → Prop} :
    (∀ slot ∈ r.asked, p slot) ↔ ((∀ slot ∈ r.filter.toList, p slot) ∧ ∀ slot ∈ r.queries, p slot) ∧
      ∀ stage ∈ r.rescores, ∀ slot, stage.query? = some slot → p slot := by
  unfold asked
  rw [List.forall_mem_append, List.forall_mem_append]
  refine and_congr_right fun _ => ?_
  simp only [List.mem_filterMap]
  exact ⟨fun h stage hstage slot hslot => h slot ⟨stage, hstage, hslot⟩,
    fun h slot ⟨stage, hstage, hslot⟩ => h stage hstage slot hslot⟩

/-- **Scoring a shard succeeds when ranking is switched on or nothing ranks.** -/
theorem score_succeeds (hs : s.Holds docs) (global : Option GlobalStatistics)
    (settings : Settings) (hfits : r.Fits) (hasked : ∀ slot ∈ r.asked, slot.query.Bindable) :
    (r.score ⟨s, global⟩ settings).SucceedsIff
      (∀ slot ∈ r.asked, settings.enabled = true ∨ slot.query.rankings = 0) 0 := by
  obtain ⟨⟨hfilter, hqueries⟩, hrescores⟩ := forall_asked.mp hasked
  unfold score
  refine ((Slot.scoreAll_succeeds hs global settings hfits.queries hfilter hqueries).bind
    fun result hresult => (Rescore.applyAll_succeeds hs global settings ?_ hfits.rescores
      hrescores).bind_true fun _ _ => .pure _).of_iff forall_asked.symm
  exact (Slot.scoreAll_fits hs hfits.queries hresult).2

/-- The slots of a request taken apart are for its queries, one by one. -/
theorem ofRequest_asked (h : (ofRequest dictionary settings request).Yields r) :
    List.Forall₂ (fun query slot => ∃ made, query.Becomes dictionary made ∧
      slot.query = made.query) request.asked r.asked := by
  obtain ⟨-, hrescores, -⟩ := ofRequest_parts h
  have hof := ofRequest_isOf h
  have hfilter : List.Forall₂ (fun query slot => ∃ made, query.Becomes dictionary made ∧
      slot.query = made.query) request.filter.toList r.filter.toList :=
    match request.filter, r.filter, hof.filter with
    | _, _, .none => .nil
    | _, _, .some hslot => .cons ⟨_, hslot, rfl⟩ .nil
  refine List.rel_append (List.rel_append hfilter ?_) (List.rel_filterMap ?_ hrescores)
  · rw [List.forall₂_map_left_iff]
    refine hof.queries.imp ?_
    rintro x slot ⟨made, hmade, rfl⟩
    exact ⟨made, hmade, rfl⟩
  · intro stage stage' hstage
    cases stage with
    | scale factor window =>
        rw [← yields_pure hstage]
        exact .none
    | query query queryWeight rescoreWeight window =>
        obtain ⟨slot, hslot, hstage⟩ := yields_bind hstage
        rw [← yields_pure hstage]
        exact .some ⟨slot, QueryRequest.slot_becomes hslot, rfl⟩

end ShardRequest

/-- The slot of a query by compiled models can be tied, and ranks as often as the query. -/
theorem QueryRequest.Becomes.bindable {dictionary : Dictionary} {query : QueryRequest}
    {slot : Slot} (h : query.Becomes dictionary slot) (hquery : query.Compiled) :
    slot.query.Bindable ∧ slot.query.rankings = query.rankings := by
  induction h with
  | byModel h caching hscores => exact ⟨RankingQuery.bindable_of_compiled hquery h, rfl⟩
  | prebuilt h => exact hquery.elim
  | boost h factor ih => exact ih hquery
  | anyTerm text => exact ⟨trivial, rfl⟩
  | phrase text => exact ⟨trivial, rfl⟩

namespace ShardRequest

variable {docs : List IndexedDocument} {s : Shard} {dictionary : Dictionary} {settings : Settings}
  {request : SearchRequest} {r : ShardRequest}

/-- **A part of a compiled request scores its shard** when ranking is switched on or the
    request does not rank. -/
theorem ofRequest_score_succeeds (hs : s.Holds docs) (global : Option GlobalStatistics)
    (hrequest : request.Compiled) (h : (ofRequest dictionary settings request).Yields r)
    (scoring : Settings) :
    (r.score ⟨s, global⟩ scoring).SucceedsIff
      (scoring.enabled = true ∨ request.rankings = 0) 0 := by
  have hasked : List.Forall₂ (fun query slot => slot.query.Bindable ∧
      slot.query.rankings = query.rankings) request.asked r.asked := by
    have hmade := ofRequest_asked h
    rw [List.forall₂_iff_get] at hmade ⊢
    refine ⟨hmade.1, fun i hi hi' => ?_⟩
    obtain ⟨made, hbecomes, hquery⟩ := hmade.2 i hi hi'
    rw [hquery]
    exact hbecomes.bindable (hrequest _ (List.get_mem _ _))
  refine (score_succeeds hs global scoring (ofRequest_fits hrequest.accepted h) fun slot hslot =>
    ?_).of_iff ⟨fun hall => ?_, fun hruns slot hslot => ?_⟩
  · obtain ⟨query, -, hbindable, -⟩ := forall₂_mem hasked.flip hslot
    exact hbindable
  · by_cases henabled : scoring.enabled = true
    · exact .inl henabled
    · refine .inr (List.sum_eq_zero fun n hn => ?_)
      obtain ⟨query, hquery, rfl⟩ := List.mem_map.mp hn
      obtain ⟨slot, hslot, -, hrankings⟩ := forall₂_mem hasked hquery
      rw [← hrankings]
      exact (hall slot hslot).resolve_left henabled
  · refine hruns.imp_right fun hnone => ?_
    obtain ⟨query, hquery, -, hrankings⟩ := forall₂_mem hasked.flip hslot
    rw [hrankings]
    exact List.sum_eq_zero_iff.mp hnone _ (List.mem_map_of_mem hquery)

end ShardRequest

/-! ## Fetching counts nothing -/

theorem Slot.weighted_silent (slot : Slot) (searcher : Searcher) (settings : Settings)
    (mode : ScoreMode) : (slot.weighted searcher settings mode).Silent := by
  intro before after w h
  unfold weighted at h
  generalize slot.query.weight searcher settings.enabled mode slot.weights = weight at h
  obtain ⟨made, outcome⟩ := weight
  cases outcome with
  | error refusal => exact nomatch (Prod.mk.inj h).1
  | ok weight => exact (Prod.mk.inj h).2.symm

namespace ShardRequest

theorem explain_silent (r : ShardRequest) (searcher : Searcher) (settings : Settings) (doc : Nat) :
    (r.explain searcher settings doc).Silent := by
  unfold explain
  cases searcher.shard.locate? doc with
  | none => exact .pure _
  | some found =>
      refine (Silent.mapM (fun slot => ?_) r.queries).bind fun _ => .pure _
      exact (slot.weighted_silent searcher settings .scores).bind fun _ => .ofChecked _

theorem rescoreLogs_silent (searcher : Searcher) (settings : Settings) (docs : List Nat)
    (loggers : List Logger) : ∀ (weights : WeightCache) (r : ShardRequest),
      (rescoreLogs searcher settings docs loggers weights r).Silent := by
  induction loggers with
  | nil => exact fun _ _ => .pure []
  | cons logger rest ih =>
      intro weights r
      unfold rescoreLogs
      split
      · exact ih weights r
      · refine (Slot.weighted_silent _ searcher settings .scores).bind fun w => ?_
        refine (Silent.ofChecked _).bind fun visited => (Silent.ofChecked _).bind fun recorder => ?_
        exact (ih _ _).bind fun _ => .pure _

theorem log_silent (r : ShardRequest) (searcher : Searcher) (settings : Settings)
    (hits : List SearchHit) : (r.log searcher settings hits).Silent := by
  unfold log recorders
  split
  · exact .pure hits
  · refine Silent.bind ?_ fun _ => .pure _
    split
    · exact Silent.mapM (fun _ => (Silent.ofChecked _).bind fun _ => .pure _) r.logged
    · exact rescoreLogs_silent searcher settings _ r.loggers _ r

end ShardRequest

namespace Engine

theorem fetch_silent (settings : Settings) (global : Option GlobalStatistics) (explain : Bool)
    (shard : Shard) (r : ShardRequest) (hits : List SearchHit) :
    (fetch settings global explain shard r hits).Silent := by
  cases explain with
  | false => exact r.log_silent { shard } settings hits
  | true =>
      refine Silent.bind (Silent.mapM (fun hit => ?_) hits) fun shown =>
        r.log_silent { shard } settings shown
      exact (r.explain_silent ⟨shard, global⟩ settings hit.doc).bind fun _ => .pure _

/-- **Fetching counts nothing.** -/
theorem fetchParts_silent (e : Engine) (request : SearchRequest) (parts after : Parts)
    (candidates : List SearchHit) : (e.fetchParts request parts after candidates).Silent := by
  unfold fetchParts
  exact Silent.mapM (fun _ => fetch_silent _ _ _ _ _ _) after

/-! ## Searches -/

variable {e : Engine} {request : SearchRequest}

/-- **Taking a request apart for all shards** succeeds as it does for one of them. -/
theorem parts_succeeds (hshards : 0 < e.shardCount) (hrequest : request.Compiled) :
    (e.parts request).SucceedsIff
      (request.Supplied ∧ ∀ spec ∈ request.logs, spec.Resolves request)
      (e.shardCount * request.rankings) := by
  have hlength : e.shards.toList.zipIdx.length = e.shardCount := by
    rw [List.length_zipIdx, Array.length_toList]
    rfl
  rw [← hlength]
  refine SucceedsIff.mapM_const (fun hnil => ?_) fun x _ =>
    (ShardRequest.ofRequest_succeeds hrequest e.dictionary e.settings).bind_true fun _ _ => .pure _
  rw [hnil, List.length_nil] at hlength
  exact Nat.ne_of_lt hshards hlength

/-- **Scoring all shards** succeeds as it does for one of them. -/
theorem scoreParts_succeeds (hbuilt : e.Built) (hrequest : request.Compiled)
    (global : Option GlobalStatistics) {parts : Parts}
    (hparts : ∀ part ∈ parts, part.2.1 ∈ e.shards ∧
      (ShardRequest.ofRequest e.dictionary e.settings request).Yields part.2.2) :
    (scoreParts e.settings global parts).SucceedsIff
      (∀ part ∈ parts, e.settings.enabled = true ∨ request.rankings = 0) 0 := by
  induction parts with
  | nil => exact (SucceedsIff.pure _).of_iff (iff_of_true trivial (List.forall_mem_nil _))
  | cons part rest ih =>
      obtain ⟨⟨hshard, hr⟩, hrest⟩ := List.forall_mem_cons.mp hparts
      obtain ⟨docs, hholds⟩ := (hbuilt part.2.1 hshard).holds
      obtain ⟨place, shard, r⟩ := part
      refine SucceedsIff.of_iff (SucceedsIff.bind
        (ShardRequest.ofRequest_score_succeeds hholds global hrequest hr
          (e.settings.under place)) fun _ _ => (ih hrest).bind_true fun _ _ => .pure _) ?_
      exact (List.forall_mem_cons (p := fun _ => e.settings.enabled = true ∨ request.rankings = 0)
        (a := (place, shard, r)) (l := rest)).symm

/-- **A response comes about** when the request is supplied, its logs resolve, and
    ranking is switched on where it is asked for. -/
theorem response_succeeds (hbuilt : e.Built) (hshards : 0 < e.shardCount)
    (hrequest : request.Compiled) :
    (e.response request).SucceedsIff
      ((request.Supplied ∧ ∀ spec ∈ request.logs, spec.Resolves request) ∧
        (e.settings.enabled = true ∨ request.rankings = 0))
      (e.shardCount * request.rankings) := by
  have hscored : (e.scored request).SucceedsIff
      ((request.Supplied ∧ ∀ spec ∈ request.logs, spec.Resolves request) ∧
        (e.settings.enabled = true ∨ request.rankings = 0))
      (e.shardCount * request.rankings) := by
    refine (parts_succeeds hshards hrequest).bind fun parts hparts => SucceedsIff.bind_true
      ((scoreParts_succeeds hbuilt hrequest (e.globalOf request parts) fun part hpart => ?_).of_iff
        ⟨fun hall => ?_, fun h _ _ => h⟩) fun _ _ => .pure _
    · obtain ⟨k, hk⟩ := List.mem_iff_getElem?.mp hpart
      exact (parts_yields hparts hk).2
    · -- there is a part, as there is a shard
      have hlength := (yields_mapM hparts).length_eq
      rw [List.length_zipIdx, Array.length_toList] at hlength
      have hpos : 0 < parts.length := hlength ▸ hshards
      exact hall _ (List.getElem_mem hpos)
  rw [response_eq]
  refine hscored.bind_true fun found hfound => ?_
  obtain ⟨parts, after, candidates⟩ := found
  obtain ⟨hparts, hafter⟩ := scored_yields hfound
  obtain ⟨fetched, hfetched⟩ := fetchParts_ok hbuilt hrequest.accepted hparts hafter
  have hsilent := e.fetchParts_silent request parts after candidates
  exact (SucceedsIff.of_ends hfetched hsilent).bind_true fun _ _ => .pure _

/-- **When a search fails, and what it counts.**  A search over compiled models succeeds
    just when all features are supplied, all logs resolve, and ranking is switched on or
    nothing ranks.  It counts one error when parameters are missing and none otherwise,
    and, when it succeeds, every query by a model once for each shard. -/
theorem search_succeeds (hbuilt : e.Built) (hshards : 0 < e.shardCount)
    (hrequest : request.Compiled) :
    ((∃ response, (e.search request).2 = .ok response) ↔
      request.Supplied ∧ (∀ spec ∈ request.logs, spec.Resolves request) ∧
        (e.settings.enabled = true ∨ request.rankings = 0)) ∧
    (∀ feature parameters,
      (e.search request).2 = .error (.refused (.missingParameters feature parameters)) →
        (e.search request).1.counters.errors = e.counters.errors + 1) ∧
    ((∀ feature parameters,
      (e.search request).2 ≠ .error (.refused (.missingParameters feature parameters))) →
        (e.search request).1.counters.errors = e.counters.errors) ∧
    (∀ response, (e.search request).2 = .ok response →
      (e.search request).1.counters.total
        = e.counters.total + e.shardCount * request.rankings) := by
  have hcounters : (e.search request).1.counters
      = ((ExceptT.run (e.response request)).run e.counters).2 := rfl
  have hresult : (e.search request).2
      = ((ExceptT.run (e.response request)).run e.counters).1 := rfl
  rw [hcounters, hresult]
  rcases response_succeeds hbuilt hshards hrequest e.counters with
    ⟨hp, response, hrun⟩ | ⟨hp, failure, after, hrun, herrors⟩
  · rw [hrun]
    refine ⟨iff_of_true ⟨response, rfl⟩ (and_assoc.mp hp), ?_, fun _ => rfl, fun _ _ => rfl⟩
    intro feature parameters h
    exact nomatch h
  · rw [hrun]
    refine ⟨iff_of_false ?_ fun h => hp (and_assoc.mpr h), ?_, ?_, ?_⟩
    · rintro ⟨response, h⟩
      exact nomatch h
    · intro feature parameters heq
      show after.errors = _
      rw [herrors, Except.error.inj heq]
      rfl
    · intro hother
      show after.errors = _
      rw [herrors]
      cases failure with
      | fault fault => rfl
      | refused refusal =>
          cases refusal with
          | missingParameters feature parameters => exact absurd rfl (hother feature parameters)
          | _ => rfl
    · intro response h
      exact nomatch h

/-- A boosted query by a compiled model over a shard with a document and one without, logged
    by its name and explained, with and without the parameter that its feature declares. -/
theorem search_succeeds_supplied :
    let model : Model :=
      ⟨"m", ⟨"s", [.stored ⟨"two", ["q"], .constant 2.0⟩]⟩, .linear "m" [1.0] 0.0, 0⟩
    let e : Engine := { shards := #[(Shard.empty.add "a" [1] 1).1, .empty] }
    let asking (params : Params) : SearchRequest := {
      queries := [(some "main", .boost (.byModel model params none) 3.0)]
      logs := [{ namedQuery := some "main" }]
      explain := true }
    (∃ response, (e.search (asking [("q", "word")])).2 = .ok response ∧
        response.hits.map (fun hit => (hit.key, hit.place, hit.score)) = [("a", (0, 1), 6.0)]) ∧
      (e.search (asking [("q", "word")])).1.counters.total = 2 ∧
      (¬∃ response, (e.search (asking [])).2 = .ok response) ∧
      (e.search (asking [])).1.counters.errors = 1 := by
  intro model e asking
  have hbuilt : e.Built := by
    intro shard hshard
    rcases List.mem_cons.mp (Array.mem_toList_iff.mpr hshard) with rfl | hshard
    · exact Shard.Built.empty.add "a" [1] 1
    · rw [List.mem_singleton.mp hshard]
      exact Shard.Built.empty
  have hcompiled : ∀ params, (asking params).Compiled := by
    intro params query hquery
    rw [List.mem_singleton.mp hquery]
    exact ⟨⟨"m", ⟨"s", [⟨"two", ["q"], .constant 2.0⟩]⟩, .linear [1.0] 0.0⟩, 0, rfl⟩
  have hsupplied : ∀ params, (asking params).Supplied ↔ (params.lookup "q").isSome = true := by
    intro params
    simp [asking, model, SearchRequest.Supplied, SearchRequest.asked, QueryRequest.Supplied,
      StoredFeature.Supplied, Template.placeholders, Template.text?]
  have hresolves : ∀ params, ∀ spec ∈ (asking params).logs, spec.Resolves (asking params) := by
    intro params spec hspec
    rw [List.mem_singleton.mp hspec]
    exact ⟨_, rfl, trivial⟩
  obtain ⟨hiff, -, -, htotal⟩ := search_succeeds hbuilt (by decide) (hcompiled [("q", "word")])
  obtain ⟨hiff', herrors, -⟩ := search_succeeds hbuilt (by decide) (hcompiled [])
  obtain ⟨response, hresponse⟩ :=
    hiff.mpr ⟨(hsupplied _).mpr rfl, hresolves _, .inl rfl⟩
  refine ⟨⟨response, hresponse, ?_⟩, htotal response hresponse, ?_, herrors "two" ["q"] rfl⟩
  · -- the one candidate is the hit that is fetched
    have hone : (e.track (e.scored (asking [("q", "word")]))).2.toOption.map
        (fun found : Parts × Parts × List SearchHit =>
          found.2.2.map fun hit => (hit.key, hit.place, hit.score))
        = some [("a", (0, 1), 6.0)] := by decide +kernel
    cases hscored : (e.track (e.scored (asking [("q", "word")]))).2 with
    | error failure =>
        rw [hscored] at hone
        cases hone
    | ok found =>
        obtain ⟨parts, after, candidates⟩ := found
        rw [hscored] at hone
        have hone := Option.some.inj hone
        obtain ⟨hit, rfl, -⟩ := List.map_eq_singleton_iff.mp hone
        obtain ⟨hparts, hafter, fetched, hfetched, hhits⟩ := search_eq_ok hresponse hscored
        have hbare := response_best hparts hafter hfetched (List.nodup_singleton _)
        rw [← hhits, SearchHit.sort_singleton] at hbare
        have hshown : response.hits.map (fun hit => (hit.key, hit.place, hit.score))
            = (response.hits.map SearchHit.bare).map
                fun hit => (hit.key, hit.place, hit.score) := by
          rw [List.map_map]
          rfl
        rw [hshown, hbare]
        exact hone
  · intro hok
    cases (hsupplied []).mp (hiff'.mp hok).1

end Engine

end FeatureRank
