import FeatureRank.Proofs.Search.Agreement
import FeatureRank.Proofs.Search.Hits
import FeatureRank.Proofs.Search.Logging

/-! # Shards of the same documents

    Two shards that hold the same documents in the same order may be cut into
    segments in any two ways.  Everything that a request computes on them is the
    same: the hits of its queries (`Slot.scoreAll_same`), its rescore stages
    (`Rescore.applyAll_same`), its explanations (`ShardRequest.explain_same`) and
    its logs (`ShardRequest.log_same`).  The number of a document inside its segment
    is the one thing that differs, and nothing reads it (`recordVisits_erase`). -/

namespace FeatureRank

open Tracked

variable {docs : List IndexedDocument} {a b : Shard}

/-! ## Searchers and visits -/

/-- Shards of the same documents agree on all statistics. -/
theorem Shard.Holds.agreeOn (ha : a.Holds docs) (hb : b.Holds docs)
    (global : Option GlobalStatistics) (terms : TermId → Prop) :
    Searcher.AgreeOn terms ⟨a, global⟩ ⟨b, global⟩ where
  isEmpty := by
    unfold Searcher.isEmpty
    rw [ha.docCount, hb.docCount]
  collection := by
    cases global with
    | some g => rfl
    | none =>
        show a.collection = b.collection
        unfold Shard.collection
        rw [ha.docCount, hb.docCount, ha.tokens, hb.tokens]
  term := by
    intro t _
    unfold Searcher.term Shard.termStatistics
    rw [ha.docFrequency, hb.docFrequency, ha.termFrequency, hb.termFrequency]

/-- Visits without the numbers inside the segments. -/
def eraseInside (visits : List (Nat × Nat × Scored)) : List (Nat × Scored) :=
  visits.map fun v => (v.1, v.2.2)

theorem Shard.Holds.visit_same (ha : a.Holds docs) (hb : b.Holds docs) {w : QueryWeight}
    {cache : Option ScoreCache} (hfits : w.Fits cache) {numbers : List Nat}
    (hnumbers : numbers.Nodup) :
    ∃ visits visits' kept, w.visit a numbers cache = .ok (visits, kept) ∧
      w.visit b numbers cache = .ok (visits', kept) ∧
      eraseInside visits = eraseInside visits' ∧ w.Fits kept := by
  obtain ⟨visits, hvisits, herased⟩ := ha.visit hfits hnumbers
  obtain ⟨visits', hvisits', herased'⟩ := hb.visit hfits hnumbers
  exact ⟨visits, visits', _, hvisits, hvisits', herased.trans herased'.symm,
    hfits.visitCacheOn _⟩

/-- A recorder does not read where in its segment a document is. -/
theorem recordVisits_erase (r : LogRecorder) (visits : List (Nat × Nat × Scored)) :
    r.recordVisits visits
      = (eraseInside visits).foldlM (fun r (hit, scored) => r.record hit scored) r := by
  unfold LogRecorder.recordVisits eraseInside
  rw [List.foldlM_map]

/-! ## Scoring -/

/-- **Scoring all queries** is the same on shards of the same documents. -/
theorem Slot.scoreAll_same (ha : a.Holds docs) (hb : b.Holds docs)
    (global : Option GlobalStatistics) (settings : Settings) (filter : Option Slot)
    {slots : List Slot} (hslots : ∀ slot ∈ slots, slot.Fits) :
    scoreAll ⟨a, global⟩ settings filter slots = scoreAll ⟨b, global⟩ settings filter slots := by
  have hagree := ha.agreeOn hb global fun _ => True
  have hweighted : ∀ (slot : Slot) (mode : ScoreMode),
      slot.weighted ⟨a, global⟩ settings mode = slot.weighted ⟨b, global⟩ settings mode :=
    fun slot mode => Slot.weighted_congr hagree (fun _ _ => trivial) settings mode
  unfold scoreAll
  simp only [hweighted]
  refine bind_congr_yields fun filter' _ => bind_congr_yields fun weighted hyields => ?_
  have hfits := Slot.weighted_fits hslots hyields
  rw [ha.scoreSegments settings _ hfits, hb.scoreSegments settings _ hfits]

/-- The slots still fit after scoring, and the hits are different documents. -/
theorem Slot.scoreAll_fits (ha : a.Holds docs) {global : Option GlobalStatistics}
    {settings : Settings} {filter : Option Slot} {slots slots' : List Slot}
    {hits : List ShardHit} (hslots : ∀ slot ∈ slots, slot.Fits)
    (h : (scoreAll ⟨a, global⟩ settings filter slots).Yields (slots', hits)) :
    (∀ slot ∈ slots', slot.Fits) ∧ (hits.map (·.doc)).Nodup := by
  unfold scoreAll at h
  obtain ⟨filter', -, h⟩ := yields_bind h
  obtain ⟨weighted, hweighted, h⟩ := yields_bind h
  obtain ⟨⟨scored, hits'⟩, hscored, h⟩ := yields_bind h
  obtain ⟨hslots', hhits⟩ := Prod.mk.inj (yields_pure h)
  have hfits := Slot.weighted_fits hslots hweighted
  have hresult := yields_ofChecked hscored
  rw [ha.scoreSegments settings _ hfits] at hresult
  obtain ⟨hscoredEq, hhitsEq⟩ := Prod.mk.inj (Except.ok.inj hresult)
  refine ⟨?_, ?_⟩
  · rw [← hslots', ← hscoredEq, List.map_map]
    refine List.forall_mem_map.mpr ?_
    intro w hw
    obtain ⟨slot, hslot, hslotw⟩ := forall₂_mem (yields_mapM hweighted).flip hw
    exact ((hslots slot hslot).weighted_iff hslotw _).mp ((hfits w hw).cacheOn _)
  · rw [← hhits, ← hhitsEq, List.map_filterMap]
    refine (List.pairwise_filterMap.mpr ((zipIdx_pairwise (docs.map (·.2)) 1).imp ?_))
    rintro ⟨terms, number⟩ ⟨terms', number'⟩ hlt m hm m' hm' rfl
    have hnumber : ∀ (x : List TermId × Nat) (y : Nat),
        (WeightedSlot.hitOn settings (fun doc => (filter'.map (·.weight)).all (·.matchesDoc doc))
          weighted x).map (·.doc) = some y → y = x.2 := by
      intro x y hy
      obtain ⟨hit, hhit, rfl⟩ := Option.map_eq_some_iff.mp hy
      unfold WeightedSlot.hitOn at hhit
      split at hhit
      · obtain ⟨score, -, rfl⟩ := Option.map_eq_some_iff.mp hhit
        rfl
      · exact nomatch hhit
    have h1 := hnumber _ _ hm
    have h2 := hnumber _ _ hm'
    exact absurd (h1.symm.trans h2) (Nat.ne_of_lt hlt)

/-! ## Rescoring -/

namespace Rescore

/-- A stage whose slot fits. -/
def Fits (stage : Rescore Slot) : Prop := ∀ slot, stage.query? = some slot → slot.Fits

/-- The hits after a stage gave the best of them scores, under their places among these. -/
def rescored (settings : Settings) (queryWeight rescoreWeight : Float32) (window : Nat)
    (hits : List ShardHit) (scores : List (Nat × Scored)) : List ShardHit :=
  let sorted := ShardHit.sort hits
  let values := scores.map fun x => (x.1, x.2.value)
  let touched := (sorted.take window).zipIdx.map fun (h, index) =>
    .ofScore settings h.doc (combine queryWeight rescoreWeight h.score (values.lookup index))
  ShardHit.sort (touched ++ sorted.drop window)

/-- What a stage makes of the hits does not depend on where in their segments the best of
    them are. -/
theorem apply_query (searcher : Searcher) (settings : Settings) (hits : List ShardHit)
    (slot : Slot) (queryWeight rescoreWeight : Float32) (window : Nat) :
    apply searcher settings hits (.query slot queryWeight rescoreWeight window) = (do
      let w ← slot.weighted searcher settings .scores
      let (visits, scores) ← Tracked.ofChecked
        (w.weight.visit searcher.shard (bestDocs hits window) w.slot.scores)
      return (.query { w.slot with scores } queryWeight rescoreWeight window,
        rescored settings queryWeight rescoreWeight window hits (eraseInside visits))) := by
  simp only [rescored, eraseInside, List.map_map]
  rfl

/-- **A rescore stage** is the same on shards of the same documents. -/
theorem apply_same (ha : a.Holds docs) (hb : b.Holds docs) (global : Option GlobalStatistics)
    (settings : Settings) {hits : List ShardHit} (hhits : (hits.map (·.doc)).Nodup)
    {stage : Rescore Slot} (hstage : stage.Fits) :
    apply ⟨a, global⟩ settings hits stage = apply ⟨b, global⟩ settings hits stage := by
  cases stage with
  | scale factor window => rfl
  | query slot queryWeight rescoreWeight window =>
      simp only [apply_query,
        Slot.weighted_congr (ha.agreeOn hb global fun _ => True) fun _ _ => trivial]
      refine bind_congr_yields fun w hw => ?_
      obtain ⟨visits, visits', kept, hvisits, hvisits', herased, -⟩ :=
        ha.visit_same hb ((hstage slot rfl).weighted hw) (bestDocs_nodup hhits window)
      rw [hvisits, hvisits']
      exact congrArg (fun scores => (pure (.query { w.slot with scores := kept } queryWeight
        rescoreWeight window, rescored settings queryWeight rescoreWeight window hits scores) :
          Tracked (Rescore Slot × List ShardHit))) herased

/-- A stage still fits after it was applied. -/
theorem apply_fits (ha : a.Holds docs) {global : Option GlobalStatistics} {settings : Settings}
    {hits hits' : List ShardHit} (hhits : (hits.map (·.doc)).Nodup) {stage stage' : Rescore Slot}
    (hstage : stage.Fits) (h : (apply ⟨a, global⟩ settings hits stage).Yields (stage', hits')) :
    stage'.Fits ∧ (hits'.map (·.doc)).Nodup := by
  refine ⟨?_, (apply_yields h).2.nodup_iff.mpr hhits⟩
  cases stage with
  | scale factor window =>
      rw [← (Prod.mk.inj (yields_pure h)).1]
      exact fun slot hslot => nomatch hslot
  | query slot queryWeight rescoreWeight window =>
      unfold apply at h
      obtain ⟨w, hw, h⟩ := yields_bind h
      obtain ⟨⟨visits, scores⟩, hvisit, h⟩ := yields_bind h
      rw [← (Prod.mk.inj (yields_pure h)).1]
      intro after hafter
      rw [← Option.some.inj hafter]
      have hfits := (hstage slot rfl).weighted hw
      obtain ⟨visits', -, kept, hvisits', -, -, hkept⟩ :=
        ha.visit_same ha hfits (bestDocs_nodup hhits window)
      have hsame := hvisits'.symm.trans (yields_ofChecked hvisit)
      rw [(Prod.mk.inj (Except.ok.inj hsame)).2] at hkept
      exact ((hstage slot rfl).weighted_iff hw scores).mp hkept

/-- **All rescore stages** are the same on shards of the same documents. -/
theorem applyAll_same (ha : a.Holds docs) (hb : b.Holds docs) (global : Option GlobalStatistics)
    {stages : List (Rescore Slot)} :
    ∀ (settings : Settings) {hits : List ShardHit}, (hits.map (·.doc)).Nodup →
      (∀ stage ∈ stages, stage.Fits) →
      applyAll ⟨a, global⟩ settings stages hits = applyAll ⟨b, global⟩ settings stages hits := by
  induction stages with
  | nil => exact fun _ _ _ _ => rfl
  | cons first rest ih =>
      intro settings hits hhits hstages
      obtain ⟨hfirst, hrest⟩ := List.forall_mem_cons.mp hstages
      unfold applyAll
      rw [apply_same ha hb global _ hhits hfirst]
      refine bind_congr_yields ?_
      rintro ⟨stage, between⟩ hresult
      exact congrArg (· >>= _) (ih _ (apply_fits hb hhits hfirst hresult).2 hrest)

theorem applyAll_fits (ha : a.Holds docs) {global : Option GlobalStatistics}
    {stages : List (Rescore Slot)} :
    ∀ {settings : Settings} {hits hits' : List ShardHit} {stages' : List (Rescore Slot)},
      (hits.map (·.doc)).Nodup →
      (∀ stage ∈ stages, stage.Fits) →
      (applyAll ⟨a, global⟩ settings stages hits).Yields (stages', hits') →
      (∀ stage ∈ stages', stage.Fits) ∧ (hits'.map (·.doc)).Nodup := by
  induction stages with
  | nil =>
      intro settings hits hits' stages' hhits _ h
      obtain ⟨hstages, hsame⟩ := Prod.mk.inj (yields_pure h)
      rw [← hstages, ← hsame]
      exact ⟨List.forall_mem_nil _, hhits⟩
  | cons first rest ih =>
      intro settings hits hits' stages' hhits hstages h
      obtain ⟨hfirst, hrest⟩ := List.forall_mem_cons.mp hstages
      unfold applyAll at h
      obtain ⟨⟨first', between⟩, hresult, h⟩ := yields_bind h
      obtain ⟨⟨rest', last⟩, hothers, h⟩ := yields_bind h
      obtain ⟨hstages', hsame⟩ := Prod.mk.inj (yields_pure h)
      obtain ⟨hfirst', hbetween⟩ := apply_fits ha hhits hfirst hresult
      obtain ⟨hrest', hlast⟩ := ih hbetween hrest hothers
      rw [← hstages', ← hsame]
      exact ⟨List.forall_mem_cons.mpr ⟨hfirst', hrest'⟩, hlast⟩

end Rescore

/-! ## Requests -/

namespace ShardRequest

/-- A request whose slots fit. -/
structure Fits (r : ShardRequest) : Prop where
  queries : ∀ slot ∈ r.queries, slot.Fits
  rescores : ∀ stage ∈ r.rescores, stage.Fits

/-- A request by accepted models fits, taken apart. -/
theorem ofRequest_fits {dictionary : Dictionary} {settings : Settings} {request : SearchRequest}
    {r : ShardRequest} (hrequest : request.Accepted)
    (h : (ofRequest dictionary settings request).Yields r) : r.Fits := by
  obtain ⟨hqueries, hrescores, -⟩ := ofRequest_parts h
  refine ⟨?_, ?_⟩
  · intro slot hslot
    obtain ⟨x, hx, slot', hslot', rfl⟩ := forall₂_mem hqueries.flip hslot
    exact (QueryRequest.slot_becomes hslot').fits (hrequest.queries x hx)
  · intro stage' hstage' slot hslot
    obtain ⟨s, hs, hstage⟩ := forall₂_mem hrescores.flip hstage'
    cases s with
    | scale factor window =>
        rw [← yields_pure hstage] at hslot
        exact nomatch hslot
    | query query queryWeight rescoreWeight window =>
        obtain ⟨slot', hslot', heq⟩ := yields_bind hstage
        rw [← yields_pure heq] at hslot
        rw [← Option.some.inj hslot]
        exact (QueryRequest.slot_becomes hslot').fits
          (hrequest.rescores _ hs query rfl)

theorem Fits.slotOf? {r : ShardRequest} (h : r.Fits) {target : LogTarget} {slot : Slot}
    (hslot : r.slotOf? target = some slot) : slot.Fits := by
  cases target with
  | query place => exact h.queries slot (List.mem_of_getElem? hslot)
  | stage place =>
      obtain ⟨stage, hstage, hquery⟩ := Option.bind_eq_some_iff.mp hslot
      exact h.rescores stage (List.mem_of_getElem? hstage) slot hquery

/-- **Scoring a shard** is the same on shards of the same documents. -/
theorem score_same (ha : a.Holds docs) (hb : b.Holds docs) (global : Option GlobalStatistics)
    (settings : Settings) {r : ShardRequest} (hr : r.Fits) :
    r.score ⟨a, global⟩ settings = r.score ⟨b, global⟩ settings := by
  unfold score
  rw [Slot.scoreAll_same ha hb global settings r.filter hr.queries]
  refine bind_congr_yields ?_
  rintro ⟨queries, hits⟩ hresult
  exact congrArg (· >>= _) (Rescore.applyAll_same ha hb global settings
    (Slot.scoreAll_fits hb hr.queries hresult).2 hr.rescores)

/-- The slots still fit after scoring, and the hits are different documents. -/
theorem score_fits (ha : a.Holds docs) {global : Option GlobalStatistics} {settings : Settings}
    {r r' : ShardRequest} {hits : List ShardHit} (hr : r.Fits)
    (h : (r.score ⟨a, global⟩ settings).Yields (r', hits)) :
    r'.Fits ∧ (hits.map (·.doc)).Nodup := by
  unfold score at h
  obtain ⟨⟨queries, first⟩, hfirst, h⟩ := yields_bind h
  obtain ⟨⟨rescores, last⟩, hlast, h⟩ := yields_bind h
  obtain ⟨hr', hhits⟩ := Prod.mk.inj (yields_pure h)
  obtain ⟨hqueries, hnodup⟩ := Slot.scoreAll_fits ha hr.queries hfirst
  obtain ⟨hrescores, hnodup'⟩ := Rescore.applyAll_fits ha hnodup hr.rescores hlast
  rw [← hr', ← hhits]
  exact ⟨⟨hqueries, hrescores⟩, hnodup'⟩

/-- **An explanation** is the same on shards of the same documents. -/
theorem explain_same (ha : a.Holds docs) (hb : b.Holds docs) (global : Option GlobalStatistics)
    (settings : Settings) {r : ShardRequest} (hr : r.Fits) (doc : Nat) :
    r.explain ⟨a, global⟩ settings doc = r.explain ⟨b, global⟩ settings doc := by
  unfold explain
  by_cases hin : ∃ index d, doc = index + 1 ∧ docs[index]? = some d
  · obtain ⟨index, d, rfl, hd⟩ := hin
    obtain ⟨reader, chunk, inside, hlocate, hsegment, hinside⟩ := ha.locate? hd
    obtain ⟨reader', chunk', inside', hlocate', hsegment', hinside'⟩ := hb.locate? hd
    simp only [hlocate, hlocate', hsegment, hsegment']
    refine congrArg (· >>= _) (mapM_congr (List.forall₂_same.mpr fun slot hslot => ?_))
    rw [Slot.weighted_congr (ha.agreeOn hb global fun _ => True) fun _ _ => trivial]
    refine bind_congr_yields fun w hw => ?_
    have hfits := (hr.queries slot hslot).weighted hw
    rw [w.weight.explain_ofDocs hinside hfits, w.weight.explain_ofDocs hinside' hfits]
  · have hout : doc = 0 ∨ docs.length < doc := by
      by_contra hnot
      obtain ⟨hpos, hle⟩ := not_or.mp hnot
      refine hin ⟨doc - 1, docs[doc - 1], by omega, List.getElem?_eq_getElem (by omega)⟩
    simp only [ha.locate?_eq_none hout, hb.locate?_eq_none hout]

/-! ## Logs -/

/-- What fits a query by a model fits the ranking query in it. -/
theorem fits_ranking? {query : Query} {q : RankingQuery} (hq : query.ranking? = some q)
    (scores : Option ScoreCache) :
    query.Fits scores ↔ q.Sized ∧ ScoreCache.Fits q.features.size scores := by
  cases query with
  | ranking q' =>
      rw [← Option.some.inj hq]
      exact Iff.rfl
  | boost inner factor =>
      cases inner with
      | ranking q' =>
          rw [← Option.some.inj hq]
          exact Iff.rfl
      | boost query factor' => exact nomatch hq
      | plain query => exact nomatch hq
  | plain query => exact nomatch hq

/-- A request still fits when other fitting scores are kept for a log. -/
theorem Fits.keepScores {r : ShardRequest} (h : r.Fits) {target : LogTarget}
    {scores : Option ScoreCache}
    (hscores : ∀ slot, r.slotOf? target = some slot → Slot.Fits { slot with scores }) :
    (r.keepScores scores target).Fits := by
  cases target with
  | query place =>
      refine ⟨?_, h.rescores⟩
      intro slot hslot
      obtain ⟨i, hi⟩ := List.mem_iff_getElem?.mp hslot
      have hi : (r.queries.modify place ({ · with scores }))[i]? = some slot := hi
      by_cases hplace : place = i
      · rw [hplace, List.getElem?_modify_eq] at hi
        obtain ⟨old, hold, rfl⟩ := Option.map_eq_some_iff.mp hi
        exact hscores old (hplace ▸ hold)
      · rw [List.getElem?_modify_ne _ _ hplace] at hi
        exact h.queries slot (List.mem_of_getElem? hi)
  | stage place =>
      refine ⟨h.queries, ?_⟩
      intro stage hstage slot hslot
      obtain ⟨i, hi⟩ := List.mem_iff_getElem?.mp hstage
      unfold ShardRequest.keepScores at hi
      by_cases hplace : place = i
      · rw [hplace, List.getElem?_modify_eq] at hi
        obtain ⟨old, hold, rfl⟩ := Option.map_eq_some_iff.mp hi
        cases old with
        | scale factor window => exact nomatch hslot
        | query slot' queryWeight rescoreWeight window =>
            rw [← Option.some.inj hslot]
            exact hscores slot' (by rw [hplace]; exact slotOf?_stage hold)
      · rw [List.getElem?_modify_ne _ _ hplace] at hi
        exact h.rescores stage (List.mem_of_getElem? hi) slot hslot

/-- A request still fits when the scores that a log kept fit its query. -/
theorem Fits.afterLog {r : ShardRequest} (h : r.Fits) {target : LogTarget} {slot : Slot}
    {q : RankingQuery} (hslot : r.slotOf? target = some slot) (hq : slot.query.ranking? = some q)
    {kept : Option ScoreCache} (hkept : ScoreCache.Fits q.features.size kept) :
    (r.afterLog target slot kept).Fits := by
  have hsized := ((fits_ranking? hq slot.scores).mp (h.slotOf? hslot)).1
  unfold ShardRequest.afterLog
  split
  · refine h.keepScores fun found hfound => ?_
    obtain rfl : slot = found := Option.some.inj (hslot.symm.trans hfound)
    exact (fits_ranking? hq kept).mpr ⟨hsized, hkept⟩
  · exact h

/-- The slot that logs a query fits when the query does. -/
theorem logSlot_fits {q : RankingQuery} (hsized : q.Sized) (searcher : Searcher)
    (scores : Option ScoreCache) (weights : WeightCache) :
    Slot.Fits { query := .ranking (q.canonical searcher).logged, scores, weights }
      ↔ ScoreCache.Fits q.features.size scores := by
  have hlogged : (q.canonical searcher).logged.Sized :=
    ⟨rfl, by
      show (q.queries.map _).length = q.features.size
      rw [List.length_map, hsized.2]⟩
  exact ⟨fun h => h.2, fun h => ⟨hlogged, h⟩⟩

/-- **Logs of documents that are scored again** are the same on shards of the same
    documents. -/
theorem rescoreLogs_same (ha : a.Holds docs) (hb : b.Holds docs) (settings : Settings)
    {numbers : List Nat} (hnumbers : numbers.Nodup) (loggers : List Logger) :
    ∀ {weights : WeightCache} {r : ShardRequest}, r.Fits →
      rescoreLogs { shard := a } settings numbers loggers weights r
        = rescoreLogs { shard := b } settings numbers loggers weights r := by
  induction loggers with
  | nil => exact fun _ => rfl
  | cons first rest ih =>
      intro weights r hr
      unfold rescoreLogs
      cases hfound : (r.slotOf? first.target).bind
          fun slot => slot.query.ranking?.map ((slot, ·)) with
      | none => exact ih hr
      | some found =>
          obtain ⟨slot, q⟩ := found
          obtain ⟨slot', hslot, hmap⟩ := Option.bind_eq_some_iff.mp hfound
          obtain ⟨q', hq, hpair⟩ := Option.map_eq_some_iff.mp hmap
          obtain ⟨rfl, rfl⟩ := Prod.mk.inj hpair
          obtain ⟨hsized, hscores⟩ := (fits_ranking? hq slot'.scores).mp (hr.slotOf? hslot)
          have hagree := ha.agreeOn hb none fun _ => True
          have hcanonical : q'.canonical { shard := a } = q'.canonical { shard := b } := by
            unfold RankingQuery.canonical
            rw [hagree.isEmpty]
          have hlog := (logSlot_fits hsized { shard := b } _ weights).mpr hscores.getD_empty
          simp only [hcanonical, Slot.weighted_congr hagree fun _ _ => trivial]
          refine bind_congr_yields fun w hw => ?_
          obtain ⟨visits, visits', kept, hvisits, hvisits', herased, hkept⟩ :=
            ha.visit_same hb (hlog.weighted hw) hnumbers
          rw [hvisits, hvisits']
          have hrecorder : (recorder first q').recordVisits visits
              = (recorder first q').recordVisits visits' := by
            rw [recordVisits_erase, recordVisits_erase, herased]
          -- the slot of the log still fits, whether or not it keeps what was scored
          have hfits : ScoreCache.Fits q'.features.size kept := by
            refine (logSlot_fits hsized { shard := b } kept w.slot.weights).mp ?_
            have := (hlog.weighted_iff hw kept).mp hkept
            rw [(Slot.weighted_yields hw).2] at this
            exact this
          have hafter : (r.afterLog first.target slot' kept).Fits := hr.afterLog hslot hq hfits
          show ofChecked ((recorder first q').recordVisits visits) >>= _
            = ofChecked ((recorder first q').recordVisits visits') >>= _
          rw [hrecorder]
          refine bind_congr_yields fun finished _ => ?_
          exact congrArg (· >>= _) (ih hafter)

/-- **The logs of hits** are the same on shards of the same documents. -/
theorem log_same (ha : a.Holds docs) (hb : b.Holds docs) (settings : Settings)
    {r : ShardRequest} (hr : r.Fits) {hits : List SearchHit} (hhits : (hits.map (·.doc)).Nodup) :
    r.log { shard := a } settings hits = r.log { shard := b } settings hits := by
  unfold log recorders
  simp only [rescoreLogs_same ha hb settings hhits r.loggers hr]

end ShardRequest

end FeatureRank
