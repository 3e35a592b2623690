import FeatureRank.Proofs.Search.Pass
import FeatureRank.Proofs.Search.Statistics

/-! # Scoring a request on a shard

    Which scores the queries of a request give the documents of a shard
    (`ShardRequest.Gives`): a scored query in its passes over the segments, the
    query of a rescore stage in its visits to the best hits that the stages before
    it left.

    Once a request is scored, the slot of every ranking query keeps the weights of
    the searcher, all its scores are by the definition, and its score cache keeps
    just what it gave (`ShardRequest.score_yields`).  The hits are different
    documents of the shard, whatever the stages did to their order
    (`Rescore.Leads.perm`). -/

namespace FeatureRank

open Tracked

/-! ## Weights of queries that a log may record -/

/-- The factor of a query under a single boost. -/
def Query.factor? : Query → Option Float32
  | .boost _ factor => some factor
  | _ => none

/-- The weight of a ranking query, or of one under a single boost; ranking is not
    switched off. -/
theorem Query.weight_ranking {query : Query} {q : RankingQuery} (hq : query.ranking? = some q)
    {searcher : Searcher} {enabled : Bool} {cache made : WeightCache} {weight : QueryWeight}
    (h : query.weight searcher enabled .scores cache = (made, .ok weight)) :
    enabled = true ∧
      ∃ w, q.weight searcher cache = (made, .ok w) ∧ weight = w.under query.factor? := by
  have hranking : ∀ {weight : QueryWeight},
      Query.weight searcher enabled .scores cache (.ranking q) = (made, .ok weight) →
      enabled = true ∧ ∃ w, q.weight searcher cache = (made, .ok w) ∧ weight = .ranking w := by
    intro weight h
    obtain ⟨henabled, ⟨hmode, -⟩ | ⟨-, hmade⟩⟩ := weight_of_ranking h
    · cases hmode
    · exact ⟨henabled, hmade⟩
  -- a log records a ranking query or one under a single boost, and no other
  cases query with
  | plain feature => cases hq
  | ranking p =>
      rw [Option.some.inj hq] at h
      exact hranking h
  | boost inner factor =>
      cases inner with
      | plain feature => cases hq
      | boost query factor' => cases hq
      | ranking p =>
          rw [Option.some.inj hq] at h
          obtain ⟨inner, hinner, rfl⟩ := weight_of_boost h
          obtain ⟨henabled, w, hw, rfl⟩ := hranking hinner
          exact ⟨henabled, w, hw, rfl⟩

/-! ## Slots -/

namespace Slot

/-- The weight of a filter, which only says what matches. -/
def filterWeight? (searcher : Searcher) (settings : Settings) (filter : Option Slot) :
    Option QueryWeight :=
  filter.bind fun slot =>
    (slot.query.weight searcher settings.enabled .matching slot.weights).2.toOption

/-- What the query of a slot gives the documents of a shard in its passes, and the
    slot as they leave it. -/
def Passes (searcher : Searcher) (settings : Settings) (filter : Option Slot) (slot : Slot)
    (scores : List (Nat × Scored)) (after : Slot) : Prop :=
  ∃ weight kept made,
    slot.query.weight searcher settings.enabled .scores slot.weights = (made, .ok weight) ∧
    weight.passes (filterWeight? searcher settings filter) searcher.shard.readers slot.scores
      = .ok (scores, kept) ∧
    after = { slot with scores := kept, weights := made }

/-- What the query of a slot gives the documents of a list when it visits them, and
    the slot as this leaves it. -/
def Visits (searcher : Searcher) (settings : Settings) (slot : Slot) (docs : List Nat)
    (visits : List (Nat × Nat × Scored)) (after : Slot) : Prop :=
  ∃ weight kept made,
    slot.query.weight searcher settings.enabled .scores slot.weights = (made, .ok weight) ∧
    weight.visit searcher.shard docs slot.scores = .ok (visits, kept) ∧
    after = { slot with scores := kept, weights := made }

/-- **Scoring a shard**: each slot makes its own passes, and the hits are different
    documents that the filter lets through. -/
theorem scoreAll_yields {searcher : Searcher} {settings : Settings} {filter : Option Slot}
    {slots slots' : List Slot} {hits : List ShardHit} (hbuilt : searcher.shard.Built)
    (h : (scoreAll searcher settings filter slots).Yields (slots', hits)) :
    List.Forall₂ (fun slot after => ∃ scores, slot.Passes searcher settings filter scores after)
      slots slots' ∧
    (hits.map (·.doc)).Nodup ∧ ∀ hit ∈ hits, WeightedSlot.Lets
      (filterWeight? searcher settings filter) searcher.shard.readers hit.doc := by
  unfold scoreAll at h
  obtain ⟨filter', hfilter, h⟩ := yields_bind h
  obtain ⟨weighted, hweighted, h⟩ := yields_bind h
  obtain ⟨⟨scored, hits'⟩, hscored, h⟩ := yields_bind h
  obtain ⟨hslots', hhits⟩ := Prod.mk.inj (yields_pure h)
  -- the weight of the filter does not depend on how often it is asked for
  have hsame : filter'.map (·.weight) = filterWeight? searcher settings filter := by
    rcases yields_mapM_option hfilter with ⟨hnone, hnone'⟩ | ⟨slot, w, hsome, hsome', hw⟩
    · rw [hnone, hnone']
      rfl
    · rw [hsome, hsome', Option.map_some, filterWeight?, Option.bind_some,
        (weighted_yields hw).1]
      rfl
  obtain ⟨hpasses, hnodup, hlets⟩ := WeightedSlot.scoreSegments_eq_ok hbuilt.readers
    searcher.shard.readers_pairwise (yields_ofChecked hscored)
  rw [hsame] at hpasses hlets
  rw [← hslots', ← hhits]
  refine ⟨?_, hnodup, hlets⟩
  rw [List.forall₂_map_right_iff]
  refine forall₂_comp (yields_mapM hweighted) hpasses ?_
  rintro slot w w' hw ⟨scores, kept, hpass, heq⟩
  obtain ⟨hmade, hslot⟩ := weighted_yields hw
  rw [hslot] at hpass
  refine ⟨scores, w.weight, kept, w.slot.weights, hmade, hpass, ?_⟩
  rw [heq]
  show { w.slot with scores := kept } = _
  rw [hslot]

/-- A slot at the start of a request: no weights, no scores, and a ranking query of
    an accepted model if any. -/
structure Fresh (slot : Slot) : Prop where
  weights : slot.weights = .empty
  scores : slot.scores = none ∨ slot.scores = some .empty
  accepted : ∀ q, slot.query.ranking? = some q → q.Accepted

theorem Fresh.free {slot : Slot} (h : slot.Fresh) (readers : List SegmentReader) :
    Free readers slot.scores := by
  rcases h.scores with hnone | hempty
  · rw [hnone]; exact Free.none readers
  · rw [hempty]; exact Free.empty readers

/-- What a fresh slot keeps after some scores is just of these. -/
theorem Fresh.kept {slot : Slot} (h : slot.Fresh) {features : Nat} {scores : List (Nat × Scored)}
    {after : Option ScoreCache} (hrecords : Records features scores slot.scores after)
    {cache : ScoreCache} (hcache : after = some cache) {doc : Nat} {kept : List Float32}
    (hget : cache.get? doc = some kept) :
    ∃ scored v, (doc, scored) ∈ scores ∧ scored.features = some v ∧ kept = v.kept 0 features := by
  rcases h.scores with hnone | hempty
  · have hsome := hrecords.1
    rw [hcache, hnone] at hsome
    exact nomatch hsome
  · refine (hrecords.2 .empty cache hempty hcache doc kept hget).resolve_left ?_
    intro hnothing
    exact nomatch Std.TreeMap.getElem?_emptyc.symm.trans hnothing

/-- The ranking query of a fresh slot has as many values of its ranker as weights. -/
theorem Fresh.count {slot : Slot} (h : slot.Fresh) {q : RankingQuery}
    (hq : slot.query.ranking? = some q) {searcher : Searcher} {cache made : WeightCache}
    {w : RankingWeight} (hw : q.weight searcher cache = (made, .ok w)) :
    w.weights.length = q.features.size ∧ w.weights.length ≤ w.ranker.featureCount := by
  obtain ⟨hholds, -, -, hranker, -⟩ := RankingQuery.weight_eq_ok hw
  obtain ⟨hcount, hlength⟩ := (h.accepted q hq).size
  have hweights : w.weights.length = q.features.size := by rw [← hholds.length_eq, hlength]
  refine ⟨hweights, ?_⟩
  rw [hweights, hranker, hcount]

/-- The passes of a fresh ranking slot. -/
theorem Passes.ranked {searcher : Searcher} {settings : Settings} {filter : Option Slot}
    {slot after : Slot} {scores : List (Nat × Scored)} (hbuilt : searcher.shard.Built)
    (hfresh : slot.Fresh) {q : RankingQuery} (hq : slot.query.ranking? = some q)
    (h : slot.Passes searcher settings filter scores after) :
    after.query = slot.query ∧ settings.enabled = true ∧
      ∃ w, q.weight searcher .empty = (after.weights, .ok w) ∧ w.Passed slot.query.factor? (filterWeight? searcher settings filter) searcher.shard.readers
        scores slot.scores after.scores := by
  obtain ⟨weight, kept, made, hmade, hpasses, hafter⟩ := h
  obtain ⟨henabled, w, hw, hunder⟩ := Query.weight_ranking hq hmade
  rw [hfresh.weights] at hw
  obtain ⟨scores', kept', hpasses', hpassed⟩ := RankingWeight.passes_under
    (hfresh.count hq hw).2 searcher.shard.readers hbuilt.readers searcher.shard.readers_pairwise
    (hfresh.free searcher.shard.readers)
  rw [hunder, hpasses'] at hpasses
  obtain ⟨hscores, hkept⟩ := Prod.mk.inj (Except.ok.inj hpasses)
  rw [hafter, ← hscores, ← hkept]
  exact ⟨rfl, henabled, w, hw, hpassed⟩

/-- The visits of a fresh ranking slot. -/
theorem Visits.ranked {searcher : Searcher} {settings : Settings} {slot after : Slot}
    {docs : List Nat} {visits : List (Nat × Nat × Scored)} (hbuilt : searcher.shard.Built)
    (hfresh : slot.Fresh) {q : RankingQuery} (hq : slot.query.ranking? = some q)
    (hdocs : docs.Nodup) (h : slot.Visits searcher settings docs visits after) :
    after.query = slot.query ∧ settings.enabled = true ∧
      ∃ w, q.weight searcher .empty = (after.weights, .ok w) ∧ w.Visited slot.query.factor? searcher.shard.readers (RankingWeight.placesOf docs) visits
        slot.scores after.scores := by
  obtain ⟨weight, kept, made, hmade, hvisit, hafter⟩ := h
  obtain ⟨henabled, w, hw, hunder⟩ := Query.weight_ranking hq hmade
  rw [hfresh.weights] at hw
  obtain ⟨visits', kept', hvisit', hvisited⟩ := RankingWeight.visit_under
    hbuilt (hfresh.count hq hw).2 hdocs (hfresh.free searcher.shard.readers)
  rw [hunder, hvisit'] at hvisit
  obtain ⟨hvisits, hkept⟩ := Prod.mk.inj (Except.ok.inj hvisit)
  rw [hafter, ← hvisits, ← hkept]
  exact ⟨rfl, henabled, w, hw, hvisited⟩

end Slot

/-! ## Rescore stages -/

theorem ShardHit.sort_perm (hits : List ShardHit) : (ShardHit.sort hits).Perm hits :=
  List.mergeSort_perm hits ShardHit.isBefore

namespace Rescore

/-- The documents of the best hits, which are those that a stage visits. -/
def bestDocs (hits : List ShardHit) (window : Nat) : List Nat :=
  ((ShardHit.sort hits).take window).map (·.doc)

theorem bestDocs_nodup {hits : List ShardHit} (h : (hits.map (·.doc)).Nodup) (window : Nat) :
    (bestDocs hits window).Nodup :=
  (((ShardHit.sort_perm hits).map (·.doc)).nodup_iff.mpr h).sublist
    ((List.take_sublist window _).map _)

/-- Other scores for the best hits leave the documents as they are. -/
theorem rescored_perm (hits : List ShardHit) (window : Nat) {touched : List ShardHit}
    (htouched : touched.map (·.doc) = bestDocs hits window) :
    ((ShardHit.sort (touched ++ (ShardHit.sort hits).drop window)).map (·.doc)).Perm
      (hits.map (·.doc)) := by
  refine ((ShardHit.sort_perm _).map _).trans ?_
  rw [List.map_append, htouched, bestDocs, ← List.map_append, List.take_append_drop]
  exact (ShardHit.sort_perm hits).map _

/-- How a stage leaves the slot of its query. -/
inductive Applied (searcher : Searcher) (settings : Settings) (hits : List ShardHit) :
    Rescore Slot → Rescore Slot → Prop where
  | scale (factor : Float32) (window : Nat) :
      Applied searcher settings hits (.scale factor window) (.scale factor window)
  | query {slot after : Slot} {visits : List (Nat × Nat × Scored)} {window : Nat}
      (h : slot.Visits searcher settings (bestDocs hits window) visits after)
      (queryWeight rescoreWeight : Float32) :
      Applied searcher settings hits (.query slot queryWeight rescoreWeight window)
        (.query after queryWeight rescoreWeight window)

/-- One stage. -/
theorem apply_yields {searcher : Searcher} {settings : Settings} {hits hits' : List ShardHit}
    {stage stage' : Rescore Slot}
    (h : (apply searcher settings hits stage).Yields (stage', hits')) :
    Applied searcher settings hits stage stage' ∧
      (hits'.map (·.doc)).Perm (hits.map (·.doc)) := by
  cases stage with
  | scale factor window =>
      obtain ⟨hstage, hhits⟩ := Prod.mk.inj (yields_pure h)
      rw [← hstage, ← hhits]
      refine ⟨Applied.scale factor window, rescored_perm hits window ?_⟩
      rw [List.map_map]
      rfl
  | query slot queryWeight rescoreWeight window =>
      unfold apply at h
      obtain ⟨w, hw, h⟩ := yields_bind h
      obtain ⟨⟨visits, kept⟩, hvisits, h⟩ := yields_bind h
      obtain ⟨hstage, hhits⟩ := Prod.mk.inj (yields_pure h)
      obtain ⟨hmade, hslot⟩ := Slot.weighted_yields hw
      have hvisit := yields_ofChecked hvisits
      rw [hslot] at hvisit hstage
      rw [← hstage, ← hhits]
      refine ⟨Applied.query ⟨w.weight, kept, w.slot.weights, hmade, hvisit, rfl⟩ _ _,
        rescored_perm hits window ?_⟩
      rw [List.map_map]
      show (((ShardHit.sort hits).take window).zipIdx.map fun x => x.1.doc) = _
      rw [bestDocs, ← List.zipIdx_map_fst 0 ((ShardHit.sort hits).take window), List.map_map,
        List.zipIdx_map_fst]
      rfl

/-- How a stage leaves the slot of its query has nothing to do with NaN. -/
theorem Applied.of_under {searcher : Searcher} {settings : Settings} {part : Nat}
    {hits : List ShardHit} {stage stage' : Rescore Slot}
    (h : Applied searcher (settings.under part) hits stage stage') :
    Applied searcher settings hits stage stage' := by
  cases h with
  | scale factor window => exact .scale factor window
  | @query slot after visits window hvisits queryWeight rescoreWeight =>
      have hsame : slot.Visits searcher settings (bestDocs hits window) visits after := hvisits
      exact .query hsame queryWeight rescoreWeight

/-- The hits that some stages lead to, one after the other. -/
inductive Leads (searcher : Searcher) :
    Settings → List (Rescore Slot) → List ShardHit → List ShardHit → Prop where
  | none {settings : Settings} (hits : List ShardHit) : Leads searcher settings [] hits hits
  | cons {settings : Settings} {stage stage' : Rescore Slot} {rest : List (Rescore Slot)}
      {hits between hits' : List ShardHit}
      (h : (apply searcher (settings.under 0) hits stage).Yields (stage', between))
      (hrest : Leads searcher (settings.under 1) rest between hits') :
      Leads searcher settings (stage :: rest) hits hits'

/-- **Stages keep the documents.** -/
theorem Leads.perm {searcher : Searcher} {settings : Settings} {stages : List (Rescore Slot)}
    {hits hits' : List ShardHit} (h : Leads searcher settings stages hits hits') :
    (hits'.map (·.doc)).Perm (hits.map (·.doc)) := by
  induction h with
  | none hits => exact List.Perm.refl _
  | cons h _ ih => exact ih.trans (apply_yields h).2

/-- All stages: each is applied to the hits that those before it lead to. -/
theorem applyAll_yields {searcher : Searcher} {settings : Settings}
    {stages : List (Rescore Slot)} :
    ∀ {hits hits' : List ShardHit} {stages' : List (Rescore Slot)},
      (applyAll searcher settings stages hits).Yields (stages', hits') →
      Leads searcher settings stages hits hits' ∧
      ∀ place stage', stages'[place]? = some stage' → ∃ stage between,
        stages[place]? = some stage ∧
        Leads searcher settings (stages.take place) hits between ∧
        Applied searcher settings between stage stage' := by
  induction stages generalizing settings with
  | nil =>
      intro hits hits' stages' h
      obtain ⟨hstages, hhits⟩ := Prod.mk.inj (yields_pure h)
      rw [← hstages, ← hhits]
      exact ⟨Leads.none hits, fun place stage' hplace => nomatch hplace⟩
  | cons first rest ih =>
      intro hits hits' stages' h
      unfold applyAll at h
      obtain ⟨⟨first', between⟩, hfirst, h⟩ := yields_bind h
      obtain ⟨⟨rest', last⟩, hrest, h⟩ := yields_bind h
      obtain ⟨hstages, hhits⟩ := Prod.mk.inj (yields_pure h)
      obtain ⟨hleads, hothers⟩ := ih hrest
      rw [← hstages, ← hhits]
      refine ⟨Leads.cons hfirst hleads, ?_⟩
      intro place stage' hplace
      cases place with
      | zero =>
          rw [← Option.some.inj hplace]
          exact ⟨first, hits, rfl, Leads.none hits, (apply_yields hfirst).1.of_under⟩
      | succ place =>
          obtain ⟨stage, earlier, hstage, hlead, happlied⟩ := hothers place stage' hplace
          exact ⟨stage, earlier, hstage, Leads.cons hfirst hlead, happlied.of_under⟩

end Rescore

/-! ## Requests -/

namespace ShardRequest

/-- The scores that the queries of a request give documents, by their absolute
    numbers: a scored query in its passes, the query of a stage in its visits to
    the best hits that the stages before it lead to. -/
inductive Gives (r : ShardRequest) (searcher : Searcher) (settings : Settings) :
    LogTarget → Nat → Scored → Prop where
  | query {place doc : Nat} {scored : Scored} {slot after : Slot} {scores : List (Nat × Scored)}
      (hslot : r.queries[place]? = some slot)
      (hpasses : slot.Passes searcher settings r.filter scores after)
      (hscored : (doc, scored) ∈ scores) : Gives r searcher settings (.query place) doc scored
  | stage {place window index doc inside : Nat} {scored : Scored} {slot after : Slot}
      {queryWeight rescoreWeight : Float32} {queries : List Slot} {first hits : List ShardHit}
      {visits : List (Nat × Nat × Scored)}
      (hstage : r.rescores[place]? = some (.query slot queryWeight rescoreWeight window))
      (hfirst : (Slot.scoreAll searcher settings r.filter r.queries).Yields (queries, first))
      (hleads : Rescore.Leads searcher settings (r.rescores.take place) first hits)
      (hvisits : slot.Visits searcher settings (Rescore.bestDocs hits window) visits after)
      (hdoc : (Rescore.bestDocs hits window)[index]? = some doc)
      (hscored : (index, inside, scored) ∈ visits) :
      Gives r searcher settings (.stage place) doc scored

/-- A ranking query of a request once the request is scored, with the weight that
    it was scored by. -/
structure Ranked (r : ShardRequest) (searcher : Searcher) (settings : Settings)
    (target : LogTarget) (slot after : Slot) (q : RankingQuery) (w : RankingWeight) : Prop where
  query : after.query = slot.query
  enabled : settings.enabled = true
  made : q.weight searcher .empty = (after.weights, .ok w)
  gives : ∀ doc scored, r.Gives searcher settings target doc scored →
    ∃ reader ∈ searcher.shard.readers, ∃ inside, 0 < inside ∧ inside ≤ reader.maxDoc ∧
      doc = reader.docBase + inside ∧ w.Scores slot.query.factor? reader.segment inside scored
  keeps : after.scores.isSome = slot.scores.isSome
  kept : ∀ cache, after.scores = some cache → ∀ doc scores, cache.get? doc = some scores →
    ∃ scored v, r.Gives searcher settings target doc scored ∧ scored.features = some v ∧
      scores = v.kept 0 w.weights.length

/-- A request whose slots are all fresh. -/
def Fresh (r : ShardRequest) : Prop := ∀ target slot, r.slotOf? target = some slot → slot.Fresh

variable {r r' : ShardRequest} {searcher : Searcher} {settings : Settings}

/-- The slot of a stage by a query. -/
theorem slotOf?_stage {place window : Nat} {slot : Slot} {queryWeight rescoreWeight : Float32}
    (h : r.rescores[place]? = some (.query slot queryWeight rescoreWeight window)) :
    r.slotOf? (.stage place) = some slot := by
  show r.rescores[place]?.bind (·.query?) = some slot
  rw [h]
  rfl

/-- A scored query that ranks. -/
theorem Fresh.ranked_query (hbuilt : searcher.shard.Built) (hfresh : r.Fresh) {place : Nat}
    {slot after : Slot} {scores : List (Nat × Scored)} (hslot : r.queries[place]? = some slot)
    (hpasses : slot.Passes searcher settings r.filter scores after) {q : RankingQuery}
    (hq : slot.query.ranking? = some q) :
    ∃ w, Ranked r searcher settings (.query place) slot after q w ∧
      w.Passed slot.query.factor? (Slot.filterWeight? searcher settings r.filter)
        searcher.shard.readers scores slot.scores after.scores := by
  have hnew := hfresh (.query place) slot hslot
  obtain ⟨hquery, henabled, w, hmade, hpassed⟩ := hpasses.ranked hbuilt hnew hq
  refine ⟨w, ⟨hquery, henabled, hmade, ?_, hpassed.records.1, ?_⟩, hpassed⟩
  -- a fresh query has the same weight in all its passes
  · rintro doc scored ⟨hslot', hpasses', hmem⟩
    rw [hslot] at hslot'
    rw [← Option.some.inj hslot'] at hpasses'
    obtain ⟨-, -, w', hmade', hpassed'⟩ := hpasses'.ranked hbuilt hnew hq
    rw [hmade] at hmade'
    rw [Except.ok.inj (Prod.mk.inj hmade').2]
    exact hpassed'.sound _ hmem
  · intro cache hcache doc scores' hget
    obtain ⟨scored, v, hmem, hv, hscores⟩ := hnew.kept hpassed.records hcache hget
    exact ⟨scored, v, .query hslot hpasses hmem, hv, hscores⟩

/-- The query of a stage that ranks. -/
theorem Fresh.ranked_stage (hbuilt : searcher.shard.Built) (hfresh : r.Fresh)
    {place window : Nat} {slot after : Slot} {queryWeight rescoreWeight : Float32}
    {queries : List Slot} {first hits : List ShardHit} {visits : List (Nat × Nat × Scored)}
    (hstage : r.rescores[place]? = some (.query slot queryWeight rescoreWeight window))
    (hfirst : (Slot.scoreAll searcher settings r.filter r.queries).Yields (queries, first))
    (hleads : Rescore.Leads searcher settings (r.rescores.take place) first hits)
    (hvisits : slot.Visits searcher settings (Rescore.bestDocs hits window) visits after)
    {q : RankingQuery} (hq : slot.query.ranking? = some q) :
    ∃ w, Ranked r searcher settings (.stage place) slot after q w := by
  have hnew := hfresh (.stage place) slot (slotOf?_stage hstage)
  have hdocs : ∀ {queries first hits}, (Slot.scoreAll searcher settings r.filter r.queries).Yields
      (queries, first) → Rescore.Leads searcher settings (r.rescores.take place) first hits →
      (Rescore.bestDocs hits window).Nodup := by
    intro queries first hits hfirst hleads
    obtain ⟨-, hnodup, -⟩ := Slot.scoreAll_yields hbuilt hfirst
    exact Rescore.bestDocs_nodup (hleads.perm.nodup_iff.mpr hnodup) window
  obtain ⟨hquery, henabled, w, hmade, hvisited⟩ :=
    hvisits.ranked hbuilt hnew hq (hdocs hfirst hleads)
  obtain ⟨scores, hrecords, hscores⟩ := hvisited.records
  refine ⟨w, hquery, henabled, hmade, ?_, hrecords.1, ?_⟩
  -- the same holds of all visits of the stage, each to hits that the stages before lead to
  · rintro doc scored (_ | ⟨hstage', hfirst', hleads', hvisits', hdoc, hmem⟩)
    rw [hstage] at hstage'
    obtain ⟨hsame, -, -, hwindow⟩ := Rescore.query.inj (Option.some.inj hstage')
    rw [← hsame, ← hwindow] at hvisits'
    rw [← hwindow] at hdoc
    obtain ⟨-, -, w', hmade', hvisited'⟩ :=
      hvisits'.ranked hbuilt hnew hq (hdocs hfirst' hleads')
    rw [hmade] at hmade'
    rw [Except.ok.inj (Prod.mk.inj hmade').2]
    obtain ⟨reader, hreader, hpos, hle, hplace, hby⟩ := hvisited'.sound _ hmem
    refine ⟨reader, hreader, _, hpos, hle, ?_, hby⟩
    rw [RankingWeight.mem_placesOf, hdoc] at hplace
    exact Option.some.inj hplace
  · intro cache hcache doc scores' hget
    obtain ⟨scored, v, hmem, hv, hkept⟩ := hnew.kept hrecords hcache hget
    obtain ⟨-, -, index, inside, -, -, -, hplace, hvisit, -⟩ := hscores _ hmem
    exact ⟨scored, v, .stage hstage hfirst hleads hvisits
      (RankingWeight.mem_placesOf.mp hplace) hvisit, hv, hkept⟩

/-- **What a request leaves once a shard is scored.**  The hits are different
    documents that the filter lets through, every scored query made its passes, and
    the slot of every ranking query that a log may record is ranked. -/
theorem score_yields (hbuilt : searcher.shard.Built) (hfresh : r.Fresh) {hits : List ShardHit}
    (h : (r.score searcher settings).Yields (r', hits)) :
    r'.loggers = r.loggers ∧ (hits.map (·.doc)).Nodup ∧
      (∀ hit ∈ hits, WeightedSlot.Lets (Slot.filterWeight? searcher settings r.filter)
        searcher.shard.readers hit.doc) ∧
      List.Forall₂ (fun slot after => ∃ scores, slot.Passes searcher settings r.filter scores after)
        r.queries r'.queries ∧
      ∀ target after q, r'.slotOf? target = some after → after.query.ranking? = some q →
        ∃ slot w, r.slotOf? target = some slot ∧
          Ranked r searcher settings target slot after q w := by
  unfold score at h
  obtain ⟨⟨queries, first⟩, hfirst, h⟩ := yields_bind h
  obtain ⟨⟨rescores, last⟩, hlast, h⟩ := yields_bind h
  obtain ⟨hr', hhits⟩ := Prod.mk.inj (yields_pure h)
  obtain ⟨hpasses, hnodup, hlets⟩ := Slot.scoreAll_yields hbuilt hfirst
  obtain ⟨hleads, hstages⟩ := Rescore.applyAll_yields hlast
  rw [← hr', ← hhits]
  refine ⟨rfl, hleads.perm.nodup_iff.mpr hnodup, ?_, hpasses, ?_⟩
  · intro hit hmem
    obtain ⟨hit', hmem', hdoc⟩ := List.mem_map.mp (hleads.perm.mem_iff.mp (List.mem_map_of_mem hmem))
    rw [← hdoc]
    exact hlets hit' hmem'
  · intro target after q hafter hq
    cases target with
    | query place =>
        obtain ⟨slot, hslot, scores, hpass⟩ := forall₂_getElem? hpasses.flip hafter
        obtain ⟨_, _, _, -, -, hsame⟩ := id hpass
        have hq : slot.query.ranking? = some q := by rw [hsame] at hq; exact hq
        obtain ⟨w, hranked, -⟩ := hfresh.ranked_query hbuilt hslot hpass hq
        exact ⟨slot, w, hslot, hranked⟩
    | stage place =>
        obtain ⟨stage', hstage', hquery⟩ := Option.bind_eq_some_iff.mp hafter
        obtain ⟨stage, between, hstage, hlead, happlied⟩ := hstages place stage' hstage'
        cases happlied with
        | scale factor window => exact nomatch hquery
        | @query slot after' visits window hvisits queryWeight rescoreWeight =>
            obtain ⟨_, _, _, -, -, hsame⟩ := id hvisits
            rw [← Option.some.inj hquery] at hq ⊢
            have hq : slot.query.ranking? = some q := by rw [hsame] at hq; exact hq
            obtain ⟨w, hranked⟩ := hfresh.ranked_stage hbuilt hstage hfirst hlead hvisits hq
            exact ⟨slot, w, slotOf?_stage hstage, hranked⟩

end ShardRequest

end FeatureRank
