import FeatureRank.Proofs.Search.Best
import FeatureRank.Proofs.Text.Words

/-! # What a search answers

    The answer of a search without rescore stages can be told document by document:
    each query is asked by itself, by a weight made for it alone and a fresh scorer
    that goes straight to the document (`Query.scoreOn`), and the scores of those
    that match are added up (`ShardRequest.verdict`).  The passes over segments, the
    caches, the sums and the sorting of the search come to just that
    (`Engine.search_exact`). -/

namespace FeatureRank

open Tracked

/-! ## One query and one document -/

/-- The score that a fresh scorer gives a document of a segment when it goes straight
    there, none when the document does not match. -/
def QueryWeight.scoreAt (reader : SegmentReader) (doc : Nat) (w : QueryWeight) :
    Checked (Option Float32) :=
  match ((w.scorer? reader none).map (DocWalk.advance doc)).filter (·.stop = .doc doc) with
  | some s => return some (← s.score).2.value
  | none => return none

/-- The score that a query by itself gives a document of a shard, none when it does
    not match. -/
def Query.scoreOn (searcher : Searcher) (settings : Settings) (mode : ScoreMode) (doc : Nat)
    (query : Query) : Except Failure (Option Float32) :=
  match searcher.shard.locate? doc with
  | none => .ok none
  | some (reader, inside) =>
    match (query.weight searcher settings.enabled mode .empty).2 with
    | .error refusal => .error (.refused refusal)
    | .ok w => (w.scoreAt reader inside).mapError .fault

/-- Whether a document of a shard matches the filter, if there is one. -/
def ShardRequest.allows (r : ShardRequest) (searcher : Searcher) (settings : Settings)
    (doc : Nat) : Except Failure Bool :=
  match r.filter with
  | none => .ok true
  | some slot => (slot.query.scoreOn searcher settings .matching doc).map (·.isSome)

/-- The score of a document of a shard, if it is a candidate: when it matches the
    filter and a query at least, the sum of the queries that it matches. -/
def ShardRequest.verdict (r : ShardRequest) (searcher : Searcher) (settings : Settings)
    (doc : Nat) : Except Failure (Option Float32) := do
  let allowed ← r.allows searcher settings doc
  let scores ← r.queries.mapM fun slot => slot.query.scoreOn searcher settings .scores doc
  let matched := scores.filterMap id
  return if allowed && !matched.isEmpty then some (matched.foldl (· + ·) 0.0) else none

/-- A query by a model, under any number of boosts. -/
def Query.Ranks : Query → Prop
  | .ranking _ => True
  | .boost query _ => query.Ranks
  | .plain _ => False

/-- **A fresh scorer says what the terms of the document say.** -/
theorem QueryWeight.scoreAt_ofDocs {reader : SegmentReader} {docs : List (List TermId)}
    (hsegment : reader.segment = .ofDocs docs) {index : Nat} {doc : List TermId}
    (hdoc : docs[index]? = some doc) {w : QueryWeight} (hfits : w.Fits none) :
    w.scoreAt reader (index + 1)
      = .ok (if w.matchesDoc doc then some (w.scoredOn doc none).value else none) := by
  unfold scoreAt
  cases hs : w.scorer? reader none with
  | none =>
      have hnot := scorer?_eq_none hsegment hs doc (List.mem_of_getElem? hdoc)
      rw [hnot]
      rfl
  | some s =>
      obtain ⟨hstart, hat⟩ := At.fresh (hsegment ▸ Segment.built_ofDocs docs) hs index
      rw [DocWalk.reach_behind (by rw [hstart]; rfl)] at hat
      rw [Option.map_some, Option.filter_some]
      have hstop := hat.stop_iff hsegment hdoc
      cases hmatch : w.matchesDoc doc with
      | true =>
          have hon := hstop.mpr hmatch
          obtain ⟨s', hscore, -, -⟩ := hat.score hsegment hfits hdoc hon
          simp only [hon, decide_true, if_true]
          exact bind_eq_ok.mpr ⟨_, hscore, rfl⟩
      | false =>
          have hoff : ¬(DocWalk.advance (index + 1) s).stop = .doc (index + 1) := fun hon => by
            rw [hstop.mp hon] at hmatch
            cases hmatch
          simp only [hoff, decide_false, Bool.false_eq_true, if_false]
          rfl

/-- A weight that only says what matches fills no vector. -/
theorem Query.fits_matching {query : Query} {searcher : Searcher} {enabled : Bool}
    {cache made : WeightCache} {scores : Option ScoreCache} :
    ∀ {w : QueryWeight},
      query.weight searcher enabled .matching cache = (made, .ok w) → w.Fits scores := by
  induction query with
  | ranking q =>
      intro w h
      obtain ⟨-, ⟨-, -, rfl⟩ | ⟨hmode, -⟩⟩ := weight_of_ranking h
      · trivial
      · cases hmode
  | boost inner factor ih =>
      intro w h
      obtain ⟨v, hv, rfl⟩ := weight_of_boost h
      have hinner : v.Fits scores := ih hv
      exact hinner
  | plain q =>
      intro w h
      obtain ⟨v, -, -, rfl⟩ := weight_of_plain h
      trivial

/-- The weight of a query by a model matches every document, in either mode. -/
theorem Query.Ranks.matchesDoc {query : Query} (hquery : query.Ranks) {searcher : Searcher}
    {enabled : Bool} {mode : ScoreMode} {cache made : WeightCache} (doc : List TermId) :
    ∀ {w : QueryWeight},
      query.weight searcher enabled mode cache = (made, .ok w) → w.matchesDoc doc = true := by
  induction query with
  | ranking q =>
      intro w h
      obtain ⟨-, ⟨-, -, rfl⟩ | ⟨-, v, -, rfl⟩⟩ := weight_of_ranking h
      · rfl
      · rfl
  | boost inner factor ih =>
      intro w h
      obtain ⟨v, hv, rfl⟩ := weight_of_boost h
      have hinner : v.matchesDoc doc = true := ih hquery hv
      exact hinner
  | plain q => exact hquery.elim

/-- Only where ranking is switched on is there a weight of a query by a model. -/
theorem Query.Ranks.enabled {query : Query} (hquery : query.Ranks) {searcher : Searcher}
    {enabled : Bool} {mode : ScoreMode} {cache made : WeightCache} :
    ∀ {w : QueryWeight},
      query.weight searcher enabled mode cache = (made, .ok w) → enabled = true := by
  induction query with
  | ranking q => exact fun h => (weight_of_ranking h).1
  | boost inner factor ih =>
      intro w h
      obtain ⟨v, hv, -⟩ := weight_of_boost h
      exact ih hquery hv
  | plain q => exact hquery.elim

/-- Where ranking is switched on, a query by a model can always be asked what matches. -/
theorem Query.Ranks.weight_matching {query : Query} (hquery : query.Ranks) (searcher : Searcher)
    (cache : WeightCache) : ∃ w, query.weight searcher true .matching cache = (cache, .ok w) := by
  induction query with
  | ranking q => exact ⟨_, rfl⟩
  | boost inner factor ih =>
      obtain ⟨w, hw⟩ := ih hquery
      refine ⟨.boost w factor, ?_⟩
      unfold Query.weight
      rw [hw]
  | plain q => exact hquery.elim

section

variable {query : Query} {s : Shard} {docs : List IndexedDocument}
  {global : Option GlobalStatistics} {settings : Settings} {mode : ScoreMode}

/-- The documents with keys are those with terms. -/
theorem Shard.Holds.isSome_key? (hs : s.Holds docs) (doc : Nat) :
    (s.key? doc).isSome = (Shard.termsAt docs doc).isSome := by
  cases doc with
  | zero => rfl
  | succ index =>
      rw [hs.key? index, Option.isSome_map]
      exact (Option.isSome_map ..).symm

/-- A query says nothing of documents that the shard does not have. -/
theorem Query.scoreOn_of_none (hs : s.Holds docs) {doc : Nat}
    (hdoc : Shard.termsAt docs doc = none) :
    query.scoreOn ⟨s, global⟩ settings mode doc = .ok none := by
  rw [Query.scoreOn, hs.locate?_of_none hdoc]

/-- **A query by itself** says of a document what its weight says of the terms. -/
theorem Query.scoreOn_of_weight (hs : s.Holds docs) {doc : Nat} {terms : List TermId}
    (hdoc : Shard.termsAt docs doc = some terms) {made : WeightCache} {w : QueryWeight}
    (hweight : query.weight ⟨s, global⟩ settings.enabled mode .empty = (made, .ok w))
    (hfits : w.Fits none) :
    query.scoreOn ⟨s, global⟩ settings mode doc
      = .ok (if w.matchesDoc terms then some (w.scoredOn terms none).value else none) := by
  cases doc with
  | zero => cases hdoc
  | succ index =>
      obtain ⟨d, hd, rfl⟩ := Option.map_eq_some_iff.mp hdoc
      obtain ⟨reader, chunk, inside, hlocate, hsegment, hinside⟩ := hs.locate? hd
      unfold Query.scoreOn
      simp only [hlocate, hweight, QueryWeight.scoreAt_ofDocs hsegment hinside hfits]
      rfl

/-- A query by a model matches every document of a shard, when it has a weight. -/
theorem Query.Ranks.scoreOn (hquery : query.Ranks) (hs : s.Holds docs) {doc : Nat}
    (hdoc : (s.key? doc).isSome = true) {made : WeightCache} {w : QueryWeight}
    (hweight : query.weight ⟨s, global⟩ settings.enabled mode .empty = (made, .ok w))
    (hfits : w.Fits none) :
    ∃ score, query.scoreOn ⟨s, global⟩ settings mode doc = .ok (some score) := by
  cases hterms : Shard.termsAt docs doc with
  | none => rw [hs.isSome_key?, hterms] at hdoc; cases hdoc
  | some terms =>
      rw [Query.scoreOn_of_weight hs hterms hweight hfits, hquery.matchesDoc terms hweight]
      exact ⟨_, rfl⟩

end

/-! ## One shard -/

/-- The score that a weight gives a document of some terms. -/
def WeightedSlot.scoreOf? (doc : List TermId) (w : WeightedSlot) : Option Float32 :=
  if w.weight.matchesDoc doc then some (w.weight.scoredOn doc none).value else none

namespace Plan

variable {p : Plan}

/-- The sum of a document is that of the scores of the queries that match it. -/
theorem sumOn_unscored {slots : List WeightedSlot} (h : Unscored slots) (doc : List TermId)
    (n : Nat) :
    (∀ sum, WeightedSlot.sumOn 0 slots (doc, n) (some sum)
      = some ((slots.filterMap (·.scoreOf? doc)).foldl (· + ·) sum)) ∧
    WeightedSlot.sumOn 0 slots (doc, n) none
      = if (slots.filterMap (·.scoreOf? doc)).isEmpty then none
        else some ((slots.filterMap (·.scoreOf? doc)).foldl (· + ·) 0.0) := by
  -- together, since the first query that matches starts a sum for the others
  induction slots with
  | nil => exact ⟨fun _ => rfl, rfl⟩
  | cons w rest ih =>
      obtain ⟨hw, hrest⟩ := List.forall_mem_cons.mp h
      obtain ⟨hsome, hnone⟩ := ih hrest
      have hstep : ∀ sum, WeightedSlot.sumOn 0 (w :: rest) (doc, n) sum
          = WeightedSlot.sumOn 0 rest (doc, n) (w.addOn 0 (doc, n) sum) := fun _ => rfl
      have hadd : ∀ sum, w.addOn 0 (doc, n) sum
          = ((w.scoreOf? doc).map (sum.getD 0.0 + ·)).or sum := by
        intro sum
        unfold WeightedSlot.addOn WeightedSlot.scoreOf?
        rw [get?_unscored hw]
        cases w.weight.matchesDoc doc <;> rfl
      cases hscore : w.scoreOf? doc with
      | none =>
          rw [List.filterMap_cons_none hscore]
          refine ⟨fun sum => ?_, ?_⟩
          · rw [hstep, hadd, hscore]
            exact hsome sum
          · rw [hstep, hadd, hscore]
            exact hnone
      | some score =>
          rw [List.filterMap_cons_some hscore]
          refine ⟨fun sum => ?_, ?_⟩
          · rw [hstep, hadd, hscore]
            exact hsome (sum + score)
          · rw [hstep, hadd, hscore]
            exact hsome (0.0 + score)

end Plan

namespace ShardRequest

variable {r : ShardRequest} {s : Shard} {docs : List IndexedDocument}
  {global : Option GlobalStatistics} {settings : Settings}

/-- The slots of a request start without weights. -/
theorem ofRequest_weights {dictionary : Dictionary} {request : SearchRequest}
    (h : (ofRequest dictionary settings request).Yields r) :
    ∀ slot ∈ r.filter.toList ++ r.queries, slot.weights = .empty := by
  have hslot : ∀ {query : QueryRequest} {slot : Slot},
      query.Becomes dictionary slot → slot.weights = .empty := by
    intro query slot hslot
    induction hslot with
    | byModel h caching hscores => rfl
    | prebuilt h => rfl
    | boost h factor ih => exact ih
    | anyTerm text => rfl
    | phrase text => rfl
  have hof := ofRequest_isOf h
  intro slot hmem
  rcases List.mem_append.mp hmem with hmem | hmem
  · obtain ⟨query, hmade⟩ := hof.made_filter (Option.mem_toList.mp hmem)
    exact hslot hmade
  · obtain ⟨x, -, made, hmade, rfl⟩ := forall₂_mem hof.queries.flip hmem
    show made.weights = .empty
    exact hslot hmade

/-- What the filter of a plan lets through is what matches the filter of the request. -/
theorem allows_eq (hs : s.Holds docs) (hempty : ∀ slot ∈ r.filter.toList, slot.weights = .empty)
    {p : Plan} (hp : p.Made r ⟨s, global⟩ settings) {doc : Nat} {terms : List TermId}
    (hdoc : Shard.termsAt docs doc = some terms) :
    r.allows ⟨s, global⟩ settings doc = .ok (p.lets terms) := by
  obtain ⟨filter, hfilter, hlets⟩ := hp.filter
  unfold allows Plan.lets
  rw [hlets]
  rcases yields_mapM_option hfilter.yields with ⟨hnone, rfl⟩ | ⟨slot, w, hslot, rfl, hw⟩
  · rw [hnone]
    rfl
  · have hweight := (Slot.weighted_yields hw).1
    rw [hempty slot (by rw [hslot]; exact List.mem_singleton_self slot)] at hweight
    rw [hslot]
    simp only [Query.scoreOn_of_weight hs hdoc hweight (Query.fits_matching hweight)]
    show Except.ok _ = Except.ok (w.weight.matchesDoc terms)
    cases w.weight.matchesDoc terms <;> rfl

/-- The scores of the queries of a request are those of the slots of a plan. -/
theorem scores_eq (hs : s.Holds docs) (hr : r.Plain)
    (hempty : ∀ slot ∈ r.queries, slot.weights = .empty) {p : Plan}
    (hp : p.Made r ⟨s, global⟩ settings) {doc : Nat} {terms : List TermId}
    (hdoc : Shard.termsAt docs doc = some terms) :
    (r.queries.mapM fun slot => slot.query.scoreOn ⟨s, global⟩ settings .scores doc)
      = .ok (p.slots.map (·.scoreOf? terms)) := by
  rw [mapM_eq_ok, List.forall₂_map_right_iff]
  have hweighted := yields_mapM hp.slots.yields
  refine ((List.forall₂_and_left _ _).mpr ⟨fun slot hslot => hslot, hweighted⟩).imp ?_
  rintro slot w ⟨hslot, hw⟩
  have hfits : w.weight.Fits none := ((hr.fits.queries slot hslot).weighted hw).withoutScores
  have hweight := (Slot.weighted_yields hw).1
  rw [hempty slot hslot] at hweight
  exact Query.scoreOn_of_weight hs hdoc hweight hfits

/-- **The verdict on a document** is what a plan for the request says of its terms. -/
theorem verdict_eq (hs : s.Holds docs) (hr : r.Plain)
    (hempty : ∀ slot ∈ r.filter.toList ++ r.queries, slot.weights = .empty) {p : Plan}
    (hp : p.Made r ⟨s, global⟩ settings) (doc : Nat) :
    r.verdict ⟨s, global⟩ settings doc = .ok ((Shard.termsAt docs doc).bind p.score?) := by
  cases hdoc : Shard.termsAt docs doc with
  | none =>
      have hnone : ∀ (query : Query) (mode : ScoreMode),
          query.scoreOn ⟨s, global⟩ settings mode doc = .ok none :=
        fun _ _ => Query.scoreOn_of_none hs hdoc
      have hallows : ∃ allowed, r.allows ⟨s, global⟩ settings doc = .ok allowed := by
        unfold allows
        cases r.filter with
        | none => exact ⟨true, rfl⟩
        | some slot => exact ⟨false, by simp only [hnone]; rfl⟩
      have hscores : (r.queries.mapM fun slot => slot.query.scoreOn ⟨s, global⟩ settings .scores doc)
          = .ok (r.queries.map fun _ => none) := by
        rw [mapM_eq_ok, List.forall₂_map_right_iff]
        exact List.forall₂_same.mpr fun slot _ => hnone slot.query .scores
      have hmatched : (r.queries.map fun _ => (none : Option Float32)).filterMap id = [] := by
        rw [List.filterMap_map]
        exact List.filterMap_eq_nil_iff.mpr fun _ _ => rfl
      obtain ⟨allowed, hallowed⟩ := hallows
      refine bind_eq_ok.mpr ⟨_, hallowed, bind_eq_ok.mpr ⟨_, hscores, ?_⟩⟩
      simp only [hmatched, List.isEmpty_nil, Bool.not_true, Bool.and_false]
      rfl
  | some terms =>
      have hallows := allows_eq hs (fun slot hslot => hempty slot (List.mem_append_left _ hslot))
        hp hdoc
      have hscores := scores_eq hs hr (fun slot hslot => hempty slot (List.mem_append_right _ hslot))
        hp hdoc
      refine bind_eq_ok.mpr ⟨_, hallows, bind_eq_ok.mpr ⟨_, hscores, congrArg Except.ok ?_⟩⟩
      have hsum := (Plan.sumOn_unscored (hp.unscored hr) terms 0).2
      rw [List.filterMap_map, Option.bind_some, Plan.score?, hsum]
      show (if (p.lets terms && !(p.slots.filterMap (·.scoreOf? terms)).isEmpty) = true then _
        else none) = _
      cases p.lets terms <;> cases (p.slots.filterMap (·.scoreOf? terms)).isEmpty <;> rfl

/-- **The hits of a shard** are the documents with a verdict, in order. -/
theorem score_verdicts (hs : s.Holds docs) (hr : r.Plain)
    (hempty : ∀ slot ∈ r.filter.toList ++ r.queries, slot.weights = .empty)
    {r' : ShardRequest} {hits : List ShardHit}
    (h : (r.score ⟨s, global⟩ settings).Yields (r', hits)) :
    (∀ doc, ∃ verdict, r.verdict ⟨s, global⟩ settings doc = .ok verdict) ∧
      ∀ hit, hit ∈ hits ↔ r.verdict ⟨s, global⟩ settings hit.doc = .ok (some hit.score) ∧
        hit = .ofScore settings hit.doc hit.score := by
  obtain ⟨p, hp⟩ := Plan.made_of_score hr h ⟨s, global⟩
  have hverdict := verdict_eq hs hr hempty hp
  refine ⟨fun doc => ⟨_, hverdict doc⟩, fun hit => ?_⟩
  have hhits : hits = (Shard.numbered docs).filterMap
      (WeightedSlot.hitOn settings p.lets p.slots) :=
    (Prod.mk.inj (Except.ok.inj ((hp.score_ends hs hr.fits).eq_of_yields h))).2.symm
  rw [hhits, hverdict, List.mem_filterMap]
  constructor
  · rintro ⟨⟨terms, n⟩, hmem, hhit⟩
    rw [Plan.hitOn_unscored settings (hp.unscored hr)] at hhit
    obtain ⟨score, hscore, rfl⟩ := Option.map_eq_some_iff.mp hhit
    have hterms : Shard.termsAt docs n = some terms := Plan.mem_numbered.mp hmem
    refine ⟨?_, rfl⟩
    show Except.ok ((Shard.termsAt docs n).bind p.score?) = .ok (some score)
    rw [hterms, Option.bind_some, hscore]
  · rintro ⟨hscore, hsame⟩
    obtain ⟨terms, hterms, hscore⟩ := Option.bind_eq_some_iff.mp (Except.ok.inj hscore)
    refine ⟨(terms, hit.doc), Plan.mem_numbered.mpr hterms, ?_⟩
    rw [Plan.hitOn_unscored settings (hp.unscored hr), hscore]
    exact congrArg some hsame.symm

/-- What a request that can be scored on a shard says of its documents. -/
structure Decides (r : ShardRequest) (searcher : Searcher) (settings : Settings) : Prop where
  verdict : ∀ doc, ∃ verdict, r.verdict searcher settings doc = .ok verdict
  /-- queries by a model match every document when they are scored -/
  scored : ∀ slot ∈ r.queries, slot.query.Ranks → ∀ doc, (searcher.shard.key? doc).isSome = true →
    ∃ score, slot.query.scoreOn searcher settings .scores doc = .ok (some score)
  /-- they match every document as a filter as well -/
  matching : ∀ slot ∈ r.filter.toList ++ r.queries, slot.query.Ranks →
    ∀ doc, (searcher.shard.key? doc).isSome = true →
      ∃ score, slot.query.scoreOn searcher settings .matching doc = .ok (some score)

theorem decides_of_score (hs : s.Holds docs) (hr : r.Plain)
    (hempty : ∀ slot ∈ r.filter.toList ++ r.queries, slot.weights = .empty)
    {r' : ShardRequest} {hits : List ShardHit}
    (h : (r.score ⟨s, global⟩ settings).Yields (r', hits)) :
    r.Decides ⟨s, global⟩ settings := by
  obtain ⟨p, hp⟩ := Plan.made_of_score hr h ⟨s, global⟩
  have hslot : ∀ slot ∈ r.queries, ∃ made w,
      slot.query.weight ⟨s, global⟩ settings.enabled .scores .empty = (made, .ok w) ∧
        w.Fits none := by
    intro slot hmem
    obtain ⟨w, -, hw⟩ := forall₂_mem (yields_mapM hp.slots.yields) hmem
    have hweight := (Slot.weighted_yields hw).1
    rw [hempty slot (List.mem_append_right _ hmem)] at hweight
    exact ⟨_, _, hweight, ((hr.fits.queries slot hmem).weighted hw).withoutScores⟩
  have hfilter : ∀ slot ∈ r.filter.toList, ∃ made w,
      slot.query.weight ⟨s, global⟩ settings.enabled .matching .empty = (made, .ok w) := by
    intro slot hmem
    obtain ⟨filter, hfilter, -⟩ := hp.filter
    rcases yields_mapM_option hfilter.yields with ⟨hnone, -⟩ | ⟨found, w, hfound, -, hw⟩
    · rw [hnone] at hmem
      cases hmem
    · rw [hfound] at hmem
      obtain rfl := List.mem_singleton.mp hmem
      have hweight := (Slot.weighted_yields hw).1
      rw [hempty slot (List.mem_append_left _ (by rw [hfound]; exact hmem))] at hweight
      exact ⟨_, _, hweight⟩
  refine ⟨(score_verdicts hs hr hempty h).1, ?_, ?_⟩
  · intro slot hmem hranks doc hdoc
    obtain ⟨made, w, hweight, hfits⟩ := hslot slot hmem
    exact hranks.scoreOn hs hdoc hweight hfits
  · intro slot hmem hranks doc hdoc
    -- a scored query was never asked what matches, but could have been
    have henabled : settings.enabled = true := by
      rcases List.mem_append.mp hmem with hmem | hmem
      · obtain ⟨made, w, hweight⟩ := hfilter slot hmem
        exact hranks.enabled hweight
      · obtain ⟨made, w, hweight, -⟩ := hslot slot hmem
        exact hranks.enabled hweight
    obtain ⟨w, hw⟩ := hranks.weight_matching ⟨s, global⟩ .empty
    rw [← henabled] at hw
    exact hranks.scoreOn hs hdoc hw (Query.fits_matching hw)

end ShardRequest

/-! ## All shards -/

/-- A candidate for a part of a request: a document of the shard by its key, with the
    score that the verdict gives it, whichever NaN the machine makes of one, and not yet
    fetched. -/
structure SearchHit.IsOf (hit : SearchHit) (settings : Settings) (global : Option GlobalStatistics)
    (part : Nat × Shard × ShardRequest) : Prop where
  bare : hit.bare = hit
  shard : hit.shard = part.1
  key : part.2.1.key? hit.doc = some hit.key
  score : part.2.2.verdict ⟨part.2.1, global⟩ settings hit.doc = .ok (some hit.score)
  nan : hit.nan = if hit.score.isNaN then settings.nan [part.1, hit.doc] else .positive

namespace Engine

/-- The hits of a shard are its candidates. -/
theorem mem_hitsOf {settings : Settings} {global : Option GlobalStatistics} {place : Nat}
    {shard : Shard} {r : ShardRequest} {docs : List IndexedDocument} (hs : shard.Holds docs)
    (hr : r.Plain) (hempty : ∀ slot ∈ r.filter.toList ++ r.queries, slot.weights = .empty)
    {r' : ShardRequest} {hits : List ShardHit}
    (h : (r.score ⟨shard, global⟩ (settings.under place)).Yields (r', hits)) (hit : SearchHit) :
    hit ∈ hitsOf place shard hits ↔ hit.IsOf settings global (place, shard, r) := by
  have hverdicts := (ShardRequest.score_verdicts hs hr hempty h).2
  constructor
  · intro hmem
    obtain ⟨found, hfound, rfl⟩ := List.mem_map.mp hmem
    obtain ⟨hscore, hsame⟩ := (hverdicts found).mp hfound
    refine ⟨rfl, rfl, ?_, hscore, congrArg ShardHit.nan hsame⟩
    obtain ⟨p, hp⟩ := Plan.made_of_score hr h ⟨shard, global⟩
    rw [ShardRequest.verdict_eq hs hr hempty hp] at hscore
    obtain ⟨terms, hterms, -⟩ := Option.bind_eq_some_iff.mp (Except.ok.inj hscore)
    have hsome : (shard.key? found.doc).isSome = true := by
      rw [hs.isSome_key?, hterms]
      rfl
    obtain ⟨key, hkey⟩ := Option.isSome_iff_exists.mp hsome
    show shard.key? found.doc = some ((shard.key? found.doc).getD "")
    rw [hkey]
    rfl
  · rintro ⟨hbare, hshard, hkey, hscore, hnan⟩
    obtain rfl : hit.shard = place := hshard
    refine List.mem_map.mpr ⟨⟨hit.doc, hit.score, hit.nan⟩, (hverdicts _).mpr ⟨hscore, ?_⟩, ?_⟩
    · rw [hnan]
      rfl
    · rw [hkey]
      exact hbare

/-- **Candidates** are the documents with a verdict, over all shards. -/
theorem scoreParts_candidates {settings : Settings} {global : Option GlobalStatistics}
    {parts : Parts} :
    (∀ part ∈ parts, (∃ docs, part.2.1.Holds docs) ∧ part.2.2.Plain ∧
      ∀ slot ∈ part.2.2.filter.toList ++ part.2.2.queries, slot.weights = .empty) →
    ∀ {after : Parts} {candidates : List SearchHit},
      (scoreParts settings global parts).Yields (after, candidates) →
      (∀ part ∈ parts, part.2.2.Decides ⟨part.2.1, global⟩ settings) ∧
        ∀ hit, hit ∈ candidates ↔ ∃ part ∈ parts, hit.IsOf settings global part := by
  induction parts with
  | nil =>
      intro _ after candidates h
      obtain ⟨-, rfl⟩ := Prod.mk.inj (yields_pure h)
      refine ⟨List.forall_mem_nil _, fun hit => ⟨fun hmem => ?_, ?_⟩⟩
      · cases hmem
      · rintro ⟨part, hmem, -⟩
        cases hmem
  | cons part rest ih =>
      intro hparts after candidates h
      obtain ⟨place, shard, r⟩ := part
      unfold scoreParts at h
      obtain ⟨⟨r', hits⟩, hscore, h⟩ := yields_bind h
      obtain ⟨⟨rest', others⟩, hrest, h⟩ := yields_bind h
      obtain ⟨-, rfl⟩ := Prod.mk.inj (yields_pure h)
      obtain ⟨⟨⟨docs, hs⟩, hr, hempty⟩, hothers⟩ := List.forall_mem_cons.mp hparts
      obtain ⟨hdecides, hcandidates⟩ := ih hothers hrest
      have hhere : ∀ hit, hit ∈ hitsOf place shard hits ↔ hit.IsOf settings global (place, shard, r) :=
        mem_hitsOf hs hr hempty hscore
      have hdecides' := ShardRequest.decides_of_score hs hr hempty hscore
      refine ⟨List.forall_mem_cons.mpr
        ⟨⟨hdecides'.verdict, hdecides'.scored, hdecides'.matching⟩, hdecides⟩, fun hit => ?_⟩
      rw [List.mem_append, hhere, hcandidates, List.exists_mem_cons_iff]

/-- The parts of a request are the request as it is asked on each shard, in order. -/
theorem parts_isOf {e : Engine} {request : SearchRequest} {parts : Parts}
    (h : (e.parts request).Yields parts) :
    List.Forall₂ (fun x part => part.1 = x.2 ∧ part.2.1 = x.1 ∧
      part.2.2.IsOf e.dictionary request) e.shards.toList.zipIdx parts := by
  refine (yields_mapM h).imp ?_
  rintro ⟨shard, place⟩ part hpart
  obtain ⟨r, hr, heq⟩ := yields_bind hpart
  rw [← yields_pure heq]
  exact ⟨rfl, rfl, ShardRequest.ofRequest_isOf hr⟩

/-- **A search without rescore stages is exact**: the request is asked on every shard, with
    its filter and its queries in order.  Every document gets a verdict, and the candidates
    are those whose verdict is a score, each once and the best first.  The response counts
    them, and its hits are the first of them.  On the way queries by a model match every
    document, whether they are scored or filter. -/
theorem search_exact {e : Engine} (hbuilt : e.Built) {request : SearchRequest}
    (hrequest : request.Accepted) (hrescores : request.rescores = [])
    {response : SearchResponse} (h : (e.search request).2 = .ok response) :
    ∃ (parts : Parts) (candidates : List SearchHit), (e.parts request).Yields parts ∧
      List.Forall₂ (fun x part => part.1 = x.2 ∧ part.2.1 = x.1 ∧
        part.2.2.IsOf e.dictionary request) e.shards.toList.zipIdx parts ∧
      (∀ part ∈ parts, part.2.2.Decides ⟨part.2.1, e.globalOf request parts⟩ e.settings) ∧
      (∀ hit, hit ∈ candidates ↔
        ∃ part ∈ parts, hit.IsOf e.settings (e.globalOf request parts) part) ∧
      (candidates.map (·.place)).Nodup ∧ candidates.Pairwise SearchHit.Outranks ∧
      response.total = candidates.length ∧
      response.hits.map SearchHit.bare = candidates.take request.size := by
  obtain ⟨parts, after, candidates, fetched, hparts, hscored, hfetched, rfl⟩ :=
    response_yields (response_of_search h)
  have hnodup := candidates_nodup hbuilt hrequest hparts hscored
  have hperm := SearchHit.sort_perm candidates
  have hpart : ∀ part ∈ parts, (∃ docs, part.2.1.Holds docs) ∧ part.2.2.Plain ∧
      ∀ slot ∈ part.2.2.filter.toList ++ part.2.2.queries, slot.weights = .empty := by
    intro part hmem
    obtain ⟨k, hk⟩ := List.mem_iff_getElem?.mp hmem
    obtain ⟨-, hshard, hr⟩ := parts_yields hparts hk
    exact ⟨(hbuilt part.2.1 hshard).holds, ShardRequest.ofRequest_plain hrequest hrescores hr,
      ShardRequest.ofRequest_weights hr⟩
  obtain ⟨hdecides, hcandidates⟩ := scoreParts_candidates hpart hscored
  refine ⟨parts, SearchHit.sort candidates, hparts, parts_isOf hparts, hdecides, fun hit => ?_,
    ((hperm.map (·.place)).nodup_iff).mpr hnodup, SearchHit.sort_outranks hnodup,
    hperm.length_eq.symm, response_best hparts hscored hfetched hnodup⟩
  rw [hperm.mem_iff]
  exact hcandidates hit

/-- Three documents of three segments, two of which have the word of the filter, and a
    model that is asked for with a boost and without.  The first of the two is returned. -/
theorem search_exact_two :
    let model : Model :=
      ⟨"m", ⟨"m", [.prebuilt "two" (.constant 2.0)]⟩, .linear "m" [1.0] 0.5, 0⟩
    let shard := (((Shard.empty.add "a" [1] 1).1.add "b" [2] 1).1.add "c" [2, 1] 1).1
    let e : Engine := { dictionary := ⟨#["red", "sea"]⟩, shards := #[shard] }
    let request : SearchRequest := {
      filter := some (.anyTerm "red")
      queries := [(none, .boost (.prebuilt model) 3.0), (some "again", .prebuilt model)]
      size := 1 }
    let hit : SearchHit := { key := "a", shard := 0, doc := 1, score := 8.0 }
    (e.search request).2 = .ok ⟨2, [hit]⟩ ∧
      ∃ (parts : Parts) (candidates : List SearchHit), (e.parts request).Yields parts ∧
        List.Forall₂ (fun x part => part.1 = x.2 ∧ part.2.1 = x.1 ∧
          part.2.2.IsOf e.dictionary request) e.shards.toList.zipIdx parts ∧
        (∀ part ∈ parts, part.2.2.Decides ⟨part.2.1, none⟩ e.settings) ∧
        (∀ found, found ∈ candidates ↔ ∃ part ∈ parts, found.IsOf e.settings none part) ∧
        candidates.Pairwise SearchHit.Outranks ∧ candidates.length = 2 ∧
        candidates.take 1 = [hit] := by
  intro model shard e request hit
  let other : SearchHit := { key := "c", shard := 0, doc := 3, score := 8.0 }
  let q : RankingQuery := ⟨[.constant 2.0], model.features, model.ranker, 0⟩
  let r : ShardRequest := ⟨some { query := .plain (.anyTerm [1]) },
    [{ query := .boost (.ranking q) 3.0 }, { query := .ranking q, name := some "again" }], [], []⟩
  let after : ShardRequest := { r with queries := r.queries.map fun slot => { slot with
    weights := (q.weight ⟨shard, none⟩ .empty).1 } }
  have hwords : Text.words "red" = ["red"] :=
    (Text.words_plain (by decide +kernel)).trans (by decide +kernel)
  have hknown : e.dictionary.known ["red"] = [1] := by decide +kernel
  have hfilter : (QueryRequest.anyTerm "red").slot e.dictionary e.settings
      = pure { query := .plain (.anyTerm [1]) } := by
    rw [QueryRequest.slot, hwords, hknown]
  have hparts : (ExceptT.run (e.parts request)).run e.counters
      = (.ok [(0, shard, r)], e.counters) := by
    have hr : ShardRequest.ofRequest e.dictionary e.settings request = pure r := by
      simp only [ShardRequest.ofRequest, request, Option.mapM_some, hfilter, map_pure, pure_bind]
      rfl
    unfold Engine.parts
    rw [show e.shards.toList.zipIdx = [(shard, 0)] from rfl]
    simp only [List.mapM_cons, List.mapM_nil, hr, pure_bind]
    rfl
  have hscored : (ExceptT.run (e.scored request)).run e.counters
      = (.ok ([(0, shard, r)], [(0, shard, after)], [hit, other]), {}) := by
    unfold scored
    rw [run_bind_of_run hparts]
    subst after r q other hit request e shard model
    set_option maxRecDepth 8000 in with_unfolding_all rfl
  have hsort : SearchHit.sort [hit, other] = [hit, other] :=
    SearchHit.sort_eq_of_perm (.refl _)
      (.cons (fun _ hmem => List.mem_singleton.mp hmem ▸ .inr ⟨rfl, .inr ⟨rfl, by decide⟩⟩)
        (List.pairwise_singleton _ _))
      (by decide)
  have hfetched : (ExceptT.run (e.fetchParts request [(0, shard, r)] [(0, shard, after)]
        [hit, other])).run {}
      = (.ok [[hit]], {}) := by
    unfold fetchParts
    rw [hsort]
    rfl
  have hsearch : (e.search request).2 = .ok ⟨2, SearchHit.sort [hit]⟩ :=
    search_ok hscored hfetched
  rw [SearchHit.sort_singleton] at hsearch
  refine ⟨hsearch, ?_⟩
  have hbuilt : e.Built := Built.single
    (((Shard.Built.empty.add "a" [1] 1).add "b" [2] 1).add "c" [2, 1] 1)
  have haccepted : request.Accepted := by
    refine ⟨?_, fun _ hmem => nomatch hmem⟩
    intro x hmem
    rcases List.mem_cons.mp hmem with rfl | hmem
    · rfl
    · rw [List.mem_singleton.mp hmem]
      rfl
  obtain ⟨parts, candidates, hparts, hasked, hdecides, hcandidates, -, hsorted, htotal, hhits⟩ :=
    search_exact hbuilt haccepted rfl hsearch
  exact ⟨parts, candidates, hparts, hasked, hdecides, hcandidates, hsorted, htotal.symm, hhits.symm⟩

end Engine

end FeatureRank
