import FeatureRank.Proofs.Search.DocumentLogs

/-! # Plans

    Once the queries of a request without rescore stages have their weights, the
    terms of a document alone decide what becomes of it: whether it is a hit and
    with which score (`Plan.score?`), and which logs it gets (`Plan.logs`).  A shard
    that holds documents scores and logs each of them so, whatever other documents
    it holds (`Plan.Made.score_ends`, `Plan.Made.log_ends`). -/

namespace FeatureRank

open Tracked

/-- The weights of the queries of a request, before any document was scored, and its
    logs. -/
structure Plan where
  filter : Option QueryWeight
  slots : List WeightedSlot
  loggers : List Logger

namespace Plan

/-! ## What becomes of a document -/

/-- Whether the filter lets a document through. -/
def lets (p : Plan) (doc : List TermId) : Bool := p.filter.all (·.matchesDoc doc)

/-- The score of a document, if it is a hit. -/
def score? (p : Plan) (doc : List TermId) : Option Float32 :=
  if p.lets doc then WeightedSlot.sumOn 0 p.slots (doc, 0) none else none

/-- The ranking query that a log records, with its weight. -/
def found? (p : Plan) (logger : Logger) : Option (WeightedSlot × RankingQuery) :=
  match logger.target with
  | .query place => (p.slots[place]?).bind fun w => w.slot.query.ranking?.map ((w, ·))
  | .stage _ => none

/-- The logs that record a ranking query. -/
def logged (p : Plan) : List (Logger × WeightedSlot × RankingQuery) :=
  p.loggers.filterMap fun logger => (p.found? logger).map (logger, ·)

/-- Whether logs are written from kept scores. -/
def replays (p : Plan) : Bool := p.logged.all (·.2.1.slot.scores.isSome)

/-- The weights that were made for the logged queries. -/
def weights (p : Plan) : WeightCache :=
  p.logged.foldl (fun merged x => merged.merge x.2.1.slot.weights) .empty

/-- The entries of a log for a document. -/
def entries (p : Plan) (x : Logger × WeightedSlot × RankingQuery) (doc : List TermId) :
    List LogEntry :=
  if p.replays then
    ShardRequest.entriesKept (ShardRequest.recorder x.1 x.2.2) (x.2.1.weight.keptScores doc)
  else
    ShardRequest.entriesAgain x.1 x.2.2
      (p.weights.held false x.2.2.features.size x.2.2.queries) doc
      (x.2.1.slot.scores.map fun _ => x.2.1.weight.keptScores doc)

/-- The logs of a document, in order. -/
def logs (p : Plan) (doc : List TermId) : List (String × List LogEntry) :=
  p.logged.map fun x => (x.1.name, p.entries x doc)

/-- A request whose queries have weights and have scored the documents of a shard. -/
def after (p : Plan) (r : ShardRequest) (docs : List IndexedDocument) : ShardRequest :=
  { r with
    queries := (p.slots.map (WeightedSlot.keepOn p.lets 0 (Shard.numbered docs))).map (·.slot)
    rescores := [] }

/-- The plan that a searcher makes for a request without rescore stages. -/
structure Made (p : Plan) (r : ShardRequest) (searcher : Searcher) (settings : Settings) : Prop where
  rescores : r.rescores = []
  loggers : p.loggers = r.loggers
  filter : ∃ filter, Tracked.Ends
      (r.filter.mapM fun slot => slot.weighted searcher settings .matching) (.ok filter) ∧
    p.filter = filter.map (·.weight)
  slots : Tracked.Ends (r.queries.mapM fun slot => slot.weighted searcher settings .scores)
    (.ok p.slots)

variable {p : Plan} {r : ShardRequest} {searcher : Searcher} {settings : Settings}
  {docs : List IndexedDocument} {s : Shard} {global : Option GlobalStatistics}

/-- A plan has nothing to do with NaN. -/
theorem made_under {part : Nat} :
    p.Made r searcher (settings.under part) ↔ p.Made r searcher settings :=
  ⟨fun h => ⟨h.rescores, h.loggers, h.filter, h.slots⟩,
    fun h => ⟨h.rescores, h.loggers, h.filter, h.slots⟩⟩

/-- The slot that a weight was made for. -/
theorem Made.slot_of_mem (h : p.Made r searcher settings) {w : WeightedSlot} (hw : w ∈ p.slots) :
    ∃ slot ∈ r.queries, (slot.weighted searcher settings .scores).Yields w :=
  forall₂_mem (yields_mapM h.slots.yields).flip hw

theorem Made.fits (h : p.Made r searcher settings) (hr : r.Fits) :
    ∀ w ∈ p.slots, w.weight.Fits w.slot.scores :=
  Slot.weighted_fits hr.queries h.slots.yields

/-! ## Scoring -/

/-- **Scoring a shard by a plan**: the hits are those of its documents. -/
theorem Made.score_ends (hs : s.Holds docs) (hr : r.Fits) (h : p.Made r ⟨s, global⟩ settings) :
    (r.score ⟨s, global⟩ settings).Ends (.ok (p.after r docs,
      (Shard.numbered docs).filterMap (WeightedSlot.hitOn settings p.lets p.slots))) := by
  obtain ⟨filter, hfilter, hlets⟩ := h.filter
  have hscored := hs.scoreSegments settings p.filter (h.fits hr)
  rw [hlets] at hscored
  have hall : (Slot.scoreAll ⟨s, global⟩ settings r.filter r.queries).Ends
      (.ok ((p.after r docs).queries,
        (Shard.numbered docs).filterMap (WeightedSlot.hitOn settings p.lets p.slots))) := by
    unfold Slot.scoreAll
    refine hfilter.bind (h.slots.bind ?_)
    show (Tracked.ofChecked (WeightedSlot.scoreSegments settings (filter.map (·.weight)) s.readers
      p.slots) >>= _).Ends _
    rw [hscored]
    unfold Plan.after Plan.lets
    rw [hlets]
    exact .pure _
  unfold ShardRequest.score
  refine hall.bind ?_
  rw [h.rescores]
  exact .pure _

/-- Slots with no scores kept yet. -/
def Unscored (slots : List WeightedSlot) : Prop :=
  ∀ w ∈ slots, w.slot.scores = none ∨ w.slot.scores = some .empty

theorem get?_unscored {scores : Option ScoreCache} (h : scores = none ∨ scores = some .empty)
    (n : Nat) : scores.bind (·.get? n) = none := by
  rcases h with rfl | rfl
  · rfl
  · exact Std.TreeMap.getElem?_emptyc

/-- The score of a document does not depend on its number. -/
theorem hitOn_unscored (settings : Settings) (h : Unscored p.slots) (doc : List TermId) (n : Nat) :
    WeightedSlot.hitOn settings p.lets p.slots (doc, n)
      = (p.score? doc).map (.ofScore settings n) := by
  have hsum : WeightedSlot.sumOn 0 p.slots (doc, n) none
      = WeightedSlot.sumOn 0 p.slots (doc, 0) none := by
    unfold WeightedSlot.sumOn
    refine List.foldl_ext _ _ _ ?_
    intro sum w hw
    unfold WeightedSlot.addOn
    rw [get?_unscored (h w hw), get?_unscored (h w hw)]
  unfold WeightedSlot.hitOn score?
  by_cases hlets : p.lets doc = true
  · rw [if_pos hlets, if_pos hlets, hsum]
  · rw [if_neg hlets, if_neg hlets]
    rfl

/-! ## Kept scores -/

/-- What is kept for a document that was scored, among others. -/
theorem get?_cacheOn_scored {w : QueryWeight} (hranks : w.Ranks) {lets : List TermId → Bool}
    {cache : Option ScoreCache} (hcache : cache = none ∨ cache = some .empty)
    {items : List (List TermId × Nat)} (hasc : items.Pairwise fun a b => a.2 < b.2)
    {x : List TermId × Nat} (hx : x ∈ items) (hlets : lets x.1 = true) :
    (w.cacheOn lets 0 cache items).bind (·.get? x.2) = cache.map fun _ => w.keptScores x.1 := by
  obtain ⟨earlier, later, rfl⟩ := List.append_of_mem hx
  obtain ⟨-, hxlater, hbefore⟩ := List.pairwise_append.mp hasc
  have hearlier : ∀ y ∈ earlier, 0 + y.2 ≠ x.2 := by
    intro y hy
    have := hbefore y hy x List.mem_cons_self
    omega
  have hlater : ∀ y ∈ later, 0 + y.2 ≠ x.2 := by
    intro y hy
    have := (List.pairwise_cons.mp hxlater).1 y hy
    omega
  have hnone : (w.cacheOn lets 0 cache earlier).bind (·.get? x.2) = none := by
    rw [QueryWeight.get?_cacheOn w earlier cache hearlier, get?_unscored hcache]
  have hon : (lets x.1 && w.matchesDoc x.1) = true := by rw [hlets, hranks.matchesDoc]; rfl
  have hstep : w.cacheOn lets 0 (w.cacheOn lets 0 cache earlier) (x :: later)
      = w.cacheOn lets 0 (w.keptOn x.1 (0 + x.2) (w.cacheOn lets 0 cache earlier)) later := by
    unfold QueryWeight.cacheOn
    rw [List.foldl_cons, if_pos hon]
  rw [QueryWeight.cacheOn_append, hstep, QueryWeight.get?_cacheOn w later _ hlater, Nat.zero_add]
  have hsome := QueryWeight.isSome_cacheOn w lets 0 earlier cache
  cases hheld : w.cacheOn lets 0 cache earlier with
  | none =>
      rw [hheld] at hsome
      rcases hcache with rfl | rfl
      · have hkept : (w.keptOn x.1 x.2 none).isSome = false := w.isSome_keptOn x.1 x.2 none
        rw [Option.isNone_iff_eq_none.mp (Option.isSome_eq_false_iff.mp hkept)]
        rfl
      · exact nomatch hsome
  | some held =>
      rw [hheld] at hsome hnone
      rcases hcache with rfl | rfl
      · exact nomatch hsome
      · exact hranks.get?_keptOn_self x.1 hnone

/-! ## Logged queries -/

/-- A weight that scores by a model: there is a weight for each feature in its cache,
    and a score for each feature is kept of a document. -/
structure RanksBy (w : WeightedSlot) (q : RankingQuery) (emptyShard : Bool) : Prop where
  ranks : w.weight.Ranks
  covers : ShardRequest.Covers w.slot.weights emptyShard q
  length : ∀ doc, (w.weight.keptScores doc).length = q.features.size

/-- The weight of a slot with a query by a model; ranking is not switched off. -/
theorem ranksBy_of_weighted {slot : Slot} (hslot : slot.Fits) {w : WeightedSlot}
    (h : (slot.weighted searcher settings .scores).Yields w) {q : RankingQuery}
    (hq : w.slot.query.ranking? = some q) :
    settings.enabled = true ∧ RanksBy w q searcher.isEmpty := by
  obtain ⟨hweight, hsame⟩ := Slot.weighted_yields h
  have hq : slot.query.ranking? = some q := by rw [hsame] at hq; exact hq
  obtain ⟨hcount, hlength⟩ := ((ShardRequest.fits_ranking? hq slot.scores).mp hslot).1
  obtain ⟨henabled, weight, hmade, hunder⟩ := Query.weight_ranking hq hweight
  obtain ⟨hholds, -⟩ := RankingQuery.weight_eq_ok hmade
  rw [hcount] at hholds
  refine ⟨henabled, ?_, ⟨weight.weights, hholds⟩, ?_⟩
  · rw [hunder]
    cases slot.query.factor? <;> exact trivial
  · intro doc
    have hkept : w.weight.keptScores doc
        = (RankingWeight.collectOn doc 0 weight.emptyVector weight.weights).scores := by
      rw [hunder]
      cases slot.query.factor? <;> rfl
    rw [hkept, RankingWeight.length_collectOn, ← hholds.length_eq, hlength]

theorem mem_logged {x : Logger × WeightedSlot × RankingQuery} (hx : x ∈ p.logged) :
    x.2.1 ∈ p.slots ∧ x.2.1.slot.query.ranking? = some x.2.2 := by
  obtain ⟨logger, -, hlogger⟩ := List.mem_filterMap.mp hx
  obtain ⟨⟨w, q⟩, hfound, rfl⟩ := Option.map_eq_some_iff.mp hlogger
  unfold found? at hfound
  cases htarget : logger.target with
  | stage place =>
      simp only [htarget] at hfound
      exact nomatch hfound
  | query place =>
      simp only [htarget] at hfound
      obtain ⟨w', hw, hmap⟩ := Option.bind_eq_some_iff.mp hfound
      obtain ⟨q', hq, hpair⟩ := Option.map_eq_some_iff.mp hmap
      obtain ⟨rfl, rfl⟩ := Prod.mk.inj hpair
      exact ⟨List.mem_of_getElem? hw, hq⟩

theorem Made.ranksBy (h : p.Made r searcher settings) (hr : r.Fits)
    {x : Logger × WeightedSlot × RankingQuery} (hx : x ∈ p.logged) :
    settings.enabled = true ∧ RanksBy x.2.1 x.2.2 searcher.isEmpty := by
  obtain ⟨hmem, hq⟩ := mem_logged hx
  obtain ⟨slot, hslot, hyields⟩ := h.slot_of_mem hmem
  exact ranksBy_of_weighted (hr.queries slot hslot) hyields hq

/-- The slot of a query after the documents of a shard were scored. -/
def slotAfter (p : Plan) (docs : List IndexedDocument) (w : WeightedSlot) : Slot :=
  (w.keepOn p.lets 0 (Shard.numbered docs)).slot

theorem found?_after (p : Plan) (r : ShardRequest) (docs : List IndexedDocument)
    (logger : Logger) : (p.after r docs).found? logger
      = (p.found? logger).map fun x => (p.slotAfter docs x.1, x.2) := by
  unfold ShardRequest.found? found?
  cases logger.target with
  | stage place => rfl
  | query place =>
      show (((p.slots.map _).map _)[place]?).bind _ = ((p.slots[place]?).bind _).map _
      rw [List.getElem?_map, List.getElem?_map]
      cases p.slots[place]? with
      | none => rfl
      | some w =>
          show ((p.slotAfter docs w).query.ranking?).map _ = (w.slot.query.ranking?.map _).map _
          rw [Option.map_map]
          rfl

theorem logged_after (h : p.loggers = r.loggers) :
    (p.after r docs).logged = p.logged.map fun x => (x.1, p.slotAfter docs x.2.1, x.2.2) := by
  rw [ShardRequest.logged_eq]
  unfold logged
  rw [List.map_filterMap, h]
  refine List.filterMap_congr fun logger _ => ?_
  rw [found?_after]
  cases p.found? logger <;> rfl

/-- The scores that are kept for a document of a shard that was scored. -/
theorem get?_slotAfter {w : WeightedSlot} (hranks : w.weight.Ranks)
    (hw : w.slot.scores = none ∨ w.slot.scores = some .empty) {doc : List TermId} {n : Nat}
    (hdoc : (doc, n) ∈ Shard.numbered docs) (hlets : p.lets doc = true) :
    (p.slotAfter docs w).scores.bind (·.get? n)
      = w.slot.scores.map fun _ => w.weight.keptScores doc :=
  have hasc : (Shard.numbered docs).Pairwise fun a b => a.2 < b.2 := zipIdx_pairwise _ 1
  get?_cacheOn_scored (x := (doc, n)) hranks hw hasc hdoc hlets

/-- After some document was scored, a slot has scores just when it keeps any. -/
theorem hasScores_slotAfter {w : WeightedSlot} (hranks : w.weight.Ranks)
    (hw : w.slot.scores = none ∨ w.slot.scores = some .empty) {doc : List TermId} {n : Nat}
    (hdoc : (doc, n) ∈ Shard.numbered docs) (hlets : p.lets doc = true) :
    ShardRequest.hasScores (p.slotAfter docs w) = w.slot.scores.isSome := by
  have hkept := get?_slotAfter hranks hw hdoc hlets
  have hsome : (p.slotAfter docs w).scores.isSome = w.slot.scores.isSome :=
    QueryWeight.isSome_cacheOn w.weight p.lets 0 (Shard.numbered docs) w.slot.scores
  unfold ShardRequest.hasScores
  cases hscores : (p.slotAfter docs w).scores with
  | none =>
      rw [hscores] at hsome
      exact hsome
  | some cache =>
      rw [hscores] at hkept hsome
      rw [← hsome]
      obtain ⟨scores, hold⟩ := Option.isSome_iff_exists.mp hsome.symm
      rw [hold] at hkept
      have hnot : cache.isEmpty = false :=
        Std.TreeMap.isEmpty_eq_false_of_contains (ScoreCache.contains_of_get? hkept)
      rw [Option.isSome_some]
      show (!cache.isEmpty) = true
      rw [hnot]
      rfl

theorem mem_numbered {doc : List TermId} {n : Nat} :
    (doc, n) ∈ Shard.numbered docs ↔ Shard.termsAt docs n = some doc := by
  unfold Shard.numbered
  rw [List.mem_zipIdx_iff_le_and_getElem?_sub]
  cases n with
  | zero => exact ⟨fun h => absurd h.1 (Nat.not_succ_le_zero 0), fun h => nomatch h⟩
  | succ place =>
      rw [Nat.add_sub_cancel, List.getElem?_map]
      exact and_iff_right (Nat.le_add_left 1 place)

/-! ## Logs of hits -/

/-- Hits of a shard by a plan: different documents that the filter lets through. -/
structure HitsOf (p : Plan) (docs : List IndexedDocument) (numbers : List Nat) : Prop where
  nodup : numbers.Nodup
  lets : ∀ n ∈ numbers, ∃ doc, Shard.termsAt docs n = some doc ∧ p.lets doc = true

/-- After scoring, logs are replayed just when the plan says so. -/
theorem Made.hasScores_all (h : p.Made r searcher settings) (hr : r.Fits)
    (hunscored : Unscored p.slots) {numbers : List Nat} (hhits : p.HitsOf docs numbers)
    (hsome : numbers ≠ []) :
    ((p.after r docs).logged.all fun x => ShardRequest.hasScores x.2.1) = p.replays := by
  obtain ⟨n, hn⟩ := List.exists_mem_of_ne_nil numbers hsome
  obtain ⟨doc, hdoc, hlets⟩ := hhits.lets n hn
  unfold replays
  rw [logged_after h.loggers, List.all_map, Bool.eq_iff_iff, List.all_eq_true, List.all_eq_true]
  refine forall₂_congr fun x hx => ?_
  have hscores := hasScores_slotAfter (h.ranksBy hr hx).2.ranks (hunscored _ (mem_logged hx).1)
    (mem_numbered.mpr hdoc) hlets
  show ShardRequest.hasScores (p.slotAfter docs x.2.1) = true ↔ _
  rw [hscores]

/-- The scores that are kept for the hits of a shard by a logged query. -/
theorem Made.get?_logged (h : p.Made r searcher settings) (hr : r.Fits)
    (hunscored : Unscored p.slots) {numbers : List Nat} (hhits : p.HitsOf docs numbers)
    {x : Logger × WeightedSlot × RankingQuery} (hx : x ∈ p.logged) {n : Nat} (hn : n ∈ numbers) :
    (p.slotAfter docs x.2.1).scores.bind (·.get? n)
      = x.2.1.slot.scores.map fun _ =>
          x.2.1.weight.keptScores ((Shard.termsAt docs n).getD []) := by
  obtain ⟨doc, hdoc, hlets⟩ := hhits.lets n hn
  rw [get?_slotAfter (h.ranksBy hr hx).2.ranks (hunscored _ (mem_logged hx).1)
    (mem_numbered.mpr hdoc) hlets, hdoc]
  rfl

/-- **Replayed logs** write what was kept. -/
theorem Made.replays_ends (h : p.Made r searcher settings) (hr : r.Fits)
    (hunscored : Unscored p.slots) {numbers : List Nat} (hhits : p.HitsOf docs numbers)
    (hreplays : p.replays = true) :
    ∃ recorders, Tracked.Ends ((p.after r docs).logged.mapM fun (logger, slot, q) => do
        return (logger.name, ← Tracked.ofChecked
          (ShardRequest.replayLogs (ShardRequest.recorder logger q) slot.scores numbers)))
        (.ok recorders) ∧
      List.Forall₂ (fun recorder log => recorder.1 = log.1 ∧ recorder.2.Writes numbers log.2)
        recorders (p.logged.map fun x =>
          (x.1.name, fun n => p.entries x ((Shard.termsAt docs n).getD []))) := by
  rw [logged_after h.loggers]
  refine Tracked.Ends.mapM_exists (List.forall₂_map_left_iff.mpr
    (List.forall₂_map_right_iff.mpr (List.forall₂_same.mpr fun x hx => ?_)))
  obtain ⟨cache, hcache⟩ := Option.isSome_iff_exists.mp (List.all_eq_true.mp hreplays x hx)
  have hkept : ∀ n ∈ numbers, (p.slotAfter docs x.2.1).scores.bind (·.get? n)
        = some (x.2.1.weight.keptScores ((Shard.termsAt docs n).getD [])) ∧
      (x.2.1.weight.keptScores ((Shard.termsAt docs n).getD [])).length = x.2.2.features.size := by
    intro n hn
    rw [h.get?_logged hr hunscored hhits hx hn, hcache]
    exact ⟨rfl, (h.ranksBy hr hx).2.length _⟩
  obtain ⟨finished, hfinished, hwrites⟩ := ShardRequest.replayLogs_writes x.1 x.2.2 hkept
  refine ⟨(x.1.name, finished), ?_, rfl, ?_⟩
  · show (Tracked.ofChecked (ShardRequest.replayLogs _ (p.slotAfter docs x.2.1).scores numbers)
      >>= _).Ends _
    rw [hfinished]
    exact .pure _
  · show finished.Writes numbers fun n => p.entries x ((Shard.termsAt docs n).getD [])
    simp only [entries, hreplays, if_true]
    exact hwrites

theorem mem_logged_of_found {logger : Logger} (hlogger : logger ∈ p.loggers) {w : WeightedSlot}
    {q : RankingQuery} (hfound : p.found? logger = some (w, q)) : (logger, w, q) ∈ p.logged :=
  List.mem_filterMap.mpr ⟨logger, hlogger, by rw [hfound]; rfl⟩

/-- What a logger finds after scoring is of a logged query. -/
theorem Made.logged_of_found_after (h : p.Made r searcher settings) {logger : Logger}
    (hlogger : logger ∈ r.loggers) {slot : Slot} {q : RankingQuery}
    (hfound : (p.after r docs).found? logger = some (slot, q)) :
    ∃ w, (logger, w, q) ∈ p.logged ∧ p.slotAfter docs w = slot := by
  rw [found?_after] at hfound
  obtain ⟨⟨w, q'⟩, hplan, hpair⟩ := Option.map_eq_some_iff.mp hfound
  obtain ⟨rfl, rfl⟩ := Prod.mk.inj hpair
  exact ⟨w, mem_logged_of_found (h.loggers ▸ hlogger) hplan, rfl⟩

/-- The weights of the logged queries together are those of the plan. -/
theorem mergedWeights_after (h : p.loggers = r.loggers) :
    (p.after r docs).mergedWeights = p.weights := by
  unfold ShardRequest.mergedWeights weights
  rw [logged_after h, List.foldl_map]
  rfl

/-- They cover every logged query. -/
theorem Made.covers_after (h : p.Made r searcher settings) (hr : r.Fits)
    {x : Logger × WeightedSlot × RankingQuery} (hx : x ∈ p.logged) :
    ShardRequest.Covers (p.after r docs).mergedWeights searcher.isEmpty x.2.2 := by
  have hmem : (x.1, p.slotAfter docs x.2.1, x.2.2) ∈ (p.after r docs).logged := by
    rw [logged_after h.loggers]
    exact List.mem_map.mpr ⟨x, hx, rfl⟩
  exact ShardRequest.mergedWeights_covers hmem (h.ranksBy hr hx).2.covers

/-- A shard with hits is not empty. -/
theorem HitsOf.isEmpty_eq_false {numbers : List Nat} (hhits : p.HitsOf docs numbers)
    (hs : s.Holds docs) (hsome : numbers ≠ []) : Searcher.isEmpty { shard := s } = false := by
  obtain ⟨n, hn⟩ := List.exists_mem_of_ne_nil numbers hsome
  obtain ⟨doc, hdoc, -⟩ := hhits.lets n hn
  have hlength : docs.length ≠ 0 := by
    intro hnone
    rw [List.length_eq_zero_iff.mp hnone] at hdoc
    cases n <;> cases hdoc
  unfold Searcher.isEmpty
  rw [hs.docCount]
  exact beq_eq_false_iff_ne.mpr hlength

/-- Logs that score the hits again find every weight and every kept score. -/
theorem Made.rescores_ends (hs : s.Holds docs) (hr : r.Fits) (h : p.Made r ⟨s, global⟩ settings)
    (hafter : (p.after r docs).Fits) (hunscored : Unscored p.slots) {numbers : List Nat}
    (hhits : p.HitsOf docs numbers) (hsome : numbers ≠ []) (hreplays : p.replays = false) :
    ∃ (recorders : List (String × LogRecorder)) (logs : List (String × (Nat → List LogEntry))),
      (ShardRequest.rescoreLogs { shard := s } settings numbers r.loggers
        (p.after r docs).mergedWeights (p.after r docs)).Ends (.ok recorders) ∧
      List.Forall₂ (fun recorder log => recorder.1 = log.1 ∧ recorder.2.Writes numbers log.2)
        recorders logs ∧
      ∀ n ∈ numbers, logs.map (fun log => (log.1, log.2 n))
        = p.logs ((Shard.termsAt docs n).getD []) := by
  have henabled : settings.enabled = true := by
    obtain ⟨x, hx, -⟩ := List.all_eq_false.mp hreplays
    exact (h.ranksBy hr hx).1
  have hcovers : ∀ logger ∈ r.loggers, ∀ slot q,
      (p.after r docs).found? logger = some (slot, q) →
        ShardRequest.Covers (p.after r docs).mergedWeights (Searcher.isEmpty { shard := s }) q := by
    intro logger hlogger slot q hfound
    obtain ⟨w, hw, -⟩ := h.logged_of_found_after hlogger hfound
    exact h.covers_after hr hw
  have hheld : ∀ logger ∈ r.loggers, ∀ slot q,
      (p.after r docs).found? logger = some (slot, q) → slot.scores.isSome = true →
        ∀ n ∈ numbers, (slot.scores.bind (·.get? n)).isSome = true := by
    intro logger hlogger slot q hfound hkeeps n hn
    obtain ⟨w, hw, rfl⟩ := h.logged_of_found_after hlogger hfound
    rw [h.get?_logged hr hunscored hhits hw hn, Option.isSome_map,
      ← QueryWeight.isSome_cacheOn w.weight p.lets 0 (Shard.numbered docs)]
    exact hkeeps
  obtain ⟨recorders, hends, hwrites⟩ := ShardRequest.rescoreLogs_ends hs henabled hhits.nodup
    (fun n hn => Option.isSome_iff_exists.mpr ((hhits.lets n hn).imp fun _ hdoc => hdoc.1))
    hafter r.loggers hcovers hheld
  refine ⟨recorders, _, hends, hwrites, ?_⟩
  intro n hn
  unfold logs logged
  rw [List.map_filterMap, List.map_filterMap, h.loggers]
  refine List.filterMap_congr fun logger hlogger => ?_
  rw [found?_after]
  cases hplan : p.found? logger with
  | none => rfl
  | some found =>
      obtain ⟨w, q⟩ := found
      have hkept : (p.slotAfter docs w).scores.bind (·.get? n) = _ :=
        h.get?_logged hr hunscored hhits (mem_logged_of_found (h.loggers ▸ hlogger) hplan) hn
      simp only [Option.map_some, entries, hreplays]
      rw [hkept, mergedWeights_after h.loggers, hhits.isEmpty_eq_false hs hsome]
      rfl

/-- The recorders of the logs of a shard that was scored write the logs of the plan. -/
theorem Made.recorders_ends (hs : s.Holds docs) (hr : r.Fits) (h : p.Made r ⟨s, global⟩ settings)
    (hunscored : Unscored p.slots) {numbers : List Nat} (hhits : p.HitsOf docs numbers)
    (hsome : numbers ≠ []) :
    ∃ (recorders : List (String × LogRecorder)) (logs : List (String × (Nat → List LogEntry))),
      ((p.after r docs).recorders { shard := s } settings numbers).Ends (.ok recorders) ∧
      List.Forall₂ (fun recorder log => recorder.1 = log.1 ∧ recorder.2.Writes numbers log.2)
        recorders logs ∧
      ∀ n ∈ numbers, logs.map (fun log => (log.1, log.2 n))
        = p.logs ((Shard.termsAt docs n).getD []) := by
  have hall : ((p.after r docs).logged.all fun (_, slot, _) => ShardRequest.hasScores slot)
      = p.replays := h.hasScores_all hr hunscored hhits hsome
  unfold ShardRequest.recorders
  rw [hall]
  cases hreplays : p.replays with
  | true =>
      obtain ⟨recorders, hends, hwrites⟩ := h.replays_ends hr hunscored hhits hreplays
      refine ⟨recorders, _, hends, hwrites, fun n _ => ?_⟩
      rw [List.map_map]
      rfl
  | false =>
      have hafter := (ShardRequest.score_fits hs hr (h.score_ends hs hr).yields).1
      exact h.rescores_ends hs hr hafter hunscored hhits hsome hreplays

/-- **Logging a shard by a plan**: every hit gets the logs of its document. -/
theorem Made.log_ends (hs : s.Holds docs) (hr : r.Fits) (h : p.Made r ⟨s, global⟩ settings)
    (hunscored : Unscored p.slots) {hits : List SearchHit}
    (hhits : p.HitsOf docs (hits.map (·.doc))) :
    ((p.after r docs).log { shard := s } settings hits).Ends (.ok (hits.map fun hit =>
      hit.withLogs (p.logs ((Shard.termsAt docs hit.doc).getD [])))) := by
  have hloggers : (p.after r docs).loggers = p.loggers := h.loggers.symm
  unfold ShardRequest.log
  rw [hloggers]
  cases hnone : p.loggers.isEmpty || hits.isEmpty with
  | true =>
      have hsame : (hits.map fun hit =>
          hit.withLogs (p.logs ((Shard.termsAt docs hit.doc).getD []))) = hits := by
        rcases Bool.or_eq_true_iff.mp hnone with hno | hno
        · have hlogs : ∀ doc, p.logs doc = [] := by
            intro doc
            unfold logs logged
            rw [List.isEmpty_iff.mp hno]
            rfl
          simp only [hlogs]
          exact List.map_id' hits
        · rw [List.isEmpty_iff.mp hno]
          rfl
      rw [hsame]
      exact .pure hits
  | false =>
      have hsome : hits.map (·.doc) ≠ [] := by
        intro hnil
        rw [List.map_eq_nil_iff.mp hnil] at hnone
        exact absurd (Bool.or_eq_false_iff.mp hnone).2 (by decide)
      obtain ⟨recorders, logs, hends, hwrites, hlogs⟩ :=
        h.recorders_ends hs hr hunscored hhits hsome
      refine hends.bind ?_
      rw [ShardRequest.attachAll_writes hwrites]
      have hsame : (hits.map fun hit => hit.withLogs (logs.map fun log => (log.1, log.2 hit.doc)))
          = hits.map fun hit => hit.withLogs (p.logs ((Shard.termsAt docs hit.doc).getD [])) :=
        List.map_congr_left fun hit hhit => by
          rw [hlogs hit.doc (List.mem_map.mpr ⟨hit, hhit, rfl⟩)]
      rw [hsame]
      exact .pure _

end Plan

end FeatureRank
