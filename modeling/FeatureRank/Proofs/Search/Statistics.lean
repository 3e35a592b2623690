import FeatureRank.Proofs.Search.Slot
import FeatureRank.Search.Logging

/-! # Logs and statistics — the fetch phase sees none

    Hits are logged by a searcher that may see other statistics than the one that
    ranked them.  A slot whose ranking query had its weights made on the shard
    (`Slot.Prepared`) has a weight for every query that logging asks for, so no
    weight is made again and the statistics of the second searcher are never read:
    logging is the same computation for any two searchers of the shard
    (`ShardRequest.log_statistics_free`). -/

namespace FeatureRank

/-- A model that its ranker fits. -/
def Model.Accepted (model : Model) : Prop :=
  make model.name model.features model.ranker model.compilation = .ok model

/-- A ranking query made from an accepted model. -/
def RankingQuery.Accepted (q : RankingQuery) : Prop :=
  ∃ model context params, Model.Accepted model ∧ ofModel model context params = .ok q

/-- An accepted query has as many features as its ranker. -/
theorem RankingQuery.Accepted.size {q : RankingQuery} (h : q.Accepted) :
    q.ranker.featureCount = q.features.size ∧ q.queries.length = q.features.size := by
  obtain ⟨model, context, params, hmodel, hq⟩ := h
  obtain ⟨hranker, hfeatures, hcount, hlength⟩ := ofModel_size hmodel hq
  rw [hranker, hfeatures]
  exact ⟨hcount, hlength⟩

/-- A slot that keeps the weights which some searcher of a shard made for its
    ranking query, and may have got more since. -/
def Slot.Prepared (shard : Shard) (slot : Slot) (q : RankingQuery) : Prop :=
  ∃ searcher cache made w, searcher.shard = shard ∧ q.weight searcher cache = (made, .ok w) ∧
    slot.weights.Extends made

/-- A prepared slot has a weight for each feature. -/
theorem Slot.Prepared.holds {shard : Shard} {slot : Slot} {q : RankingQuery}
    (h : slot.Prepared shard q) (hq : q.Accepted) {fetch : Searcher} (hfetch : fetch.shard = shard) :
    ∃ ws, List.Forall₂ (slot.weights.Holds fetch.isEmpty q.features.size) q.queries ws := by
  obtain ⟨searcher, cache, made, w, hshard, hweight, hextends⟩ := h
  obtain ⟨hholds, -⟩ := RankingQuery.weight_eq_ok hweight
  have hempty : searcher.isEmpty = fetch.isEmpty :=
    Searcher.isEmpty_eq (hshard.trans hfetch.symm)
  rw [hempty, hq.size.1] at hholds
  exact ⟨w.weights, hholds.imp fun _ _ h => h.extends hextends⟩

namespace ShardRequest

/-- The ranking query that a log records. -/
def queryOf? (r : ShardRequest) (target : LogTarget) : Option RankingQuery :=
  (r.slotOf? target).bind (·.query.ranking?)

/-- Keeping other scores leaves every query as it is. -/
@[simp] theorem queryOf?_keepScores (r : ShardRequest) (scores : Option ScoreCache)
    (target other : LogTarget) : (r.keepScores scores target).queryOf? other = r.queryOf? other := by
  unfold queryOf?
  cases target with
  | query place =>
      cases other with
      | stage place' => rfl
      | query place' =>
          simp only [keepScores, slotOf?, List.getElem?_modify]
          cases r.queries[place']? with
          | none => rfl
          | some slot => simp only [Option.bind_some]; split <;> rfl
  | stage place =>
      cases other with
      | query place' => rfl
      | stage place' =>
          simp only [keepScores, slotOf?, List.getElem?_modify]
          cases r.rescores[place']? with
          | none => rfl
          | some stage =>
              simp only [Option.bind_some]
              cases stage <;> split <;> rfl

/-- The weights of all logged queries together. -/
def mergedWeights (r : ShardRequest) : WeightCache :=
  r.logged.foldl (fun merged (_, slot, _) => merged.merge slot.weights) .empty

/-! ## Weights are there -/

/-- A query that a log needs, with a weight in a cache for each of its features. -/
def Covers (weights : WeightCache) (emptyShard : Bool) (q : RankingQuery) : Prop :=
  ∃ ws, List.Forall₂ (weights.Holds emptyShard q.features.size) q.queries ws

/-- Merging in a cache covers what that cache covers. -/
theorem Covers.merge {weights other : WeightCache} {emptyShard : Bool} {q : RankingQuery}
    (h : Covers other emptyShard q) : Covers (weights.merge other) emptyShard q := by
  obtain ⟨ws, h⟩ := h
  unfold Covers
  generalize q.queries = queries at h ⊢
  induction h with
  | nil => exact ⟨[], List.Forall₂.nil⟩
  | cons hfirst _ ih =>
      obtain ⟨tied, htied, hget⟩ := hfirst
      obtain ⟨others, hothers⟩ := ih
      obtain ⟨w, hw⟩ := Option.isSome_iff_exists.mp
        (WeightCache.get?_merge_right weights (Option.isSome_iff_exists.mpr ⟨_, hget⟩))
      exact ⟨w :: others, List.Forall₂.cons ⟨tied, htied, hw⟩ hothers⟩

theorem Covers.extends {weights more : WeightCache} {emptyShard : Bool} {q : RankingQuery}
    (h : Covers weights emptyShard q) (hmore : more.Extends weights) :
    Covers more emptyShard q := by
  obtain ⟨ws, h⟩ := h
  exact ⟨ws, h.imp fun _ _ hw => hw.extends hmore⟩

/-- **The merge of several caches covers every query that one of them covers.** -/
theorem mergedWeights_covers {r : ShardRequest} {emptyShard : Bool} {logger : Logger} {slot : Slot}
    {q : RankingQuery} (hmem : (logger, slot, q) ∈ r.logged)
    (h : Covers slot.weights emptyShard q) : Covers r.mergedWeights emptyShard q := by
  have hfold : ∀ (items : List (Logger × Slot × RankingQuery)) (weights : WeightCache),
      (Covers weights emptyShard q ∨ (logger, slot, q) ∈ items) →
      Covers (items.foldl (fun merged (_, slot, _) => merged.merge slot.weights) weights)
        emptyShard q := by
    intro items
    induction items with
    | nil =>
        intro weights hor
        exact hor.resolve_right fun h => nomatch h
    | cons item rest ih =>
        intro weights hor
        refine ih (weights.merge item.2.1.weights) ?_
        rcases hor with hcovers | hin
        · exact Or.inl (hcovers.extends (WeightCache.merge_extends _ _))
        · rcases List.mem_cons.mp hin with heq | hin
          · rw [← heq]
            exact Or.inl h.merge
          · exact Or.inr hin
  exact hfold r.logged .empty (Or.inr hmem)

/-! ## Logging -/

/-- Getting the weights of a query that a log needs: nothing is made, whatever the
    statistics. -/
theorem weighted_of_holds {searcher : Searcher} (settings : Settings) {q : RankingQuery}
    {weights : WeightCache} {ws : List Weight} (scores : Option ScoreCache)
    (h : List.Forall₂ (weights.Holds searcher.isEmpty q.features.size) q.queries ws) :
    ({ query := .ranking (q.canonical searcher).logged, scores, weights } : Slot).weighted
        searcher settings .scores
      = if settings.enabled then
          pure ⟨{ query := .ranking (q.canonical searcher).logged, scores, weights },
            .ranking ⟨ws, RankingQuery.logRanker q.features, q.features⟩⟩
        else throw (.refused .disabled) := by
  have hholds : List.Forall₂ (weights.Holds searcher.isEmpty q.features.size)
      (q.canonical searcher).logged.queries ws :=
    List.forall₂_map_left_iff.mpr (h.imp fun _ _ hw => hw.canonical)
  have hmade : (q.canonical searcher).logged.weight searcher weights
      = (weights, .ok ⟨ws, RankingQuery.logRanker q.features, q.features⟩) :=
    RankingQuery.weight_of_holds hholds
  unfold Slot.weighted Query.weight
  cases settings.enabled with
  | false => rfl
  | true =>
      simp only [if_true, hmade]
      rfl

/-- Rescoring for logs is the same for any two searchers of a shard. -/
theorem rescoreLogs_statistics_free {first second : Searcher} (hshard : first.shard = second.shard)
    (settings : Settings) (docs : List Nat) {weights : WeightCache} (loggers : List Logger) :
    ∀ r : ShardRequest,
      (∀ logger ∈ loggers, ∀ q, r.queryOf? logger.target = some q →
        Covers weights first.isEmpty q) →
      rescoreLogs first settings docs loggers weights r
        = rescoreLogs second settings docs loggers weights r := by
  have hempty : first.isEmpty = second.isEmpty := Searcher.isEmpty_eq hshard
  induction loggers with
  | nil => intro r _; rfl
  | cons logger rest ih =>
      intro r hcovers
      have hrest : ∀ logger' ∈ rest, ∀ q, r.queryOf? logger'.target = some q →
          Covers weights first.isEmpty q :=
        fun logger' hmem => hcovers logger' (List.mem_cons_of_mem _ hmem)
      unfold rescoreLogs
      cases hslot : (r.slotOf? logger.target).bind
          fun slot => slot.query.ranking?.map ((slot, ·)) with
      | none => exact ih r hrest
      | some found =>
          obtain ⟨slot, q⟩ := found
          have hq : r.queryOf? logger.target = some q := by
            obtain ⟨slot', hfound, hquery⟩ := Option.bind_eq_some_iff.mp hslot
            obtain ⟨q', hq', hpair⟩ := Option.map_eq_some_iff.mp hquery
            unfold queryOf?
            rw [hfound, Option.bind_some, hq']
            exact congrArg (some ·.2) hpair
          obtain ⟨ws, hholds⟩ := hcovers logger List.mem_cons_self q hq
          have hsame : q.canonical first = q.canonical second := by
            unfold RankingQuery.canonical
            rw [hempty]
          have hfirst := weighted_of_holds settings (some (slot.scores.getD .empty)) hholds
          have hsecond := weighted_of_holds settings (some (slot.scores.getD .empty))
            (hempty ▸ hholds)
          rw [hsame] at hfirst
          simp only [hsame, hfirst, hsecond]
          cases settings.enabled with
          | false => simp only [Bool.false_eq_true, if_false, Tracked.throw_bind]
          | true =>
              simp only [if_true, pure_bind, hshard]
              -- only the recursive calls are left, with the scores that were kept
              refine bind_congr fun visits => bind_congr fun recorder => ?_
              split
              · rw [ih _ fun logger' hmem q' hq' => hrest logger' hmem q' (by
                  rw [queryOf?_keepScores] at hq'
                  exact hq')]
              · rw [ih _ hrest]

/-- **Logging never depends on the statistics of the fetch phase.**  When the
    weights of every logged query were made on the shard, whatever searcher made
    them, any two searchers of the shard log the same hits alike; and each query
    that logging asks for is in the merged cache, whatever would make it. -/
theorem log_statistics_free {shard : Shard} {r : ShardRequest}
    (hprepared : ∀ logger slot q, (logger, slot, q) ∈ r.logged →
      q.Accepted ∧ slot.Prepared shard q)
    {first second : Searcher} (hfirst : first.shard = shard) (hsecond : second.shard = shard)
    (settings : Settings) (hits : List SearchHit) :
    r.log first settings hits = r.log second settings hits ∧
      ∀ logger slot q, (logger, slot, q) ∈ r.logged → ∀ query ∈ (q.canonical first).queries,
        ∃ tied weight, query.bind q.logged.ranker.featureCount = .ok tied ∧
          ∀ create, r.mergedWeights.getOrCreate (tied.canonical first.isEmpty) create
            = (r.mergedWeights, .ok weight) := by
  have hcovers : ∀ logger slot q, (logger, slot, q) ∈ r.logged →
      Covers r.mergedWeights first.isEmpty q := by
    intro logger slot q hmem
    obtain ⟨haccepted, hslot⟩ := hprepared logger slot q hmem
    exact mergedWeights_covers hmem (hslot.holds haccepted hfirst)
  refine ⟨?_, ?_⟩
  · have hrecorders : ∀ docs, r.recorders first settings docs = r.recorders second settings docs := by
      intro docs
      unfold recorders
      split
      · rfl
      · refine rescoreLogs_statistics_free (hfirst.trans hsecond.symm) settings docs r.loggers r ?_
        intro logger hmem q hq
        obtain ⟨slot, hslot, hquery⟩ := Option.bind_eq_some_iff.mp hq
        refine hcovers logger slot q (List.mem_filterMap.mpr ⟨logger, hmem, ?_⟩)
        simp only [hslot, Option.bind_eq_bind, Option.bind_some, hquery]
        rfl
    unfold log
    simp only [hrecorders]
  · intro logger slot q hmem query hquery
    obtain ⟨ws, hholds⟩ := hcovers logger slot q hmem
    obtain ⟨original, horiginal, hcanonical⟩ := List.mem_map.mp hquery
    obtain ⟨i, hi⟩ := List.mem_iff_getElem?.mp horiginal
    obtain ⟨weight, -, hw⟩ := forall₂_getElem? hholds hi
    obtain ⟨tied, htied, hget⟩ := hw.canonical
    rw [hcanonical] at htied
    exact ⟨tied, weight, htied, WeightCache.getOrCreate_of_get? hget⟩

end ShardRequest

/-- The statistics that ranked the hits and those of the fetch phase differ. -/
theorem ShardRequest.log_statistics_free_global :
    let shard := (Shard.empty.add "a" [1] 1).1
    let global : GlobalStatistics := ⟨⟨9, 99⟩, [(1, ⟨3, 5⟩)]⟩
    let q : RankingQuery :=
      ⟨[.anyTerm [1]], ⟨"one", [.prebuilt "text" (.anyTerm [1])]⟩, .linear "one" [1.0] 0.5, 0⟩
    let slot : Slot :=
      { query := .ranking q, weights := (q.weight ⟨shard, some global⟩ .empty).1 }
    let r : ShardRequest := ⟨none, [slot], [], [⟨"log", false, .query 0⟩]⟩
    let hits : List SearchHit := [{ key := "a", shard := 0, doc := 1, score := 0.0 }]
    r.log ⟨shard, none⟩ {} hits = r.log ⟨shard, some global⟩ {} hits := by
  intro shard global q slot r hits
  refine (ShardRequest.log_statistics_free ?_ (show Searcher.shard ⟨shard, none⟩ = shard from rfl)
    rfl {} hits).1
  intro logger slot' q' hmem
  have hmem : (logger, slot', q') ∈ [((⟨"log", false, .query 0⟩ : Logger), slot, q)] := hmem
  obtain ⟨-, hrest⟩ := Prod.mk.inj (List.mem_singleton.mp hmem)
  obtain ⟨hslot, hq⟩ := Prod.mk.inj hrest
  rw [hslot, hq]
  refine ⟨⟨⟨"one", q.features, q.ranker, 0⟩, .empty, [], rfl, rfl⟩, ?_⟩
  exact ⟨⟨shard, some global⟩, .empty, _, _, rfl, rfl, WeightCache.Extends.refl _⟩

end FeatureRank
