import FeatureRank.Proofs.Search.Planning

/-! # Which documents a query keeps scores of

    A query that keeps scores keeps those of every document that it scores: a scored
    query of all hits of the shard, and the query of a rescore stage of the documents
    in the window of the stage (`ShardRequest.InWindow`).  So whether the scores of a
    hit are there once the shard is scored depends only on whether the query keeps any
    and on how far the stages before it moved the hit (`ShardRequest.score_keeps`). -/

namespace FeatureRank

open Tracked

/-! ## One result -/

namespace Tracked

variable {α : Type}

/-- A computation whose result does not depend on what was counted yields one value. -/
theorem Settled.unique {m : Tracked α} (h : m.Settled) {a b : α} (ha : m.Yields a)
    (hb : m.Yields b) : a = b := by
  obtain ⟨result, hends⟩ := h
  exact Except.ok.inj ((hends.eq_of_yields ha).symm.trans (hends.eq_of_yields hb))

theorem Settled.ofChecked (x : Checked α) : (ofChecked x).Settled := ⟨_, .ofChecked x⟩

end Tracked

theorem Slot.weighted_settled (slot : Slot) (searcher : Searcher) (settings : Settings)
    (mode : ScoreMode) : (slot.weighted searcher settings mode).Settled := by
  unfold weighted
  generalize slot.query.weight searcher settings.enabled mode slot.weights = weight
  have hcount : (modify (·.noteWeight weight.2) : Tracked Unit).Ends (.ok ()) := fun _ => rfl
  exact Settled.bind ⟨_, hcount⟩ fun _ _ => Settled.bind ⟨_, .ofExcept _⟩ fun _ _ => ⟨_, .pure _⟩

theorem Slot.scoreAll_settled (searcher : Searcher) (settings : Settings) (filter : Option Slot)
    (slots : List Slot) : (scoreAll searcher settings filter slots).Settled := by
  unfold scoreAll
  refine (Settled.mapM_option _ (·.weighted_settled searcher settings .matching)).bind
    fun _ _ => ?_
  refine (Settled.mapM _ (·.weighted_settled searcher settings .scores)).bind fun _ _ => ?_
  exact (Settled.ofChecked _).bind fun _ _ => ⟨_, .pure _⟩

namespace Rescore

theorem apply_settled (searcher : Searcher) (settings : Settings) (hits : List ShardHit)
    (stage : Rescore Slot) : (apply searcher settings hits stage).Settled := by
  cases stage with
  | scale factor window => exact ⟨_, .pure _⟩
  | query slot queryWeight rescoreWeight window =>
      refine (slot.weighted_settled searcher settings .scores).bind fun _ _ => ?_
      exact (Settled.ofChecked _).bind fun _ _ => ⟨_, .pure _⟩

/-- **Stages lead to the same hits whenever they are applied.** -/
theorem Leads.unique {searcher : Searcher} {settings : Settings} {stages : List (Rescore Slot)}
    {hits a b : List ShardHit} (ha : Leads searcher settings stages hits a)
    (hb : Leads searcher settings stages hits b) : a = b := by
  induction ha with
  | none hits =>
      cases hb
      rfl
  | cons h _ ih =>
      cases hb with
      | cons h' hrest' =>
          obtain ⟨-, rfl⟩ := Prod.mk.inj ((apply_settled searcher _ _ _).unique h h')
          exact ih hrest'

/-- Stages keep their queries. -/
theorem applyAll_queries {searcher : Searcher} {stages : List (Rescore Slot)} :
    ∀ {settings : Settings} {hits hits' : List ShardHit} {stages' : List (Rescore Slot)},
      (applyAll searcher settings stages hits).Yields (stages', hits') →
      stages'.map (fun stage => stage.query?.map (·.query))
        = stages.map fun stage => stage.query?.map (·.query) := by
  induction stages with
  | nil =>
      intro settings hits hits' stages' h
      rw [← (Prod.mk.inj (yields_pure h)).1]
  | cons first rest ih =>
      intro settings hits hits' stages' h
      obtain ⟨⟨first', between⟩, hfirst, h⟩ := yields_bind h
      obtain ⟨⟨rest', last⟩, hrest, h⟩ := yields_bind h
      rw [← (Prod.mk.inj (yields_pure h)).1, List.map_cons, List.map_cons, ih hrest]
      refine congrArg (· :: _) ?_
      cases (apply_yields hfirst).1 with
      | scale factor window => rfl
      | query hvisits _ _ =>
          obtain ⟨_, _, _, -, -, rfl⟩ := hvisits
          rfl

end Rescore

/-! ## What a cache holds after visits -/

/-- Whether scores of a document are in a cache. -/
def ScoreCache.Has (cache : Option ScoreCache) (doc : Nat) : Prop :=
  (cache.bind (·.get? doc)).isSome = true

namespace QueryWeight

variable {w : QueryWeight} {docAt : Nat → Option (List TermId)}

/-- Scoring a document by a model adds its scores to a cache, and no others. -/
theorem Ranks.has_keptOn (h : w.Ranks) (doc : List TermId) {key n : Nat}
    {cache : Option ScoreCache} :
    ScoreCache.Has (w.keptOn doc key cache) n ↔
      ScoreCache.Has cache n ∨ cache.isSome = true ∧ n = key := by
  unfold ScoreCache.Has
  by_cases hne : n = key
  · obtain rfl := hne
    induction w with
    | plain weight => exact h.elim
    | boost inner factor ih => exact ih h
    | ranking weight =>
        by_cases hheld : (cache.bind (·.get? n)).isSome = true
        · have hsame : (QueryWeight.ranking weight).keptOn doc n cache = cache :=
            weight.keptOn_of_held doc hheld
          rw [hsame]
          exact iff_of_true hheld (.inl hheld)
        · cases cache with
          | none =>
              have hnone : ((QueryWeight.ranking weight).keptOn doc n none).isSome = false :=
                QueryWeight.isSome_keptOn _ doc n none
              rw [Option.isNone_iff_eq_none.mp (Option.isSome_eq_false_iff.mp hnone)]
              exact iff_of_false (fun h => nomatch h) fun h => h.elim (nomatch ·) (nomatch ·.1)
          | some held =>
              have hnone : held.get? n = none :=
                Option.isNone_iff_eq_none.mp
                  (Option.isSome_eq_false_iff.mp (Bool.eq_false_iff.mpr hheld))
              have hkept : ((QueryWeight.ranking weight).keptOn doc n (some held)).bind (·.get? n)
                  = _ := weight.get?_keptOn_self doc hnone
              rw [hkept]
              exact iff_of_true rfl (.inr ⟨rfl, rfl⟩)
  · rw [w.get?_keptOn doc hne cache]
    exact (or_iff_left fun h => hne h.2).symm

theorem isSome_visitCacheOn (w : QueryWeight) (docAt : Nat → Option (List TermId))
    (places : List (Nat × Nat)) : ∀ cache : Option ScoreCache,
      (w.visitCacheOn docAt cache places).isSome = cache.isSome := by
  induction places with
  | nil => exact fun _ => rfl
  | cons first rest ih =>
      intro cache
      refine (ih _).trans ?_
      show (((docAt first.1).filter _).elim cache (w.keptOn · first.1 cache)).isSome = cache.isSome
      cases (docAt first.1).filter (w.matchesDoc ·) with
      | none => rfl
      | some doc => exact w.isSome_keptOn doc first.1 cache

/-- **After visits by a model** a cache has just what it had, and the scores of the
    visited documents. -/
theorem Ranks.has_visitCacheOn (h : w.Ranks) {n : Nat} (places : List (Nat × Nat)) :
    ∀ {cache : Option ScoreCache},
      ScoreCache.Has (w.visitCacheOn docAt cache places) n ↔ ScoreCache.Has cache n ∨
        cache.isSome = true ∧ (docAt n).isSome = true ∧ n ∈ places.map (·.1) := by
  induction places with
  | nil =>
      intro cache
      exact (or_iff_left fun h => nomatch h.2.2).symm
  | cons first rest ih =>
      intro cache
      have hmatches : (docAt first.1).filter (w.matchesDoc ·) = docAt first.1 := by
        cases docAt first.1 with
        | none => rfl
        | some doc => exact Option.filter_some_pos (h.matchesDoc doc)
      have hstep : w.visitCacheOn docAt cache (first :: rest)
          = w.visitCacheOn docAt ((docAt first.1).elim cache (w.keptOn · first.1 cache)) rest := by
        unfold visitCacheOn
        rw [List.foldl_cons, hmatches]
      rw [hstep, ih, List.map_cons, List.mem_cons]
      cases hdoc : docAt first.1 with
      | none =>
          have hne : (docAt n).isSome = true → n ≠ first.1 := by
            rintro hsome rfl
            rw [hdoc] at hsome
            cases hsome
          exact or_congr_right (and_congr_right fun _ => and_congr_right fun hsome =>
            (or_iff_right (hne hsome)).symm)
      | some doc =>
          rw [Option.elim_some, h.has_keptOn doc, w.isSome_keptOn, or_assoc, ← and_or_left]
          refine or_congr_right (and_congr_right fun _ => ?_)
          constructor
          · rintro (rfl | ⟨hsome, hrest⟩)
            · exact ⟨by rw [hdoc]; rfl, .inl rfl⟩
            · exact ⟨hsome, .inr hrest⟩
          · rintro ⟨hsome, rfl | hrest⟩
            · exact .inl rfl
            · exact .inr ⟨hsome, hrest⟩

end QueryWeight

theorem RankingWeight.mem_map_placesOf {docs : List Nat} {doc : Nat} :
    doc ∈ (placesOf docs).map (·.1) ↔ doc ∈ docs := by
  rw [List.mem_map, List.mem_iff_getElem?]
  constructor
  · rintro ⟨x, hx, rfl⟩
    exact ⟨x.2, mem_placesOf.mp hx⟩
  · rintro ⟨index, hindex⟩
    exact ⟨(doc, index), mem_placesOf.mpr hindex, rfl⟩

/-! ## Scored requests -/

section

variable {docs : List IndexedDocument} {s : Shard} {global : Option GlobalStatistics}
  {settings : Settings}

/-- The weight of a query that a log may record. -/
theorem Query.ranks_of_ranking {query : Query} {q : RankingQuery}
    (hq : query.ranking? = some q) {searcher : Searcher} {enabled : Bool}
    {cache made : WeightCache} {w : QueryWeight}
    (h : query.weight searcher enabled .scores cache = (made, .ok w)) : w.Ranks := by
  obtain ⟨-, weight, -, rfl⟩ := Query.weight_ranking hq h
  cases query.factor? <;> exact trivial

/-- **The scored queries keep the scores of all hits**, if they keep any. -/
theorem Slot.scoreAll_keeps (hs : s.Holds docs) {filter : Option Slot} {slots slots' : List Slot}
    {hits : List ShardHit} (hfits : ∀ slot ∈ slots, slot.Fits)
    (hunscored : ∀ slot ∈ slots, slot.scores = none ∨ slot.scores = some .empty)
    (h : (scoreAll ⟨s, global⟩ settings filter slots).Yields (slots', hits)) :
    (∀ doc ∈ hits.map (·.doc), (Shard.termsAt docs doc).isSome = true) ∧
      ∀ after ∈ slots', ∀ q, after.query.ranking? = some q → ∀ doc ∈ hits.map (·.doc),
        (ScoreCache.Has after.scores doc ↔ after.scores.isSome = true) := by
  unfold scoreAll at h
  obtain ⟨filter', -, h⟩ := yields_bind h
  obtain ⟨weighted, hweighted, h⟩ := yields_bind h
  obtain ⟨⟨scored, hits'⟩, hscored, h⟩ := yields_bind h
  obtain ⟨rfl, rfl⟩ := Prod.mk.inj (yields_pure h)
  let lets : List TermId → Bool := fun doc => (filter'.map (·.weight)).all (·.matchesDoc doc)
  have hresult := yields_ofChecked hscored
  rw [hs.scoreSegments settings _ (Slot.weighted_fits hfits hweighted)] at hresult
  obtain ⟨rfl, rfl⟩ := Prod.mk.inj (Except.ok.inj hresult)
  -- a hit is a document of the shard that the filter lets through
  have hhits : ∀ doc ∈ ((Shard.numbered docs).filterMap
      (WeightedSlot.hitOn settings lets weighted)).map (·.doc),
      ∃ terms, (terms, doc) ∈ Shard.numbered docs ∧ lets terms = true := by
    intro doc hdoc
    obtain ⟨hit, hmem, rfl⟩ := List.mem_map.mp hdoc
    obtain ⟨x, hx, hhit⟩ := List.mem_filterMap.mp hmem
    obtain ⟨hlets, hsum⟩ := Option.ite_none_right_eq_some.mp hhit
    obtain ⟨score, -, rfl⟩ := Option.map_eq_some_iff.mp hsum
    exact ⟨x.1, hx, hlets⟩
  refine ⟨fun doc hdoc => ?_, ?_⟩
  · obtain ⟨terms, hmem, -⟩ := hhits doc hdoc
    rw [Plan.mem_numbered.mp hmem]
    rfl
  · intro after hafter q hq doc hdoc
    obtain ⟨kept, hkept, rfl⟩ := List.mem_map.mp hafter
    obtain ⟨w, hw, rfl⟩ := List.mem_map.mp hkept
    obtain ⟨slot, hslot, hyields⟩ := forall₂_mem (yields_mapM hweighted).flip hw
    obtain ⟨hmade, hsame⟩ := Slot.weighted_yields hyields
    have hquery : w.slot.query = slot.query := by rw [hsame]
    have hscores : w.slot.scores = slot.scores := by rw [hsame]
    have hq : slot.query.ranking? = some q := hquery ▸ hq
    obtain ⟨terms, hmem, hlets⟩ := hhits doc hdoc
    have hget : ((w.keepOn lets 0 (Shard.numbered docs)).slot.scores).bind (·.get? doc)
        = w.slot.scores.map fun _ => w.weight.keptScores terms :=
      Plan.get?_cacheOn_scored (x := (terms, doc)) (Query.ranks_of_ranking hq hmade)
        (hscores ▸ hunscored slot hslot) (zipIdx_pairwise _ 1) hmem hlets
    have hsome : (w.keepOn lets 0 (Shard.numbered docs)).slot.scores.isSome
        = w.slot.scores.isSome := QueryWeight.isSome_cacheOn _ _ _ _ _
    unfold ScoreCache.Has
    rw [hget, hsome, Option.isSome_map]

end

namespace ShardRequest

/-- A document is in the window of a stage: it is one of the best hits that the scored
    queries and the stages before this one lead to. -/
def InWindow (r : ShardRequest) (searcher : Searcher) (settings : Settings) (place doc : Nat) :
    Prop :=
  ∃ stage queries first hits, r.rescores[place]? = some stage ∧
    (Slot.scoreAll searcher settings r.filter r.queries).Yields (queries, first) ∧
    Rescore.Leads searcher settings (r.rescores.take place) first hits ∧
    doc ∈ Rescore.bestDocs hits stage.window

/-- The window does not depend on which run it is read off. -/
theorem InWindow.iff_mem {r : ShardRequest} {searcher : Searcher} {settings : Settings}
    {place doc : Nat} {stage : Rescore Slot} {queries : List Slot} {first hits : List ShardHit}
    (hstage : r.rescores[place]? = some stage)
    (hfirst : (Slot.scoreAll searcher settings r.filter r.queries).Yields (queries, first))
    (hleads : Rescore.Leads searcher settings (r.rescores.take place) first hits) :
    r.InWindow searcher settings place doc ↔ doc ∈ Rescore.bestDocs hits stage.window := by
  refine ⟨?_, fun h => ⟨stage, queries, first, hits, hstage, hfirst, hleads, h⟩⟩
  rintro ⟨stage', queries', first', hits', hstage', hfirst', hleads', hmem⟩
  obtain rfl : stage = stage' := Option.some.inj (hstage.symm.trans hstage')
  obtain rfl : first = first' :=
    (Prod.mk.inj ((Slot.scoreAll_settled _ _ _ _).unique hfirst hfirst')).2
  obtain rfl : hits = hits' := hleads.unique hleads'
  exact hmem

variable {docs : List IndexedDocument} {s : Shard} {global : Option GlobalStatistics}
  {settings : Settings} {r r' : ShardRequest} {hits : List ShardHit}

/-- **Scoring changes no query.** -/
theorem score_queries (hbuilt : s.Built) (h : (r.score ⟨s, global⟩ settings).Yields (r', hits))
    (target : LogTarget) : r'.queryOf? target = r.queryOf? target := by
  unfold score at h
  obtain ⟨⟨queries, first⟩, hfirst, h⟩ := yields_bind h
  obtain ⟨⟨rescores, last⟩, hlast, h⟩ := yields_bind h
  obtain ⟨rfl, rfl⟩ := Prod.mk.inj (yields_pure h)
  cases target with
  | query place =>
      have hsame : queries.map (·.query) = r.queries.map (·.query) := by
        refine (map_eq_of_forall₂ ((Slot.scoreAll_yields hbuilt hfirst).1.imp ?_)).symm
        rintro slot after ⟨_, _, _, _, -, -, rfl⟩
        rfl
      have hplace := congrArg (·[place]?) hsame
      simp only [List.getElem?_map] at hplace
      have hquery : ∀ slot : Option Slot,
          slot.bind (·.query.ranking?) = (slot.map (·.query)).bind (·.ranking?) := by
        rintro (_ | _) <;> rfl
      show queries[place]?.bind (·.query.ranking?) = r.queries[place]?.bind (·.query.ranking?)
      rw [hquery, hquery, hplace]
  | stage place =>
      have hplace := congrArg (·[place]?) (Rescore.applyAll_queries hlast)
      simp only [List.getElem?_map] at hplace
      have hquery : ∀ stage : Option (Rescore Slot),
          (stage.bind (·.query?)).bind (·.query.ranking?)
            = ((stage.map fun stage => stage.query?.map (·.query)).bind id).bind (·.ranking?) := by
        rintro (_ | _ | _) <;> rfl
      show (rescores[place]?.bind (·.query?)).bind _ = (r.rescores[place]?.bind (·.query?)).bind _
      rw [hquery, hquery, hplace]

/-- **Which hits a query keeps scores of**, once a shard is scored: a scored query of
    all, and the query of a stage of those in the window of the stage, if it keeps
    any. -/
theorem score_keeps (hs : s.Holds docs) (hfresh : r.Fresh) (hfits : r.Fits)
    (h : (r.score ⟨s, global⟩ settings).Yields (r', hits)) :
    (∀ doc ∈ hits.map (·.doc), (Shard.termsAt docs doc).isSome = true) ∧
      ∀ target after q, r'.slotOf? target = some after → after.query.ranking? = some q →
        ∀ doc ∈ hits.map (·.doc), (ScoreCache.Has after.scores doc ↔
          after.scores.isSome = true ∧
            ∀ place, target = .stage place → r.InWindow ⟨s, global⟩ settings place doc) := by
  have hunscored : ∀ slot ∈ r.queries, slot.scores = none ∨ slot.scores = some .empty := by
    intro slot hslot
    obtain ⟨place, hplace⟩ := List.mem_iff_getElem?.mp hslot
    exact (hfresh (.query place) slot hplace).scores
  unfold score at h
  obtain ⟨⟨queries, first⟩, hfirst, h⟩ := yields_bind h
  obtain ⟨⟨rescores, last⟩, hlast, h⟩ := yields_bind h
  obtain ⟨rfl, rfl⟩ := Prod.mk.inj (yields_pure h)
  obtain ⟨hdocs, hqueries⟩ := Slot.scoreAll_keeps hs hfits.queries hunscored hfirst
  obtain ⟨hleads, hstages⟩ := Rescore.applyAll_yields hlast
  have hsame : ∀ doc, doc ∈ last.map (·.doc) ↔ doc ∈ first.map (·.doc) := fun doc =>
    hleads.perm.mem_iff
  refine ⟨fun doc hdoc => hdocs doc ((hsame doc).mp hdoc), ?_⟩
  intro target after q hafter hq doc hdoc
  have hdoc := (hsame doc).mp hdoc
  cases target with
  | query place =>
      rw [hqueries after (List.mem_of_getElem? hafter) q hq doc hdoc]
      exact (and_iff_left fun _ h => nomatch h).symm
  | stage place =>
      obtain ⟨stage', hstage', hquery⟩ := Option.bind_eq_some_iff.mp hafter
      obtain ⟨stage, between, hstage, hlead, happlied⟩ := hstages place stage' hstage'
      cases happlied with
      | scale factor window => exact nomatch hquery
      | @query slot after' visits window hvisits queryWeight rescoreWeight =>
          obtain rfl := Option.some.inj hquery
          obtain ⟨w, kept, made, hmade, hvisit, rfl⟩ := hvisits
          have hslot := slotOf?_stage hstage
          have hnodup : (Rescore.bestDocs between window).Nodup :=
            Rescore.bestDocs_nodup (hlead.perm.nodup_iff.mpr
              (Slot.scoreAll_fits hs hfits.queries hfirst).2) window
          have hwfits : w.Fits slot.scores :=
            (Query.Fits.weight_iff (hfits.slotOf? hslot) hmade _).mpr (hfits.slotOf? hslot)
          obtain ⟨visits', hvisits', -⟩ := hs.visit hwfits hnodup
          rw [hvisits'] at hvisit
          obtain rfl := (Prod.mk.inj (Except.ok.inj hvisit)).2
          have hranks := Query.ranks_of_ranking hq hmade
          have hnone : ¬ScoreCache.Has slot.scores doc := by
            unfold ScoreCache.Has
            rw [Plan.get?_unscored (hfresh _ slot hslot).scores]
            exact fun h => nomatch h
          show ScoreCache.Has (w.visitCacheOn _ _ _) doc ↔ (w.visitCacheOn _ _ _).isSome = true ∧ _
          rw [hranks.has_visitCacheOn, w.isSome_visitCacheOn, RankingWeight.mem_map_placesOf,
            or_iff_right hnone, and_iff_right (hdocs doc hdoc)]
          refine and_congr_right fun _ => (InWindow.iff_mem hstage hfirst hlead).symm.trans ?_
          constructor
          · rintro hwindow _ ⟨⟩
            exact hwindow
          · exact fun h => h place rfl

end ShardRequest

end FeatureRank
