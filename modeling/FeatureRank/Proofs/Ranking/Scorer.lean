import FeatureRank.Proofs.Feature.Scorer
import FeatureRank.Proofs.Ranking.Disjunction
import FeatureRank.Proofs.Ranking.ScoreCache
import FeatureRank.Ranking.Weight

/-! # Ranking scorers — the vector of a document by the definition

    `RankingWeight.Describes` says what the vector of a document is, one feature
    at a time and with fresh scorers only: each ordinal holds what a fresh scorer
    of its weight gives for the ordinals below it.  This determines the vector
    (`Describes.unique`).

    A scorer in use carries a queue, walks that have been elsewhere, the vector
    of the document before and a cache that others fill too.  `Reached` is every
    state it can get into, `Tracks` the invariant, and `Tracks.score_ok` the
    result: wherever the scores of the document are not held, the vector is the
    one by the definition. -/

namespace FeatureRank

open DocWalk

namespace RankingWeight

/-- The vector of a document by the definition. -/
structure Describes (w : RankingWeight) (segment : Segment) (doc : Nat) (v : FeatureVector) :
    Prop where
  size : v.size = w.ranker.featureCount
  default : v.default = w.ranker.default
  value : ∀ (i : Nat) (weight : Weight), w.weights[i]? = some weight →
    weight.scoreAt segment doc (some (v.below i)) = .ok (v.get? i)
  beyond : ∀ i, w.weights.length ≤ i → v.get? i = none

/-- **There is one vector of a document.** -/
theorem Describes.unique {w : RankingWeight} {segment : Segment} {doc : Nat}
    {a b : FeatureVector} (ha : w.Describes segment doc a) (hb : w.Describes segment doc b) :
    a = b := by
  have hsize : a.size = b.size := ha.size.trans hb.size.symm
  have hdefault : a.default = b.default := ha.default.trans hb.default.symm
  refine FeatureVector.eq_of_get? hsize hdefault ?_
  intro i
  -- a score reads only ordinals below its own, which are the same already
  induction i using Nat.strong_induction_on with
  | _ i ih =>
      by_cases hi : i < w.weights.length
      · have hbelow : a.below i = b.below i := by
          refine FeatureVector.eq_of_get? ?_ hdefault ?_
          · rw [FeatureVector.size_below, FeatureVector.size_below, hsize]
          · intro j
            rw [FeatureVector.get?_below, FeatureVector.get?_below]
            by_cases hj : j < i
            · rw [if_pos hj, if_pos hj, ih j hj]
            · rw [if_neg hj, if_neg hj]
        have hva := ha.value i _ (List.getElem?_eq_getElem hi)
        have hvb := hb.value i _ (List.getElem?_eq_getElem hi)
        rw [hbelow, hvb] at hva
        exact (Except.ok.inj hva).symm
      · rw [ha.beyond i (Nat.le_of_not_lt hi), hb.beyond i (Nat.le_of_not_lt hi)]

/-- Which ordinals are set depends on the features alone, whatever the ranker. -/
theorem Describes.isSome_eq {w w' : RankingWeight} {segment : Segment} {doc : Nat}
    {v u : FeatureVector} (hv : w.Describes segment doc v) (hu : w'.Describes segment doc u)
    (hweights : w'.weights = w.weights) (i : Nat) : (u.get? i).isSome = (v.get? i).isSome := by
  by_cases hi : i < w.weights.length
  · have hwi := List.getElem?_eq_getElem hi
    rw [Weight.scoreAt_isSome (hv.value i _ hwi),
      Weight.scoreAt_isSome (hu.value i _ (by rw [hweights]; exact hwi))]
  · rw [hv.beyond i (Nat.le_of_not_lt hi), hu.beyond i (by rw [hweights]; omega)]

/-- **When another default gives the same values**: just when no feature gives
    another score for it, with the features before it as they are. -/
theorem Describes.same_iff {w w' : RankingWeight} {segment : Segment} {doc : Nat}
    {v u : FeatureVector} (hv : w.Describes segment doc v) (hu : w'.Describes segment doc u)
    (hweights : w'.weights = w.weights)
    (hcount : w'.ranker.featureCount = w.ranker.featureCount) :
    (∀ i, u.get? i = v.get? i) ↔ ∀ (i : Nat) (weight : Weight), w.weights[i]? = some weight →
      weight.scoreAt segment doc (some (v.below i))
        = weight.scoreAt segment doc (some ((v.below i).withDefault w'.ranker.default)) := by
  constructor
  · intro hsame i weight hi
    have hu' := hu.value i weight (by rw [hweights]; exact hi)
    have hbelow : u.below i = (v.below i).withDefault w'.ranker.default := by
      refine FeatureVector.eq_of_get? ?_ hu.default ?_
      · rw [FeatureVector.size_below, FeatureVector.size_withDefault, FeatureVector.size_below,
          hu.size, hv.size, hcount]
      · intro j
        rw [FeatureVector.get?_withDefault, FeatureVector.get?_below, FeatureVector.get?_below,
          hsame j]
    rw [← hbelow, hu', hsame i]
    exact hv.value i weight hi
  · intro hread
    -- the vector with the other default satisfies the definition, too, so it is that vector
    have hother : w'.Describes segment doc (v.withDefault w'.ranker.default) := by
      refine ⟨hv.size.trans hcount.symm, rfl, ?_, ?_⟩
      · intro i weight hi
        rw [hweights] at hi
        rw [FeatureVector.below_withDefault, ← hread i weight hi]
        exact hv.value i weight hi
      · intro i hi
        rw [hweights] at hi
        exact hv.beyond i hi
    intro i
    rw [hu.unique hother]
    rfl

end RankingWeight

namespace RankingScorer

/-! ## Collecting -/

/-- A vector filled from an ordinal on by weights, over a vector whose ordinals
    from there on are not set. -/
structure Fills (segment : Segment) (doc : Nat) (ordinal : Nat) (weights : List Weight)
    (before after : FeatureVector) : Prop where
  size : after.size = before.size
  default : after.default = before.default
  kept : ∀ i < ordinal, after.get? i = before.get? i
  value : ∀ (i : Nat) (weight : Weight), weights[i]? = some weight →
    weight.scoreAt segment doc (some (after.below (ordinal + i))) = .ok (after.get? (ordinal + i))
  beyond : ∀ i, ordinal + weights.length ≤ i → after.get? i = none

/-- One weight more at the front: it was scored for the vector as it stood before. -/
theorem Fills.cons {segment : Segment} {doc ordinal : Nat} {weight : Weight}
    {rest : List Weight} {v v' after : FeatureVector}
    (h : Fills segment doc (ordinal + 1) rest v' after) (hsize : v'.size = v.size)
    (hdefault : v'.default = v.default) (hkept : ∀ i < ordinal, v'.get? i = v.get? i)
    (hnone : ∀ i, ordinal ≤ i → v.get? i = none)
    (hscore : weight.scoreAt segment doc (some v) = .ok (v'.get? ordinal)) :
    Fills segment doc ordinal (weight :: rest) v after := by
  have hbelow : after.below ordinal = v := by
    refine FeatureVector.eq_of_get? ?_ ?_ ?_
    · rw [FeatureVector.size_below, h.size, hsize]
    · rw [FeatureVector.default_below, h.default, hdefault]
    · intro i
      rw [FeatureVector.get?_below]
      by_cases hi : i < ordinal
      · rw [if_pos hi, h.kept i (Nat.lt_succ_of_lt hi), hkept i hi]
      · rw [if_neg hi, hnone i (Nat.le_of_not_lt hi)]
  refine ⟨h.size.trans hsize, h.default.trans hdefault, ?_, ?_, ?_⟩
  · intro i hi
    rw [h.kept i (Nat.lt_succ_of_lt hi), hkept i hi]
  · intro i weight' hi
    cases i with
    | zero =>
        rw [← Option.some.inj hi, Nat.add_zero, hbelow, h.kept ordinal (Nat.lt_succ_self ordinal)]
        exact hscore
    | succ i =>
        rw [show ordinal + (i + 1) = ordinal + 1 + i by omega]
        exact h.value i weight' hi
  · intro i hi
    rw [List.length_cons] at hi
    exact h.beyond i (by omega)

/-- **Collecting fills the vector by the definition**, when each walk stands on the
    document just where a fresh scorer does. -/
theorem collect_ok {segment : Segment} {doc : Nat} (hpos : 0 < doc) (hle : doc ≤ segment.maxDoc)
    (weights : List Weight) :
    ∀ (walks : List (Option FeatureScorer)) (ordinal : Nat) (v : FeatureVector),
      walks.map (·.filter (·.stop = .doc doc)) = weights.map (·.scorerAt? segment doc) →
      ordinal + weights.length ≤ v.size →
      (∀ i, ordinal ≤ i → v.get? i = none) →
      ∃ c, collect doc ordinal v walks = .ok c ∧
        Fills segment doc ordinal weights v c.vector ∧
        c.scores = c.vector.kept ordinal weights.length := by
  induction weights with
  | nil =>
      intro walks ordinal v hwalks _ hnone
      have hempty : walks = [] := List.map_eq_nil_iff.mp hwalks
      rw [hempty]
      refine ⟨{ vector := v }, rfl, ⟨rfl, rfl, fun _ _ => rfl, ?_, hnone⟩, rfl⟩
      intro i weight h
      exact nomatch h
  | cons weight rest ih =>
      intro walks ordinal v hwalks hsize hnone
      -- on the weights, with the ordinal and the vector filled so far general
      cases walks with
      | nil => exact nomatch hwalks
      | cons walk others =>
          rw [List.map_cons, List.map_cons] at hwalks
          obtain ⟨hwalk, hothers⟩ := List.cons.inj hwalks
          rw [List.length_cons] at hsize
          unfold collect
          rw [hwalk]
          cases hat : weight.scorerAt? segment doc with
          | none =>
              have hscore := Weight.scoreAt_of_none hat (some v)
              obtain ⟨c, hc, hfills, hscores⟩ := ih others (ordinal + 1) v hothers (by omega)
                fun i hi => hnone i (by omega)
              have hhere : v.get? ordinal = none := hnone ordinal (Nat.le_refl ordinal)
              have hafter : c.vector.get? ordinal = none :=
                (hfills.kept ordinal (Nat.lt_succ_self ordinal)).trans hhere
              refine ⟨_, bind_eq_ok.mpr ⟨c, hc, rfl⟩,
                hfills.cons rfl rfl (fun _ _ => rfl) hnone
                  (hscore.trans (congrArg Except.ok hhere.symm)), ?_⟩
              rw [List.length_cons, FeatureVector.kept_succ, hafter, hscores]
              rfl
          | some scorer =>
              obtain ⟨value, hvalue⟩ := Weight.scorerAt?_score_ok hpos hle hat (some v)
              have hscore := Weight.scoreAt_of_some hat hvalue
              obtain ⟨v', hset, hsize', hdefault', hget⟩ :=
                FeatureVector.set_ok (show ordinal < v.size by omega) value
              have hnone' : ∀ i, ordinal + 1 ≤ i → v'.get? i = none := by
                intro i hi
                rw [hget i, if_neg (by omega)]
                exact hnone i (by omega)
              obtain ⟨c, hc, hfills, hscores⟩ := ih others (ordinal + 1) v' hothers (by omega) hnone'
              have hbefore : ∀ i < ordinal, v'.get? i = v.get? i := by
                intro i hi
                rw [hget i, if_neg (by omega)]
              have hhere : v'.get? ordinal = some value := by rw [hget ordinal, if_pos rfl]
              have hafter : c.vector.get? ordinal = some value :=
                (hfills.kept ordinal (Nat.lt_succ_self ordinal)).trans hhere
              refine ⟨_, bind_eq_ok.mpr ⟨value, hvalue, bind_eq_ok.mpr ⟨v', hset,
                bind_eq_ok.mpr ⟨c, hc, rfl⟩⟩⟩,
                hfills.cons hsize' hdefault' hbefore hnone
                  (hscore.trans (congrArg Except.ok hhere.symm)), ?_⟩
              rw [List.length_cons, FeatureVector.kept_succ, hafter, hscores]
              rfl

/-- Filling a vector changes neither its size nor its default. -/
theorem collect_size {doc : Nat} {walks : List (Option FeatureScorer)} {ordinal : Nat}
    {v : FeatureVector} {c : Collected} (h : collect doc ordinal v walks = .ok c) :
    c.vector.size = v.size ∧ c.vector.default = v.default := by
  induction walks generalizing ordinal v c with
  | nil =>
      rw [← Except.ok.inj h]
      exact ⟨rfl, rfl⟩
  | cons walk rest ih =>
      unfold collect at h
      split at h
      · obtain ⟨value, -, h⟩ := bind_eq_ok.mp h
        obtain ⟨v', hset, h⟩ := bind_eq_ok.mp h
        obtain ⟨c', hc', h⟩ := bind_eq_ok.mp h
        obtain ⟨-, hsize, hdefault, -⟩ := FeatureVector.set_eq_ok hset
        rw [← Except.ok.inj h]
        exact ⟨(ih hc').1.trans hsize, (ih hc').2.trans hdefault⟩
      · obtain ⟨c', hc', h⟩ := bind_eq_ok.mp h
        rw [← Except.ok.inj h]
        exact ⟨(ih hc').1, (ih hc').2⟩

/-! ## Every state of a scorer in use -/

/-- The states that a scorer for a segment gets into: it goes to the next document
    or to one further on, it scores where it stands, and other scorers record in
    the cache that it shares. -/
inductive Reached (w : RankingWeight) (reader : SegmentReader) (cache : Option ScoreCache) :
    RankingScorer → Prop where
  | fresh : Reached w reader cache (w.scorer reader cache)
  | next {s : RankingScorer} (h : Reached w reader cache s) :
      Reached w reader cache (DocWalk.next s)
  | advance {s : RankingScorer} {doc target : Nat} (h : Reached w reader cache s)
      (hstop : stop s = .doc doc) (hlt : doc < target) :
      Reached w reader cache (DocWalk.advance target s)
  | score {s s' : RankingScorer} {scored : Scored} (h : Reached w reader cache s)
      (hscore : s.score = .ok (s', scored)) : Reached w reader cache s'
  | record {s : RankingScorer} {shared : ScoreCache} (h : Reached w reader cache s)
      (hshared : s.walk.cache = some shared) (doc : Nat) (scores : List Float32) :
      Reached w reader cache
        { s with walk := { s.walk with cache := some (shared.insertOnce doc scores) } }

/-- What holds of a scorer in every state.  Its walks are fresh ones that were
    brought to some documents before the current one, and to the current one as
    well unless its scores are held. -/
structure Tracks (w : RankingWeight) (reader : SegmentReader) (s : RankingScorer) : Prop where
  ranker : s.ranker = w.ranker
  docBase : s.walk.docBase = reader.docBase
  maxDoc : s.walk.docs.maxDoc = reader.maxDoc
  inside : ∀ doc, s.walk.stop = .doc doc → doc ≤ reader.maxDoc
  queued : Disjunction.Queued s.walk.walks s.walk.queue
  vector : ∀ v, s.vector = some v → v.size = w.ranker.featureCount ∧ v.default = w.ranker.default
  walks : ∃ targets : List Nat, targets.Pairwise (· < ·) ∧ (∀ t ∈ targets, 0 < t) ∧
    s.walk.walks = w.weights.map (fun weight => (weight.scorer? reader.segment).map
      (reachAll targets)) ∧
    ∀ doc, s.walk.stop = .doc doc → (∀ t ∈ targets, t ≤ doc) ∧
      (0 < doc → s.walk.isHeld doc = false → targets.getLast? = some doc)

theorem Tracks.fresh (w : RankingWeight) (reader : SegmentReader) (cache : Option ScoreCache) :
    Tracks w reader (w.scorer reader cache) where
  ranker := rfl
  docBase := rfl
  maxDoc := rfl
  inside := by
    intro doc hstop
    rw [← Stop.doc.inj (show Stop.doc 0 = .doc doc from hstop)]
    exact Nat.zero_le _
  queued := Disjunction.ofWalks_queued _ _ _ _
  vector := fun _ h => nomatch h
  walks := by
    refine ⟨[], List.Pairwise.nil, by simp, ?_, ?_⟩
    · refine List.map_congr_left fun weight _ => ?_
      cases weight.scorer? reader.segment <;> rfl
    · intro doc hstop
      refine ⟨by simp, ?_⟩
      intro hpos
      have hzero : doc = 0 := (Stop.doc.inj (show Stop.doc 0 = .doc doc from hstop)).symm
      omega

/-- A cache that holds at least as much, and another vector to reuse, make no
    difference. -/
theorem Tracks.record {w : RankingWeight} {reader : SegmentReader} {s : RankingScorer}
    (h : Tracks w reader s) {cache : Option ScoreCache} {vector : Option FeatureVector}
    (hheld : ∀ doc, s.walk.isHeld doc = true → ({ s.walk with cache }).isHeld doc = true)
    (hvector : ∀ v, vector = some v →
      v.size = w.ranker.featureCount ∧ v.default = w.ranker.default) :
    Tracks w reader { s with walk := { s.walk with cache }, vector } where
  ranker := h.ranker
  docBase := h.docBase
  maxDoc := h.maxDoc
  inside := h.inside
  queued := h.queued
  vector := hvector
  walks := by
    obtain ⟨targets, hasc, hpos, hwalks, hlast⟩ := h.walks
    refine ⟨targets, hasc, hpos, hwalks, ?_⟩
    intro doc hstop
    refine ⟨(hlast doc hstop).1, ?_⟩
    intro hdoc hfree
    refine (hlast doc hstop).2 hdoc ?_
    cases hbefore : s.walk.isHeld doc with
    | false => rfl
    | true =>
        rw [hheld doc hbefore] at hfree
        exact nomatch hfree

/-- Moving on, to any document further on. -/
theorem Tracks.advance {w : RankingWeight} {reader : SegmentReader} {s : RankingScorer}
    (h : Tracks w reader s) {doc target : Nat} (hstop : s.walk.stop = .doc doc)
    (hlt : doc < target) : Tracks w reader (DocWalk.advance target s) := by
  obtain ⟨targets, hasc, hpos, hwalks, hlast⟩ := h.walks
  have hbefore : ∀ t ∈ targets, t < target :=
    fun t ht => Nat.lt_of_le_of_lt ((hlast doc hstop).1 t ht) hlt
  have hstopped : ∀ {n}, Stop.doc target = .doc n → target = n := fun h => Stop.doc.inj h
  rcases Disjunction.advance_cases h.queued target (by omega) with
    ⟨-, hmoved⟩ | ⟨hle, hheld, hmoved⟩ | ⟨hle, -, queue, hqueued, hmoved⟩
  · -- past the last document nothing moves any more
    rw [show DocWalk.advance target s = { s with walk := s.walk.advance target } from rfl, hmoved]
    exact ⟨h.ranker, h.docBase, h.maxDoc, fun _ hout => (nomatch hout), h.queued, h.vector,
      targets, hasc, hpos, hwalks, fun _ hout => nomatch hout⟩
  · rw [show DocWalk.advance target s = { s with walk := s.walk.advance target } from rfl, hmoved]
    refine ⟨h.ranker, h.docBase, h.maxDoc, ?_, h.queued, h.vector, targets, hasc, hpos, hwalks, ?_⟩
    · intro n hn
      rw [← hstopped hn, ← h.maxDoc]
      exact hle
    · intro n hn
      rw [← hstopped hn]
      refine ⟨fun t ht => Nat.le_of_lt (hbefore t ht), ?_⟩
      intro _ hfree
      have hfree : s.walk.isHeld target = false := hfree
      rw [hheld] at hfree
      exact nomatch hfree
  · rw [show DocWalk.advance target s = { s with walk := s.walk.advance target } from rfl, hmoved]
    refine ⟨h.ranker, h.docBase, h.maxDoc, ?_, hqueued, h.vector, targets ++ [target],
      ?_, ?_, ?_, ?_⟩
    · intro n hn
      rw [← hstopped hn, ← h.maxDoc]
      exact hle
    · rw [List.pairwise_append]
      refine ⟨hasc, List.pairwise_singleton _ _, ?_⟩
      intro t ht u hu
      rw [List.mem_singleton.mp hu]
      exact hbefore t ht
    · intro t ht
      rcases List.mem_append.mp ht with ht | ht
      · exact hpos t ht
      · rw [List.mem_singleton.mp ht]
        omega
    · show s.walk.walks.map (Option.map (reach target)) = _
      rw [hwalks, List.map_map]
      refine List.map_congr_left fun weight _ => ?_
      rw [Function.comp_apply, Option.map_map]
      exact congrArg (Option.map · _) (funext fun w => (reachAll_concat targets target w).symm)
    · intro n hn
      rw [← hstopped hn]
      refine ⟨?_, fun _ _ => List.getLast?_concat⟩
      intro t ht
      rcases List.mem_append.mp ht with ht | ht
      · exact Nat.le_of_lt (hbefore t ht)
      · rw [List.mem_singleton.mp ht]

/-- How the values of a document are gathered: from the walks, and then they are
    recorded, or from the scores that are held. -/
theorem gather_eq_ok {s : RankingScorer} {doc : Nat} {c : Collected} {cache : Option ScoreCache}
    (h : s.gather doc = .ok (c, cache)) :
    (collect doc 0 (s.ranker.newVector s.vector) s.walk.walks = .ok c ∧
      cache = s.walk.cache.map (·.insertOnce (s.walk.absolute doc) c.scores)) ∨
    (∃ held scores, s.walk.cache = some held ∧ held.get? (s.walk.absolute doc) = some scores ∧
      ScoreCache.setMatched (s.ranker.newVector s.vector) 0 scores = .ok c.vector ∧
      cache = s.walk.cache) := by
  unfold gather at h
  cases hcache : s.walk.cache with
  | none =>
      simp only [hcache] at h
      obtain ⟨c', hc', h⟩ := bind_eq_ok.mp h
      obtain ⟨hc, hnone⟩ := Prod.mk.inj (Except.ok.inj h)
      rw [← hc, ← hnone]
      exact Or.inl ⟨hc', rfl⟩
  | some held =>
      simp only [hcache] at h
      obtain ⟨replayed, hreplay, h⟩ := bind_eq_ok.mp h
      cases replayed with
      | none =>
          obtain ⟨c', hc', h⟩ := bind_eq_ok.mp h
          obtain ⟨hc, hrecorded⟩ := Prod.mk.inj (Except.ok.inj h)
          rw [← hc, ← hrecorded]
          exact Or.inl ⟨hc', rfl⟩
      | some v =>
          obtain ⟨hc, hsame⟩ := Prod.mk.inj (Except.ok.inj h)
          rw [← hc, ← hsame]
          unfold ScoreCache.replay at hreplay
          cases hget : held.get? (s.walk.absolute doc) with
          | none => rw [hget] at hreplay; exact nomatch Except.ok.inj hreplay
          | some scores =>
              rw [hget] at hreplay
              obtain ⟨v', hv', hreplay⟩ := bind_eq_ok.mp hreplay
              rw [← Option.some.inj (Except.ok.inj hreplay)]
              exact Or.inr ⟨held, scores, rfl, hget, hv', rfl⟩

/-- A scorer starts each document with a new vector. -/
theorem Tracks.newVector {w : RankingWeight} {reader : SegmentReader} {s : RankingScorer}
    (h : Tracks w reader s) :
    s.ranker.newVector s.vector = .ofSize w.ranker.featureCount w.ranker.default := by
  rw [h.ranker]
  exact FeatureVector.renew_eq h.vector

/-- What a score is made of. -/
theorem score_eq_ok {s s' : RankingScorer} {scored : Scored} (h : s.score = .ok (s', scored)) :
    ∃ doc c cache, s.walk.stop = .doc doc ∧ s.gather doc = .ok (c, cache) ∧
      s' = { s with walk := { s.walk with cache }, vector := some c.vector } ∧
      scored.value = s.ranker.score c.vector ∧ scored.features = some c.vector := by
  unfold score at h
  cases hstop : s.walk.stop with
  | exhausted => rw [hstop] at h; exact nomatch h
  | doc doc =>
      simp only [hstop] at h
      obtain ⟨⟨c, cache⟩, hgather, h⟩ := bind_eq_ok.mp h
      obtain ⟨hs', hscored⟩ := Prod.mk.inj (Except.ok.inj h)
      exact ⟨doc, c, cache, rfl, hgather, hs'.symm, by rw [← hscored], by rw [← hscored]⟩

/-- Scoring moves no walk. -/
theorem Tracks.score {w : RankingWeight} {reader : SegmentReader} {s s' : RankingScorer}
    {scored : Scored} (h : Tracks w reader s) (hscore : s.score = .ok (s', scored)) :
    Tracks w reader s' := by
  obtain ⟨doc, c, cache, -, hgather, hs', -, -⟩ := score_eq_ok hscore
  rw [hs']
  rcases gather_eq_ok hgather with ⟨hc, hrecorded⟩ | ⟨held, scores, -, -, hc, hsame⟩
  · refine h.record ?_ ?_
    · intro other hother
      rw [hrecorded]
      cases hcache : s.walk.cache with
      | none =>
          rw [Disjunction.isHeld, hcache] at hother
          exact nomatch hother
      | some held => exact Disjunction.isHeld_insertOnce hcache hother
    · intro v hv
      rw [h.newVector] at hc
      rw [← Option.some.inj hv]
      exact ⟨(collect_size hc).1.trans (FeatureVector.size_ofSize _ _), (collect_size hc).2⟩
  · refine h.record ?_ ?_
    · intro other hother
      rw [hsame]
      exact hother
    · intro v hv
      rw [h.newVector] at hc
      rw [← Option.some.inj hv]
      obtain ⟨hsize, hdefault⟩ := ScoreCache.setMatched_size hc
      exact ⟨hsize.trans (FeatureVector.size_ofSize _ _), hdefault⟩

/-- Scoring leaves the scorer on the document. -/
theorem score_stop {s s' : RankingScorer} {scored : Scored} (h : s.score = .ok (s', scored)) :
    stop s' = stop s ∧ s'.walk.docBase = s.walk.docBase := by
  obtain ⟨doc, c, cache, -, -, hs', -, -⟩ := score_eq_ok h
  rw [hs']
  exact ⟨rfl, rfl⟩

/-- Moving on reads and writes no scores. -/
theorem cache_advance (target : Nat) (s : RankingScorer) :
    (DocWalk.advance target s).walk.cache = s.walk.cache :=
  (Disjunction.advance_cache target s.walk).1

theorem isHeld_advance (target : Nat) (s : RankingScorer) (doc : Nat) :
    (DocWalk.advance target s).walk.isHeld doc = s.walk.isHeld doc :=
  Disjunction.isHeld_congr (Disjunction.advance_cache target s.walk).1
    (Disjunction.advance_cache target s.walk).2 doc

/-- A document of the segment further on is where the scorer goes. -/
theorem Tracks.advance_stop {w : RankingWeight} {reader : SegmentReader} {s : RankingScorer}
    (h : Tracks w reader s) {target : Nat} (hpos : 0 < target) :
    stop (DocWalk.advance target s)
      = if target ≤ reader.maxDoc then .doc target else .exhausted := by
  show (s.walk.advance target).stop = _
  have hmax := h.maxDoc
  rcases Disjunction.advance_cases h.queued target hpos with
    ⟨hpast, hmoved⟩ | ⟨hle, -, hmoved⟩ | ⟨hle, -, queue, -, hmoved⟩
  · rw [hmoved, if_neg (by omega)]
    rfl
  · rw [hmoved, if_pos (by omega)]
    rfl
  · rw [hmoved, if_pos (by omega)]
    rfl

/-- **The invariant holds in every state.** -/
theorem Reached.tracks {w : RankingWeight} {reader : SegmentReader} {cache : Option ScoreCache}
    {s : RankingScorer} (h : Reached w reader cache s) : Tracks w reader s := by
  induction h with
  | fresh => exact Tracks.fresh w reader cache
  | @next s _ ih =>
      cases hstop : DocWalk.stop s with
      | exhausted =>
          rw [next_exhausted hstop]
          exact ih
      | doc doc =>
          rw [next_doc hstop]
          exact ih.advance hstop (Nat.lt_succ_self doc)
  | advance _ hstop hlt ih => exact ih.advance hstop hlt
  | score _ hscore ih => exact ih.score hscore
  | record _ hshared doc scores ih =>
      exact ih.record (fun _ => Disjunction.isHeld_insertOnce hshared) ih.vector

/-- Where its scores are not held, each walk on the document is what a fresh one is
    there. -/
theorem Tracks.settled {w : RankingWeight} {reader : SegmentReader} {s : RankingScorer}
    (h : Tracks w reader s) (hbuilt : reader.segment.Built) {doc : Nat}
    (hstop : s.walk.stop = .doc doc) (hpos : 0 < doc) (hfree : s.walk.isHeld doc = false) :
    s.walk.walks.map (·.filter (·.stop = .doc doc))
      = w.weights.map (·.scorerAt? reader.segment doc) := by
  obtain ⟨targets, hasc, htargets, hwalks, hlast⟩ := h.walks
  -- the walks were brought to this document last, so they end where fresh ones do
  obtain ⟨front, hfront⟩ := List.getLast?_eq_some_iff.mp ((hlast doc hstop).2 hpos hfree)
  rw [hfront] at hasc htargets hwalks
  rw [hwalks, List.map_map]
  exact List.map_congr_left fun weight _ => Weight.filter_reachAll hbuilt weight hasc htargets

/-- Where its scores are not held, the values of a document are those that the walks
    give, and they are recorded. -/
theorem Tracks.gather_free {w : RankingWeight} {reader : SegmentReader} {s : RankingScorer}
    (h : Tracks w reader s) {doc : Nat} (hfree : s.walk.isHeld doc = false) {c : Collected}
    (hc : collect doc 0 (.ofSize w.ranker.featureCount w.ranker.default) s.walk.walks = .ok c) :
    s.gather doc = .ok (c, s.walk.cache.map (·.insertOnce (reader.docBase + doc) c.scores)) := by
  unfold gather
  rw [h.newVector]
  cases hcache : s.walk.cache with
  | none => exact bind_eq_ok.mpr ⟨c, hc, rfl⟩
  | some held =>
      have hget : held.get? (s.walk.absolute doc) = none := by
        unfold Disjunction.isHeld at hfree
        rw [hcache] at hfree
        exact ScoreCache.contains_eq_false.mp hfree
      have hreplay : ∀ v, held.replay (s.walk.absolute doc) v = .ok none := by
        intro v
        unfold ScoreCache.replay
        rw [hget]
        rfl
      refine bind_eq_ok.mpr ⟨none, hreplay _, bind_eq_ok.mpr ⟨c, hc, ?_⟩⟩
      rw [Disjunction.absolute, h.docBase]
      rfl

/-- **Wherever its scores are not held, the walks give a document its vector by the
    definition.** -/
theorem Tracks.collect_free {w : RankingWeight} {reader : SegmentReader} {s : RankingScorer}
    (h : Tracks w reader s) (hbuilt : reader.segment.Built)
    (hcount : w.weights.length ≤ w.ranker.featureCount) {doc : Nat}
    (hstop : s.walk.stop = .doc doc) (hpos : 0 < doc) (hfree : s.walk.isHeld doc = false) :
    ∃ c, collect doc 0 (.ofSize w.ranker.featureCount w.ranker.default) s.walk.walks = .ok c ∧
      w.Describes reader.segment doc c.vector ∧
      c.scores = c.vector.kept 0 w.weights.length := by
  have hle : doc ≤ reader.segment.maxDoc := h.inside doc hstop
  obtain ⟨c, hc, hfills, hscores⟩ := collect_ok hpos hle w.weights s.walk.walks 0
    (.ofSize w.ranker.featureCount w.ranker.default) (h.settled hbuilt hstop hpos hfree)
    (by rw [FeatureVector.size_ofSize, Nat.zero_add]; exact hcount)
    fun i _ => FeatureVector.get?_ofSize _ _ i
  refine ⟨c, hc, ⟨?_, hfills.default, ?_, ?_⟩, hscores⟩
  · exact hfills.size.trans (FeatureVector.size_ofSize _ _)
  · intro i weight hi
    have hvalue := hfills.value i weight hi
    rw [Nat.zero_add] at hvalue
    exact hvalue
  · intro i hi
    exact hfills.beyond i (by omega)

/-- **Wherever its scores are not held, a document gets the vector by the
    definition.** -/
theorem Tracks.score_ok {w : RankingWeight} {reader : SegmentReader} {s : RankingScorer}
    (h : Tracks w reader s) (hbuilt : reader.segment.Built)
    (hcount : w.weights.length ≤ w.ranker.featureCount) {doc : Nat}
    (hstop : s.walk.stop = .doc doc) (hpos : 0 < doc) (hfree : s.walk.isHeld doc = false) :
    ∃ s' scored v, s.score = .ok (s', scored) ∧ scored.features = some v ∧
      w.Describes reader.segment doc v ∧ scored.value = w.ranker.score v ∧
      s'.walk.cache = s.walk.cache.map
        (·.insertOnce (reader.docBase + doc) (v.kept 0 w.weights.length)) := by
  obtain ⟨c, hc, hdescribes, hscores⟩ := h.collect_free hbuilt hcount hstop hpos hfree
  have hgather := h.gather_free hfree hc
  rw [hscores] at hgather
  unfold RankingScorer.score
  rw [hstop, ← h.ranker]
  exact ⟨_, _, c.vector, bind_eq_ok.mpr ⟨_, hgather, rfl⟩, rfl, hdescribes, rfl, rfl⟩

end RankingScorer

end FeatureRank
