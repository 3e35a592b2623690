import FeatureRank.Proofs.Ranking.Scorer
import FeatureRank.Proofs.Ranking.Weight

/-! # Replay — what a scored document comes back as

    Once a document is scored its scores are held, and from then on no walk moves
    for it (`RankingScorer.Tracks.advance_held`): its vector is put together from
    what the cache kept.  That is the vector of the first scoring without the
    values that are no numbers (`RankingQuery.scores_again`), because the cache
    uses NaN to say that a feature did not match.  So a document is ranked the same
    again just when no feature scored it NaN. -/

namespace FeatureRank

open DocWalk

namespace RankingScorer

variable {w : RankingWeight} {reader : SegmentReader}

/-- **No walk moves to a document whose scores are held.** -/
theorem Tracks.advance_held {s : RankingScorer} (h : Tracks w reader s) {doc : Nat}
    (hpos : 0 < doc) (hle : doc ≤ reader.maxDoc) (hheld : s.walk.isHeld doc = true) :
    stop (DocWalk.advance doc s) = .doc doc ∧
      (DocWalk.advance doc s).walk.walks = s.walk.walks ∧
      (DocWalk.advance doc s).walk.queue = s.walk.queue := by
  have hmax := h.maxDoc
  refine ⟨?_, ?_⟩
  · rw [h.advance_stop hpos, if_pos hle]
  · show (s.walk.advance doc).walks = _ ∧ (s.walk.advance doc).queue = _
    rcases Disjunction.advance_cases h.queued doc hpos with
      ⟨hpast, -⟩ | ⟨-, -, hmoved⟩ | ⟨-, hfree, -⟩
    · omega
    · rw [hmoved]
      exact ⟨rfl, rfl⟩
    · rw [hheld] at hfree
      exact nomatch hfree

/-- Gathering the values of a document whose scores are held. -/
theorem gather_held {s : RankingScorer} {doc : Nat} {held : ScoreCache} {scores : List Float32}
    (hcache : s.walk.cache = some held) (hget : held.get? (s.walk.absolute doc) = some scores)
    {v : FeatureVector}
    (hset : ScoreCache.setMatched (s.ranker.newVector s.vector) 0 scores = .ok v) :
    s.gather doc = .ok ({ vector := v }, some held) := by
  have hreplay : held.replay (s.walk.absolute doc) (s.ranker.newVector s.vector)
      = .ok (some v) := by
    unfold ScoreCache.replay
    rw [hget]
    exact bind_eq_ok.mpr ⟨v, hset, rfl⟩
  unfold gather
  rw [hcache]
  exact bind_eq_ok.mpr ⟨some v, hreplay, rfl⟩

/-- A document whose scores are held is scored by what is replayed of them. -/
theorem Tracks.score_held {s : RankingScorer} (h : Tracks w reader s) {doc : Nat}
    (hstop : s.walk.stop = .doc doc) {held : ScoreCache} (hcache : s.walk.cache = some held)
    {scores : List Float32} (hget : held.get? (reader.docBase + doc) = some scores)
    {v : FeatureVector} (hset : ScoreCache.setMatched
      (.ofSize w.ranker.featureCount w.ranker.default) 0 scores = .ok v) :
    ∃ s' scored, s.score = .ok (s', scored) ∧ scored.features = some v ∧
      scored.value = w.ranker.score v ∧ s'.walk = s.walk := by
  rw [← h.docBase] at hget
  rw [← h.newVector] at hset
  have hgather := gather_held hcache hget hset
  unfold RankingScorer.score
  rw [hstop]
  refine ⟨_, _, bind_eq_ok.mpr ⟨_, hgather, rfl⟩, rfl, ?_, ?_⟩
  · rw [h.ranker]
  · show { s.walk with cache := some held } = s.walk
    rw [← hcache]

/-- **What scoring a document leaves in the cache**: scores that are replayed as the
    vector of this scoring, without the values that are no numbers. -/
theorem Tracks.score_keeps {s s' : RankingScorer} {scored : Scored} (h : Tracks w reader s)
    (hbuilt : reader.segment.Built) (hcount : w.weights.length ≤ w.ranker.featureCount)
    {held : ScoreCache} (hcache : s.walk.cache = some held) {doc : Nat}
    (hstop : s.walk.stop = .doc doc) (hpos : 0 < doc) (hscore : s.score = .ok (s', scored)) :
    ∃ v after scores, scored.features = some v ∧ scored.value = w.ranker.score v ∧
      s'.walk.cache = some after ∧ after.Extends held ∧
      after.get? (reader.docBase + doc) = some scores ∧
      ScoreCache.setMatched (.ofSize w.ranker.featureCount w.ranker.default) 0 scores
        = .ok v.replayed := by
  cases hget : held.get? (reader.docBase + doc) with
  | none =>
      have hfree : s.walk.isHeld doc = false := by
        unfold Disjunction.isHeld Disjunction.absolute
        rw [hcache, h.docBase]
        exact ScoreCache.contains_eq_false.mpr hget
      obtain ⟨_, _, v, hscore', hfeatures, hdescribes, hvalue, hrecorded⟩ :=
        h.score_ok hbuilt hcount hstop hpos hfree
      rw [hscore] at hscore'
      obtain ⟨hs', hscored⟩ := Prod.mk.inj (Except.ok.inj hscore')
      rw [hcache, ← hs'] at hrecorded
      rw [← hscored] at hfeatures hvalue
      refine ⟨v, _, v.kept 0 w.weights.length, hfeatures, hvalue, hrecorded,
        held.insertOnce_extends _ _, ?_, ?_⟩
      · rw [ScoreCache.get?_insertOnce, if_pos ⟨rfl, hget⟩]
      · rw [← hdescribes.size, ← hdescribes.default]
        exact ScoreCache.setMatched_kept (by rw [hdescribes.size]; exact hcount) hdescribes.beyond
  | some scores =>
      -- the document was scored before, so this scoring is a replay itself
      obtain ⟨doc', c, cache, hstop', hgather, hs', hvalue, hfeatures⟩ := score_eq_ok hscore
      rw [hstop] at hstop'
      rw [← Stop.doc.inj hstop', RankingScorer.gather, hcache] at hgather
      obtain ⟨replayed, hreplay, hgather⟩ := bind_eq_ok.mp hgather
      unfold ScoreCache.replay at hreplay
      rw [Disjunction.absolute, h.docBase, hget] at hreplay
      obtain ⟨v, hset, hreplay⟩ := bind_eq_ok.mp hreplay
      rw [← Except.ok.inj hreplay] at hgather
      obtain ⟨hc, hsame⟩ := Prod.mk.inj (Except.ok.inj hgather)
      rw [h.newVector] at hset
      have hnumbers : v.replayed = v := by
        refine FeatureVector.replayed_eq_iff.mpr (ScoreCache.setMatched_isNumber ?_ hset)
        intro i x hx
        rw [FeatureVector.get?_ofSize] at hx
        cases hx
      refine ⟨v, held, scores, ?_, ?_, ?_, ScoreCache.Extends.refl held, hget, ?_⟩
      · rw [hfeatures, ← hc]
      · rw [hvalue, ← hc, h.ranker]
      · rw [hs', ← hsame]
      · rw [hnumbers]
        exact hset

end RankingScorer

/-! ## The same query again -/

/-- Asked for again, a ranking query and its canonical form have the weight that was
    made first. -/
theorem RankingQuery.weight_again {q : RankingQuery} {searcher : Searcher}
    {cache made more : WeightCache} {w : RankingWeight}
    (h : q.weight searcher cache = (made, .ok w)) (hmore : more.Extends made) :
    q.weight searcher more = (more, .ok w) ∧
      (q.canonical searcher).weight searcher more = (more, .ok w) := by
  obtain ⟨hholds, -, -, hranker, hfeatures⟩ := weight_eq_ok h
  have hthere : List.Forall₂ (more.Holds searcher.isEmpty q.ranker.featureCount) q.queries
      w.weights := hholds.imp fun _ _ hw => hw.extends hmore
  have hcanonical : List.Forall₂ (more.Holds searcher.isEmpty
      (q.canonical searcher).ranker.featureCount) (q.canonical searcher).queries w.weights :=
    List.forall₂_map_left_iff.mpr (hthere.imp fun _ _ hw => hw.canonical)
  have hw : (⟨w.weights, q.ranker, q.features⟩ : RankingWeight) = w := by
    rw [← hranker, ← hfeatures]
  refine ⟨?_, ?_⟩
  · rw [weight_of_holds hthere, hw]
  · rw [weight_of_holds hcanonical]
    exact congrArg (fun w => (more, Except.ok w)) hw

/-- **A document scored again.**  Whoever scores it later, by the query or by its
    canonical form, gives the ranker the vector of the first scoring without the
    values that are no numbers, and gets there without moving a walk.  So the
    vectors are the same just when no feature scored the document NaN. -/
theorem RankingQuery.scores_again {name : String} {features : FeatureSet} {ranker : Ranker}
    {compilation : Nat} {model : Model}
    (hmodel : Model.make name features ranker compilation = .ok model)
    {context : QueryContext} {params : Params} {q : RankingQuery}
    (hquery : ofModel model context params = .ok q)
    {searcher : Searcher} {cache made : WeightCache} {w : RankingWeight}
    (hweight : q.weight searcher cache = (made, .ok w))
    {reader : SegmentReader} (hbuilt : reader.segment.Built) {initial : Option ScoreCache}
    {s s' : RankingScorer} (hreached : RankingScorer.Reached w reader initial s)
    {held : ScoreCache} (hheld : s.walk.cache = some held) {doc : Nat}
    (hstop : stop s = .doc doc) (hpos : 0 < doc) {scored : Scored}
    (hscore : s.score = .ok (s', scored)) :
    (∀ more : WeightCache, more.Extends made → q.weight searcher more = (more, .ok w) ∧
      (q.canonical searcher).weight searcher more = (more, .ok w)) ∧
    ∃ v after, scored.features = some v ∧ scored.value = ranker.score v ∧
      s'.walk.cache = some after ∧
      (∀ initial' t (kept : ScoreCache), RankingScorer.Reached w reader initial' t →
        t.walk.cache = some kept → kept.Extends after →
        (stop t = .doc doc → ∃ t' again, t.score = .ok (t', again) ∧
          again.features = some v.replayed ∧ again.value = ranker.score v.replayed ∧
          t'.walk = t.walk) ∧
        (∀ earlier, stop t = .doc earlier → earlier < doc →
          stop (DocWalk.advance doc t) = .doc doc ∧
          (DocWalk.advance doc t).walk.walks = t.walk.walks ∧
          (DocWalk.advance doc t).walk.queue = t.walk.queue)) ∧
      (v.replayed = v ↔ ∀ i score, v.get? i = some score → score.isNaN = false) := by
  obtain ⟨hranker, -, hcount, hlength⟩ := ofModel_size hmodel hquery
  obtain ⟨hholds, -, -, hwranker, -⟩ := weight_eq_ok hweight
  rw [hranker] at hwranker
  have hweights : w.weights.length ≤ w.ranker.featureCount := by
    rw [hwranker, hcount, ← hlength, hholds.length_eq]
  have htracks := hreached.tracks
  have hle : doc ≤ reader.maxDoc := htracks.inside doc hstop
  obtain ⟨v, after, scores, hfeatures, hvalue, hafter, -, hget, hset⟩ :=
    htracks.score_keeps hbuilt hweights hheld hstop hpos hscore
  rw [hwranker] at hvalue
  refine ⟨fun more hmore => weight_again hweight hmore, v, after, hfeatures, hvalue, hafter, ?_,
    FeatureVector.replayed_eq_iff⟩
  intro initial' t kept hreached' hkept hextends
  have htracks' := hreached'.tracks
  have hthere : kept.get? (reader.docBase + doc) = some scores := hextends _ _ hget
  refine ⟨?_, ?_⟩
  · intro hstop'
    obtain ⟨t', again, hagain, hfeatures', hvalue', hwalk⟩ :=
      htracks'.score_held hstop' hkept hthere hset
    rw [hwranker] at hvalue'
    exact ⟨t', again, hagain, hfeatures', hvalue', hwalk⟩
  · intro earlier _ _
    refine htracks'.advance_held hpos hle ?_
    unfold Disjunction.isHeld Disjunction.absolute
    rw [hkept, htracks'.docBase]
    exact ScoreCache.contains_of_get? hthere

/-- Twice `2 ^ 127` is infinite, and infinity less infinity is no number: on the
    second scoring the sum is not there, and the tree goes the other way. -/
theorem RankingQuery.scores_again_opposite_infinities :
    let features : FeatureSet :=
      ⟨"m", [.prebuilt "base" (.constant (.ofBits 0x7f000000)),
        .prebuilt "sum" (.derived ⟨[(0, 2.0), (0, -2.0)], 0.0, none⟩)]⟩
    let ranker : Ranker := .ensemble "m" [.split 1 1.0 (.leaf 1.0) (.leaf 2.0)] 2 0.0
    let w : RankingWeight := ⟨[.constant (.ofBits 0x7f000000) true,
      .derived ⟨[(0, 2.0), (0, -2.0)], 0.0, none⟩], ranker, features⟩
    let reader : SegmentReader := ⟨(Segment.empty.add [1]).1, 0, 0⟩
    let s := DocWalk.next (w.scorer reader (some .empty))
    ∃ s' first t again, s.score = .ok (s', first) ∧ s'.score = .ok (t, again) ∧
      first.value = 2.0 ∧ again.value = 1.0 := by
  intro features ranker w reader s
  have hscore : s.score = .ok _ := rfl
  obtain ⟨-, v, after, hfeatures, hvalue, hafter, hlater, -⟩ := RankingQuery.scores_again
    (show Model.make "m" features ranker = .ok ⟨"m", features, ranker, 0⟩ from rfl)
    (show RankingQuery.ofPrebuilt ⟨"m", features, ranker, 0⟩ = .ok
      ⟨[.constant (.ofBits 0x7f000000), .derived ⟨[(0, 2.0), (0, -2.0)], 0.0, none⟩],
        features, ranker, 0⟩ from rfl)
    (show RankingQuery.weight _ ⟨(Shard.empty.add "a" [1] 1).1, none⟩ .empty = (_, .ok w) from rfl)
    (show reader.segment.Built from Segment.Built.empty.add [1])
    (RankingScorer.Reached.fresh.next) (show s.walk.cache = some .empty from rfl)
    (show stop s = .doc 1 from rfl) Nat.one_pos hscore
  obtain ⟨t, again, hagain, -, hvalue', -⟩ := (hlater _ _ after
    (RankingScorer.Reached.fresh.next.score hscore) hafter (ScoreCache.Extends.refl after)).1 rfl
  refine ⟨_, _, t, again, hscore, hagain, ?_, ?_⟩
  · decide
  · rw [hvalue', ← Option.some.inj hfeatures]
    decide

end FeatureRank
