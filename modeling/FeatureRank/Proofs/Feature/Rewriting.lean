import FeatureRank.Proofs.Feature.Query
import FeatureRank.Ranking.Weight

/-! # Rewriting — any number of steps, one key

    Each phase of a request ties the query of a feature to a ranker and brings it
    into canonical form, and may do so to a query that another phase has rewritten
    already.  A step of either kind keeps the query that is asked for in the weight
    cache, so all queries that are reached from one (`FeatureQuery.Rewritten`) share
    its weight (`Rewritten.key`). -/

namespace FeatureRank.FeatureQuery

/-- A query that is tied is tied already. -/
theorem bind_bind {features : Nat} {q tied : FeatureQuery} (h : q.bind features = .ok tied) :
    tied.bind features = .ok tied := by
  induction q generalizing tied with
  | boost inner factor ih =>
      cases hinner : inner.bind features with
      | error refusal =>
          simp only [bind, hinner] at h
          cases h
      | ok under =>
          simp only [bind, hinner] at h
          rw [← Except.ok.inj h, bind, ih hinner]
  | derived sum =>
      simp only [bind] at h
      split at h
      · cases h
      · rw [← Except.ok.inj h]
        rfl
  | _ =>
      rw [← Except.ok.inj h]
      rfl

/-- What becomes of a query as it is tied to rankers of one number of features and
    brought into canonical form by searchers over one shard, in any order. -/
inductive Rewritten (shard : Shard) (features : Nat) (q : FeatureQuery) : FeatureQuery → Prop where
  | refl : Rewritten shard features q q
  | canonical {q' : FeatureQuery} (h : Rewritten shard features q q') (searcher : Searcher)
      (hshard : searcher.shard = shard) :
      Rewritten shard features q (q'.canonical searcher.isEmpty)
  | bind {q' tied : FeatureQuery} (h : Rewritten shard features q q') (ranker : Ranker)
      (hcount : ranker.featureCount = features)
      (htied : q'.bind ranker.featureCount = .ok tied) : Rewritten shard features q tied

/-- **However a query was rewritten**, it is tied still, and has the key of the query. -/
theorem Rewritten.key {features : Nat} {searcher : Searcher} {q q' tied : FeatureQuery}
    (h : Rewritten searcher.shard features q q') (htied : q.bind features = .ok tied) :
    ∃ t, q'.bind features = .ok t ∧
      t.canonical searcher.isEmpty = tied.canonical searcher.isEmpty := by
  induction h with
  | refl => exact ⟨tied, htied, rfl⟩
  | canonical _ other hshard ih =>
      obtain ⟨t, ht, hkey⟩ := ih
      rw [Searcher.isEmpty_eq hshard]
      obtain ⟨t', ht', hkey'⟩ := bind_canonical searcher.isEmpty ht
      exact ⟨t', ht', hkey'.trans hkey⟩
  | bind _ ranker hcount hagain ih =>
      obtain ⟨t, ht, hkey⟩ := ih
      rw [hcount, ht] at hagain
      obtain rfl := Except.ok.inj hagain
      exact ⟨t, bind_bind ht, hkey⟩

/-- **The keys of the weight cache are stable under rewriting.**  On searchers over
    one shard, whatever their statistics, a query has one canonical form, which is
    its own canonical form.  A query that is tied to one ranker is tied alike to
    every ranker with as many features, it is tied when it is in canonical form
    already, and then has the same canonical form; and after any further rewriting
    it still asks the weight cache for the same weight. -/
theorem keys_stable (q : FeatureQuery) {a b : Searcher} (hshard : a.shard = b.shard)
    {r s : Ranker} (hcount : r.featureCount = s.featureCount) :
    (q.canonical a.isEmpty).canonical b.isEmpty = q.canonical a.isEmpty ∧
      q.canonical a.isEmpty = q.canonical b.isEmpty ∧
      ∀ tied, q.bind r.featureCount = .ok tied →
        q.bind s.featureCount = .ok tied ∧
        (∃ t, (q.canonical a.isEmpty).bind s.featureCount = .ok t ∧
          t.canonical b.isEmpty = tied.canonical a.isEmpty) ∧
        ∀ q', q.Rewritten a.shard r.featureCount q' →
          (∃ t, q'.bind s.featureCount = .ok t ∧
            t.canonical b.isEmpty = tied.canonical a.isEmpty) ∧
          ∀ cache : WeightCache,
            q'.weightIn b s.featureCount cache = q.weightIn b r.featureCount cache := by
  rw [← Searcher.isEmpty_eq hshard, ← hcount]
  refine ⟨canonical_canonical _ q, rfl, fun tied htied => ⟨htied, bind_canonical _ htied, ?_⟩⟩
  intro q' hrewritten
  obtain ⟨t, ht, hkey⟩ := hrewritten.key htied
  refine ⟨⟨t, ht, hkey⟩, fun cache => ?_⟩
  rw [Searcher.isEmpty_eq hshard] at hkey
  simp only [weightIn, ht, htied, hkey]

/-- A sum under boosts, one of them by one, has one key for ranking with global
    statistics and for logging without, and once logging has tied it again. -/
theorem keys_stable_logged_sum :
    (∃ t, ((FeatureQuery.boost (.boost (.derived ⟨[(0, -0.0)], 2.0, none⟩) 1.0) 3.0).canonical
        false).bind 1 = .ok t ∧
      t.canonical false = .boost (.bound ⟨[(0, 0.0)], 2.0, none⟩) 3.0) ∧
    ∀ cache : WeightCache,
      (FeatureQuery.boost (.bound ⟨[(0, 0.0)], 2.0, none⟩) 3.0).weightIn
          ⟨(Shard.empty.add "a" [1, 2] 10).1, none⟩ 1 cache
        = (FeatureQuery.boost (.boost (.derived ⟨[(0, -0.0)], 2.0, none⟩) 1.0) 3.0).weightIn
          ⟨(Shard.empty.add "a" [1, 2] 10).1, none⟩ 1 cache := by
  let shard := (Shard.empty.add "a" [1, 2] 10).1
  let ranking : Searcher := ⟨shard, some (.collect [shard, shard] [1])⟩
  obtain ⟨-, -, htied⟩ := keys_stable
    (.boost (.boost (.derived ⟨[(0, -0.0)], 2.0, none⟩) 1.0) 3.0)
    (a := ranking) (b := ⟨shard, none⟩) rfl
    (r := .linear "m" [1.0] 0.5) (s := .logging (.null 1)) rfl
  obtain ⟨-, hlogged, hagain⟩ := htied _ rfl
  refine ⟨hlogged, (hagain _ (.bind (.canonical .refl ranking rfl) (.logging (.null 1)) rfl ?_)).2⟩
  rfl

end FeatureRank.FeatureQuery
