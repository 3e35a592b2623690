import FeatureRank.Proofs.Ranking.Meaning
import FeatureRank.Proofs.Search.Pass

/-! # The meaning of a query

    What a query makes of a document is read off the terms of the document and off
    what the score cache kept for it (`QueryWeight.matchesDoc`,
    `QueryWeight.scoredOn`).  A scorer that is brought to one document after the
    other is where a fresh one would be (`QueryWeight.At`): it stops on the first
    document that matches (`QueryWeight.At.firstMatch`) and scores what the terms
    of the document say (`QueryWeight.At.score`). -/

namespace FeatureRank

open DocWalk

namespace QueryWeight

/-! ## What a query says -/

/-- Whether a document of some terms matches. -/
def matchesDoc (doc : List TermId) : QueryWeight → Bool
  | .plain weight => weight.matchesDoc doc
  | .ranking _ => true
  | .boost inner _ => inner.matchesDoc doc

/-- The score of a document that matches, from the scores that were kept for it if
    there are any. -/
def scoredOn (doc : List TermId) (kept : Option (List Float32)) : QueryWeight → Scored
  | .plain weight => { value := weight.valueOn doc none }
  | .ranking weight => weight.scoredOn doc kept
  | .boost inner factor =>
    let scored := inner.scoredOn doc kept
    { scored with value := scored.value * factor }

/-- The cache after a document was scored. -/
def keptOn (doc : List TermId) (key : Nat) (cache : Option ScoreCache) :
    QueryWeight → Option ScoreCache
  | .plain _ => cache
  | .ranking weight => weight.keptOn doc key cache
  | .boost inner _ => inner.keptOn doc key cache

/-- The explanation of the score of a document. -/
def explanationOn (doc : List TermId) : QueryWeight → Explanation
  | .plain weight => weight.explanationOn doc none
  | .ranking weight => weight.explanationOn doc
  | .boost inner factor =>
    Weight.explainBoost (inner.explanationOn doc) (Weight.boostText inner.description factor)
      factor

/-- A weight whose features have room in the vector of its ranker, with a cache
    whose scores have room there too. -/
def Fits (cache : Option ScoreCache) : QueryWeight → Prop
  | .plain _ => True
  | .ranking weight =>
    weight.weights.length ≤ weight.ranker.featureCount ∧
      ScoreCache.Fits weight.ranker.featureCount cache
  | .boost inner _ => inner.Fits cache

/-- The weight of a query by a model, which matches every document. -/
def Ranks : QueryWeight → Prop
  | .plain _ => False
  | .ranking _ => True
  | .boost inner _ => inner.Ranks

/-- The scores that are kept for a document that none were kept for. -/
def keptScores (doc : List TermId) : QueryWeight → List Float32
  | .plain _ => []
  | .ranking weight =>
    (RankingWeight.collectOn doc 0 weight.emptyVector weight.weights).scores
  | .boost inner _ => inner.keptScores doc

theorem Ranks.matchesDoc {w : QueryWeight} (h : w.Ranks) (doc : List TermId) :
    w.matchesDoc doc = true := by
  induction w with
  | plain weight => exact h.elim
  | ranking weight => rfl
  | boost inner factor ih => exact ih h

/-- A cache that held nothing for a document holds its scores now. -/
theorem Ranks.get?_keptOn_self {w : QueryWeight} (h : w.Ranks) (doc : List TermId) {key : Nat}
    {held : ScoreCache} (hnone : held.get? key = none) :
    (w.keptOn doc key (some held)).bind (·.get? key) = some (w.keptScores doc) := by
  induction w with
  | plain weight => exact h.elim
  | ranking weight => exact weight.get?_keptOn_self doc hnone
  | boost inner factor ih => exact ih h

theorem get?_keptOn (w : QueryWeight) (doc : List TermId) {key other : Nat} (hne : other ≠ key)
    (cache : Option ScoreCache) :
    (w.keptOn doc key cache).bind (·.get? other) = cache.bind (·.get? other) := by
  induction w with
  | plain weight => rfl
  | ranking weight => exact weight.get?_keptOn doc hne cache
  | boost inner factor ih => exact ih

theorem isSome_keptOn (w : QueryWeight) (doc : List TermId) (key : Nat)
    (cache : Option ScoreCache) : (w.keptOn doc key cache).isSome = cache.isSome := by
  induction w with
  | plain weight => rfl
  | ranking weight => exact weight.isSome_keptOn doc key cache
  | boost inner factor ih => exact ih

theorem Fits.keptOn {w : QueryWeight} {cache : Option ScoreCache} (h : w.Fits cache)
    (doc : List TermId) (key : Nat) : w.Fits (w.keptOn doc key cache) := by
  induction w with
  | plain weight => trivial
  | ranking weight => exact ⟨h.1, RankingWeight.fits_keptOn h.1 h.2 doc key⟩
  | boost inner factor ih => exact ih h

theorem Fits.withoutScores {w : QueryWeight} {cache : Option ScoreCache} (h : w.Fits cache) :
    w.Fits none := by
  induction w with
  | plain weight => trivial
  | ranking weight => exact ⟨h.1, ScoreCache.Fits.none _⟩
  | boost inner factor ih => exact ih h

/-! ## Scorers on the way -/

/-- A scorer that was brought to the document after the one of a number, as a fresh
    one would be; it holds the scores of `cache` where `before` was given to it. -/
inductive At (reader : SegmentReader) (before : Option ScoreCache) (here : Nat)
    (cache : Option ScoreCache) : QueryWeight → QueryScorer → Prop where
  | plain {weight : Weight} {fresh s : FeatureScorer} (hcache : cache = before)
      (hfresh : weight.scorer? reader.segment = some fresh)
      (halike : Alike s (DocWalk.advance (here + 1) fresh)) :
      At reader before here cache (.plain weight) (.plain s)
  | ranking {weight : RankingWeight} {s : RankingScorer} (hcache : cache.isSome = before.isSome)
      (htracks : RankingScorer.Tracks weight reader s) (hheld : s.walk.cache = cache)
      (hstop : stop s = if here + 1 ≤ reader.maxDoc then .doc (here + 1) else .exhausted) :
      At reader before here cache (.ranking weight) (.ranking s)
  | boost {inner : QueryWeight} {s : QueryScorer} (h : At reader before here cache inner s)
      (factor : Float32) : At reader before here cache (.boost inner factor) (.boost s factor)

end QueryWeight

namespace QueryScorer

@[simp] theorem reach_plain (target : Nat) (s : FeatureScorer) :
    reach target (plain s) = plain (reach target s) := by
  unfold reach
  exact (apply_ite plain _ _ _).symm

@[simp] theorem reach_ranking (target : Nat) (s : RankingScorer) :
    reach target (ranking s) = ranking (reach target s) := by
  unfold reach
  exact (apply_ite ranking _ _ _).symm

@[simp] theorem reach_boost (target : Nat) (s : QueryScorer) (factor : Float32) :
    reach target (boost s factor) = boost (reach target s) factor := by
  unfold reach
  exact (apply_ite (boost · factor) _ _ _).symm

theorem cache_advance (target : Nat) (s : QueryScorer) :
    (DocWalk.advance target s).cache = s.cache := by
  induction s with
  | plain s => rfl
  | ranking s => exact RankingScorer.cache_advance target s
  | boost inner factor ih => exact ih

end QueryScorer

namespace QueryWeight

variable {reader : SegmentReader} {before cache : Option ScoreCache} {here : Nat}
  {w : QueryWeight} {s : QueryScorer}

/-- A fresh scorer stands before its first document and may be brought to any. -/
theorem At.fresh (hbuilt : reader.segment.Built) (h : w.scorer? reader cache = some s)
    (here : Nat) : stop s = .start ∧ w.At reader cache here cache (reach (here + 1) s) := by
  induction w generalizing s with
  | plain weight =>
      obtain ⟨fresh, hfresh, rfl⟩ := Option.map_eq_some_iff.mp h
      have hstart : stop fresh = .start := (Weight.scorer?_direct hbuilt hfresh).fresh
      refine ⟨hstart, ?_⟩
      rw [QueryScorer.reach_plain, reach_behind (by rw [hstart]; rfl)]
      exact .plain rfl hfresh (Alike.refl _)
  | ranking weight =>
      rw [← Option.some.inj h]
      have htracks := RankingScorer.Tracks.fresh weight reader cache
      refine ⟨rfl, ?_⟩
      rw [QueryScorer.reach_ranking, reach_behind rfl]
      exact .ranking rfl (htracks.advance rfl (Nat.succ_pos here))
        (RankingScorer.cache_advance (here + 1) _) (htracks.advance_stop (Nat.succ_pos here))
  | boost inner factor ih =>
      obtain ⟨t, ht, rfl⟩ := Option.map_eq_some_iff.mp h
      obtain ⟨hstart, hat⟩ := ih ht
      refine ⟨hstart, ?_⟩
      rw [QueryScorer.reach_boost]
      exact .boost hat factor

/-- Brought further it is where a fresh one would be that went straight there. -/
theorem At.reach (hbuilt : reader.segment.Built) (h : w.At reader before here cache s)
    {later : Nat} (hle : here ≤ later) : w.At reader before later cache (reach (later + 1) s) := by
  induction h with
  | plain hcache hfresh halike =>
      rw [QueryScorer.reach_plain]
      refine .plain hcache hfresh ((halike.reach (later + 1)).trans ?_)
      exact (Weight.scorer?_direct hbuilt hfresh).via (Nat.succ_pos here) (Nat.succ_le_succ hle)
  | @ranking weight s hcache htracks hheld hstop =>
      rw [QueryScorer.reach_ranking]
      by_cases hin : here + 1 ≤ reader.maxDoc
      · rw [if_pos hin] at hstop
        by_cases hlt : here + 1 < later + 1
        · rw [reach_behind (by rw [hstop]; exact decide_eq_true hlt)]
          exact .ranking hcache (htracks.advance hstop hlt)
            ((RankingScorer.cache_advance (later + 1) s).trans hheld)
            (htracks.advance_stop (Nat.succ_pos later))
        · have heq : here = later := by omega
          rw [reach_ahead (by rw [hstop]; exact decide_eq_false hlt), ← heq]
          exact .ranking hcache htracks hheld (by rw [hstop, if_pos hin])
      · rw [if_neg hin] at hstop
        rw [reach_ahead (by rw [hstop]; rfl)]
        exact .ranking hcache htracks hheld (by rw [hstop, if_neg (by omega)])
  | boost h factor ih =>
      rw [QueryScorer.reach_boost]
      exact .boost ih factor

/-- What the scorer holds, or else what was given to it, is what it was said to hold. -/
theorem At.cache_or (h : w.At reader before here cache s) : s.cache.or before = cache := by
  induction h with
  | plain hcache hfresh halike => exact hcache.symm
  | @ranking weight s hcache htracks hheld hstop =>
      show s.walk.cache.or before = cache
      rw [hheld]
      cases cache with
      | none => exact Option.isNone_iff_eq_none.mp (by simpa using hcache.symm)
      | some held => rfl
  | boost h factor ih => exact ih

/-- **Where it stops**: on the first document from its target on that matches. -/
theorem At.firstMatch {earlier rest : List (List TermId)}
    (hsegment : reader.segment = .ofDocs (earlier ++ rest))
    (h : w.At reader before earlier.length cache s) :
    Weight.FirstMatch (w.matchesDoc ·) earlier.length rest s.stop := by
  induction h with
  | plain hcache hfresh halike =>
      rw [hsegment] at hfresh
      rw [show QueryScorer.stop (.plain _) = _ from halike.stop_eq]
      exact Weight.firstMatch hfresh
  | ranking hcache htracks hheld hstop =>
      have hmax : reader.maxDoc = earlier.length + rest.length := by
        show reader.segment.maxDoc = _
        rw [hsegment, Segment.maxDoc_ofDocs, List.length_append]
      rw [show QueryScorer.stop (.ranking _) = _ from hstop, hmax]
      cases rest with
      | nil =>
          rw [if_neg (by rw [List.length_nil]; omega)]
          exact .none (List.forall_mem_nil _)
      | cons doc later =>
          rw [if_pos (by rw [List.length_cons]; omega)]
          have hfound : Weight.FirstMatch (fun _ => true) earlier.length ([] ++ doc :: later)
              (.doc (earlier.length + [].length + 1)) := .found (List.forall_mem_nil _) rfl
          exact hfound
  | boost h factor ih => exact ih

/-- **The score where it stands** is the one that the terms of the document have. -/
theorem At.score {docs : List (List TermId)} (hsegment : reader.segment = .ofDocs docs)
    (h : w.At reader before here cache s) (hfits : w.Fits cache) {index : Nat}
    {doc : List TermId} (hdoc : docs[index]? = some doc) (hstop : s.stop = .doc (index + 1)) :
    ∃ s', s.score = .ok (s', w.scoredOn doc (cache.bind (·.get? (reader.docBase + (index + 1))))) ∧
      w.At reader before here (w.keptOn doc (reader.docBase + (index + 1)) cache) s' ∧
      s'.stop = s.stop := by
  induction h with
  | @plain weight fresh s hcache hfresh halike =>
      have hon : (fresh.advance (here + 1)).stop = .doc (index + 1) :=
        halike.stop_eq.symm.trans hstop
      have hs : s = fresh.advance (here + 1) := halike.eq_of_doc hon
      have hfresh' := hfresh
      rw [hsegment] at hfresh'
      obtain ⟨place, doc', hplace, -, hdoc', -, hreads⟩ := Weight.matches_of_stop hfresh' hon
      have hsame : doc' = doc := by
        rw [← Nat.succ.inj hplace, hdoc] at hdoc'
        exact (Option.some.inj hdoc').symm
      rw [hsame, ← hs] at hreads
      exact ⟨.plain s, bind_eq_ok.mpr ⟨_, hreads.score none, rfl⟩, .plain hcache hfresh halike, rfl⟩
  | @ranking weight s hcache htracks hheld hat =>
      rw [← hheld] at hfits ⊢
      obtain ⟨s', hscore, htracks', hstop', hcache'⟩ :=
        htracks.score_ofDocs hdoc hsegment hfits.1 hfits.2 hstop
      refine ⟨.ranking s', bind_eq_ok.mpr ⟨_, hscore, rfl⟩, .ranking ?_ htracks' hcache' ?_, hstop'⟩
      · rw [← hcache, ← hheld]
        exact weight.isSome_keptOn doc _ _
      · rw [hstop']
        exact hat
  | boost h factor ih =>
      obtain ⟨s', hscore, hat, hstop'⟩ := ih hfits hstop
      exact ⟨.boost s' factor, bind_eq_ok.mpr ⟨_, hscore, rfl⟩, .boost hat factor, hstop'⟩

/-! ## Explanations -/

/-- **How the score of a document comes about** is read off its terms. -/
theorem explain_ofDocs {docs : List (List TermId)} {index : Nat} {doc : List TermId}
    (hdoc : docs[index]? = some doc) (hfits : w.Fits cache) :
    w.explain (.ofDocs docs) (index + 1) = .ok (w.explanationOn doc) := by
  induction w with
  | plain weight => exact Weight.explain_ofDocs hdoc none weight
  | ranking weight => exact RankingWeight.explain_ofDocs hdoc hfits.1
  | boost inner factor ih => exact bind_eq_ok.mpr ⟨_, ih hfits, rfl⟩

end QueryWeight

end FeatureRank
