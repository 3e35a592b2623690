import FeatureRank.Proofs.Ranking.Scorer
import FeatureRank.Search.Visit

/-! # Passes and visits of a ranking query

    A pass and a list of visits both bring one ranking scorer to documents further
    and further on and score it there.  As long as the cache holds none of these
    documents before, each of them gets its vector by the definition
    (`RankingWeight.Scores`), and the cache gets just what was scored
    (`Records`).

    A ranking query that a log may record is a ranking query or one under a single
    boost, so everything here is about a ranking weight `under` an optional factor. -/

namespace FeatureRank

open DocWalk

/-! ## A ranking query under a boost -/

/-- A score under an optional boost. -/
def boosted (factor : Option Float32) (score : Float32) : Float32 :=
  match factor with
  | none => score
  | some factor => score * factor

/-- A ranking weight as the weight of a query, under an optional boost. -/
def RankingWeight.under (w : RankingWeight) : Option Float32 → QueryWeight
  | none => .ranking w
  | some factor => .boost (.ranking w) factor

namespace RankingScorer

/-- A ranking scorer as the scorer of a query, under an optional boost. -/
def under (s : RankingScorer) : Option Float32 → QueryScorer
  | none => .ranking s
  | some factor => .boost (.ranking s) factor

@[simp] theorem stop_under (s : RankingScorer) (factor : Option Float32) :
    (s.under factor).stop = stop s := by cases factor <;> rfl

@[simp] theorem cache_under (s : RankingScorer) (factor : Option Float32) :
    (s.under factor).cache = s.walk.cache := by cases factor <;> rfl

@[simp] theorem advance_under (target : Nat) (s : RankingScorer) (factor : Option Float32) :
    DocWalk.advance target (s.under factor) = (DocWalk.advance target s).under factor := by
  cases factor <;> rfl

theorem score_under {s s' : RankingScorer} {scored : Scored} (h : s.score = .ok (s', scored))
    (factor : Option Float32) :
    ∃ under, (s.under factor).score = .ok (s'.under factor, under) ∧
      under.features = scored.features ∧ under.value = boosted factor scored.value := by
  have hranking : (QueryScorer.ranking s).score = .ok (.ranking s', scored) :=
    bind_eq_ok.mpr ⟨_, h, rfl⟩
  cases factor with
  | none => exact ⟨scored, hranking, rfl, rfl⟩
  | some factor => exact ⟨_, bind_eq_ok.mpr ⟨_, hranking, rfl⟩, rfl, rfl⟩

end RankingScorer

theorem RankingWeight.scorer?_under (w : RankingWeight) (factor : Option Float32)
    (reader : SegmentReader) (cache : Option ScoreCache) :
    (w.under factor).scorer? reader cache = some ((w.scorer reader cache).under factor) := by
  cases factor <;> rfl

/-! ## What scoring a document comes to -/

/-- The score of a document of a segment by the definition, under an optional
    boost. -/
def RankingWeight.Scores (w : RankingWeight) (factor : Option Float32) (segment : Segment)
    (doc : Nat) (scored : Scored) : Prop :=
  ∃ v, scored.features = some v ∧ w.Describes segment doc v ∧
    scored.value = boosted factor (w.ranker.score v)

/-- A cache after some documents, by their absolute numbers, were scored: it is
    there if it was before, and each of its entries was there or is what is kept of
    the vector of one of the documents. -/
def Records (features : Nat) (scores : List (Nat × Scored)) (before after : Option ScoreCache) :
    Prop :=
  after.isSome = before.isSome ∧
    ∀ held more, before = some held → after = some more → ∀ doc kept, more.get? doc = some kept →
      held.get? doc = some kept ∨
        ∃ scored v, (doc, scored) ∈ scores ∧ scored.features = some v ∧ kept = v.kept 0 features

namespace Records

variable {features : Nat}

theorem refl (cache : Option ScoreCache) : Records features [] cache cache := by
  refine ⟨rfl, ?_⟩
  intro held more hheld hmore doc kept hget
  rw [hheld] at hmore
  rw [Option.some.inj hmore]
  exact Or.inl hget

theorem trans {earlier later : List (Nat × Scored)} {a b c : Option ScoreCache}
    (hab : Records features earlier a b) (hbc : Records features later b c) :
    Records features (earlier ++ later) a c := by
  refine ⟨hbc.1.trans hab.1, ?_⟩
  intro held more hheld hmore doc kept hget
  have hb : b.isSome = true := by rw [hab.1, hheld]; rfl
  obtain ⟨between, hbetween⟩ := Option.isSome_iff_exists.mp hb
  rcases hbc.2 between more hbetween hmore doc kept hget with h | ⟨scored, v, hmem, hv⟩
  · rcases hab.2 held between hheld hbetween doc kept h with h | ⟨scored, v, hmem, hv⟩
    · exact Or.inl h
    · exact Or.inr ⟨scored, v, List.mem_append_left _ hmem, hv⟩
  · exact Or.inr ⟨scored, v, List.mem_append_right _ hmem, hv⟩

/-- One document scored. -/
theorem one {doc : Nat} {scored : Scored} {v : FeatureVector} (hv : scored.features = some v)
    (cache : Option ScoreCache) :
    Records features [(doc, scored)] cache
      (cache.map (·.insertOnce doc (v.kept 0 features))) := by
  refine ⟨Option.isSome_map, ?_⟩
  intro held more hheld hmore other kept hget
  rw [hheld] at hmore
  rw [← Option.some.inj hmore, ScoreCache.get?_insertOnce] at hget
  by_cases hnew : other = doc ∧ held.get? doc = none
  · rw [if_pos hnew] at hget
    refine Or.inr ⟨scored, v, ?_, hv, (Option.some.inj hget).symm⟩
    rw [hnew.1]
    exact List.mem_singleton_self _
  · rw [if_neg hnew] at hget
    exact Or.inl hget

end Records

/-! ## A scorer brought from document to document -/

namespace RankingScorer

/-- A scorer that may score any document further on by the definition: the cache
    holds none of them yet. -/
structure Ready (w : RankingWeight) (reader : SegmentReader) (here : Nat) (s : RankingScorer) :
    Prop where
  tracks : Tracks w reader s
  stop_eq : stop s = .doc here
  free : ∀ doc, here < doc → doc ≤ reader.maxDoc → s.walk.isHeld doc = false

variable {w : RankingWeight} {reader : SegmentReader}

/-- Going to a document further on and passing it over. -/
theorem Ready.advance {here doc : Nat} {s : RankingScorer} (h : Ready w reader here s)
    (hlt : here < doc) (hle : doc ≤ reader.maxDoc) :
    Ready w reader doc (DocWalk.advance doc s) := by
  refine ⟨h.tracks.advance h.stop_eq hlt, ?_, ?_⟩
  · rw [h.tracks.advance_stop (by omega), if_pos hle]
  · intro other hother hinside
    rw [isHeld_advance]
    exact h.free other (by omega) hinside

/-- **Going to a document further on and scoring it**: the score is the one by the
    definition, it is recorded, and the scorer may go on. -/
theorem Ready.score {here doc : Nat} {s : RankingScorer} (h : Ready w reader here s)
    (hbuilt : reader.segment.Built) (hcount : w.weights.length ≤ w.ranker.featureCount)
    (factor : Option Float32) (hlt : here < doc) (hle : doc ≤ reader.maxDoc) :
    ∃ s' scored,
      ((DocWalk.advance doc s).under factor).score = .ok (s'.under factor, scored) ∧
      w.Scores factor reader.segment doc scored ∧ Ready w reader doc s' ∧
      Records w.weights.length [(reader.docBase + doc, scored)] s.walk.cache s'.walk.cache := by
  have hthere := h.advance hlt hle
  have hfree : (DocWalk.advance doc s).walk.isHeld doc = false := by
    rw [isHeld_advance]
    exact h.free doc hlt hle
  obtain ⟨s', scored, v, hscore, hfeatures, hdescribes, hvalue, hrecorded⟩ :=
    hthere.tracks.score_ok hbuilt hcount hthere.stop_eq (by omega) hfree
  obtain ⟨hstop, hbase'⟩ := score_stop hscore
  obtain ⟨under, hunder, hsame, hboosted⟩ := score_under hscore factor
  rw [cache_advance] at hrecorded
  rw [← hsame] at hfeatures
  refine ⟨s', under, hunder, ⟨v, hfeatures, hdescribes, ?_⟩, ⟨hthere.tracks.score hscore, hstop.trans hthere.stop_eq, ?_⟩, ?_⟩
  · rw [hboosted, hvalue]
  -- documents further on are still free: only this one was recorded
  · intro other hother hinside
    have hbefore := hthere.free other hother hinside
    unfold Disjunction.isHeld Disjunction.absolute at hbefore ⊢
    rw [cache_advance, hthere.tracks.docBase] at hbefore
    rw [hrecorded, hbase', hthere.tracks.docBase]
    cases hheld : s.walk.cache with
    | none => rfl
    | some held =>
        rw [hheld] at hbefore
        refine ScoreCache.contains_eq_false.mpr ?_
        rw [ScoreCache.get?_insertOnce, if_neg (fun h => by omega)]
        exact ScoreCache.contains_eq_false.mp hbefore
  · rw [hrecorded]
    exact Records.one hfeatures _

/-- Going to the next document. -/
theorem Ready.next_under {here : Nat} {s : RankingScorer} (h : Ready w reader here s)
    (factor : Option Float32) :
    next (s.under factor) = (DocWalk.advance (here + 1) s).under factor := by
  have hstop : stop (s.under factor) = .doc here := (stop_under s factor).trans h.stop_eq
  rw [next_doc hstop, advance_under]

/-- Going to a document further on. -/
theorem Ready.reach_under {here doc : Nat} {s : RankingScorer} (h : Ready w reader here s)
    (hlt : here < doc) (factor : Option Float32) :
    reach doc (s.under factor) = (DocWalk.advance doc s).under factor := by
  have hstop : stop (s.under factor) = .doc here := (stop_under s factor).trans h.stop_eq
  rw [reach_behind (by rw [hstop]; exact decide_eq_true hlt), advance_under]

/-- **A pass scores just the allowed documents**, each by the definition. -/
theorem Ready.passFrom (hbuilt : reader.segment.Built)
    (hcount : w.weights.length ≤ w.ranker.featureCount) (factor : Option Float32)
    (allowed : Nat → Bool) (stops : Nat) :
    ∀ {here : Nat} {s : RankingScorer}, Ready w reader here s → here + stops = reader.maxDoc →
      ∃ scores, ∃ s' : RankingScorer,
        (s.under factor).passFrom allowed stops = .ok (scores, s'.under factor) ∧
        scores.map (·.1) = (List.range' (here + 1) stops).filter allowed ∧
        (∀ x ∈ scores, w.Scores factor reader.segment x.1 x.2) ∧
        Records w.weights.length (scores.map fun x => (reader.docBase + x.1, x.2))
          s.walk.cache s'.walk.cache := by
  induction stops with
  | zero =>
      intro here s _ _
      exact ⟨[], s, rfl, rfl, fun x hx => (nomatch hx), Records.refl _⟩
  | succ stops ih =>
      intro here s h hall
      have hlt : here < here + 1 := Nat.lt_succ_self here
      have hle : here + 1 ≤ reader.maxDoc := by omega
      have hthere : ((DocWalk.advance (here + 1) s).under factor).stop = .doc (here + 1) :=
        (stop_under _ factor).trans (h.advance hlt hle).stop_eq
      -- each stop is at the very next document, whether or not the filter allows it
      unfold QueryScorer.passFrom
      simp only [h.next_under factor, hthere]
      rw [List.range'_succ]
      by_cases hallowed : allowed (here + 1) = true
      · rw [if_pos hallowed, List.filter_cons_of_pos hallowed]
        obtain ⟨s', scored, hscore, hscores, hready, hrecords⟩ :=
          h.score hbuilt hcount factor hlt hle
        obtain ⟨rest, s'', hrest, hdocs, hothers, hmore⟩ := ih hready (by omega)
        refine ⟨(here + 1, scored) :: rest, s'', ?_, ?_, ?_, hrecords.trans hmore⟩
        · exact bind_eq_ok.mpr ⟨_, hscore, bind_eq_ok.mpr ⟨_, hrest, rfl⟩⟩
        · rw [List.map_cons, hdocs]
        · intro x hx
          rcases List.mem_cons.mp hx with heq | hmem
          · rw [heq]; exact hscores
          · exact hothers x hmem
      · rw [if_neg hallowed, List.filter_cons_of_neg hallowed]
        obtain ⟨rest, s', hrest, hdocs, hothers, hmore⟩ := ih (h.advance hlt hle) (by omega)
        rw [cache_advance] at hmore
        exact ⟨rest, s', hrest, hdocs, hothers, hmore⟩

/-- **Visits score just the wanted documents**, each by the definition. -/
theorem Ready.visitAll (hbuilt : reader.segment.Built)
    (hcount : w.weights.length ≤ w.ranker.featureCount) (factor : Option Float32)
    (wanted : List (Nat × Nat)) :
    ∀ {here : Nat} {s : RankingScorer}, Ready w reader here s →
      wanted.Pairwise (fun a b => a.2 < b.2) →
      (∀ x ∈ wanted, here < x.2 ∧ x.2 ≤ reader.maxDoc) →
      ∃ visits, ∃ s' : RankingScorer,
        (s.under factor).visitAll wanted = .ok (visits, s'.under factor) ∧
        visits.map (fun x => (x.1, x.2.1)) = wanted ∧
        (∀ x ∈ visits, w.Scores factor reader.segment x.2.1 x.2.2) ∧
        Records w.weights.length (visits.map fun x => (reader.docBase + x.2.1, x.2.2))
          s.walk.cache s'.walk.cache := by
  induction wanted with
  | nil =>
      intro here s _ _ _
      exact ⟨[], s, rfl, rfl, fun x hx => (nomatch hx), Records.refl _⟩
  | cons first rest ih =>
      intro here s h hasc hinside
      obtain ⟨index, doc⟩ := first
      obtain ⟨hlater, hrest⟩ := List.pairwise_cons.mp hasc
      -- the wanted documents ascend, so the scorer is behind each of them when its turn comes
      obtain ⟨hlt, hle⟩ := hinside (index, doc) List.mem_cons_self
      have hthere : ((DocWalk.advance doc s).under factor).stop = .doc doc :=
        (stop_under _ factor).trans (h.advance hlt hle).stop_eq
      obtain ⟨s', scored, hscore, hscores, hready, hrecords⟩ :=
        h.score hbuilt hcount factor hlt hle
      obtain ⟨visits, s'', hvisits, hwanted, hothers, hmore⟩ := ih hready hrest
        fun x hx => ⟨hlater x hx, (hinside x (List.mem_cons_of_mem _ hx)).2⟩
      unfold QueryScorer.visitAll
      simp only [h.reach_under hlt factor, hthere, if_true]
      refine ⟨(index, doc, scored) :: visits, s'', ?_, ?_, ?_, hrecords.trans hmore⟩
      · exact bind_eq_ok.mpr ⟨_, hscore, bind_eq_ok.mpr ⟨_, hvisits, rfl⟩⟩
      · rw [List.map_cons, hwanted]
      · intro x hx
        rcases List.mem_cons.mp hx with heq | hmem
        · rw [heq]; exact hscores
        · exact hothers x hmem

/-- A new scorer is ready before the first document, when the cache holds none of
    the segment. -/
theorem Ready.fresh (w : RankingWeight) (reader : SegmentReader) {cache : Option ScoreCache}
    (hfree : ∀ held, cache = some held → ∀ doc, 0 < doc → doc ≤ reader.maxDoc →
      held.contains (reader.docBase + doc) = false) :
    Ready w reader 0 (w.scorer reader cache) := by
  refine ⟨Tracks.fresh w reader cache, rfl, ?_⟩
  intro doc hpos hle
  unfold Disjunction.isHeld
  cases hcache : cache with
  | none => rfl
  | some held => exact hfree held hcache doc hpos hle

end RankingScorer

/-! ## Segment after segment -/

/-- A cache that holds no document of some segments yet. -/
def Free (readers : List SegmentReader) (cache : Option ScoreCache) : Prop :=
  ∀ held, cache = some held → ∀ reader ∈ readers, ∀ doc, 0 < doc → doc ≤ reader.maxDoc →
    held.contains (reader.docBase + doc) = false

theorem Free.none (readers : List SegmentReader) : Free readers none := fun _ h => nomatch h

theorem Free.empty (readers : List SegmentReader) : Free readers (some .empty) := by
  intro held hheld reader _ doc _ _
  rw [← Option.some.inj hheld]
  exact ScoreCache.contains_eq_false.mpr Std.TreeMap.getElem?_emptyc

/-- The first segment is free by itself. -/
theorem Free.head {reader : SegmentReader} {rest : List SegmentReader} {cache : Option ScoreCache}
    (h : Free (reader :: rest) cache) : Free [reader] cache := by
  intro held hheld r hr
  rw [List.mem_singleton.mp hr]
  exact h held hheld reader List.mem_cons_self

/-- Once documents of the first segment were scored, the others are still free. -/
theorem Free.rest {reader : SegmentReader} {rest : List SegmentReader} {features : Nat}
    {scores : List (Nat × Scored)} {before after : Option ScoreCache}
    (h : Free (reader :: rest) before)
    (hlater : ∀ r ∈ rest, reader.docBase + reader.maxDoc ≤ r.docBase)
    (hrecords : Records features scores before after)
    (hscores : ∀ x ∈ scores, ∃ doc, doc ≤ reader.maxDoc ∧ x.1 = reader.docBase + doc) :
    Free rest after := by
  intro more hmore r hr doc hpos hle
  have hbefore : before.isSome = true := by rw [← hrecords.1, hmore]; rfl
  obtain ⟨held, hheld⟩ := Option.isSome_iff_exists.mp hbefore
  refine ScoreCache.contains_eq_false.mpr ?_
  cases hget : more.get? (r.docBase + doc) with
  | none => rfl
  | some kept =>
      rcases hrecords.2 held more hheld hmore _ kept hget with hold | ⟨scored, v, hmem, -⟩
      · have hnone := ScoreCache.contains_eq_false.mp
          (h held hheld r (List.mem_cons_of_mem _ hr) doc hpos hle)
        rw [hnone] at hold
        exact nomatch hold
      · obtain ⟨d, hd, heq⟩ := hscores _ hmem
        have hbase := hlater r hr
        omega

/-- The cache that a scorer gives back is the one that it filled. -/
theorem Records.or_eq {features : Nat} {scores : List (Nat × Scored)}
    {before after : Option ScoreCache} (h : Records features scores before after) :
    after.or before = after := by
  cases after with
  | some more => rfl
  | none =>
      cases before with
      | none => rfl
      | some held => exact nomatch h.1

namespace RankingWeight

variable {w : RankingWeight} {factor : Option Float32}

/-- A pass over one segment. -/
theorem pass_under (factor : Option Float32) {reader : SegmentReader} (hbuilt : reader.segment.Built)
    (hcount : w.weights.length ≤ w.ranker.featureCount) (allowed : Nat → Bool)
    {cache : Option ScoreCache} (hfree : Free [reader] cache) :
    ∃ scores after, (w.under factor).pass reader allowed cache = .ok (scores, after) ∧
      scores.map (·.1) = (List.range' 1 reader.maxDoc).filter allowed ∧
      (∀ x ∈ scores, w.Scores factor reader.segment x.1 x.2) ∧
      Records w.weights.length (scores.map fun x => (reader.docBase + x.1, x.2)) cache after := by
  have hready := RankingScorer.Ready.fresh w reader
    fun held hheld => hfree held hheld reader (List.mem_singleton_self reader)
  obtain ⟨scores, s', hpass, hdocs, hscores, hrecords⟩ :=
    RankingScorer.Ready.passFrom hbuilt hcount factor allowed reader.maxDoc hready (Nat.zero_add _)
  have hrecords : Records _ _ cache s'.walk.cache := hrecords
  refine ⟨scores, s'.walk.cache, ?_, hdocs, hscores, hrecords⟩
  unfold QueryWeight.pass
  rw [scorer?_under]
  refine bind_eq_ok.mpr ⟨_, hpass, ?_⟩
  simp only [RankingScorer.cache_under, hrecords.or_eq]
  rfl

/-- What visits to documents of a list come to: each is to a document of the list
    in one of the segments, each such document is visited, and just these are
    recorded. -/
structure Visited (w : RankingWeight) (factor : Option Float32) (readers : List SegmentReader)
    (places : List (Nat × Nat)) (visits : List (Nat × Nat × Scored))
    (before after : Option ScoreCache) : Prop where
  sound : ∀ x ∈ visits, ∃ reader ∈ readers, 0 < x.2.1 ∧ x.2.1 ≤ reader.maxDoc ∧
    (reader.docBase + x.2.1, x.1) ∈ places ∧ w.Scores factor reader.segment x.2.1 x.2.2
  complete : ∀ reader ∈ readers, ∀ doc index, 0 < doc → doc ≤ reader.maxDoc →
    (reader.docBase + doc, index) ∈ places → ∃ scored, (index, doc, scored) ∈ visits
  records : ∃ scores, Records w.weights.length scores before after ∧
    ∀ x ∈ scores, ∃ reader ∈ readers, ∃ index doc, 0 < doc ∧ doc ≤ reader.maxDoc ∧
      x.1 = reader.docBase + doc ∧ (x.1, index) ∈ places ∧ (index, doc, x.2) ∈ visits ∧
      w.Scores factor reader.segment doc x.2

theorem covers_iff {reader : SegmentReader} {doc : Nat} :
    reader.covers doc = true ↔
      ∃ inside, 0 < inside ∧ inside ≤ reader.maxDoc ∧ doc = reader.docBase + inside := by
  unfold SegmentReader.covers
  rw [Bool.and_eq_true, decide_eq_true_eq, decide_eq_true_eq]
  constructor
  · rintro ⟨hlt, hle⟩
    exact ⟨doc - reader.docBase, by omega, by omega, by omega⟩
  · rintro ⟨inside, hpos, hle, heq⟩
    omega

/-- The places of a list that lie in a segment, with the documents inside it. -/
def insideOf (reader : SegmentReader) (places : List (Nat × Nat)) : List (Nat × Nat) :=
  places.filterMap fun x =>
    if reader.covers x.1 then some (x.2, x.1 - reader.docBase) else none

theorem mem_insideOf {reader : SegmentReader} {places : List (Nat × Nat)} {index doc : Nat} :
    (index, doc) ∈ insideOf reader places ↔
      0 < doc ∧ doc ≤ reader.maxDoc ∧ (reader.docBase + doc, index) ∈ places := by
  unfold insideOf
  rw [List.mem_filterMap]
  constructor
  · rintro ⟨⟨absolute, i⟩, hin, heq⟩
    by_cases hcovers : reader.covers absolute = true
    · simp only [hcovers, if_true] at heq
      obtain ⟨hi, hd⟩ := Prod.mk.inj (Option.some.inj heq)
      obtain ⟨inside, hpos, hle, habsolute⟩ := covers_iff.mp hcovers
      have hdoc : inside = doc := by omega
      rw [← hi, ← hdoc, ← habsolute]
      exact ⟨hpos, hle, hin⟩
    · simp only [hcovers] at heq
      exact nomatch heq
  · rintro ⟨hpos, hle, hin⟩
    refine ⟨_, hin, ?_⟩
    have hcovers : reader.covers (reader.docBase + doc) = true :=
      covers_iff.mpr ⟨doc, hpos, hle, rfl⟩
    simp only [hcovers, if_true, Nat.add_sub_cancel_left]

/-- Places in ascending order are in this order inside a segment, too. -/
theorem insideOf_pairwise (reader : SegmentReader) {places : List (Nat × Nat)}
    (h : places.Pairwise fun a b => a.1 < b.1) :
    (insideOf reader places).Pairwise fun a b => a.2 < b.2 := by
  refine List.pairwise_filterMap.mpr (h.imp ?_)
  intro a b hab x hx y hy
  by_cases ha : reader.covers a.1 = true
  · by_cases hb : reader.covers b.1 = true
    · simp only [ha, if_true] at hx
      simp only [hb, if_true] at hy
      obtain ⟨i, hi, -, hia⟩ := covers_iff.mp ha
      rw [← Option.some.inj hx, ← Option.some.inj hy]
      show a.1 - reader.docBase < b.1 - reader.docBase
      omega
    · simp only [hb] at hy
      exact nomatch hy
  · simp only [ha] at hx
    exact nomatch hx

/-- Visits in one segment. -/
theorem visitSegment_under (factor : Option Float32) {reader : SegmentReader}
    (hbuilt : reader.segment.Built) (hcount : w.weights.length ≤ w.ranker.featureCount)
    {places : List (Nat × Nat)} (hasc : places.Pairwise fun a b => a.1 < b.1)
    {cache : Option ScoreCache} (hfree : Free [reader] cache) :
    ∃ visits after, (w.under factor).visitSegment reader places cache = .ok (visits, after) ∧
      Visited w factor [reader] places visits cache after := by
  have hready := RankingScorer.Ready.fresh w reader
    fun held hheld => hfree held hheld reader (List.mem_singleton_self reader)
  obtain ⟨visits, s', hvisits, hmap, hscores, hrecords⟩ :=
    RankingScorer.Ready.visitAll hbuilt hcount factor _ hready (insideOf_pairwise reader hasc)
      fun x hx => ⟨(mem_insideOf.mp hx).1, (mem_insideOf.mp hx).2.1⟩
  have hrecords : Records _ _ cache s'.walk.cache := hrecords
  refine ⟨visits, s'.walk.cache, ?_, ?_, ?_, ?_⟩
  · unfold QueryWeight.visitSegment
    rw [scorer?_under]
    refine bind_eq_ok.mpr ⟨_, hvisits, ?_⟩
    simp only [RankingScorer.cache_under, hrecords.or_eq]
    rfl
  · intro x hx
    have hin : (x.1, x.2.1) ∈ visits.map (fun x => (x.1, x.2.1)) := List.mem_map_of_mem hx
    rw [hmap] at hin
    obtain ⟨hpos, hle, hplace⟩ := mem_insideOf.mp hin
    exact ⟨reader, List.mem_singleton_self reader, hpos, hle, hplace, hscores x hx⟩
  · intro r hr doc index hpos hle hplace
    rw [List.mem_singleton.mp hr] at hle hplace
    have hin := mem_insideOf.mpr ⟨hpos, hle, hplace⟩
    rw [← hmap] at hin
    obtain ⟨x, hx, heq⟩ := List.mem_map.mp hin
    obtain ⟨hindex, hdoc⟩ := Prod.mk.inj heq
    refine ⟨x.2.2, ?_⟩
    rw [← hindex, ← hdoc]
    exact hx
  · refine ⟨_, hrecords, ?_⟩
    intro y hy
    obtain ⟨x, hx, heq⟩ := List.mem_map.mp hy
    have hin : (x.1, x.2.1) ∈ visits.map (fun x => (x.1, x.2.1)) := List.mem_map_of_mem hx
    rw [hmap] at hin
    obtain ⟨hpos, hle, hplace⟩ := mem_insideOf.mp hin
    rw [← heq]
    exact ⟨reader, List.mem_singleton_self reader, x.1, x.2.1, hpos, hle, rfl, hplace, hx,
      hscores x hx⟩

/-- Visits in one segment and then in the others. -/
theorem Visited.cons {reader : SegmentReader} {rest : List SegmentReader}
    {places : List (Nat × Nat)} {visits others : List (Nat × Nat × Scored)}
    {before between after : Option ScoreCache}
    (h : Visited w factor [reader] places visits before between)
    (hrest : Visited w factor rest places others between after) :
    Visited w factor (reader :: rest) places (visits ++ others) before after := by
  obtain ⟨scores, hrecords, hscores⟩ := h.records
  obtain ⟨scores', hrecords', hscores'⟩ := hrest.records
  refine ⟨?_, ?_, scores ++ scores', hrecords.trans hrecords', ?_⟩
  · intro x hx
    rcases List.mem_append.mp hx with hx | hx
    · obtain ⟨r, hr, hby⟩ := h.sound x hx
      rw [List.mem_singleton.mp hr] at hby
      exact ⟨reader, List.mem_cons_self, hby⟩
    · obtain ⟨r, hr, hby⟩ := hrest.sound x hx
      exact ⟨r, List.mem_cons_of_mem _ hr, hby⟩
  · intro r hr doc index hpos hle hplace
    rcases List.mem_cons.mp hr with heq | hr
    · rw [heq] at hle hplace
      obtain ⟨scored, hin⟩ := h.complete reader (List.mem_singleton_self reader)
        doc index hpos hle hplace
      exact ⟨scored, List.mem_append_left _ hin⟩
    · obtain ⟨scored, hin⟩ := hrest.complete r hr doc index hpos hle hplace
      exact ⟨scored, List.mem_append_right _ hin⟩
  · intro x hx
    rcases List.mem_append.mp hx with hx | hx
    · obtain ⟨r, hr, index, doc, hpos, hle, heq, hplace, hin, hby⟩ := hscores x hx
      rw [List.mem_singleton.mp hr] at hle heq hby
      exact ⟨reader, List.mem_cons_self, index, doc, hpos, hle, heq, hplace,
        List.mem_append_left _ hin, hby⟩
    · obtain ⟨r, hr, index, doc, hpos, hle, heq, hplace, hin, hby⟩ := hscores' x hx
      exact ⟨r, List.mem_cons_of_mem _ hr, index, doc, hpos, hle, heq, hplace,
        List.mem_append_right _ hin, hby⟩

/-- Visits segment by segment. -/
theorem visitSegments_under (hcount : w.weights.length ≤ w.ranker.featureCount)
    {places : List (Nat × Nat)} (hasc : places.Pairwise fun a b => a.1 < b.1)
    (readers : List SegmentReader) :
    ∀ {cache : Option ScoreCache}, (∀ r ∈ readers, r.segment.Built) →
      readers.Pairwise (fun a b => a.docBase + a.maxDoc ≤ b.docBase) → Free readers cache →
      ∃ visits after, (w.under factor).visitSegments places readers cache = .ok (visits, after) ∧
        Visited w factor readers places visits cache after := by
  induction readers with
  | nil =>
      intro cache _ _ _
      exact ⟨[], cache, rfl, fun x hx => (nomatch hx), fun r hr => (nomatch hr),
        [], Records.refl cache, fun x hx => nomatch hx⟩
  | cons reader rest ih =>
      intro cache hbuilt hpairs hfree
      obtain ⟨hlater, hrest⟩ := List.pairwise_cons.mp hpairs
      obtain ⟨visits, between, hvisits, hvisited⟩ := visitSegment_under factor
        (hbuilt reader List.mem_cons_self) hcount hasc hfree.head
      obtain ⟨scores, hrecords, hscores⟩ := hvisited.records
      have hfree' : Free rest between := by
        refine hfree.rest hlater hrecords ?_
        intro x hx
        obtain ⟨r, hr, index, doc, -, hle, heq, -⟩ := hscores x hx
        rw [List.mem_singleton.mp hr] at hle heq
        exact ⟨doc, hle, heq⟩
      obtain ⟨others, after, hothers, hmore⟩ := ih
        (fun r hr => hbuilt r (List.mem_cons_of_mem _ hr)) hrest hfree'
      exact ⟨visits ++ others, after,
        bind_eq_ok.mpr ⟨_, hvisits, bind_eq_ok.mpr ⟨_, hothers, rfl⟩⟩, hvisited.cons hmore⟩

/-- The places of a list of documents, in ascending order of the documents. -/
def placesOf (docs : List Nat) : List (Nat × Nat) :=
  docs.zipIdx.mergeSort fun a b => a.1 ≤ b.1

theorem mem_placesOf {docs : List Nat} {doc index : Nat} :
    (doc, index) ∈ placesOf docs ↔ docs[index]? = some doc := by
  rw [placesOf, List.mem_mergeSort, List.mem_zipIdx_iff_getElem?]

/-- Places are compared by their documents. -/
theorem byDoc_trans (a b c : Nat × Nat) (hab : decide (a.1 ≤ b.1) = true)
    (hbc : decide (b.1 ≤ c.1) = true) : decide (a.1 ≤ c.1) = true :=
  decide_eq_true (Nat.le_trans (of_decide_eq_true hab) (of_decide_eq_true hbc))

theorem byDoc_total (a b : Nat × Nat) : (decide (a.1 ≤ b.1) || decide (b.1 ≤ a.1)) = true := by
  rw [Bool.or_eq_true, decide_eq_true_eq, decide_eq_true_eq]
  exact Nat.le_total _ _

/-- The places of documents are in ascending order. -/
theorem placesOf_sorted (docs : List Nat) :
    (placesOf docs).Pairwise fun a b => a.1 ≤ b.1 :=
  (List.pairwise_mergeSort byDoc_trans byDoc_total _).imp of_decide_eq_true

/-- Different documents have their places in strictly ascending order. -/
theorem placesOf_pairwise {docs : List Nat} (h : docs.Nodup) :
    (placesOf docs).Pairwise fun a b => a.1 < b.1 := by
  have hdistinct : ((placesOf docs).map (·.1)).Nodup := by
    have hperm := (List.mergeSort_perm docs.zipIdx fun a b => a.1 ≤ b.1).map (·.1)
    rw [List.zipIdx_map_fst] at hperm
    exact hperm.nodup_iff.mpr h
  exact (placesOf_sorted docs).imp₂ (fun _ _ hle hne => Nat.lt_of_le_of_ne hle hne)
    (List.pairwise_map.mp hdistinct)

/-- **Visits to different documents of a shard**, from a cache that holds none of
    them. -/
theorem visit_under {shard : Shard} (hbuilt : shard.Built)
    (hcount : w.weights.length ≤ w.ranker.featureCount) {docs : List Nat} (hdocs : docs.Nodup)
    {cache : Option ScoreCache} (hfree : Free shard.readers cache) :
    ∃ visits after, (w.under factor).visit shard docs cache = .ok (visits, after) ∧
      Visited w factor shard.readers (placesOf docs) visits cache after :=
  visitSegments_under hcount (placesOf_pairwise hdocs) shard.readers hbuilt.readers
    shard.readers_pairwise hfree

end RankingWeight

end FeatureRank
