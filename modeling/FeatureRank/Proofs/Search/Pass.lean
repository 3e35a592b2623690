import Mathlib.Data.List.Nodup
import FeatureRank.Proofs.Search.Visit
import FeatureRank.Search.Scoring

/-! # Scoring a shard, query by query

    A shard is scored segment by segment, and each segment query by query.  The
    queries do not see each other, so what one of them gives is what it gives in a
    pass of its own over all segments (`QueryWeight.passes`), and the hits are some
    of the documents that one of the passes scored
    (`WeightedSlot.scoreSegments_eq_ok`).

    Whatever the query, a pass scores documents of the segment that the filter
    lets through (`QueryWeight.pass_inside`); a ranking query scores all of them
    (`RankingWeight.passes_under`). -/

namespace FeatureRank

open DocWalk

/-! ## Passes stay inside -/

/-- A scorer of a query whose walk stays inside the segment. -/
def QueryScorer.Inside (last : Nat) : QueryScorer → Prop
  | .plain s => s.Inside last
  | .ranking s => s.walk.docs.maxDoc = last
  | .boost inner _ => inner.Inside last

namespace QueryScorer

variable {last : Nat}

/-- Bringing walks along moves the documents no further. -/
theorem docs_advance {ω : Type} [DocWalk ω] (target : Nat) (d : Disjunction ω) :
    (d.advance target).docs = d.docs.advance target := by
  unfold Disjunction.advance Disjunction.settle
  split
  · rfl
  · split <;> rfl

theorem Inside.advance {target : Nat} {s : QueryScorer} (h : s.Inside last) (hpos : 0 < target) :
    (s.advance target).Inside last ∧ (s.advance target).stop.Inside last := by
  induction s with
  | plain s => exact FeatureScorer.Inside.advance h hpos
  | ranking s =>
      obtain ⟨hmax, hstop⟩ := AllDocs.advance_inside target h
      rw [← docs_advance] at hmax hstop
      exact ⟨hmax, hstop⟩
  | boost inner factor ih => exact ih h

/-- The next stop is inside. -/
theorem Inside.next {s : QueryScorer} (h : s.Inside last) :
    (next s).Inside last ∧ (next s).stop.Inside last := by
  cases hstop : DocWalk.stop s with
  | exhausted =>
      rw [next_exhausted hstop]
      refine ⟨h, ?_⟩
      rw [show s.stop = .exhausted from hstop]
      exact Stop.Inside.exhausted last
  | doc doc =>
      rw [next_doc hstop]
      exact h.advance (Nat.succ_pos doc)

/-- Scoring moves no walk. -/
theorem Inside.score {s s' : QueryScorer} {scored : Scored} (h : s.Inside last)
    (hscore : s.score = .ok (s', scored)) : s'.Inside last := by
  induction s generalizing s' scored with
  | plain s =>
      obtain ⟨value, -, hs'⟩ := bind_eq_ok.mp hscore
      rw [← (Prod.mk.inj (Except.ok.inj hs')).1]
      exact h
  | ranking s =>
      obtain ⟨⟨t, _⟩, ht, hs'⟩ := bind_eq_ok.mp hscore
      obtain ⟨_, _, _, -, -, hwalk, -, -⟩ := RankingScorer.score_eq_ok ht
      rw [← (Prod.mk.inj (Except.ok.inj hs')).1]
      show t.walk.docs.maxDoc = last
      rw [hwalk]
      exact h
  | boost inner factor ih =>
      obtain ⟨⟨t, _⟩, ht, hs'⟩ := bind_eq_ok.mp hscore
      have hinner : t.Inside last := ih h ht
      rw [← (Prod.mk.inj (Except.ok.inj hs')).1]
      exact hinner

/-- **A pass scores allowed documents of the segment only.** -/
theorem passFrom_inside {allowed : Nat → Bool} {stops : Nat} :
    ∀ {s s' : QueryScorer} {scores : List (Nat × Scored)}, s.Inside last →
      s.passFrom allowed stops = .ok (scores, s') →
      ∀ x ∈ scores, (0 < x.1 ∧ x.1 ≤ last) ∧ allowed x.1 = true := by
  induction stops with
  | zero =>
      intro s s' scores _ hpass x hx
      rw [← (Prod.mk.inj (Except.ok.inj hpass)).1] at hx
      exact nomatch hx
  | succ stops ih =>
      intro s s' scores h hpass x hx
      obtain ⟨hnext, hstopped⟩ := h.next
      unfold passFrom at hpass
      cases hstop : (DocWalk.next s).stop with
      | exhausted =>
          simp only [hstop] at hpass
          rw [← (Prod.mk.inj (Except.ok.inj hpass)).1] at hx
          exact nomatch hx
      | doc doc =>
          simp only [hstop] at hpass
          by_cases hallowed : allowed doc = true
          · rw [if_pos hallowed] at hpass
            obtain ⟨⟨t, scored⟩, ht, hpass⟩ := bind_eq_ok.mp hpass
            obtain ⟨⟨rest, t'⟩, hrest, hpass⟩ := bind_eq_ok.mp hpass
            rw [← (Prod.mk.inj (Except.ok.inj hpass)).1] at hx
            rcases List.mem_cons.mp hx with heq | hmem
            · rw [heq]
              exact ⟨hstopped doc hstop, hallowed⟩
            · exact ih (hnext.score ht) hrest x hmem
          · rw [if_neg hallowed] at hpass
            exact ih hnext hpass x hx

end QueryScorer

/-- A fresh scorer is inside. -/
theorem QueryWeight.scorer?_inside {reader : SegmentReader} (hbuilt : reader.segment.Built)
    {w : QueryWeight} {cache : Option ScoreCache} {s : QueryScorer}
    (h : w.scorer? reader cache = some s) : s.Inside reader.maxDoc := by
  induction w generalizing s with
  | plain weight =>
      obtain ⟨t, ht, hs⟩ := Option.map_eq_some_iff.mp h
      rw [← hs]
      exact Weight.scorer?_inside hbuilt ht
  | ranking weight =>
      rw [← Option.some.inj h]
      rfl
  | boost inner factor ih =>
      obtain ⟨t, ht, hs⟩ := Option.map_eq_some_iff.mp h
      have hinner : t.Inside reader.maxDoc := ih ht
      rw [← hs]
      exact hinner

/-- A pass over one segment, whatever the query. -/
theorem QueryWeight.pass_inside {w : QueryWeight} {reader : SegmentReader}
    (hbuilt : reader.segment.Built) {allowed : Nat → Bool} {cache after : Option ScoreCache}
    {scores : List (Nat × Scored)} (h : w.pass reader allowed cache = .ok (scores, after)) :
    ∀ x ∈ scores, (0 < x.1 ∧ x.1 ≤ reader.maxDoc) ∧ allowed x.1 = true := by
  unfold pass at h
  cases hscorer : w.scorer? reader cache with
  | none =>
      rw [hscorer] at h
      intro x hx
      rw [← (Prod.mk.inj (Except.ok.inj h)).1] at hx
      exact nomatch hx
  | some s =>
      rw [hscorer] at h
      obtain ⟨⟨scores', s'⟩, hpass, h⟩ := bind_eq_ok.mp h
      rw [← (Prod.mk.inj (Except.ok.inj h)).1]
      exact QueryScorer.passFrom_inside (scorer?_inside hbuilt hscorer) hpass

/-! ## One query over all segments -/

/-- A pass of one query over segments, with the absolute numbers of the documents. -/
def QueryWeight.passes (w : QueryWeight) (filter : Option QueryWeight) :
    List SegmentReader → Option ScoreCache → Checked (List (Nat × Scored) × Option ScoreCache)
  | [], cache => return ([], cache)
  | reader :: rest, cache => do
    let (scores, cache) ← w.pass reader (WeightedSlot.allowedBy filter reader) cache
    let (others, cache) ← passes w filter rest cache
    return (scores.map (fun x => (reader.docBase + x.1, x.2)) ++ others, cache)

/-- What passes of a ranking query come to: each score is of an allowed document
    and by the definition, each allowed document is scored, and just these are
    recorded. -/
structure RankingWeight.Passed (w : RankingWeight) (factor : Option Float32)
    (filter : Option QueryWeight) (readers : List SegmentReader) (scores : List (Nat × Scored))
    (before after : Option ScoreCache) : Prop where
  sound : ∀ x ∈ scores, ∃ reader ∈ readers, ∃ doc, 0 < doc ∧ doc ≤ reader.maxDoc ∧
    x.1 = reader.docBase + doc ∧ w.Scores factor reader.segment doc x.2
  complete : ∀ reader ∈ readers, ∀ doc, 0 < doc → doc ≤ reader.maxDoc →
    WeightedSlot.allowedBy filter reader doc = true →
    ∃ scored, (reader.docBase + doc, scored) ∈ scores
  records : Records w.weights.length scores before after

namespace RankingWeight

variable {w : RankingWeight} {factor : Option Float32} {filter : Option QueryWeight}

/-- **Passes of a ranking query**, from a cache that holds no document yet. -/
theorem passes_under (hcount : w.weights.length ≤ w.ranker.featureCount)
    (readers : List SegmentReader) :
    ∀ {cache : Option ScoreCache}, (∀ r ∈ readers, r.segment.Built) →
      readers.Pairwise (fun a b => a.docBase + a.maxDoc ≤ b.docBase) → Free readers cache →
      ∃ scores after, (w.under factor).passes filter readers cache = .ok (scores, after) ∧
        Passed w factor filter readers scores cache after := by
  induction readers with
  | nil =>
      intro cache _ _ _
      exact ⟨[], cache, rfl, fun x hx => (nomatch hx), fun r hr => (nomatch hr), Records.refl cache⟩
  | cons reader rest ih =>
      intro cache hbuilt hpairs hfree
      obtain ⟨hlater, hrest⟩ := List.pairwise_cons.mp hpairs
      obtain ⟨scores, between, hpass, hdocs, hscores, hrecords⟩ := pass_under factor
        (hbuilt reader List.mem_cons_self) hcount
        (WeightedSlot.allowedBy filter reader) hfree.head
      have hin : ∀ doc, doc ∈ scores.map (·.1) ↔
          (0 < doc ∧ doc ≤ reader.maxDoc) ∧ WeightedSlot.allowedBy filter reader doc = true := by
        intro doc
        rw [hdocs, List.mem_filter, List.mem_range'_1]
        exact and_congr_left' (by omega)
      have hfree' : Free rest between := by
        refine hfree.rest hlater hrecords ?_
        intro x hx
        obtain ⟨y, hy, heq⟩ := List.mem_map.mp hx
        rw [← heq]
        exact ⟨y.1, ((hin y.1).mp (List.mem_map_of_mem hy)).1.2, rfl⟩
      obtain ⟨others, after, hothers, hmore⟩ := ih
        (fun r hr => hbuilt r (List.mem_cons_of_mem _ hr)) hrest hfree'
      refine ⟨_, after, bind_eq_ok.mpr ⟨_, hpass, bind_eq_ok.mpr ⟨_, hothers, rfl⟩⟩, ?_, ?_,
        hrecords.trans hmore.records⟩
      · intro x hx
        rcases List.mem_append.mp hx with hx | hx
        · obtain ⟨y, hy, heq⟩ := List.mem_map.mp hx
          obtain ⟨hpos, hle⟩ := ((hin y.1).mp (List.mem_map_of_mem hy)).1
          rw [← heq]
          exact ⟨reader, List.mem_cons_self, y.1, hpos, hle, rfl, hscores y hy⟩
        · obtain ⟨r, hr, hrest⟩ := hmore.sound x hx
          exact ⟨r, List.mem_cons_of_mem _ hr, hrest⟩
      · intro r hr doc hpos hle hallowed
        rcases List.mem_cons.mp hr with heq | hr
        · rw [heq] at hle hallowed ⊢
          obtain ⟨y, hy, hdoc⟩ := List.mem_map.mp ((hin doc).mpr ⟨⟨hpos, hle⟩, hallowed⟩)
          refine ⟨y.2, List.mem_append_left _ (List.mem_map.mpr ⟨y, hy, ?_⟩)⟩
          rw [hdoc]
        · obtain ⟨scored, hmem⟩ := hmore.complete r hr doc hpos hle hallowed
          exact ⟨scored, List.mem_append_right _ hmem⟩

end RankingWeight

/-! ## All queries of a shard -/

namespace WeightedSlot

/-- A slot with other scores kept. -/
def keep (w : WeightedSlot) (scores : Option ScoreCache) : WeightedSlot :=
  { w with slot := { w.slot with scores } }

/-- Sums have a document when they had it before or it is scored. -/
theorem mem_addScores {sums : Std.TreeMap Nat Float32} {scores : List (Nat × Scored)} {doc : Nat} :
    doc ∈ addScores sums scores ↔ doc ∈ sums ∨ doc ∈ scores.map (·.1) := by
  induction scores generalizing sums with
  | nil => exact (or_iff_left (List.not_mem_nil)).symm
  | cons x rest ih =>
      have hhere : doc ∈ sums.alter x.1 (fun sum => some (sum.getD 0.0 + x.2.value)) ↔
          doc ∈ sums ∨ doc = x.1 := by
        rw [Std.TreeMap.mem_alter]
        by_cases h : doc = x.1
        · simp [h]
        · rw [if_neg (fun heq => h (Std.LawfulEqOrd.eq_of_compare heq).symm)]
          exact (or_iff_left h).symm
      show doc ∈ addScores (sums.alter x.1 fun sum => some (sum.getD 0.0 + x.2.value)) rest ↔ _
      rw [ih, hhere, List.map_cons, List.mem_cons, or_assoc]

/-- The queries of one segment: each makes its own pass, and the sums are over
    documents of some of them. -/
theorem scoreSegment_eq_ok {reader : SegmentReader} {allowed : Nat → Bool}
    {slots : List WeightedSlot} :
    ∀ {sums sums' : Std.TreeMap Nat Float32} {slots' : List WeightedSlot},
      scoreSegment reader allowed sums slots = .ok (slots', sums') →
      List.Forall₂ (fun (w w' : WeightedSlot) => ∃ scores after,
        w.weight.pass reader allowed w.slot.scores = .ok (scores, after) ∧ w' = w.keep after)
        slots slots' ∧
      ∀ doc ∈ sums', doc ∈ sums ∨ ∃ w ∈ slots, ∃ scores after,
        w.weight.pass reader allowed w.slot.scores = .ok (scores, after) ∧
          doc ∈ scores.map (·.1) := by
  induction slots with
  | nil =>
      intro sums sums' slots' h
      obtain ⟨hslots, hsums⟩ := Prod.mk.inj (Except.ok.inj h)
      rw [← hslots, ← hsums]
      exact ⟨List.Forall₂.nil, fun doc hdoc => Or.inl hdoc⟩
  | cons w rest ih =>
      intro sums sums' slots' h
      obtain ⟨⟨scores, after⟩, hpass, h⟩ := bind_eq_ok.mp h
      obtain ⟨⟨rest', sums''⟩, hrest, h⟩ := bind_eq_ok.mp h
      obtain ⟨hslots, hsums⟩ := Prod.mk.inj (Except.ok.inj h)
      obtain ⟨hothers, hdocs⟩ := ih hrest
      rw [← hslots, ← hsums]
      refine ⟨List.Forall₂.cons ⟨scores, after, hpass, rfl⟩ hothers, ?_⟩
      intro doc hdoc
      rcases hdocs doc hdoc with hin | ⟨other, hmem, hother⟩
      · rcases mem_addScores.mp hin with hold | hnew
        · exact Or.inl hold
        · exact Or.inr ⟨w, List.mem_cons_self, scores, after, hpass, hnew⟩
      · exact Or.inr ⟨other, List.mem_cons_of_mem _ hmem, hother⟩

/-- A document of a shard, by its absolute number, that a filter lets through. -/
def Lets (filter : Option QueryWeight) (readers : List SegmentReader) (doc : Nat) : Prop :=
  ∃ reader ∈ readers, ∃ inside, 0 < inside ∧ inside ≤ reader.maxDoc ∧
    doc = reader.docBase + inside ∧ allowedBy filter reader inside = true

/-- The sums of a segment are over documents of it that the filter lets through. -/
theorem scoreSegment_inside {reader : SegmentReader} {allowed : Nat → Bool}
    (hbuilt : reader.segment.Built) {slots slots' : List WeightedSlot}
    {sums : Std.TreeMap Nat Float32} (h : scoreSegment reader allowed {} slots = .ok (slots', sums)) :
    ∀ doc ∈ sums, (0 < doc ∧ doc ≤ reader.maxDoc) ∧ allowed doc = true := by
  intro doc hdoc
  rcases (scoreSegment_eq_ok h).2 doc hdoc with hnone | ⟨w, -, scores, after, hpass, hin⟩
  · exact absurd hnone Std.TreeMap.not_mem_emptyc
  · obtain ⟨x, hx, heq⟩ := List.mem_map.mp hin
    rw [← heq]
    exact QueryWeight.pass_inside hbuilt hpass x hx

/-- **The hits of a shard**: each query makes its own passes, and the hits are
    different documents that the filter lets through. -/
theorem scoreSegments_eq_ok {settings : Settings} {filter : Option QueryWeight}
    {readers : List SegmentReader} :
    ∀ {slots slots' : List WeightedSlot} {hits : List ShardHit},
      (∀ r ∈ readers, r.segment.Built) →
      readers.Pairwise (fun a b => a.docBase + a.maxDoc ≤ b.docBase) →
      scoreSegments settings filter readers slots = .ok (slots', hits) →
      List.Forall₂ (fun (w w' : WeightedSlot) => ∃ scores after,
        w.weight.passes filter readers w.slot.scores = .ok (scores, after) ∧ w' = w.keep after)
        slots slots' ∧
      (hits.map (·.doc)).Nodup ∧ ∀ hit ∈ hits, Lets filter readers hit.doc := by
  induction readers with
  | nil =>
      intro slots slots' hits _ _ h
      obtain ⟨hslots, hhits⟩ := Prod.mk.inj (Except.ok.inj h)
      rw [← hslots, ← hhits]
      refine ⟨?_, List.nodup_nil, fun hit hmem => nomatch hmem⟩
      exact List.forall₂_same.mpr fun w _ => ⟨[], w.slot.scores, rfl, rfl⟩
  | cons reader rest ih =>
      intro slots slots' hits hbuilt hpairs h
      obtain ⟨hlater, hrest⟩ := List.pairwise_cons.mp hpairs
      obtain ⟨⟨between, sums⟩, hsegment, h⟩ := bind_eq_ok.mp h
      obtain ⟨⟨last, others⟩, hothers, h⟩ := bind_eq_ok.mp h
      obtain ⟨hslots, hhits⟩ := Prod.mk.inj (Except.ok.inj h)
      have hpasses := (scoreSegment_eq_ok hsegment).1
      obtain ⟨hmore, hnodup, hlets⟩ := ih
        (fun r hr => hbuilt r (List.mem_cons_of_mem _ hr)) hrest hothers
      have hfirst := scoreSegment_inside (hbuilt reader List.mem_cons_self) hsegment
      have hkeys : (sums.toList.map fun x =>
          ShardHit.ofScore settings (reader.docBase + x.1) x.2).map (·.doc)
          = sums.keys.map (reader.docBase + ·) := by
        rw [← Std.TreeMap.map_fst_toList_eq_keys, List.map_map, List.map_map]
        rfl
      rw [← hslots, ← hhits]
      refine ⟨?_, ?_, ?_⟩
      · refine forall₂_comp hpasses hmore ?_
        rintro w w' w'' ⟨scores, after, hpass, hw'⟩ ⟨scores', after', hpasses', hw''⟩
        rw [hw'] at hpasses' hw''
        exact ⟨_, after', bind_eq_ok.mpr ⟨_, hpass, bind_eq_ok.mpr ⟨_, hpasses', rfl⟩⟩, hw''⟩
      · rw [List.map_append, hkeys]
        refine List.nodup_append.mpr ⟨?_, hnodup, ?_⟩
        · exact List.Nodup.map (fun a b hab => Nat.add_left_cancel hab) Std.TreeMap.nodup_keys
        · intro a ha b hb hab
          obtain ⟨doc, hdoc, hadoc⟩ := List.mem_map.mp ha
          obtain ⟨hit, hhit, hbdoc⟩ := List.mem_map.mp hb
          obtain ⟨r, hr, inside, hpos, -, heq, -⟩ := hlets hit hhit
          -- the segments are one after the other, so no document is in two of them
          have hle := (hfirst doc (Std.TreeMap.mem_of_mem_keys hdoc)).1.2
          have hbase := hlater r hr
          omega
      · intro hit hmem
        rcases List.mem_append.mp hmem with hmem | hmem
        · obtain ⟨x, hx, heq⟩ := List.mem_map.mp hmem
          have hkey : x.1 ∈ sums := by
            refine Std.TreeMap.mem_of_mem_keys ?_
            rw [← Std.TreeMap.map_fst_toList_eq_keys]
            exact List.mem_map_of_mem hx
          obtain ⟨⟨hpos, hle⟩, hallowed⟩ := hfirst x.1 hkey
          rw [← heq]
          exact ⟨reader, List.mem_cons_self, x.1, hpos, hle, rfl, hallowed⟩
        · obtain ⟨r, hr, hrest⟩ := hlets hit hmem
          exact ⟨r, List.mem_cons_of_mem _ hr, hrest⟩

end WeightedSlot

end FeatureRank
