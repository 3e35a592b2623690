import FeatureRank.Proofs.Search.Documents
import FeatureRank.Proofs.Search.Pass
import FeatureRank.Proofs.Walk.Reading

/-! # The states of a scorer

    A scorer for a segment is made before its first document, goes to the next
    document or to one further on, and scores where it stands
    (`QueryWeight.Reached`).  In every state its cursors can be read and its queue
    names walks that there are (`QueryWeight.Reached.readable`), and wherever it
    stands on a document that document has a score
    (`QueryWeight.Reached.score_ok`).

    So visits to documents of a shard never fail, whichever documents and however
    often (`Shard.Holds.visit_ok`). -/

namespace FeatureRank

open DocWalk

/-! ## Readable scorers -/

/-- A scorer of a feature whose cursors can all be read. -/
def FeatureScorer.Readable : FeatureScorer → Prop
  | .anyTerm _ walk _ => walk.Readable
  | .phrase walk => walk.Readable
  | .languageModel _ walk _ _ => walk.Readable
  | .constant _ _ => True
  | .derived _ _ => True
  | .boost inner _ => inner.Readable

theorem FeatureScorer.Readable.advance {s : FeatureScorer} (h : s.Readable) (target : Nat) :
    (s.advance target).Readable := by
  induction s with
  | anyTerm segment walk average => exact Union.Readable.advance h target
  | phrase walk => exact (PhraseWalk.Readable.advanceRead h target).2
  | languageModel segment walk queryLength average => exact Union.Readable.advance h target
  | constant walk score => trivial
  | derived walk sum => trivial
  | boost inner factor ih => exact ih h

/-- A scorer of a feature that finds what it reads: the frequencies of the terms that
    stand on its document, and the positions of a phrase wherever that moves. -/
def FeatureScorer.Reads : FeatureScorer → Prop
  | .anyTerm _ walk _ => ∀ doc, walk.stop = .doc doc → ∃ found, frequencies walk = .ok found
  | .phrase walk => ∀ target, walk.advanceRead target = .ok (walk.advance target)
  | .languageModel _ walk _ _ => ∀ doc, walk.stop = .doc doc → ∃ found, frequencies walk = .ok found
  | .constant _ _ => True
  | .derived _ _ => True
  | .boost inner _ => inner.Reads

theorem FeatureScorer.Readable.reads {s : FeatureScorer} (h : s.Readable) : s.Reads := by
  induction s with
  | anyTerm segment walk average => exact fun doc hstop => frequencies_readable h hstop
  | phrase walk => exact fun target => (PhraseWalk.Readable.advanceRead h target).1
  | languageModel segment walk queryLength average =>
      exact fun doc hstop => frequencies_readable h hstop
  | constant walk score => trivial
  | derived walk sum => trivial
  | boost inner factor ih => exact ih h

namespace Weight

/-- There is a cursor only for a term that the segment holds. -/
theorem cursors_readable {τ : Type} (segment : Segment) (terms : List (TermId × τ)) :
    (Union.ofCursors (cursors segment terms)).Readable := by
  intro x hx
  obtain ⟨⟨term, label⟩, -, hx⟩ := List.mem_filterMap.mp hx
  cases hpostings : segment.postingsOf term with
  | nil =>
      simp only [hpostings] at hx
      cases hx
  | cons p rest =>
      simp only [hpostings] at hx
      rw [← Option.some.inj hx]
      exact Cursor.Readable.fresh (List.cons_ne_nil p rest)

/-- **A fresh scorer can be read.** -/
theorem scorer?_readable {segment : Segment} {w : Weight} {s : FeatureScorer}
    (h : w.scorer? segment = some s) : s.Readable := by
  induction w generalizing s with
  | anyTerm terms average =>
      simp only [scorer?] at h
      split at h
      · cases h
      · rw [← Option.some.inj h]
        exact cursors_readable segment terms
  | phrase terms =>
      obtain ⟨walk, hwalk, rfl⟩ := Option.map_eq_some_iff.mp h
      exact PhraseWalk.ofPostings?_readable hwalk
  | languageModel terms queryLength average =>
      simp only [scorer?] at h
      split at h
      · cases h
      · rw [← Option.some.inj h]
        exact cursors_readable segment terms
  | constant score cacheable =>
      rw [← Option.some.inj h]
      trivial
  | boost inner factor ih =>
      obtain ⟨t, ht, rfl⟩ := scorer?_boost h
      have hinner : t.Readable := ih ht
      exact hinner
  | derived sum =>
      rw [← Option.some.inj h]
      trivial
  | nothing => cases h

end Weight

/-- A move of a disjunction leaves its walks where they are or brings all of them along,
    and the queue has a place for each. -/
theorem Disjunction.queued_advance {ω : Type} [DocWalk ω] {d : Disjunction ω}
    (h : Queued d.walks d.queue) {target : Nat} (hpos : 0 < target) :
    Queued (d.advance target).walks (d.advance target).queue ∧
      ((d.advance target).walks = d.walks ∨
        (d.advance target).walks = d.walks.map (Option.map (reach target))) := by
  rcases advance_cases h target hpos with
    ⟨-, hmoved⟩ | ⟨-, -, hmoved⟩ | ⟨-, -, queue, hqueue, hmoved⟩
  · rw [hmoved]
    exact ⟨h, .inl rfl⟩
  · rw [hmoved]
    exact ⟨h, .inl rfl⟩
  · rw [hmoved]
    exact ⟨hqueue, .inr rfl⟩

/-- A scorer whose cursors can be read, and whose queue has a place for each of its
    walks. -/
def QueryScorer.Readable : QueryScorer → Prop
  | .plain s => s.Readable
  | .ranking s => (∀ t, some t ∈ s.walk.walks → t.Readable) ∧
      Disjunction.Queued s.walk.walks s.walk.queue
  | .boost inner _ => inner.Readable

/-- A scorer whose features find what they read, and whose queue has no place beyond
    its walks. -/
def QueryScorer.Reads : QueryScorer → Prop
  | .plain s => s.Reads
  | .ranking s => (∀ t, some t ∈ s.walk.walks → t.Reads) ∧
      ∀ place ∈ s.walk.queue, place.2 < s.walk.walks.length
  | .boost inner _ => inner.Reads

namespace QueryScorer.Readable

theorem reads {s : QueryScorer} (h : s.Readable) : s.Reads := by
  induction s with
  | plain s => exact FeatureScorer.Readable.reads h
  | ranking s =>
      refine ⟨fun t ht => (h.1 t ht).reads, fun place hplace => ?_⟩
      obtain ⟨t, ht, -⟩ := (h.2.names.mem_iff place).mp hplace
      exact (List.getElem?_eq_some_iff.mp ht).1
  | boost inner factor ih => exact ih h

theorem advance {s : QueryScorer} (h : s.Readable) {target : Nat} (hpos : 0 < target) :
    (s.advance target).Readable := by
  induction s with
  | plain s => exact FeatureScorer.Readable.advance h target
  | ranking s =>
      obtain ⟨hqueued, hwalks⟩ := Disjunction.queued_advance h.2 hpos
      refine ⟨fun t ht => ?_, hqueued⟩
      have ht : some t ∈ (s.walk.advance target).walks := ht
      rcases hwalks with hsame | hmoved
      · rw [hsame] at ht
        exact h.1 t ht
      · rw [hmoved] at ht
        obtain ⟨walk, hwalk, hmap⟩ := List.mem_map.mp ht
        obtain ⟨u, rfl, rfl⟩ := Option.map_eq_some_iff.mp hmap
        unfold reach
        split
        · exact (h.1 u hwalk).advance target
        · exact h.1 u hwalk
  | boost inner factor ih => exact ih h

theorem reach {s : QueryScorer} (h : s.Readable) {target : Nat} (hpos : 0 < target) :
    (DocWalk.reach target s).Readable := by
  unfold DocWalk.reach
  split
  · exact h.advance hpos
  · exact h

theorem next {s : QueryScorer} (h : s.Readable) : (DocWalk.next s).Readable := by
  unfold DocWalk.next
  split
  · exact h.advance (Nat.succ_pos _)
  · exact h

/-- Scoring moves no walk. -/
theorem score {s s' : QueryScorer} {scored : Scored} (h : s.Readable)
    (hscore : s.score = .ok (s', scored)) : s'.Readable := by
  induction s generalizing s' scored with
  | plain s =>
      obtain ⟨value, -, hs'⟩ := bind_eq_ok.mp hscore
      rw [← (Prod.mk.inj (Except.ok.inj hs')).1]
      exact h
  | ranking s =>
      obtain ⟨⟨t, _⟩, ht, hs'⟩ := bind_eq_ok.mp hscore
      obtain ⟨_, _, _, -, -, hwalk, -, -⟩ := RankingScorer.score_eq_ok ht
      rw [← (Prod.mk.inj (Except.ok.inj hs')).1, hwalk]
      exact h
  | boost inner factor ih =>
      obtain ⟨⟨t, _⟩, ht, hs'⟩ := bind_eq_ok.mp hscore
      have hinner : t.Readable := ih h ht
      rw [← (Prod.mk.inj (Except.ok.inj hs')).1]
      exact hinner

end QueryScorer.Readable

namespace QueryWeight

variable {w : QueryWeight} {reader : SegmentReader} {before cache : Option ScoreCache}
  {s : QueryScorer}

theorem scorer?_readable (h : w.scorer? reader before = some s) : s.Readable := by
  induction w generalizing s with
  | plain weight =>
      obtain ⟨t, ht, rfl⟩ := Option.map_eq_some_iff.mp h
      exact Weight.scorer?_readable ht
  | ranking weight =>
      rw [← Option.some.inj h]
      refine ⟨fun t ht => ?_, Disjunction.ofWalks_queued _ _ _ _⟩
      obtain ⟨feature, -, hfeature⟩ := List.mem_map.mp ht
      exact Weight.scorer?_readable hfeature
  | boost inner factor ih =>
      obtain ⟨t, ht, rfl⟩ := Option.map_eq_some_iff.mp h
      have hinner : t.Readable := ih ht
      exact hinner

/-! ## States -/

/-- The states that a scorer for a segment gets into: it is made, goes to the next
    document or to one further on, and scores the document that it stands on. -/
inductive Reached (w : QueryWeight) (reader : SegmentReader) (before : Option ScoreCache) :
    QueryScorer → Prop where
  | fresh {s : QueryScorer} (h : w.scorer? reader before = some s) : Reached w reader before s
  | next {s : QueryScorer} (h : Reached w reader before s) :
      Reached w reader before (DocWalk.next s)
  | reach {s : QueryScorer} (h : Reached w reader before s) {target : Nat} (hpos : 0 < target) :
      Reached w reader before (DocWalk.reach target s)
  | score {s s' : QueryScorer} {scored : Scored} (h : Reached w reader before s) {doc : Nat}
      (hstop : s.stop = .doc doc) (hpos : 0 < doc) (hscore : s.score = .ok (s', scored)) :
      Reached w reader before s'

/-- **In every state a scorer can be read.** -/
theorem Reached.readable (h : w.Reached reader before s) : s.Readable := by
  induction h with
  | fresh h => exact scorer?_readable h
  | next _ ih => exact ih.next
  | reach _ hpos ih => exact ih.reach hpos
  | score _ _ _ hscore ih => exact ih.score hscore

/-- **In every state a scorer finds what it reads.** -/
theorem Reached.reads (h : w.Reached reader before s) : s.Reads := h.readable.reads

/-! ## A scorer where it stands -/

/-- A scorer that was brought to some document, with scores that fit. -/
def Stands (w : QueryWeight) (reader : SegmentReader) (before : Option ScoreCache)
    (s : QueryScorer) : Prop :=
  ∃ here cache, w.At reader before here cache s ∧ w.Fits cache

section

variable {docs : List (List TermId)} (hsegment : reader.segment = .ofDocs docs)

include hsegment in
/-- A scorer that was brought to a document is not before it. -/
theorem At.ahead {here : Nat} (h : w.At reader before here cache s) :
    s.stop.behind (here + 1) = false := by
  induction h with
  | plain hcache hfresh halike =>
      rw [hsegment] at hfresh
      rw [show QueryScorer.stop (.plain _) = _ from halike.stop_eq]
      exact Weight.behind_advance hfresh here
  | ranking hcache htracks hheld hstop =>
      rw [show QueryScorer.stop (.ranking _) = _ from hstop]
      split
      · exact decide_eq_false (Nat.lt_irrefl _)
      · rfl
  | boost h factor ih => exact ih

include hsegment in
/-- A scorer that was brought to a document stops inside the segment. -/
theorem At.inside {here : Nat} (h : w.At reader before here cache s) :
    s.stop.Inside docs.length := by
  have hmax : reader.maxDoc = docs.length := maxDoc_reader hsegment
  induction h with
  | plain hcache hfresh halike =>
      rw [show QueryScorer.stop (.plain _) = _ from halike.stop_eq, ← hmax]
      exact ((Weight.scorer?_inside (hsegment ▸ Segment.built_ofDocs docs) hfresh).advance
        (Nat.succ_pos here)).2
  | ranking hcache htracks hheld hstop =>
      rw [show QueryScorer.stop (.ranking _) = _ from hstop]
      intro doc hdoc
      split at hdoc
      · rw [← Stop.doc.inj hdoc]
        omega
      · cases hdoc
  | boost h factor ih => exact ih

namespace Stands

include hsegment in
theorem reach (h : w.Stands reader before s) {target : Nat} (hpos : 0 < target) :
    w.Stands reader before (DocWalk.reach target s) := by
  obtain ⟨here, cache, hat, hfits⟩ := h
  by_cases hle : target ≤ here + 1
  · have hahead := hat.ahead hsegment
    rw [reach_ahead (Bool.eq_false_iff.mpr fun hbehind =>
      Bool.eq_false_iff.mp hahead (Stop.behind_mono hbehind hle))]
    exact ⟨here, cache, hat, hfits⟩
  · have hlater : here ≤ target - 1 := by omega
    have hmoved := hat.reach (hsegment ▸ Segment.built_ofDocs docs) hlater
    rw [Nat.sub_add_cancel hpos] at hmoved
    exact ⟨target - 1, cache, hmoved, hfits⟩

include hsegment in
theorem next (h : w.Stands reader before s) : w.Stands reader before (DocWalk.next s) := by
  cases hstop : DocWalk.stop s with
  | exhausted =>
      rw [next_exhausted hstop]
      exact h
  | doc doc =>
      have hmoved := h.reach hsegment (Nat.succ_pos doc)
      rw [reach_behind (by rw [hstop]; exact decide_eq_true (Nat.lt_succ_self doc))] at hmoved
      rw [next_doc hstop]
      exact hmoved

include hsegment in
/-- **Where it stands on a document, a scorer has a score for it**, which the terms of
    the document and the kept scores say. -/
theorem score_ok (h : w.Stands reader before s) {doc : Nat} (hstop : s.stop = .doc doc) :
    ∃ s' terms kept, s.score = .ok (s', w.scoredOn terms kept) ∧ w.Stands reader before s' := by
  obtain ⟨here, cache, hat, hfits⟩ := h
  obtain ⟨hpos, hle⟩ := hat.inside hsegment doc hstop
  obtain ⟨index, rfl⟩ : ∃ index, doc = index + 1 := ⟨doc - 1, by omega⟩
  obtain ⟨s', hscore, hat', -⟩ :=
    hat.score hsegment hfits (List.getElem?_eq_getElem (by omega : index < docs.length)) hstop
  exact ⟨s', _, _, hscore, here, _, hat', hfits.keptOn _ _⟩

end Stands

namespace Reached

include hsegment in
/-- A scorer in use is as it was made, or stands where it was brought. -/
theorem stands (h : w.Reached reader before s) (hfits : w.Fits before) :
    w.scorer? reader before = some s ∨ w.Stands reader before s := by
  have hbuilt : reader.segment.Built := hsegment ▸ Segment.built_ofDocs docs
  have hmoved : ∀ {s : QueryScorer}, w.scorer? reader before = some s → ∀ here,
      w.Stands reader before (DocWalk.reach (here + 1) s) :=
    fun hs here => ⟨here, before, (At.fresh hbuilt hs here).2, hfits⟩
  induction h with
  | fresh h => exact .inl h
  | @next s _ ih =>
      refine .inr ?_
      rcases ih with hs | hs
      · have hstart := (At.fresh hbuilt hs 0).1
        have hfirst := hmoved hs 0
        rw [reach_behind (by rw [hstart]; rfl)] at hfirst
        rw [next_doc hstart]
        exact hfirst
      · exact hs.next hsegment
  | @reach s _ target hpos ih =>
      refine .inr ?_
      rcases ih with hs | hs
      · rw [← Nat.sub_add_cancel hpos]
        exact hmoved hs (target - 1)
      · exact hs.reach hsegment hpos
  | @score s s' scored _ doc hstop hpos hscore ih =>
      refine .inr ?_
      rcases ih with hs | hs
      · have hstart := (At.fresh hbuilt hs 0).1
        exact absurd (Stop.doc.inj (hstart.symm.trans hstop)) (Nat.ne_of_lt hpos)
      · obtain ⟨t, terms, kept, hagain, ht⟩ := hs.score_ok hsegment hstop
        rw [hagain] at hscore
        rw [← (Prod.mk.inj (Except.ok.inj hscore)).1]
        exact ht

include hsegment in
/-- **In every state that stands on a document the document has a score.** -/
theorem score_ok (h : w.Reached reader before s) (hfits : w.Fits before) {doc : Nat}
    (hstop : s.stop = .doc doc) (hpos : 0 < doc) :
    ∃ s' terms kept, s.score = .ok (s', w.scoredOn terms kept) ∧ w.Reached reader before s' := by
  rcases h.stands hsegment hfits with hs | hs
  · have hstart := (At.fresh (hsegment ▸ Segment.built_ofDocs docs) hs 0).1
    exact absurd (Stop.doc.inj (hstart.symm.trans hstop)) (Nat.ne_of_lt hpos)
  · obtain ⟨s', terms, kept, hscore, -⟩ := hs.score_ok hsegment hstop
    exact ⟨s', terms, kept, hscore, h.score hstop hpos hscore⟩

include hsegment in
/-- The scores that a scorer has kept, or else was given, fit. -/
theorem cache_fits (h : w.Reached reader before s) (hfits : w.Fits before) :
    w.Fits (s.cache.or before) := by
  rcases h.stands hsegment hfits with hs | ⟨here, cache, hat, hkept⟩
  · have hcache := (At.fresh (hsegment ▸ Segment.built_ofDocs docs) hs 0).2.cache_or
    unfold DocWalk.reach at hcache
    split at hcache
    · rw [QueryScorer.cache_advance] at hcache
      rwa [hcache]
    · rwa [hcache]
  · rw [hat.cache_or]
    exact hkept

/-! ## Visits -/

include hsegment in
/-- **Visits never fail**, in whichever order and however often documents are visited. -/
theorem visitAll_ok (hfits : w.Fits before) (wanted : List (Nat × Nat)) :
    ∀ {s : QueryScorer}, w.Reached reader before s → (∀ x ∈ wanted, 0 < x.2) →
      ∃ visits s', s.visitAll wanted = .ok (visits, s') ∧ w.Reached reader before s' ∧
        ∀ v ∈ visits, ∃ terms kept, v.2.2 = w.scoredOn terms kept := by
  induction wanted with
  | nil => exact fun h _ => ⟨[], _, rfl, h, List.forall_mem_nil _⟩
  | cons x rest ih =>
      intro s h hwanted
      obtain ⟨hpos, hrest⟩ := List.forall_mem_cons.mp hwanted
      unfold QueryScorer.visitAll
      by_cases hstop : (DocWalk.reach x.2 s).stop = .doc x.2
      · obtain ⟨s', terms, kept, hscore, hreached⟩ :=
          (h.reach hpos).score_ok hsegment hfits hstop hpos
        obtain ⟨visits, last, hvisits, hlast, hscored⟩ := ih hreached hrest
        refine ⟨(x.1, x.2, w.scoredOn terms kept) :: visits, last, ?_, hlast,
          List.forall_mem_cons.mpr ⟨⟨terms, kept, rfl⟩, hscored⟩⟩
        simp only [hstop, if_true]
        exact bind_eq_ok.mpr ⟨_, hscore, bind_eq_ok.mpr ⟨_, hvisits, rfl⟩⟩
      · obtain ⟨visits, last, hvisits, hlast, hscored⟩ := ih (h.reach hpos) hrest
        refine ⟨visits, last, ?_, hlast, hscored⟩
        simp only [hstop, if_false]
        exact hvisits

end Reached

include hsegment in
theorem visitSegment_ok (hfits : w.Fits before) (places : List (Nat × Nat)) :
    ∃ visits after, w.visitSegment reader places before = .ok (visits, after) ∧ w.Fits after ∧
      ∀ v ∈ visits, ∃ terms kept, v.2.2 = w.scoredOn terms kept := by
  unfold visitSegment
  cases hs : w.scorer? reader before with
  | none => exact ⟨[], before, rfl, hfits, List.forall_mem_nil _⟩
  | some s =>
      obtain ⟨visits, s', hvisits, hreached, hscored⟩ := Reached.visitAll_ok hsegment hfits
        (RankingWeight.insideOf reader places) (.fresh hs)
        fun x hx => (RankingWeight.mem_insideOf.mp hx).1
      exact ⟨visits, s'.cache.or before, bind_eq_ok.mpr ⟨_, hvisits, rfl⟩,
        hreached.cache_fits hsegment hfits, hscored⟩

end

theorem visitSegments_ok (places : List (Nat × Nat)) (readers : List SegmentReader) :
    ∀ {cache : Option ScoreCache}, w.Fits cache →
      (∀ r ∈ readers, ∃ docs, r.segment = .ofDocs docs) →
      ∃ visits after, w.visitSegments places readers cache = .ok (visits, after) ∧
        ∀ v ∈ visits, ∃ terms kept, v.2.2 = w.scoredOn terms kept := by
  induction readers with
  | nil => exact fun _ _ => ⟨[], _, rfl, List.forall_mem_nil _⟩
  | cons reader rest ih =>
      intro cache hfits hreaders
      obtain ⟨⟨docs, hsegment⟩, hrest⟩ := List.forall_mem_cons.mp hreaders
      obtain ⟨visits, between, hvisits, hkept, hscored⟩ := visitSegment_ok hsegment hfits places
      obtain ⟨others, after, hothers, hmore⟩ := ih hkept hrest
      exact ⟨visits ++ others, after,
        bind_eq_ok.mpr ⟨_, hvisits, bind_eq_ok.mpr ⟨_, hothers, rfl⟩⟩,
        List.forall_mem_append.mpr ⟨hscored, hmore⟩⟩

end QueryWeight

/-- **Visits to documents of a shard never fail**, whatever numbers they are asked for
    by. -/
theorem Shard.Holds.visit_ok {docs : List IndexedDocument} {s : Shard} (h : s.Holds docs)
    {w : QueryWeight} {cache : Option ScoreCache} (hfits : w.Fits cache) (numbers : List Nat) :
    ∃ visits after, w.visit s numbers cache = .ok (visits, after) ∧
      ∀ v ∈ visits, ∃ terms kept, v.2.2 = w.scoredOn terms kept :=
  w.visitSegments_ok _ s.readers hfits h.segment_eq

end FeatureRank
