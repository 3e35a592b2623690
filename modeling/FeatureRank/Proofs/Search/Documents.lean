import FeatureRank.Proofs.Search.Meaning

/-! # Documents one by one

    A pass over a segment and visits to some of its documents score each document
    for itself: by its terms, and by what the score cache kept for it
    (`QueryWeight.pass_ofDocs`, `QueryWeight.visitSegment_ofDocs`).  The same goes
    for the documents that a filter lets through
    (`QueryWeight.allowedBy_ofDocs`). -/

namespace FeatureRank

open DocWalk

namespace QueryWeight

variable {reader : SegmentReader} {before cache : Option ScoreCache} {here : Nat}
  {w : QueryWeight} {s : QueryScorer}

/-! ## Passes -/

/-- The scores of the numbered documents that are let through and match; the score
    cache has a document under its number from `base` on. -/
def scoresOn (w : QueryWeight) (lets : List TermId → Bool) (base : Nat) (cache : Option ScoreCache)
    (docs : List (List TermId × Nat)) : List (Nat × Scored) :=
  docs.filterMap fun x =>
    if lets x.1 && w.matchesDoc x.1 then
      some (x.2, w.scoredOn x.1 (cache.bind (·.get? (base + x.2))))
    else none

/-- The cache after these documents were scored. -/
def cacheOn (w : QueryWeight) (lets : List TermId → Bool) (base : Nat) (cache : Option ScoreCache)
    (docs : List (List TermId × Nat)) : Option ScoreCache :=
  docs.foldl
    (fun cache x =>
      if lets x.1 && w.matchesDoc x.1 then w.keptOn x.1 (base + x.2) cache else cache)
    cache

section

variable {lets : List TermId → Bool} {base : Nat}

theorem cacheOn_append (w : QueryWeight) (cache : Option ScoreCache)
    (docs more : List (List TermId × Nat)) :
    w.cacheOn lets base cache (docs ++ more)
      = w.cacheOn lets base (w.cacheOn lets base cache docs) more :=
  List.foldl_append

/-- A document that is passed over leaves nothing. -/
theorem on_cons_of_not {x : List TermId × Nat} (h : (lets x.1 && w.matchesDoc x.1) = false)
    (cache : Option ScoreCache) (rest : List (List TermId × Nat)) :
    w.scoresOn lets base cache (x :: rest) = w.scoresOn lets base cache rest ∧
      w.cacheOn lets base cache (x :: rest) = w.cacheOn lets base cache rest := by
  refine ⟨?_, ?_⟩
  · exact List.filterMap_cons_none (by simp only [h]; rfl)
  · show w.cacheOn lets base (if lets x.1 && w.matchesDoc x.1 then _ else cache) rest = _
    rw [h]
    rfl

/-- What was kept for one document changes no score of the others. -/
theorem scoresOn_keptOn (w : QueryWeight) (doc : List TermId) {key : Nat}
    {docs : List (List TermId × Nat)} (hne : ∀ x ∈ docs, base + x.2 ≠ key)
    (cache : Option ScoreCache) :
    w.scoresOn lets base (w.keptOn doc key cache) docs = w.scoresOn lets base cache docs := by
  refine List.filterMap_congr ?_
  intro x hx
  simp only [get?_keptOn w doc (hne x hx) cache]

/-- A document that is scored comes first, and leaves the scores of the others. -/
theorem on_cons {x : List TermId × Nat} (h : (lets x.1 && w.matchesDoc x.1) = true)
    (cache : Option ScoreCache) {rest : List (List TermId × Nat)} (hne : ∀ y ∈ rest, y.2 ≠ x.2) :
    w.scoresOn lets base cache (x :: rest)
        = (x.2, w.scoredOn x.1 (cache.bind (·.get? (base + x.2))))
          :: w.scoresOn lets base (w.keptOn x.1 (base + x.2) cache) rest ∧
      w.cacheOn lets base cache (x :: rest)
        = w.cacheOn lets base (w.keptOn x.1 (base + x.2) cache) rest := by
  refine ⟨?_, ?_⟩
  · rw [scoresOn_keptOn w x.1 (fun y hy => fun heq => hne y hy (Nat.add_left_cancel heq))]
    exact List.filterMap_cons_some (by simp only [h]; rfl)
  · show w.cacheOn lets base (if lets x.1 && w.matchesDoc x.1 then _ else cache) rest = _
    rw [h]
    rfl

/-- Documents that do not match leave nothing. -/
theorem on_skipped (lets : List TermId → Bool) (base : Nat) {docs : List (List TermId × Nat)}
    (h : ∀ x ∈ docs, w.matchesDoc x.1 = false) (cache : Option ScoreCache)
    (more : List (List TermId × Nat)) :
    w.scoresOn lets base cache (docs ++ more) = w.scoresOn lets base cache more ∧
      w.cacheOn lets base cache (docs ++ more) = w.cacheOn lets base cache more := by
  induction docs with
  | nil => exact ⟨rfl, rfl⟩
  | cons x rest ih =>
      have hx : (lets x.1 && w.matchesDoc x.1) = false := by
        rw [h x List.mem_cons_self, Bool.and_false]
      obtain ⟨hscores, hcache⟩ := ih fun y hy => h y (List.mem_cons_of_mem x hy)
      rw [List.cons_append, (on_cons_of_not hx cache _).1, (on_cons_of_not hx cache _).2]
      exact ⟨hscores, hcache⟩

/-- Scoring some documents keeps nothing new for others. -/
theorem get?_cacheOn (w : QueryWeight) {key : Nat} (docs : List (List TermId × Nat)) :
    ∀ cache : Option ScoreCache, (∀ x ∈ docs, base + x.2 ≠ key) →
      (w.cacheOn lets base cache docs).bind (·.get? key) = cache.bind (·.get? key) := by
  induction docs with
  | nil => exact fun _ _ => rfl
  | cons x rest ih =>
      intro cache hne
      refine (ih _ fun y hy => hne y (List.mem_cons_of_mem x hy)).trans ?_
      show (if lets x.1 && w.matchesDoc x.1 then _ else cache).bind _ = _
      split
      · exact get?_keptOn w x.1 (hne x List.mem_cons_self).symm cache
      · rfl

theorem isSome_cacheOn (w : QueryWeight) (lets : List TermId → Bool) (base : Nat)
    (docs : List (List TermId × Nat)) :
    ∀ cache : Option ScoreCache, (w.cacheOn lets base cache docs).isSome = cache.isSome := by
  induction docs with
  | nil => exact fun _ => rfl
  | cons x rest ih =>
      intro cache
      refine (ih _).trans ?_
      show (if lets x.1 && w.matchesDoc x.1 then w.keptOn x.1 (base + x.2) cache
        else cache).isSome = cache.isSome
      split
      · exact w.isSome_keptOn x.1 (base + x.2) cache
      · rfl

/-- Numbers from a base on are the numbers from zero on, moved. -/
theorem cacheOn_shift (w : QueryWeight) (cache : Option ScoreCache)
    (docs : List (List TermId × Nat)) :
    w.cacheOn lets base cache docs
      = w.cacheOn lets 0 cache (docs.map fun x => (x.1, base + x.2)) := by
  unfold cacheOn
  rw [List.foldl_map]
  simp only [Nat.zero_add]

theorem Fits.cacheOn (docs : List (List TermId × Nat)) :
    ∀ {cache : Option ScoreCache}, w.Fits cache → w.Fits (w.cacheOn lets base cache docs) := by
  induction docs with
  | nil => exact fun h => h
  | cons x rest ih =>
      intro cache h
      refine ih ?_
      show w.Fits (if lets x.1 && w.matchesDoc x.1 then _ else _)
      split
      · exact h.keptOn x.1 _
      · exact h

end

/-- The next document of a scorer is the first one after that on which it stands. -/
theorem At.toNext {number : Nat} (hbuilt : reader.segment.Built)
    (h : w.At reader before here cache s) (hstop : s.stop = .doc number) (hle : here ≤ number) :
    w.At reader before number cache (next s) := by
  have hnext : next s = DocWalk.reach (number + 1) s := by
    rw [next_doc hstop, reach_behind]
    rw [show stop s = _ from hstop]
    exact decide_eq_true (Nat.lt_succ_self number)
  rw [hnext]
  exact h.reach hbuilt hle

theorem cache_next (s : QueryScorer) : (next s).cache = s.cache := by
  unfold next
  split
  · exact QueryScorer.cache_advance _ s
  · rfl

/-- **A pass from a document on** scores the documents after it one by one. -/
theorem At.passFrom {allowed : Nat → Bool} {lets : List TermId → Bool} (stops : Nat) :
    ∀ {cache : Option ScoreCache} {s : QueryScorer} {earlier rest : List (List TermId)},
      reader.segment = .ofDocs (earlier ++ rest) →
      w.At reader before earlier.length cache (next s) → w.Fits cache →
      (∀ x ∈ rest.zipIdx (earlier.length + 1), allowed x.2 = lets x.1) → rest.length ≤ stops →
      ∃ s', s.passFrom allowed stops = .ok
          (w.scoresOn lets reader.docBase cache (rest.zipIdx (earlier.length + 1)), s') ∧
        s'.cache.or before
          = w.cacheOn lets reader.docBase cache (rest.zipIdx (earlier.length + 1)) := by
  induction stops with
  | zero =>
      intro cache s earlier rest _ h _ _ hstops
      rw [List.eq_nil_of_length_eq_zero (Nat.le_zero.mp hstops)]
      refine ⟨s, rfl, ?_⟩
      rw [← cache_next]
      exact h.cache_or
  | succ stops ih =>
      intro cache s earlier rest hsegment h hfits hallowed hstops
      have hbuilt : reader.segment.Built := hsegment ▸ Segment.built_ofDocs _
      unfold QueryScorer.passFrom
      rcases (h.firstMatch hsegment).cases with
        ⟨hstop, hnone⟩ | ⟨place, doc, skipped, upTo, later, hstop, hfound⟩
      · obtain ⟨hscores, hcache⟩ := on_skipped lets reader.docBase hnone cache []
        rw [List.append_nil] at hscores hcache
        rw [hscores, hcache]
        simp only [hstop]
        exact ⟨next s, rfl, h.cache_or⟩
      · have hlater : ∀ y ∈ later.zipIdx (place + 2), y.2 ≠ place + 1 := by
          intro y hy
          have := List.le_snd_of_mem_zipIdx hy
          omega
        obtain ⟨hhere, hrest⟩ := hfound.forall_numbered hallowed
        rw [hfound.numbered, (on_skipped lets _ hfound.hskipped cache _).1,
          (on_skipped lets _ hfound.hskipped cache _).2]
        have hroom : later.length ≤ stops :=
          Nat.le_of_lt_succ (Nat.lt_of_lt_of_le hfound.fewer hstops)
        have hplace : earlier.length ≤ place + 1 := Nat.le_succ_of_le hfound.after
        simp only [hstop, hhere]
        by_cases hlets : lets doc = true
        · obtain ⟨s', hscore, hat, hstop'⟩ := h.score hsegment hfits hfound.found hstop
          have hnext := hat.toNext hbuilt (hstop'.trans hstop) hplace
          rw [← hfound.length] at hnext
          obtain ⟨last, hpass, hcache⟩ :=
            ih (hfound.split ▸ hsegment) hnext (hfits.keptOn doc _) hrest hroom
          rw [hfound.length] at hpass hcache
          have hon : (lets doc && w.matchesDoc doc) = true := by rw [hlets, hfound.hmatch]; rfl
          rw [(on_cons hon cache hlater).1, (on_cons hon cache hlater).2, if_pos hlets]
          exact ⟨last, bind_eq_ok.mpr ⟨_, hscore, bind_eq_ok.mpr ⟨_, hpass, rfl⟩⟩, hcache⟩
        · have hnext := h.toNext hbuilt hstop hplace
          rw [← hfound.length] at hnext
          obtain ⟨last, hpass, hcache⟩ := ih (hfound.split ▸ hsegment) hnext hfits hrest hroom
          rw [hfound.length] at hpass hcache
          have hoff : (lets doc && w.matchesDoc doc) = false := by
            rw [Bool.eq_false_iff.mpr hlets]
            rfl
          rw [(on_cons_of_not hoff cache _).1, (on_cons_of_not hoff cache _).2, if_neg hlets]
          exact ⟨last, hpass, hcache⟩

/-- **The documents on which a scorer stops** are those that match. -/
theorem At.docsFrom (stops : Nat) :
    ∀ {s : QueryScorer} {earlier rest : List (List TermId)},
      reader.segment = .ofDocs (earlier ++ rest) →
      w.At reader before earlier.length cache (next s) → rest.length ≤ stops →
      s.docsFrom stops
        = ((rest.zipIdx (earlier.length + 1)).filter fun x => w.matchesDoc x.1).map (·.2) := by
  induction stops with
  | zero =>
      intro s earlier rest _ _ hstops
      rw [List.eq_nil_of_length_eq_zero (Nat.le_zero.mp hstops)]
      rfl
  | succ stops ih =>
      intro s earlier rest hsegment h hstops
      have hbuilt : reader.segment.Built := hsegment ▸ Segment.built_ofDocs _
      unfold QueryScorer.docsFrom
      rcases (h.firstMatch hsegment).cases with
        ⟨hstop, hnone⟩ | ⟨place, doc, skipped, upTo, later, hstop, hfound⟩
      · rw [List.filter_eq_nil_iff.mpr fun x hx => Bool.eq_false_iff.mp (hnone x hx)]
        simp only [hstop]
        rfl
      · have hnext := h.toNext hbuilt hstop (Nat.le_succ_of_le hfound.after)
        have hroom : later.length ≤ stops :=
          Nat.le_of_lt_succ (Nat.lt_of_lt_of_le hfound.fewer hstops)
        rw [← hfound.length] at hnext
        have hdocs := ih (hfound.split ▸ hsegment) hnext hroom
        rw [hfound.length] at hdocs
        have hnone : skipped.filter (fun x => w.matchesDoc x.1) = [] :=
          List.filter_eq_nil_iff.mpr fun x hx => Bool.eq_false_iff.mp (hfound.hskipped x hx)
        have hhere : ((doc, place + 1) :: later.zipIdx (place + 2)).filter
              (fun x => w.matchesDoc x.1)
            = (doc, place + 1) :: (later.zipIdx (place + 2)).filter (fun x => w.matchesDoc x.1) :=
          List.filter_cons_of_pos hfound.hmatch
        simp only [hstop, hdocs]
        rw [hfound.numbered, List.filter_append, hnone, hhere]
        rfl

section

variable {docs : List (List TermId)} (hsegment : reader.segment = .ofDocs docs)

include hsegment in
/-- A query without a scorer for a segment matches nothing in it. -/
theorem scorer?_eq_none (h : w.scorer? reader cache = none) :
    ∀ doc ∈ docs, w.matchesDoc doc = false := by
  induction w with
  | plain weight =>
      intro doc hmem
      obtain ⟨index, hdoc⟩ := List.mem_iff_getElem?.mp hmem
      have hnone : weight.scorer? (.ofDocs docs) = none := by
        rw [← hsegment]
        exact Option.map_eq_none_iff.mp h
      have hisSome := Weight.isSome_scorerAt? hdoc weight
      unfold Weight.scorerAt? at hisSome
      rw [hnone] at hisSome
      exact hisSome.symm
  | ranking weight => exact nomatch h
  | boost inner factor ih => exact ih (Option.map_eq_none_iff.mp h)

include hsegment in
/-- A fresh scorer that goes to its next document is at the first one. -/
theorem At.first {s : QueryScorer} (h : w.scorer? reader cache = some s) :
    w.At reader cache ([] : List (List TermId)).length cache (next s) := by
  obtain ⟨hstart, hat⟩ := At.fresh (hsegment ▸ Segment.built_ofDocs docs) h 0
  rw [reach_behind (by rw [hstart]; rfl)] at hat
  rw [next_doc hstart]
  exact hat

include hsegment in
theorem maxDoc_reader : reader.maxDoc = docs.length := by
  show reader.segment.maxDoc = _
  rw [hsegment, Segment.maxDoc_ofDocs]

include hsegment in
/-- **A pass over a segment** scores its documents one by one. -/
theorem pass_ofDocs {allowed : Nat → Bool} {lets : List TermId → Bool} (hfits : w.Fits cache)
    (hallowed : ∀ x ∈ docs.zipIdx 1, allowed x.2 = lets x.1) :
    w.pass reader allowed cache = .ok
      (w.scoresOn lets reader.docBase cache (docs.zipIdx 1),
        w.cacheOn lets reader.docBase cache (docs.zipIdx 1)) := by
  unfold pass
  cases hs : w.scorer? reader cache with
  | none =>
      have hnone := scorer?_eq_none hsegment hs
      obtain ⟨hscores, hcache⟩ := on_skipped (w := w) lets reader.docBase
        (fun x hx => hnone x.1 (List.fst_mem_of_mem_zipIdx hx)) cache []
      rw [List.append_nil] at hscores hcache
      rw [hscores, hcache]
      rfl
  | some s =>
      obtain ⟨last, hpass, hcache⟩ := At.passFrom reader.maxDoc hsegment (At.first hsegment hs)
        hfits hallowed (Nat.le_of_eq (maxDoc_reader hsegment).symm)
      exact bind_eq_ok.mpr ⟨_, hpass, congrArg (fun c => Except.ok (_, c)) hcache⟩

include hsegment in
/-- The documents of a segment that a query matches. -/
theorem docs_ofDocs (w : QueryWeight) :
    w.docs reader = ((docs.zipIdx 1).filter fun x => w.matchesDoc x.1).map (·.2) := by
  unfold QueryWeight.docs
  cases hs : w.scorer? reader none with
  | none =>
      have hnone := scorer?_eq_none hsegment hs
      rw [List.filter_eq_nil_iff.mpr fun x hx =>
        Bool.eq_false_iff.mp (hnone x.1 (List.fst_mem_of_mem_zipIdx hx))]
      rfl
  | some s =>
      exact At.docsFrom reader.maxDoc hsegment (At.first hsegment hs)
        (Nat.le_of_eq (maxDoc_reader hsegment).symm)

include hsegment in
/-- Whether a filter lets a document of a segment through. -/
theorem allowedBy_ofDocs (filter : Option QueryWeight) :
    ∀ x ∈ docs.zipIdx 1, WeightedSlot.allowedBy filter reader x.2
      = filter.all (·.matchesDoc x.1) := by
  intro x hx
  cases filter with
  | none => rfl
  | some w =>
      show (w.docs reader).contains x.2 = w.matchesDoc x.1
      rw [docs_ofDocs hsegment, Bool.eq_iff_iff, List.contains_iff_mem, List.mem_map]
      constructor
      · rintro ⟨y, hy, heq⟩
        obtain ⟨hmem, hmatch⟩ := List.mem_filter.mp hy
        have hx' := List.mem_zipIdx_iff_le_and_getElem?_sub.mp hx
        have hy' := List.mem_zipIdx_iff_le_and_getElem?_sub.mp hmem
        rw [heq, hx'.2] at hy'
        rw [Option.some.inj hy'.2]
        exact hmatch
      · intro hmatch
        exact ⟨x, List.mem_filter.mpr ⟨hx, hmatch⟩, rfl⟩

end

/-! ## Visits -/

/-- The scores of the documents of some places that match, under the index of each
    place; a place has the number of its document first. -/
def visitsOn (w : QueryWeight) (docAt : Nat → Option (List TermId)) (cache : Option ScoreCache)
    (places : List (Nat × Nat)) : List (Nat × Scored) :=
  places.filterMap fun x => ((docAt x.1).filter (w.matchesDoc ·)).map fun doc =>
    (x.2, w.scoredOn doc (cache.bind (·.get? x.1)))

/-- The same, each with the scores that those before it have kept as well. -/
def visitsThrough (w : QueryWeight) (docAt : Nat → Option (List TermId)) :
    Option ScoreCache → List (Nat × Nat) → List (Nat × Scored)
  | _, [] => []
  | cache, x :: rest =>
    match (docAt x.1).filter (w.matchesDoc ·) with
    | none => visitsThrough w docAt cache rest
    | some doc =>
      (x.2, w.scoredOn doc (cache.bind (·.get? x.1)))
        :: visitsThrough w docAt (w.keptOn doc x.1 cache) rest

/-- The cache after these documents were scored. -/
def visitCacheOn (w : QueryWeight) (docAt : Nat → Option (List TermId))
    (cache : Option ScoreCache) (places : List (Nat × Nat)) : Option ScoreCache :=
  places.foldl
    (fun cache x => ((docAt x.1).filter (w.matchesDoc ·)).elim cache (w.keptOn · x.1 cache))
    cache

section

variable {docAt : Nat → Option (List TermId)}

theorem visitCacheOn_append (w : QueryWeight) (cache : Option ScoreCache)
    (places more : List (Nat × Nat)) :
    w.visitCacheOn docAt cache (places ++ more)
      = w.visitCacheOn docAt (w.visitCacheOn docAt cache places) more :=
  List.foldl_append

/-- A place whose document does not match, or that has none, leaves nothing. -/
theorem visitThrough_cons_of_none {x : Nat × Nat}
    (h : (docAt x.1).filter (w.matchesDoc ·) = none) (cache : Option ScoreCache)
    (rest : List (Nat × Nat)) :
    w.visitsThrough docAt cache (x :: rest) = w.visitsThrough docAt cache rest ∧
      w.visitCacheOn docAt cache (x :: rest) = w.visitCacheOn docAt cache rest := by
  rw [visitsThrough, h]
  refine ⟨rfl, ?_⟩
  show w.visitCacheOn docAt (((docAt x.1).filter (w.matchesDoc ·)).elim cache _) rest = _
  rw [h]
  rfl

theorem visitThrough_cons {x : Nat × Nat} {doc : List TermId}
    (h : (docAt x.1).filter (w.matchesDoc ·) = some doc) (cache : Option ScoreCache)
    (rest : List (Nat × Nat)) :
    w.visitsThrough docAt cache (x :: rest)
        = (x.2, w.scoredOn doc (cache.bind (·.get? x.1)))
          :: w.visitsThrough docAt (w.keptOn doc x.1 cache) rest ∧
      w.visitCacheOn docAt cache (x :: rest)
        = w.visitCacheOn docAt (w.keptOn doc x.1 cache) rest := by
  rw [visitsThrough, h]
  refine ⟨rfl, ?_⟩
  show w.visitCacheOn docAt (((docAt x.1).filter (w.matchesDoc ·)).elim cache _) rest = _
  rw [h]
  rfl

theorem visitsThrough_append (w : QueryWeight) (places more : List (Nat × Nat)) :
    ∀ cache : Option ScoreCache, w.visitsThrough docAt cache (places ++ more)
      = w.visitsThrough docAt cache places
        ++ w.visitsThrough docAt (w.visitCacheOn docAt cache places) more := by
  induction places with
  | nil => exact fun _ => rfl
  | cons x rest ih =>
      intro cache
      rw [List.cons_append]
      cases h : (docAt x.1).filter (w.matchesDoc ·) with
      | none =>
          rw [(visitThrough_cons_of_none h cache _).1, (visitThrough_cons_of_none h cache rest).1,
            (visitThrough_cons_of_none h cache rest).2, ih]
      | some doc =>
          rw [(visitThrough_cons h cache _).1, (visitThrough_cons h cache rest).1,
            (visitThrough_cons h cache rest).2, ih, List.cons_append]

/-- Places that have no document may be left out. -/
theorem visitThrough_filter (w : QueryWeight) (docAt : Nat → Option (List TermId))
    (keep : Nat × Nat → Bool) (places : List (Nat × Nat)) :
    ∀ cache : Option ScoreCache, (∀ x ∈ places, keep x = false → docAt x.1 = none) →
      w.visitsThrough docAt cache (places.filter keep) = w.visitsThrough docAt cache places ∧
        w.visitCacheOn docAt cache (places.filter keep) = w.visitCacheOn docAt cache places := by
  induction places with
  | nil => exact fun _ _ => ⟨rfl, rfl⟩
  | cons x rest ih =>
      intro cache hnone
      have hrest := fun cache => ih cache fun y hy => hnone y (List.mem_cons_of_mem x hy)
      by_cases hkeep : keep x = true
      · rw [List.filter_cons_of_pos hkeep]
        refine ⟨?_, (hrest _).2⟩
        show w.visitsThrough docAt cache ([x] ++ rest.filter keep)
          = w.visitsThrough docAt cache ([x] ++ rest)
        rw [visitsThrough_append, visitsThrough_append, (hrest _).1]
      · have hgone : (docAt x.1).filter (w.matchesDoc ·) = none := by
          rw [hnone x List.mem_cons_self (Bool.eq_false_iff.mpr hkeep)]
          rfl
        rw [List.filter_cons_of_neg hkeep, (visitThrough_cons_of_none hgone cache rest).1,
          (visitThrough_cons_of_none hgone cache rest).2]
        exact hrest cache

/-- Visits to documents of which none matches do nothing. -/
theorem visitThrough_of_none {places : List (Nat × Nat)}
    (hnone : ∀ x ∈ places, (docAt x.1).filter (w.matchesDoc ·) = none)
    (cache : Option ScoreCache) :
    w.visitsThrough docAt cache places = [] ∧ w.visitCacheOn docAt cache places = cache := by
  induction places with
  | nil => exact ⟨rfl, rfl⟩
  | cons x rest ih =>
      have hx := hnone x List.mem_cons_self
      rw [(visitThrough_cons_of_none hx cache rest).1, (visitThrough_cons_of_none hx cache rest).2]
      exact ih fun y hy => hnone y (List.mem_cons_of_mem x hy)

/-- What was kept for the documents of some places changes no score of others. -/
theorem visitsOn_keptOn (w : QueryWeight) (doc : List TermId) {key : Nat}
    {places : List (Nat × Nat)} (hne : ∀ x ∈ places, x.1 ≠ key) (cache : Option ScoreCache) :
    w.visitsOn docAt (w.keptOn doc key cache) places = w.visitsOn docAt cache places := by
  refine List.filterMap_congr ?_
  intro x hx
  simp only [get?_keptOn w doc (hne x hx) cache]

/-- **Visits to different documents** do not see what the others have kept. -/
theorem visitsThrough_eq (w : QueryWeight) {places : List (Nat × Nat)}
    (hasc : places.Pairwise fun a b => a.1 < b.1) :
    ∀ cache : Option ScoreCache,
      w.visitsThrough docAt cache places = w.visitsOn docAt cache places := by
  induction hasc with
  | nil => exact fun _ => rfl
  | @cons x rest hlater _ ih =>
      intro cache
      cases h : (docAt x.1).filter (w.matchesDoc ·) with
      | none =>
          rw [(visitThrough_cons_of_none h cache rest).1, ih]
          exact (List.filterMap_cons_none (by simp only [h]; rfl)).symm
      | some doc =>
          rw [(visitThrough_cons h cache rest).1, ih,
            visitsOn_keptOn w doc fun y hy => Nat.ne_of_gt (hlater y hy)]
          exact (List.filterMap_cons_some (by simp only [h]; rfl)).symm

theorem Fits.visitCacheOn (places : List (Nat × Nat)) :
    ∀ {cache : Option ScoreCache}, w.Fits cache → w.Fits (w.visitCacheOn docAt cache places) := by
  induction places with
  | nil => exact fun h => h
  | cons x rest ih =>
      intro cache h
      refine ih ?_
      show w.Fits (((docAt x.1).filter (w.matchesDoc ·)).elim cache (w.keptOn · x.1 cache))
      cases (docAt x.1).filter (w.matchesDoc ·) with
      | none => exact h
      | some doc => exact h.keptOn doc x.1

end

/-- Whether it stops on the document that it is brought to says whether that matches. -/
theorem At.stop_iff {docs : List (List TermId)} (hsegment : reader.segment = .ofDocs docs)
    {place : Nat} (h : w.At reader before place cache s) {doc : List TermId}
    (hdoc : docs[place]? = some doc) : s.stop = .doc (place + 1) ↔ w.matchesDoc doc = true := by
  obtain ⟨hlt, hat⟩ := List.getElem?_eq_some_iff.mp hdoc
  have hlength : (docs.take place).length = place := by
    rw [List.length_take, Nat.min_eq_left (Nat.le_of_lt hlt)]
  have hmem : (doc, place + 1) ∈ (docs.drop place).zipIdx ((docs.take place).length + 1) := by
    rw [List.drop_eq_getElem_cons hlt, hlength, hat, List.zipIdx_cons]
    exact List.mem_cons_self
  rw [← List.take_append_drop place docs] at hsegment
  rcases (At.firstMatch hsegment (by rw [hlength]; exact h)).cases with
    ⟨hstop, hnone⟩ | ⟨place', doc', skipped, upTo, later, hstop, hfound⟩
  · rw [hstop]
    exact iff_of_false nofun (Bool.eq_false_iff.mp (hnone _ hmem))
  · rw [hstop]
    have hfound' := hfound.found
    rw [List.take_append_drop] at hfound'
    constructor
    · intro heq
      have hsame : place' = place := Nat.succ.inj (Stop.doc.inj heq)
      rw [hsame, hdoc] at hfound'
      rw [Option.some.inj hfound']
      exact hfound.hmatch
    · intro hmatch
      rw [hfound.numbered] at hmem
      rcases List.mem_append.mp hmem with hin | hin
      · rw [hfound.hskipped _ hin] at hmatch
        exact nomatch hmatch
      · rcases List.mem_cons.mp hin with heq | hin
        · rw [(Prod.mk.inj heq).2]
        · have hle := List.le_snd_of_mem_zipIdx hin
          have hafter := hfound.after
          rw [hlength] at hafter
          exact absurd hle (by omega)

/-- A scorer that may be brought to any document after the one of a number. -/
def Ready (w : QueryWeight) (reader : SegmentReader) (before : Option ScoreCache) (here : Nat)
    (cache : Option ScoreCache) (s : QueryScorer) : Prop :=
  ∀ later, here ≤ later → w.At reader before later cache (reach (later + 1) s)

theorem Ready.cache_or (h : w.Ready reader before here cache s) : s.cache.or before = cache := by
  have hat := (h here (Nat.le_refl here)).cache_or
  unfold DocWalk.reach at hat
  split at hat
  · rw [QueryScorer.cache_advance] at hat
    exact hat
  · exact hat

/-- The document of a number that lies among those of a segment. -/
theorem exists_place {docs : List (List TermId)} {base here number : Nat}
    (hlo : base + here < number) (hhi : number ≤ base + docs.length) :
    ∃ place doc, here ≤ place ∧ number = base + (place + 1) ∧ docs[place]? = some doc :=
  ⟨number - base - 1, docs[number - base - 1], by omega, by omega,
    List.getElem?_eq_getElem (by omega)⟩

/-- **Visits** to documents of a segment score those that match one by one, and one that
    is asked for several times as often. -/
theorem Ready.visitAll {docs : List (List TermId)} (hsegment : reader.segment = .ofDocs docs)
    {docAt : Nat → Option (List TermId)}
    (hdocAt : ∀ place doc, docs[place]? = some doc →
      docAt (reader.docBase + (place + 1)) = some doc) (places : List (Nat × Nat)) :
    ∀ {here : Nat} {cache : Option ScoreCache} {s : QueryScorer},
      w.Ready reader before here cache s → w.Fits cache →
      places.Pairwise (fun a b => a.1 ≤ b.1) →
      (∀ x ∈ places, reader.docBase + here < x.1 ∧ x.1 ≤ reader.docBase + docs.length) →
      ∃ visits s', s.visitAll (places.map fun x => (x.2, x.1 - reader.docBase))
          = .ok (visits, s') ∧
        visits.map (fun v => (v.1, v.2.2)) = w.visitsThrough docAt cache places ∧
        s'.cache.or before = w.visitCacheOn docAt cache places := by
  have hbuilt : reader.segment.Built := hsegment ▸ Segment.built_ofDocs docs
  induction places with
  | nil => exact fun h _ _ _ => ⟨[], _, rfl, rfl, h.cache_or⟩
  | cons x rest ih =>
      intro here cache s h hfits hasc hin
      obtain ⟨hlater, hrest⟩ := List.pairwise_cons.mp hasc
      obtain ⟨hlo, hhi⟩ := hin x List.mem_cons_self
      obtain ⟨place, doc, hle, hplace, hdoc⟩ := exists_place hlo hhi
      have hinside : x.1 - reader.docBase = place + 1 := by omega
      have hat : w.At reader before place cache (reach (place + 1) s) := h place hle
      have hothers : ∀ y ∈ rest, reader.docBase + place < y.1 ∧
          y.1 ≤ reader.docBase + docs.length := by
        intro y hy
        have := hlater y hy
        exact ⟨by omega, (hin y (List.mem_cons_of_mem x hy)).2⟩
      rw [List.map_cons, hinside]
      unfold QueryScorer.visitAll
      by_cases hmatch : w.matchesDoc doc = true
      · have hstop := (hat.stop_iff hsegment hdoc).mpr hmatch
        obtain ⟨s', hscore, hat', -⟩ := hat.score hsegment hfits hdoc hstop
        rw [← hplace] at hscore hat'
        obtain ⟨visits, last, hvisits, herased, hcache⟩ := ih
          (fun later hle => hat'.reach hbuilt hle) (hfits.keptOn doc x.1) hrest hothers
        have hfound : (docAt x.1).filter (w.matchesDoc ·) = some doc := by
          rw [hplace, hdocAt place _ hdoc, Option.filter_some, if_pos hmatch]
        rw [(visitThrough_cons hfound cache rest).1, (visitThrough_cons hfound cache rest).2]
        refine ⟨(x.2, place + 1, w.scoredOn doc (cache.bind (·.get? x.1))) :: visits,
          last, ?_, ?_, hcache⟩
        · simp only [hstop, if_true]
          exact bind_eq_ok.mpr ⟨_, hscore, bind_eq_ok.mpr ⟨_, hvisits, rfl⟩⟩
        · rw [List.map_cons, herased]
      · have hstop : (reach (place + 1) s).stop ≠ .doc (place + 1) :=
          fun hon => hmatch ((hat.stop_iff hsegment hdoc).mp hon)
        obtain ⟨visits, last, hvisits, herased, hcache⟩ := ih
          (fun later hle => hat.reach hbuilt hle) hfits hrest hothers
        have hnone : (docAt x.1).filter (w.matchesDoc ·) = none := by
          rw [hplace, hdocAt place _ hdoc, Option.filter_some, if_neg hmatch]
        rw [(visitThrough_cons_of_none hnone cache rest).1,
          (visitThrough_cons_of_none hnone cache rest).2]
        refine ⟨visits, last, ?_, herased, hcache⟩
        simp only [hstop, if_false]
        exact hvisits

/-- **Visits to the documents of a list that lie in a segment.** -/
theorem visitSegment_ofDocs {docs : List (List TermId)} (hsegment : reader.segment = .ofDocs docs)
    {docAt : Nat → Option (List TermId)}
    (hdocAt : ∀ place doc, docs[place]? = some doc →
      docAt (reader.docBase + (place + 1)) = some doc) (hfits : w.Fits cache)
    {places : List (Nat × Nat)} (hasc : places.Pairwise fun a b => a.1 ≤ b.1) :
    ∃ visits, w.visitSegment reader places cache = .ok
        (visits, w.visitCacheOn docAt cache (places.filter (reader.covers ·.1))) ∧
      visits.map (fun v => (v.1, v.2.2))
        = w.visitsThrough docAt cache (places.filter (reader.covers ·.1)) := by
  have hinside : ∀ x ∈ places.filter (reader.covers ·.1),
      reader.docBase + 0 < x.1 ∧ x.1 ≤ reader.docBase + docs.length := by
    intro x hx
    have hcovers := (List.mem_filter.mp hx).2
    unfold SegmentReader.covers at hcovers
    rw [Bool.and_eq_true, decide_eq_true_eq, decide_eq_true_eq, maxDoc_reader hsegment] at hcovers
    exact hcovers
  unfold visitSegment
  cases hs : w.scorer? reader cache with
  | none =>
      have hnone := scorer?_eq_none hsegment hs
      have hnowhere : ∀ x ∈ places.filter (reader.covers ·.1),
          (docAt x.1).filter (w.matchesDoc ·) = none := by
        intro x hx
        obtain ⟨hlo, hhi⟩ := hinside x hx
        obtain ⟨place, doc, -, hplace, hdoc⟩ := exists_place hlo hhi
        rw [hplace, hdocAt place doc hdoc, Option.filter_some,
          if_neg (Bool.eq_false_iff.mp (hnone doc (List.mem_of_getElem? hdoc)))]
      obtain ⟨hvisits, hcache⟩ := visitThrough_of_none hnowhere cache
      rw [hvisits, hcache]
      exact ⟨[], rfl, rfl⟩
  | some s =>
      have hwanted : (places.filterMap fun x =>
            if reader.covers x.1 then some (x.2, x.1 - reader.docBase) else none)
          = (places.filter (reader.covers ·.1)).map fun x => (x.2, x.1 - reader.docBase) := by
        rw [← List.filterMap_eq_map, List.filterMap_filter]
        refine List.filterMap_congr ?_
        exact fun _ _ => rfl
      have hready : w.Ready reader cache 0 cache s :=
        fun later _ => (At.fresh (hsegment ▸ Segment.built_ofDocs docs) hs later).2
      obtain ⟨visits, last, hvisits, herased, hcache⟩ := hready.visitAll hsegment hdocAt _ hfits
        (hasc.sublist List.filter_sublist) hinside
      rw [← hwanted] at hvisits
      refine ⟨visits, ?_, herased⟩
      exact bind_eq_ok.mpr ⟨_, hvisits, congrArg (fun c => Except.ok (visits, c)) hcache⟩

end QueryWeight

end FeatureRank
