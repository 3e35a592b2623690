import FeatureRank.Proofs.Index.Addresses
import FeatureRank.Proofs.Search.Answer
import FeatureRank.Proofs.Search.Places

/-! # Visits — each wanted document, as often as it is wanted

    Visits go to the documents of a list of absolute numbers, in any order and with
    any repetitions, and to nothing for a number that the shard does not have.  One
    scorer for a segment is brought from document to document and is never brought
    back, where a pass stops on one document after the other.

    The two agree (`Shard.Built.visits_each_once`): there is one visit for each place
    of the list whose document a pass stops on (`QueryWeight.MatchesAt`), by document
    and equal ones by place (`RankingWeight.placesOf_lex`); the scorer stands on the
    document then (`QueryWeight.ScoresAt`), and gives it the score that the pass
    gives (`QueryWeight.pass_of_terms`). -/

namespace FeatureRank

/-! ## The order of the places -/

namespace RankingWeight

/-- Sorting leaves the places of one document in the order of the list. -/
theorem filter_placesOf (docs : List Nat) (doc : Nat) :
    (placesOf docs).filter (·.1 == doc) = docs.zipIdx.filter (·.1 == doc) := by
  have hsame : (docs.zipIdx.filter (·.1 == doc)).Pairwise
      fun a b => decide (a.1 ≤ b.1) = true := by
    refine List.pairwise_of_forall_mem_list fun a ha b hb => decide_eq_true (Nat.le_of_eq ?_)
    exact (beq_iff_eq.mp (List.mem_filter.mp ha).2).trans
      (beq_iff_eq.mp (List.mem_filter.mp hb).2).symm
  have hsub : (docs.zipIdx.filter (·.1 == doc)).Sublist (placesOf docs) :=
    List.sublist_mergeSort byDoc_trans byDoc_total hsame List.filter_sublist
  have hin := hsub.filter (·.1 == doc)
  rw [List.filter_filter] at hin
  simp only [Bool.and_self] at hin
  refine (hin.eq_of_length ?_).symm
  exact (((List.mergeSort_perm docs.zipIdx _).filter (·.1 == doc)).length_eq).symm

/-- Each place of the list is there once. -/
theorem placesOf_nodup (docs : List Nat) : ((placesOf docs).map (·.2)).Nodup := by
  refine ((List.mergeSort_perm docs.zipIdx _).map _).nodup_iff.mpr ?_
  rw [List.zipIdx_map_snd]
  exact List.nodup_range'

/-- **The order of the places**: by document, and equal ones by place. -/
theorem placesOf_lex (docs : List Nat) :
    (placesOf docs).Pairwise fun a b => a.1 < b.1 ∨ a.1 = b.1 ∧ a.2 < b.2 := by
  refine List.pairwise_iff_forall_sublist.mpr fun {a b} hab => ?_
  have hle := List.pairwise_iff_forall_sublist.mp (placesOf_sorted docs) hab
  rcases Nat.lt_or_eq_of_le hle with hlt | heq
  · exact .inl hlt
  · -- the places of one document stand as they do in the list
    have hboth : [a, b].filter (·.1 == b.1) = [a, b] := by simp [heq]
    have hin := hab.filter (·.1 == b.1)
    rw [filter_placesOf, hboth] at hin
    exact .inr ⟨heq, List.pairwise_iff_forall_sublist.mp (zipIdx_pairwise docs 0)
      (hin.trans List.filter_sublist)⟩

end RankingWeight

/-! ## What is visited -/

/-- A number with a document is located in a segment that is made of documents, at the
    place of this one. -/
theorem Shard.Holds.place_of_terms {docs : List IndexedDocument} {s : Shard} (hs : s.Holds docs)
    {number : Nat} {terms : List TermId} (h : Shard.termsAt docs number = some terms) :
    ∃ reader chunk place, s.locate? number = some (reader, place + 1) ∧
      reader.segment = .ofDocs chunk ∧ chunk[place]? = some terms := by
  cases number with
  | zero => exact nomatch h
  | succ index =>
      obtain ⟨d, hd, rfl⟩ := Option.map_eq_some_iff.mp h
      exact hs.locate? hd

namespace QueryWeight

variable {w : QueryWeight} {s : Shard} {reader : SegmentReader} {cache : Option ScoreCache}

/-- A number of a document of a shard on which a pass over its segment stops. -/
def MatchesAt (w : QueryWeight) (s : Shard) (number : Nat) : Prop :=
  0 < number ∧ number ≤ s.docCount ∧
    ∃ reader inside, s.locate? number = some (reader, inside) ∧ inside ∈ w.docs reader

/-- A pass stops on the documents that match. -/
theorem mem_docs_iff {docs : List (List TermId)} (hsegment : reader.segment = .ofDocs docs)
    {place : Nat} {doc : List TermId} (hdoc : docs[place]? = some doc) (w : QueryWeight) :
    place + 1 ∈ w.docs reader ↔ w.matchesDoc doc = true := by
  have hmem : (doc, place + 1) ∈ docs.zipIdx 1 :=
    List.mem_zipIdx_iff_le_and_getElem?_sub.mpr ⟨Nat.le_add_left 1 place, hdoc⟩
  have hallowed : (w.docs reader).contains (place + 1) = w.matchesDoc doc :=
    allowedBy_ofDocs hsegment (some w) _ hmem
  rw [← hallowed, List.contains_iff_mem]

/-- The numbers that are visited are those whose documents match. -/
theorem matchesAt_iff {docs : List IndexedDocument} (hs : s.Holds docs) (w : QueryWeight)
    (number : Nat) : w.MatchesAt s number ↔
      ((Shard.termsAt docs number).filter (w.matchesDoc ·)).isSome = true := by
  cases hterms : Shard.termsAt docs number with
  | none =>
      refine iff_of_false ?_ (fun h => nomatch h)
      rintro ⟨-, -, reader, inside, hlocate, -⟩
      rw [hs.locate?_of_none hterms] at hlocate
      exact nomatch hlocate
  | some doc =>
      obtain ⟨reader, chunk, place, hlocate, hsegment, hplace⟩ := hs.place_of_terms hterms
      obtain ⟨hpos, hle⟩ := (hs.located_iff number).mp (Option.isSome_of_eq_some hlocate)
      have hmatches : w.MatchesAt s number ↔ place + 1 ∈ w.docs reader := by
        constructor
        · rintro ⟨-, -, r, inside, hlocate', hmem⟩
          rw [hlocate] at hlocate'
          obtain ⟨rfl, rfl⟩ := Prod.mk.inj (Option.some.inj hlocate')
          exact hmem
        · exact fun hmem => ⟨hpos, hle, reader, place + 1, hlocate, hmem⟩
      rw [hmatches, mem_docs_iff hsegment hplace, Option.filter_some]
      cases w.matchesDoc doc <;> simp

/-! ## What a visit gives -/

/-- A visit is at the place of its number. -/
theorem visit_scoresAt {numbers : List Nat} {visits : List (Nat × Nat × Scored)}
    {after : Option ScoreCache} (h : w.visit s numbers cache = .ok (visits, after)) :
    ∀ v ∈ visits, ∃ number reader, numbers[v.1]? = some number ∧
      s.locate? number = some (reader, v.2.1) ∧ w.ScoresAt reader v.2.1 v.2.2 := by
  intro v hv
  obtain ⟨reader, hreader, hinside, hscores⟩ := visitSegments_scoresAt h v hv
  obtain ⟨hpos, hle, hplace⟩ := RankingWeight.mem_insideOf.mp hinside
  exact ⟨reader.docBase + v.2.1, reader, RankingWeight.mem_placesOf.mp hplace,
    Shard.locate?_eq_some_iff.mpr ⟨hreader, hpos, hle, rfl⟩, hscores⟩

/-- The places of visits are those of the documents that match. -/
theorem map_fst_visitsThrough (w : QueryWeight) (docAt : Nat → Option (List TermId))
    (places : List (Nat × Nat)) : ∀ cache : Option ScoreCache,
      (w.visitsThrough docAt cache places).map (·.1)
        = (places.filter fun x => ((docAt x.1).filter (w.matchesDoc ·)).isSome).map (·.2) := by
  induction places with
  | nil => exact fun _ => rfl
  | cons x rest ih =>
      intro cache
      cases h : (docAt x.1).filter (w.matchesDoc ·) with
      | none =>
          rw [(visitThrough_cons_of_none h cache rest).1, ih,
            List.filter_cons_of_neg (by rw [h]; exact Bool.false_ne_true)]
      | some doc =>
          rw [(visitThrough_cons h cache rest).1, List.map_cons, ih,
            List.filter_cons_of_pos (by rw [h]; rfl), List.map_cons]

/-- Without a score cache nothing is kept. -/
theorem keptOn_none (w : QueryWeight) (doc : List TermId) (key : Nat) :
    w.keptOn doc key none = none :=
  Option.isNone_iff_eq_none.mp (by simpa using w.isSome_keptOn doc key none)

/-- Without a score cache each visit gives what the terms of its document say. -/
theorem mem_visitsThrough_none {docAt : Nat → Option (List TermId)} {places : List (Nat × Nat)}
    {visit : Nat × Scored} (h : visit ∈ w.visitsThrough docAt none places) :
    ∃ x ∈ places, x.2 = visit.1 ∧ ∃ doc, (docAt x.1).filter (w.matchesDoc ·) = some doc ∧
      visit.2 = w.scoredOn doc none := by
  induction places with
  | nil => exact nomatch h
  | cons x rest ih =>
      cases hdoc : (docAt x.1).filter (w.matchesDoc ·) with
      | none =>
          rw [(visitThrough_cons_of_none hdoc none rest).1] at h
          obtain ⟨y, hy, hvisit⟩ := ih h
          exact ⟨y, List.mem_cons_of_mem x hy, hvisit⟩
      | some doc =>
          rw [(visitThrough_cons hdoc none rest).1, keptOn_none] at h
          rcases List.mem_cons.mp h with rfl | h
          · exact ⟨x, List.mem_cons_self, rfl, doc, hdoc, rfl⟩
          · obtain ⟨y, hy, hvisit⟩ := ih h
            exact ⟨y, List.mem_cons_of_mem x hy, hvisit⟩

end QueryWeight

/-- Under different keys, what is found under a key is what stands with it. -/
theorem lookup_eq_some_iff_mem {α : Type} {items : List (Nat × α)}
    (hkeys : (items.map (·.1)).Nodup) {key : Nat} {item : α} :
    items.lookup key = some item ↔ (key, item) ∈ items := by
  constructor
  · intro h
    obtain ⟨before, after, rfl, -⟩ := List.lookup_eq_some_iff.mp h
    exact List.mem_append_right before List.mem_cons_self
  · intro h
    obtain ⟨before, after, rfl⟩ := List.append_of_mem h
    refine List.lookup_eq_some_iff.mpr ⟨before, after, rfl, fun p hp => ?_⟩
    rw [List.map_append, List.map_cons] at hkeys
    have hne := (List.nodup_append.mp hkeys).2.2 p.1 (List.mem_map_of_mem hp) key
      List.mem_cons_self
    exact bne_iff_ne.mpr hne.symm

namespace QueryWeight

variable {w : QueryWeight} {reader : SegmentReader}

/-- A pass scores each document once. -/
theorem scoresOn_nodup (w : QueryWeight) (lets : List TermId → Bool) (base : Nat)
    (cache : Option ScoreCache) (docs : List (List TermId)) (first : Nat) :
    ((w.scoresOn lets base cache (docs.zipIdx first)).map (·.1)).Nodup := by
  refine List.pairwise_map.mpr (List.pairwise_filterMap.mpr ?_)
  refine (zipIdx_pairwise docs first).imp ?_
  intro x y hlt a ha b hb
  split at ha
  · split at hb
    · rw [← Option.some.inj ha, ← Option.some.inj hb]
      exact Nat.ne_of_lt hlt
    · exact nomatch hb
  · exact nomatch ha

/-- What scores of numbered documents give a number. -/
theorem lookup_scoresOn_eq_some_iff {lets : List TermId → Bool} {base : Nat}
    {cache : Option ScoreCache} {docs : List (List TermId)} {first number : Nat} {scored : Scored} :
    (w.scoresOn lets base cache (docs.zipIdx first)).lookup number = some scored ↔
      ∃ doc, (doc, number) ∈ docs.zipIdx first ∧ lets doc = true ∧ w.matchesDoc doc = true ∧
        w.scoredOn doc (cache.bind (·.get? (base + number))) = scored := by
  rw [lookup_eq_some_iff_mem (w.scoresOn_nodup lets base cache docs first), scoresOn,
    List.mem_filterMap]
  simp only [Option.ite_none_right_eq_some, Bool.and_eq_true, Option.some.injEq]
  constructor
  · rintro ⟨⟨doc, n⟩, hmem, ⟨hlets, hmatch⟩, heq⟩
    obtain ⟨rfl, hscored⟩ := Prod.mk.inj heq
    exact ⟨doc, hmem, hlets, hmatch, hscored⟩
  · rintro ⟨doc, hmem, hlets, hmatch, rfl⟩
    exact ⟨(doc, number), hmem, ⟨hlets, hmatch⟩, rfl⟩

/-- **What a pass over a segment gives a document**, without a score cache. -/
theorem pass_lookup {docs : List (List TermId)} (hsegment : reader.segment = .ofDocs docs)
    (hfits : w.Fits none) {place : Nat} {doc : List TermId} (hdoc : docs[place]? = some doc)
    (hmatch : w.matchesDoc doc = true) :
    ∃ scores, w.pass reader (fun _ => true) none = .ok (scores, none) ∧
      scores.lookup (place + 1) = some (w.scoredOn doc none) := by
  have hpass : w.pass reader (fun _ => true) none = .ok
      (w.scoresOn (fun _ => true) reader.docBase none (docs.zipIdx 1),
        w.cacheOn (fun _ => true) reader.docBase none (docs.zipIdx 1)) :=
    pass_ofDocs hsegment hfits fun _ _ => rfl
  have hnone : w.cacheOn (fun _ => true) reader.docBase none (docs.zipIdx 1) = none :=
    Option.isNone_iff_eq_none.mp (by simpa using w.isSome_cacheOn (fun _ => true) _ _ none)
  rw [hnone] at hpass
  have hmem : (doc, place + 1) ∈ docs.zipIdx 1 :=
    List.mem_zipIdx_iff_le_and_getElem?_sub.mpr ⟨Nat.le_add_left 1 place, hdoc⟩
  exact ⟨_, hpass, lookup_scoresOn_eq_some_iff.mpr ⟨doc, hmem, rfl, hmatch, rfl⟩⟩

/-- What the terms of a document say is what a pass over its segment gives it. -/
theorem pass_of_terms {docs : List IndexedDocument} {s : Shard} (hs : s.Holds docs)
    (hfits : w.Fits none) {number inside : Nat} {terms : List TermId}
    (hterms : Shard.termsAt docs number = some terms) (hmatch : w.matchesDoc terms = true)
    (hlocate : s.locate? number = some (reader, inside)) :
    ∃ scores, w.pass reader (fun _ => true) none = .ok (scores, none) ∧
      scores.lookup inside = some (w.scoredOn terms none) := by
  obtain ⟨r, chunk, place, hlocate', hsegment, hplace⟩ := hs.place_of_terms hterms
  rw [hlocate] at hlocate'
  obtain ⟨rfl, rfl⟩ := Prod.mk.inj (Option.some.inj hlocate')
  exact pass_lookup hsegment hfits hplace hmatch

/-! ## Weights -/

/-- A weight that visits may be made with: of the query of a feature by itself, or of a
    query of a request, whose ranking query has a value of its ranker for each feature. -/
inductive Made (searcher : Searcher) : QueryWeight → Prop where
  | feature {q : FeatureQuery} {weight : Weight} (h : q.weight searcher = .ok weight) :
      Made searcher (.plain weight)
  | query {q : Query} (hq : q.Fits none) {enabled : Bool} {mode : ScoreMode}
      {cache made : WeightCache} {w : QueryWeight}
      (h : q.weight searcher enabled mode cache = (made, .ok w)) : Made searcher w

theorem Made.fits {searcher : Searcher} (h : w.Made searcher) : w.Fits none := by
  cases h with
  | feature h => trivial
  | @query q hq enabled mode cache made w h =>
      cases mode with
      | scores => exact (hq.weight_iff h none).mpr hq
      | matching => exact Query.fits_matching h

end QueryWeight

/-! ## Visits and passes -/

/-- **Each wanted document is visited once for each place that wants it.**  Whatever
    numbers a list has, in whatever order, one visit is made for each place of the list
    whose document matches and none for another, by document and equal ones by place;
    the scorer stands on the document at each, and without a score cache the score is
    the one that a pass over the segment gives it. -/
theorem Shard.Built.visits_each_once {s : Shard} (hs : s.Built) {searcher : Searcher}
    {w : QueryWeight} (hw : w.Made searcher) {cache : Option ScoreCache}
    (hcache : ∀ held, cache = some held → w.Fits (some held)) (numbers : List Nat) :
    ∃ visits after, w.visit s numbers cache = .ok (visits, after) ∧
      (visits.map (·.1)).Nodup ∧
      (∀ i, i ∈ visits.map (·.1) ↔
        ∃ number, numbers[i]? = some number ∧ w.MatchesAt s number) ∧
      (visits.map (·.1)).Pairwise (fun i j => ∀ m n, numbers[i]? = some m →
        numbers[j]? = some n → m < n ∨ m = n ∧ i < j) ∧
      ∀ v ∈ visits, ∃ number reader, numbers[v.1]? = some number ∧
        s.locate? number = some (reader, v.2.1) ∧ w.ScoresAt reader v.2.1 v.2.2 ∧
        (cache = none → ∃ scores, w.pass reader (fun _ => true) none = .ok (scores, none) ∧
          scores.lookup v.2.1 = some v.2.2) := by
  obtain ⟨docs, hdocs⟩ := hs.holds
  have hfits : w.Fits cache := by
    cases cache with
    | none => exact hw.fits
    | some held => exact hcache held rfl
  obtain ⟨visits, hvisit, hthrough⟩ := hdocs.visitThrough hfits numbers
  have hplaces : visits.map (·.1) = ((RankingWeight.placesOf numbers).filter fun x =>
      ((Shard.termsAt docs x.1).filter (w.matchesDoc ·)).isSome).map (·.2) := by
    rw [← w.map_fst_visitsThrough _ _ cache, ← hthrough, List.map_map]
    rfl
  refine ⟨visits, _, hvisit, ?_, ?_, ?_, ?_⟩
  · rw [hplaces]
    exact (RankingWeight.placesOf_nodup numbers).sublist (List.filter_sublist.map _)
  · intro i
    rw [hplaces, List.mem_map]
    constructor
    · rintro ⟨x, hx, rfl⟩
      obtain ⟨hplace, hmatch⟩ := List.mem_filter.mp hx
      exact ⟨x.1, RankingWeight.mem_placesOf.mp hplace,
        (QueryWeight.matchesAt_iff hdocs w x.1).mpr hmatch⟩
    · rintro ⟨number, hnumber, hmatch⟩
      exact ⟨(number, i), List.mem_filter.mpr ⟨RankingWeight.mem_placesOf.mpr hnumber,
        (QueryWeight.matchesAt_iff hdocs w number).mp hmatch⟩, rfl⟩
  · rw [hplaces, List.pairwise_map]
    refine List.Pairwise.imp_of_mem ?_
      ((RankingWeight.placesOf_lex numbers).sublist List.filter_sublist)
    intro x y hx hy hlex m n hm hn
    have hx := RankingWeight.mem_placesOf.mp (List.mem_filter.mp hx).1
    have hy := RankingWeight.mem_placesOf.mp (List.mem_filter.mp hy).1
    obtain rfl := Option.some.inj (hx.symm.trans hm)
    obtain rfl := Option.some.inj (hy.symm.trans hn)
    exact hlex
  · intro v hv
    obtain ⟨number, reader, hnumber, hlocate, hscores⟩ := QueryWeight.visit_scoresAt hvisit v hv
    refine ⟨number, reader, hnumber, hlocate, hscores, ?_⟩
    rintro rfl
    have hmem : (v.1, v.2.2) ∈ w.visitsThrough (Shard.termsAt docs) none
        (RankingWeight.placesOf numbers) := by
      rw [← hthrough]
      exact List.mem_map_of_mem (f := fun v => (v.1, v.2.2)) hv
    obtain ⟨x, hx, hplace, doc, hdoc, hscored⟩ := QueryWeight.mem_visitsThrough_none hmem
    have hx := RankingWeight.mem_placesOf.mp hx
    rw [hplace, hnumber] at hx
    obtain rfl := Option.some.inj hx
    obtain ⟨hterms, hmatch⟩ := Option.filter_eq_some_iff.mp hdoc
    rw [show v.2.2 = w.scoredOn doc none from hscored]
    exact QueryWeight.pass_of_terms hdocs hfits hterms hmatch hlocate

/-- Two segments, a document that is asked for twice, one that does not match, and numbers
    that no document has. -/
theorem Shard.Built.visits_each_once_repeated :
    let one := (Shard.empty.add "a" [1] 2).1
    let two := (one.add "b" [2] 2).1
    let shard := (two.add "c" [2, 1] 2).1
    ∃ visits after, (QueryWeight.plain (.phrase [1])).visit shard [3, 0, 1, 3, 9, 2] none
        = .ok (visits, after) ∧
      (visits.map (·.1)).Nodup ∧ 0 ∈ visits.map (·.1) ∧ 1 ∉ visits.map (·.1) ∧
      2 ∈ visits.map (·.1) ∧ 3 ∈ visits.map (·.1) ∧ 4 ∉ visits.map (·.1) ∧
      5 ∉ visits.map (·.1) := by
  intro one two shard
  have hmade : (QueryWeight.plain (.phrase [1])).Made ⟨shard, none⟩ :=
    .feature (show FeatureQuery.weight _ (.phrase [1]) = _ from rfl)
  have hfits : ∀ held, (none : Option ScoreCache) = some held →
      (QueryWeight.plain (.phrase [1])).Fits (some held) := fun _ _ => trivial
  obtain ⟨visits, after, hvisit, hnodup, hplaces, -⟩ := Shard.Built.visits_each_once
    (((Shard.Built.empty.add "a" [1] 2).add "b" [2] 2).add "c" [2, 1] 2) hmade hfits
    [3, 0, 1, 3, 9, 2]
  have hfirst : (QueryWeight.plain (.phrase [1])).MatchesAt shard 1 :=
    ⟨by decide, by decide, _, 1, rfl, by decide⟩
  have hthird : (QueryWeight.plain (.phrase [1])).MatchesAt shard 3 :=
    ⟨by decide, by decide, _, 1, rfl, by decide⟩
  refine ⟨visits, after, hvisit, hnodup, (hplaces 0).mpr ⟨3, rfl, hthird⟩, ?_,
    (hplaces 2).mpr ⟨1, rfl, hfirst⟩, (hplaces 3).mpr ⟨3, rfl, hthird⟩, ?_, ?_⟩
  · intro hmem
    obtain ⟨number, hnumber, hpos, -⟩ := (hplaces 1).mp hmem
    obtain rfl := Option.some.inj hnumber
    exact absurd hpos (by decide)
  · intro hmem
    obtain ⟨number, hnumber, -, hle, -⟩ := (hplaces 4).mp hmem
    obtain rfl := Option.some.inj hnumber
    exact absurd hle (by decide)
  · intro hmem
    obtain ⟨number, hnumber, -, -, reader, inside, hlocate, hdocs⟩ := (hplaces 5).mp hmem
    obtain rfl := Option.some.inj hnumber
    obtain ⟨rfl, rfl⟩ := Prod.mk.inj (Option.some.inj hlocate)
    exact absurd hdocs (by decide)

end FeatureRank
