import Mathlib.Data.List.Sort
import FeatureRank.Proofs.Search.Documents

/-! # The hits of a shard, document by document

    A document of a shard is a hit when the filter lets it through and some query
    matches it, and its score is the sum over those queries
    (`WeightedSlot.sumOn`, `WeightedSlot.hitOn`).  Scoring the segments of a shard
    one after the other gives just the hits of its documents in order, however the
    documents were cut into segments (`Shard.Holds.scoreSegments`), and visits to
    documents of a shard give what each of them has (`Shard.Holds.visit`). -/

namespace FeatureRank

open DocWalk

/-! ## Numbered documents -/

theorem zipIdx_pairwise {α : Type} (docs : List α) (first : Nat) :
    (docs.zipIdx first).Pairwise fun a b => a.2 < b.2 := by
  rw [← List.pairwise_map (f := Prod.snd) (R := (· < ·)), List.zipIdx_map_snd]
  exact List.pairwise_lt_range'

theorem zipIdx_shift {α : Type} (docs : List α) (base : Nat) :
    docs.zipIdx (base + 1) = (docs.zipIdx 1).map fun x => (x.1, base + x.2) := by
  rw [List.zipIdx_eq_map_add, List.zipIdx_eq_map_add (i := 1), List.map_map]
  refine List.map_congr_left ?_
  rintro ⟨doc, number⟩ -
  simp [Nat.add_assoc]

/-! ## Sums by document -/

/-- A map whose keys stand among some numbers, as a list in their order. -/
theorem toList_eq_filterMap {α : Type} {sums : Std.TreeMap Nat Float32} {items : List (α × Nat)}
    {f : α × Nat → Option Float32} (hasc : items.Pairwise fun a b => a.2 < b.2)
    (hin : ∀ x ∈ items, sums[x.2]? = f x)
    (hout : ∀ number, number ∉ items.map (·.2) → sums[number]? = none) :
    sums.toList = items.filterMap fun x => (f x).map (x.2, ·) := by
  let Before (a b : Nat × Float32) : Prop := a.1 < b.1
  have : Std.Antisymm Before := ⟨fun a b hab hba => absurd hab (Nat.lt_asymm hba)⟩
  have : Std.Irrefl Before := ⟨fun a => Nat.lt_irrefl a.1⟩
  have hleft : sums.toList.Pairwise Before :=
    Std.TreeMap.ordered_keys_toList.imp fun h => Nat.compare_eq_lt.mp h
  have hright : (items.filterMap fun x => (f x).map (x.2, ·)).Pairwise Before := by
    refine List.pairwise_filterMap.mpr (hasc.imp ?_)
    intro a b hlt x hx y hy
    obtain ⟨u, -, rfl⟩ := Option.map_eq_some_iff.mp hx
    obtain ⟨v, -, rfl⟩ := Option.map_eq_some_iff.mp hy
    exact hlt
  refine List.Pairwise.eq_of_mem_iff hleft hright ?_
  rintro ⟨number, sum⟩
  rw [Std.TreeMap.mem_toList_iff_getElem?_eq_some, List.mem_filterMap]
  constructor
  · intro hsum
    by_cases hmem : number ∈ items.map (·.2)
    · obtain ⟨x, hx, rfl⟩ := List.mem_map.mp hmem
      exact ⟨x, hx, by rw [← hin x hx, hsum]; rfl⟩
    · rw [hout number hmem] at hsum
      exact nomatch hsum
  · rintro ⟨x, hx, heq⟩
    obtain ⟨value, hvalue, hpair⟩ := Option.map_eq_some_iff.mp heq
    obtain ⟨rfl, rfl⟩ := Prod.mk.inj hpair
    rw [hin x hx, hvalue]

/-- The first of several segments of documents, and those after it. -/
theorem Shard.readersFrom_cons (ordinal base : Nat) (chunk : List (List TermId))
    (rest : List (List (List TermId))) :
    readersFrom ordinal base ((chunk :: rest).map Segment.ofDocs)
      = ⟨.ofDocs chunk, ordinal, base⟩ :: readersFrom (ordinal + 1) (base + chunk.length)
          (rest.map Segment.ofDocs) := by
  rw [List.map_cons, readersFrom, Segment.maxDoc_ofDocs]

namespace WeightedSlot

/-- The sum of a document after one more query. -/
def addOn (base : Nat) (w : WeightedSlot) (x : List TermId × Nat) (sum : Option Float32) :
    Option Float32 :=
  if w.weight.matchesDoc x.1 then
    some (sum.getD 0.0 +
      (w.weight.scoredOn x.1 (w.slot.scores.bind (·.get? (base + x.2)))).value)
  else sum

/-- The sum of a document over queries, in order. -/
def sumOn (base : Nat) (slots : List WeightedSlot) (x : List TermId × Nat) (sum : Option Float32) :
    Option Float32 :=
  slots.foldl (fun sum w => w.addOn base x sum) sum

/-- The hit of a document, if it is one. -/
def hitOn (settings : Settings) (lets : List TermId → Bool) (slots : List WeightedSlot)
    (x : List TermId × Nat) : Option ShardHit :=
  if lets x.1 then (sumOn 0 slots x none).map fun score => .ofScore settings x.2 score else none

/-- The slot after its query scored some documents. -/
def keepOn (lets : List TermId → Bool) (base : Nat) (docs : List (List TermId × Nat))
    (w : WeightedSlot) : WeightedSlot :=
  w.keep (w.weight.cacheOn lets base w.slot.scores docs)

theorem getElem?_alter_sum (sums : Std.TreeMap Nat Float32) (number : Nat) (value : Float32)
    (other : Nat) :
    (sums.alter number fun sum => some (sum.getD 0.0 + value))[other]?
      = if other = number then some (sums[other]?.getD 0.0 + value) else sums[other]? := by
  rw [Std.TreeMap.getElem?_alter]
  by_cases h : other = number
  · simp [h]
  · rw [if_neg h, if_neg fun heq => h (Std.LawfulEqOrd.eq_of_compare heq).symm]

/-- The sums after the first document, and what they say of it and of the others. -/
theorem addScores_scoresOn_cons (lets : List TermId → Bool) (base : Nat) (w : WeightedSlot)
    (first : List TermId × Nat) (rest : List (List TermId × Nat)) (sums : Std.TreeMap Nat Float32) :
    ∃ sums', addScores sums (w.weight.scoresOn lets base w.slot.scores (first :: rest))
          = addScores sums' (w.weight.scoresOn lets base w.slot.scores rest) ∧
      sums'[first.2]?
        = (if lets first.1 then w.addOn base first sums[first.2]? else sums[first.2]?) ∧
      ∀ number, number ≠ first.2 → sums'[number]? = sums[number]? := by
  by_cases hon : (lets first.1 && w.weight.matchesDoc first.1) = true
  · obtain ⟨hlets, hmatch⟩ := Bool.and_eq_true_iff.mp hon
    let scored := w.weight.scoredOn first.1 (w.slot.scores.bind (·.get? (base + first.2)))
    refine ⟨sums.alter first.2 fun sum => some (sum.getD 0.0 + scored.value), ?_, ?_, ?_⟩
    · unfold QueryWeight.scoresOn addScores
      rw [List.filterMap_cons_some (by simp only [hon, if_true]; rfl), List.foldl_cons]
    · rw [getElem?_alter_sum, if_pos rfl, if_pos hlets, addOn, if_pos hmatch]
    · intro number hne
      rw [getElem?_alter_sum, if_neg hne]
  · have hoff : (lets first.1 && w.weight.matchesDoc first.1) = false := Bool.eq_false_iff.mpr hon
    refine ⟨sums, ?_, ?_, fun _ _ => rfl⟩
    · rw [(QueryWeight.on_cons_of_not hoff _ rest).1]
    · unfold addOn
      rw [Bool.and_eq_false_iff] at hoff
      rcases hoff with hlets | hmatch
      · rw [hlets]
        rfl
      · rw [hmatch]
        exact (ite_self _).symm

/-- Sums change where a query scores a document that is let through. -/
theorem getElem?_addScores (lets : List TermId → Bool) (base : Nat) (w : WeightedSlot)
    (docs : List (List TermId × Nat)) :
    ∀ sums : Std.TreeMap Nat Float32, docs.Pairwise (fun a b => a.2 < b.2) →
      (∀ x ∈ docs, (addScores sums (w.weight.scoresOn lets base w.slot.scores docs))[x.2]?
        = if lets x.1 then w.addOn base x sums[x.2]? else sums[x.2]?) ∧
      ∀ number, number ∉ docs.map (·.2) →
        (addScores sums (w.weight.scoresOn lets base w.slot.scores docs))[number]?
          = sums[number]? := by
  induction docs with
  | nil => exact fun _ _ => ⟨List.forall_mem_nil _, fun _ _ => rfl⟩
  | cons first rest ih =>
      intro sums hasc
      obtain ⟨hlater, hrest⟩ := List.pairwise_cons.mp hasc
      have hnew : first.2 ∉ rest.map (·.2) := by
        intro hmem
        obtain ⟨y, hy, heq⟩ := List.mem_map.mp hmem
        have := hlater y hy
        omega
      obtain ⟨sums', heq, hfirst, hothers⟩ := addScores_scoresOn_cons lets base w first rest sums
      obtain ⟨hin, hout⟩ := ih sums' hrest
      rw [heq]
      refine ⟨?_, ?_⟩
      · intro x hx
        rcases List.mem_cons.mp hx with rfl | hmem
        · rw [hout x.2 hnew, hfirst]
        · have hne : x.2 ≠ first.2 := Nat.ne_of_gt (hlater x hmem)
          rw [hin x hmem, hothers x.2 hne]
      · intro number hnot
        rw [List.map_cons, List.mem_cons, not_or] at hnot
        rw [hout number hnot.2, hothers number hnot.1]

/-! ## One segment -/

/-- **The sums of a segment** are those of its documents over all queries. -/
theorem scoreSegment_ofDocs {reader : SegmentReader} {docs : List (List TermId)}
    (hsegment : reader.segment = .ofDocs docs) {allowed : Nat → Bool} {lets : List TermId → Bool}
    (hallowed : ∀ x ∈ docs.zipIdx 1, allowed x.2 = lets x.1) (slots : List WeightedSlot) :
    ∀ sums : Std.TreeMap Nat Float32, (∀ w ∈ slots, w.weight.Fits w.slot.scores) →
      ∃ sums', scoreSegment reader allowed sums slots
          = .ok (slots.map (keepOn lets reader.docBase (docs.zipIdx 1)), sums') ∧
        (∀ x ∈ docs.zipIdx 1, sums'[x.2]?
          = if lets x.1 then sumOn reader.docBase slots x sums[x.2]? else sums[x.2]?) ∧
        ∀ number, number ∉ (docs.zipIdx 1).map (·.2) → sums'[number]? = sums[number]? := by
  have hasc := zipIdx_pairwise docs 1
  induction slots with
  | nil =>
      intro sums _
      refine ⟨sums, rfl, fun x _ => ?_, fun _ _ => rfl⟩
      exact (ite_self _).symm
  | cons w rest ih =>
      intro sums hfits
      have hpass := QueryWeight.pass_ofDocs hsegment (hfits w List.mem_cons_self) hallowed
      obtain ⟨hin, hout⟩ :=
        getElem?_addScores lets reader.docBase w (docs.zipIdx 1) sums hasc
      obtain ⟨sums', hrest, hin', hout'⟩ :=
        ih (addScores sums (w.weight.scoresOn lets reader.docBase w.slot.scores (docs.zipIdx 1)))
          fun other hother => hfits other (List.mem_cons_of_mem w hother)
      refine ⟨sums', bind_eq_ok.mpr ⟨_, hpass, bind_eq_ok.mpr ⟨_, hrest, rfl⟩⟩, ?_, ?_⟩
      · intro x hx
        rw [hin' x hx, hin x hx]
        by_cases hlets : lets x.1 = true
        · rw [if_pos hlets, if_pos hlets, if_pos hlets]
          rfl
        · rw [if_neg hlets, if_neg hlets, if_neg hlets]
      · intro number hnot
        rw [hout' number hnot, hout number hnot]

/-! ## All segments -/

theorem sumOn_shift (base : Nat) (slots : List WeightedSlot) (x : List TermId × Nat)
    (sum : Option Float32) : sumOn base slots x sum = sumOn 0 slots (x.1, base + x.2) sum := by
  unfold sumOn addOn
  simp only [Nat.zero_add]

theorem keepOn_append (lets : List TermId → Bool) (docs more : List (List TermId × Nat))
    (w : WeightedSlot) :
    (w.keepOn lets 0 docs).keepOn lets 0 more = w.keepOn lets 0 (docs ++ more) := by
  unfold keepOn
  rw [QueryWeight.cacheOn_append]
  rfl

/-- Scoring some documents changes no sum of others. -/
theorem hitOn_keepOn (settings : Settings) (lets : List TermId → Bool) (slots : List WeightedSlot)
    {docs : List (List TermId × Nat)} {x : List TermId × Nat} (hne : ∀ y ∈ docs, y.2 ≠ x.2) :
    hitOn settings lets (slots.map (keepOn lets 0 docs)) x = hitOn settings lets slots x := by
  unfold hitOn sumOn
  rw [List.foldl_map]
  refine if_congr Iff.rfl (congrArg _ ?_) rfl
  refine List.foldl_ext _ _ _ ?_
  intro sum w _
  have hkept : (w.keepOn lets 0 docs).slot.scores.bind (·.get? (0 + x.2))
      = w.slot.scores.bind (·.get? (0 + x.2)) :=
    w.weight.get?_cacheOn docs w.slot.scores
      fun y hy heq => hne y hy (Nat.add_left_cancel heq)
  unfold addOn
  rw [hkept]
  rfl

/-! ## Segments that follow one another -/

theorem zipIdx_flatten_cons (base : Nat) (chunk : List (List TermId))
    (rest : List (List (List TermId))) :
    (chunk :: rest).flatten.zipIdx (base + 1)
      = chunk.zipIdx (base + 1) ++ rest.flatten.zipIdx (base + chunk.length + 1) := by
  rw [List.flatten_cons, List.zipIdx_append, Nat.add_right_comm]

/-- Numbers inside a segment are as good as absolute ones. -/
theorem keepOn_shift (lets : List TermId → Bool) (base : Nat) (chunk : List (List TermId))
    (w : WeightedSlot) :
    w.keepOn lets base (chunk.zipIdx 1) = w.keepOn lets 0 (chunk.zipIdx (base + 1)) := by
  unfold keepOn
  rw [w.weight.cacheOn_shift, ← zipIdx_shift]

/-- The sums of a segment as hits of the shard. -/
theorem hits_of_sums (settings : Settings) {lets : List TermId → Bool} {base : Nat}
    {slots : List WeightedSlot}
    {chunk : List (List TermId)} {sums : Std.TreeMap Nat Float32}
    (hin : ∀ x ∈ chunk.zipIdx 1,
      sums[x.2]? = if lets x.1 then sumOn base slots x none else none)
    (hout : ∀ number, number ∉ (chunk.zipIdx 1).map (·.2) → sums[number]? = none) :
    (sums.toList.map fun x => ShardHit.ofScore settings (base + x.1) x.2)
      = (chunk.zipIdx (base + 1)).filterMap (hitOn settings lets slots) := by
  rw [toList_eq_filterMap (zipIdx_pairwise chunk 1) hin hout, List.map_filterMap,
    zipIdx_shift chunk base, List.filterMap_map]
  refine List.filterMap_congr ?_
  rintro ⟨doc, number⟩ -
  show ((if lets doc then sumOn base slots (doc, number) none else none).map _).map _
    = hitOn settings lets slots (doc, base + number)
  unfold hitOn
  rw [sumOn_shift]
  by_cases hlets : lets doc = true
  · rw [if_pos hlets, if_pos hlets, Option.map_map]
    rfl
  · rw [if_neg hlets, if_neg hlets]
    rfl

/-- **The hits of segments that follow one another** are those of their documents. -/
theorem scoreSegments_ofDocs (settings : Settings) (filter : Option QueryWeight)
    (chunks : List (List (List TermId))) :
    ∀ (ordinal base : Nat) (slots : List WeightedSlot),
      (∀ w ∈ slots, w.weight.Fits w.slot.scores) →
      scoreSegments settings filter (Shard.readersFrom ordinal base (chunks.map Segment.ofDocs))
          slots
        = .ok
          (slots.map (keepOn (fun doc => filter.all (·.matchesDoc doc)) 0
            (chunks.flatten.zipIdx (base + 1))),
          (chunks.flatten.zipIdx (base + 1)).filterMap
            (hitOn settings (fun doc => filter.all (·.matchesDoc doc)) slots)) := by
  induction chunks with
  | nil =>
      intro ordinal base slots _
      have hkeep : slots.map (keepOn (fun doc => filter.all (·.matchesDoc doc)) 0 []) = slots :=
        List.map_id'' (fun _ => rfl) slots
      exact congrArg (fun kept => Except.ok (kept, [])) hkeep.symm
  | cons chunk rest ih =>
      intro ordinal base slots hfits
      let lets : List TermId → Bool := fun doc => filter.all (·.matchesDoc doc)
      let reader : SegmentReader := ⟨.ofDocs chunk, ordinal, base⟩
      have hallowed : ∀ x ∈ chunk.zipIdx 1, allowedBy filter reader x.2 = lets x.1 :=
        QueryWeight.allowedBy_ofDocs rfl filter
      obtain ⟨sums, hsegment, hin, hout⟩ :=
        scoreSegment_ofDocs (rfl : reader.segment = _) hallowed slots {} hfits
      simp only [Std.TreeMap.getElem?_emptyc] at hin hout
      have hkeep : slots.map (keepOn lets base (chunk.zipIdx 1))
          = slots.map (keepOn lets 0 (chunk.zipIdx (base + 1))) :=
        List.map_congr_left fun w _ => keepOn_shift lets base chunk w
      have hfits' : ∀ w ∈ slots.map (keepOn lets 0 (chunk.zipIdx (base + 1))),
          w.weight.Fits w.slot.scores := by
        intro w hw
        obtain ⟨old, hold, rfl⟩ := List.mem_map.mp hw
        exact (hfits old hold).cacheOn _
      have hothers := ih (ordinal + 1) (base + chunk.length) _ hfits'
      have hslots : (slots.map (keepOn lets 0 (chunk.zipIdx (base + 1)))).map
            (keepOn lets 0 (rest.flatten.zipIdx (base + chunk.length + 1)))
          = slots.map (keepOn lets 0 ((chunk :: rest).flatten.zipIdx (base + 1))) := by
        rw [List.map_map, zipIdx_flatten_cons]
        exact List.map_congr_left fun w _ => keepOn_append lets _ _ w
      -- what the first segment kept is of other documents
      have hlater : (rest.flatten.zipIdx (base + chunk.length + 1)).filterMap
            (hitOn settings lets (slots.map (keepOn lets 0 (chunk.zipIdx (base + 1)))))
          = (rest.flatten.zipIdx (base + chunk.length + 1)).filterMap
              (hitOn settings lets slots) := by
        refine List.filterMap_congr fun x hx => hitOn_keepOn settings lets slots fun y hy => ?_
        have hlo := List.le_snd_of_mem_zipIdx hx
        have hhi := List.snd_lt_add_of_mem_zipIdx hy
        omega
      rw [Shard.readersFrom_cons]
      refine bind_eq_ok.mpr ⟨_, hkeep ▸ hsegment, bind_eq_ok.mpr ⟨_, hothers, ?_⟩⟩
      show Except.ok (_, (sums.toList.map fun x => ShardHit.ofScore settings (base + x.1) x.2) ++
        (rest.flatten.zipIdx (base + chunk.length + 1)).filterMap (hitOn settings lets _)) = _
      rw [hits_of_sums settings hin hout, hlater, ← List.filterMap_append, ← zipIdx_flatten_cons]
      exact congrArg (fun kept => Except.ok (kept, _)) hslots

end WeightedSlot

/-! ## Passes over all segments -/

namespace QueryWeight

variable {w : QueryWeight} {lets : List TermId → Bool}

/-- Scores under numbers from a base on are those under the numbers, moved. -/
theorem scoresOn_shift (w : QueryWeight) (base : Nat) (cache : Option ScoreCache)
    (docs : List (List TermId × Nat)) :
    (w.scoresOn lets base cache docs).map (fun x => (base + x.1, x.2))
      = w.scoresOn lets 0 cache (docs.map fun x => (x.1, base + x.2)) := by
  unfold scoresOn
  rw [List.map_filterMap, List.filterMap_map]
  refine List.filterMap_congr fun x _ => ?_
  simp only [Function.comp_apply, Nat.zero_add]
  split <;> rfl

/-- What was kept for some documents changes no score of others. -/
theorem scoresOn_cacheOn (w : QueryWeight) (cache : Option ScoreCache)
    {docs others : List (List TermId × Nat)} (hne : ∀ x ∈ others, ∀ y ∈ docs, y.2 ≠ x.2) :
    w.scoresOn lets 0 (w.cacheOn lets 0 cache docs) others = w.scoresOn lets 0 cache others := by
  refine List.filterMap_congr fun x hx => ?_
  rw [w.get?_cacheOn docs cache fun y hy heq => hne x hx y hy (Nat.add_left_cancel heq)]

/-- **Passes over segments that follow one another** score their documents one by one. -/
theorem passes_ofDocs (filter : Option QueryWeight) (chunks : List (List (List TermId))) :
    ∀ (ordinal base : Nat) (cache : Option ScoreCache), w.Fits cache →
      w.passes filter (Shard.readersFrom ordinal base (chunks.map Segment.ofDocs)) cache = .ok
        (w.scoresOn (fun doc => filter.all (·.matchesDoc doc)) 0 cache
            (chunks.flatten.zipIdx (base + 1)),
          w.cacheOn (fun doc => filter.all (·.matchesDoc doc)) 0 cache
            (chunks.flatten.zipIdx (base + 1))) := by
  induction chunks with
  | nil => exact fun _ _ _ _ => rfl
  | cons chunk rest ih =>
      intro ordinal base cache hfits
      let lets : List TermId → Bool := fun doc => filter.all (·.matchesDoc doc)
      let reader : SegmentReader := ⟨.ofDocs chunk, ordinal, base⟩
      have hpass : w.pass reader (WeightedSlot.allowedBy filter reader) cache = .ok
          (w.scoresOn lets base cache (chunk.zipIdx 1), w.cacheOn lets base cache (chunk.zipIdx 1)) :=
        pass_ofDocs rfl hfits (allowedBy_ofDocs rfl filter)
      have hfits' : w.Fits (w.cacheOn lets base cache (chunk.zipIdx 1)) := hfits.cacheOn _
      have hothers := ih (ordinal + 1) (base + chunk.length) _ hfits'
      rw [Shard.readersFrom_cons]
      refine bind_eq_ok.mpr ⟨_, hpass, bind_eq_ok.mpr ⟨_, hothers, ?_⟩⟩
      show Except.ok ((w.scoresOn lets base cache (chunk.zipIdx 1)).map
          (fun x => (base + x.1, x.2)) ++ w.scoresOn lets 0 _ _, w.cacheOn lets 0 _ _) = _
      -- what the first segment kept is of other documents
      rw [cacheOn_shift, ← zipIdx_shift, scoresOn_shift, ← zipIdx_shift, scoresOn_cacheOn,
        ← cacheOn_append, WeightedSlot.zipIdx_flatten_cons]
      · exact congrArg (fun scores => Except.ok (scores, _)) List.filterMap_append.symm
      · intro x hx y hy
        have hlo := List.le_snd_of_mem_zipIdx hx
        have hhi := List.snd_lt_add_of_mem_zipIdx hy
        omega

end QueryWeight

/-! ## Visits to all segments -/

namespace QueryWeight

/-- Places up to a number and places beyond it. -/
theorem filter_split {places : List (Nat × Nat)} (hasc : places.Pairwise fun a b => a.1 ≤ b.1)
    {base middle : Nat} (hle : base ≤ middle) :
    places.filter (fun x => base < x.1 && x.1 ≤ middle) ++ places.filter (fun x => middle < x.1)
      = places.filter (fun x => base < x.1) := by
  induction places with
  | nil => rfl
  | cons x rest ih =>
      obtain ⟨hlater, hrest⟩ := List.pairwise_cons.mp hasc
      by_cases hmiddle : x.1 ≤ middle
      · have hnot : ¬middle < x.1 := Nat.not_lt.mpr hmiddle
        by_cases hbase : base < x.1
        · simp [hmiddle, hnot, hbase, ih hrest]
        · simp [hmiddle, hnot, hbase, ih hrest]
      · -- from here on every place is beyond
        have hnone : (x :: rest).filter (fun y => base < y.1 && y.1 ≤ middle) = [] := by
          refine List.filter_eq_nil_iff.mpr ?_
          intro y hy
          have hbeyond : ¬y.1 ≤ middle := by
            rcases List.mem_cons.mp hy with rfl | hy
            · exact hmiddle
            · have := hlater y hy
              omega
          simp [hbeyond]
        have hall : ∀ number, number ≤ middle →
            (x :: rest).filter (fun y => number < y.1) = x :: rest := by
          intro number hnumber
          refine List.filter_eq_self.mpr ?_
          intro y hy
          refine decide_eq_true ?_
          rcases List.mem_cons.mp hy with rfl | hy
          · omega
          · have := hlater y hy
            omega
        rw [hnone, hall middle (Nat.le_refl _), hall base hle]
        rfl

/-- The documents of a first segment and of those after it, by their numbers. -/
theorem getElem?_flatten_cons {docAt : Nat → Option (List TermId)} {base : Nat}
    {chunk : List (List TermId)} {rest : List (List (List TermId))}
    (h : ∀ place doc, (chunk :: rest).flatten[place]? = some doc →
      docAt (base + (place + 1)) = some doc) :
    (∀ place doc, chunk[place]? = some doc → docAt (base + (place + 1)) = some doc) ∧
      ∀ place doc, rest.flatten[place]? = some doc →
        docAt (base + chunk.length + (place + 1)) = some doc := by
  refine ⟨?_, ?_⟩
  · intro place doc hdoc
    refine h place doc ?_
    rw [List.flatten_cons, List.getElem?_append_left (List.getElem?_eq_some_iff.mp hdoc).1]
    exact hdoc
  · intro place doc hdoc
    rw [Nat.add_assoc, ← Nat.add_assoc chunk.length]
    refine h (chunk.length + place) doc ?_
    rw [List.flatten_cons, List.getElem?_append_right (Nat.le_add_right _ _),
      Nat.add_sub_cancel_left]
    exact hdoc

/-- **Visits to segments that follow one another** are visits to their documents. -/
theorem visitSegments_ofDocs {w : QueryWeight} {docAt : Nat → Option (List TermId)}
    {places : List (Nat × Nat)} (hasc : places.Pairwise fun a b => a.1 ≤ b.1)
    (chunks : List (List (List TermId))) :
    ∀ (ordinal base : Nat) (cache : Option ScoreCache), w.Fits cache →
      (∀ place doc, chunks.flatten[place]? = some doc → docAt (base + (place + 1)) = some doc) →
      (∀ number, base + chunks.flatten.length < number → docAt number = none) →
      ∃ visits, w.visitSegments places
          (Shard.readersFrom ordinal base (chunks.map Segment.ofDocs)) cache
        = .ok (visits, w.visitCacheOn docAt cache (places.filter fun x => base < x.1)) ∧
        visits.map (fun v => (v.1, v.2.2))
          = w.visitsThrough docAt cache (places.filter fun x => base < x.1) := by
  induction chunks with
  | nil =>
      intro ordinal base cache _ _ hbeyond
      have hnone : ∀ x ∈ places.filter (fun x => base < x.1),
          (docAt x.1).filter (w.matchesDoc ·) = none := by
        intro x hx
        rw [hbeyond x.1 (of_decide_eq_true (List.mem_filter.mp hx).2)]
        rfl
      obtain ⟨hvisits, hcache⟩ := visitThrough_of_none hnone cache
      rw [hvisits, hcache]
      exact ⟨[], rfl, rfl⟩
  | cons chunk rest ih =>
      intro ordinal base cache hfits hdocAt hbeyond
      let reader : SegmentReader := ⟨.ofDocs chunk, ordinal, base⟩
      obtain ⟨hhere, hthere⟩ := getElem?_flatten_cons hdocAt
      have hcovers : places.filter (reader.covers ·.1)
          = places.filter fun x => base < x.1 && x.1 ≤ base + chunk.length := by
        unfold SegmentReader.covers SegmentReader.maxDoc
        simp only [reader, Segment.maxDoc_ofDocs]
      have hsegment : reader.segment = .ofDocs chunk := rfl
      obtain ⟨visits, hvisits, herased⟩ := visitSegment_ofDocs hsegment hhere hfits hasc
      rw [hcovers] at hvisits herased
      obtain ⟨others, hothers, herased'⟩ := ih (ordinal + 1) (base + chunk.length) _
        (hfits.visitCacheOn _) hthere (by
          intro number hnumber
          refine hbeyond number ?_
          rw [List.flatten_cons, List.length_append]
          omega)
      rw [Shard.readersFrom_cons]
      refine ⟨visits ++ others, bind_eq_ok.mpr ⟨_, hvisits, bind_eq_ok.mpr ⟨_, hothers, ?_⟩⟩, ?_⟩
      · rw [← visitCacheOn_append, filter_split hasc (Nat.le_add_right base chunk.length)]
        rfl
      · rw [List.map_append, herased, herased', ← visitsThrough_append,
          filter_split hasc (Nat.le_add_right base chunk.length)]

end QueryWeight

/-! ## Shards -/

namespace Shard

/-- The terms of the documents of a shard, with their numbers. -/
def numbered (docs : List IndexedDocument) : List (List TermId × Nat) :=
  (docs.map (·.2)).zipIdx 1

/-- The terms of the document of a number. -/
def termsAt (docs : List IndexedDocument) : Nat → Option (List TermId)
  | 0 => none
  | place + 1 => docs[place]?.map (·.2)

variable {docs : List IndexedDocument} {s : Shard}

/-- **The hits of a shard** are those of its documents, in order. -/
theorem Holds.scoreSegments (h : Holds docs s) (settings : Settings) (filter : Option QueryWeight)
    {slots : List WeightedSlot} (hfits : ∀ w ∈ slots, w.weight.Fits w.slot.scores) :
    WeightedSlot.scoreSegments settings filter s.readers slots = .ok
      (slots.map (WeightedSlot.keepOn (fun doc => filter.all (·.matchesDoc doc)) 0 (numbered docs)),
      (numbered docs).filterMap
        (WeightedSlot.hitOn settings (fun doc => filter.all (·.matchesDoc doc)) slots)) := by
  obtain ⟨chunks, hchunks, hflatten⟩ := h.segments
  unfold readers numbered
  rw [hchunks, ← hflatten]
  exact WeightedSlot.scoreSegments_ofDocs settings filter chunks 0 0 slots hfits

/-- **Passes over a shard** score its documents one by one. -/
theorem Holds.passes (h : Holds docs s) (filter : Option QueryWeight) {w : QueryWeight}
    {cache : Option ScoreCache} (hfits : w.Fits cache) :
    w.passes filter s.readers cache = .ok
      (w.scoresOn (fun doc => filter.all (·.matchesDoc doc)) 0 cache (numbered docs),
        w.cacheOn (fun doc => filter.all (·.matchesDoc doc)) 0 cache (numbered docs)) := by
  obtain ⟨chunks, hchunks, hflatten⟩ := h.segments
  unfold readers numbered
  rw [hchunks, ← hflatten]
  exact QueryWeight.passes_ofDocs filter chunks 0 0 cache hfits

/-- **Visits to documents of a shard**, in ascending order and each as often as it is
    asked for, give what each of them has by then. -/
theorem Holds.visitThrough (h : Holds docs s) {w : QueryWeight} {cache : Option ScoreCache}
    (hfits : w.Fits cache) (numbers : List Nat) :
    ∃ visits, w.visit s numbers cache = .ok
        (visits, w.visitCacheOn (termsAt docs) cache (RankingWeight.placesOf numbers)) ∧
      visits.map (fun v => (v.1, v.2.2))
        = w.visitsThrough (termsAt docs) cache (RankingWeight.placesOf numbers) := by
  obtain ⟨chunks, hchunks, hflatten⟩ := h.segments
  have hdocAt : ∀ place doc, chunks.flatten[place]? = some doc →
      termsAt docs (0 + (place + 1)) = some doc := by
    intro place doc hdoc
    rw [hflatten, List.getElem?_map] at hdoc
    rw [Nat.zero_add]
    exact hdoc
  have hbeyond : ∀ number, 0 + chunks.flatten.length < number → termsAt docs number = none := by
    intro number hnumber
    rw [hflatten, List.length_map] at hnumber
    obtain ⟨place, rfl⟩ : ∃ place, number = place + 1 := ⟨number - 1, by omega⟩
    have hnone : docs[place]? = none := List.getElem?_eq_none_iff.mpr (by omega)
    show docs[place]?.map _ = none
    rw [hnone]
    rfl
  obtain ⟨visits, hvisits, herased⟩ := QueryWeight.visitSegments_ofDocs
    (RankingWeight.placesOf_sorted numbers) chunks 0 0 cache hfits hdocAt hbeyond
  obtain ⟨hall, hcache⟩ := w.visitThrough_filter (termsAt docs) (fun x => decide (0 < x.1))
    (RankingWeight.placesOf numbers) cache (by
      intro x _ hx
      rw [Nat.eq_zero_of_not_pos (of_decide_eq_false hx)]
      rfl)
  rw [hcache] at hvisits
  rw [hall] at herased
  refine ⟨visits, ?_, herased⟩
  unfold QueryWeight.visit readers
  rw [hchunks]
  exact hvisits

/-- **Visits to different documents of a shard** give what each of them has. -/
theorem Holds.visit (h : Holds docs s) {w : QueryWeight} {cache : Option ScoreCache}
    (hfits : w.Fits cache) {numbers : List Nat} (hnumbers : numbers.Nodup) :
    ∃ visits, w.visit s numbers cache = .ok
        (visits, w.visitCacheOn (termsAt docs) cache (RankingWeight.placesOf numbers)) ∧
      visits.map (fun v => (v.1, v.2.2))
        = w.visitsOn (termsAt docs) cache (RankingWeight.placesOf numbers) := by
  obtain ⟨visits, hvisits, herased⟩ := h.visitThrough hfits numbers
  rw [w.visitsThrough_eq (RankingWeight.placesOf_pairwise hnumbers)] at herased
  exact ⟨visits, hvisits, herased⟩

end Shard

end FeatureRank
