import FeatureRank.Proofs.Search.Visiting

/-! # Rescoring — a stage touches only its window

    A stage sorts the hits of a shard, gives the first of them new scores and sorts
    them again.  All of this is done in place (`Rescore.rescore`), so that a stage
    whose weight is refused leaves hits behind, and `Rescore.apply` is what it gives
    (`Rescore.apply_eq_rescore`).

    The place of a hit is how many hits stand before it (`ShardHit.rank`).  A stage
    changes the scores at the places of its window and no other
    (`ShardHit.Touches`): the scores that a query gives in visits, by document, are
    put back under the places that the hits have by score, and they are those that a
    pass over the shard gives (`QueryWeight.Gives`). -/

namespace FeatureRank

open Tracked

/-! ## The order of hits -/

namespace ShardHit

/-- Whether a hit stands strictly before another: by score from the greatest down,
    then by document. -/
def Outranks (a b : ShardHit) : Prop :=
  Number.orderKey b.bits < Number.orderKey a.bits ∨
    (Number.orderKey a.bits = Number.orderKey b.bits ∧ a.doc < b.doc)

instance (a b : ShardHit) : Decidable (a.Outranks b) := inferInstanceAs (Decidable (_ ∨ _))

/-- The place of a hit among others: how many of them stand before it. -/
def rank (hits : List ShardHit) (hit : ShardHit) : Nat := hits.countP (·.Outranks hit)

theorem isBefore_iff {a b : ShardHit} :
    isBefore a b = true ↔ Number.orderKey b.bits < Number.orderKey a.bits ∨
      (Number.orderKey a.bits = Number.orderKey b.bits ∧ a.doc ≤ b.doc) := by
  simp only [isBefore, Bool.or_eq_true, Bool.and_eq_true, decide_eq_true_eq, beq_iff_eq]

theorem isBefore_trans {a b c : ShardHit} (hab : isBefore a b = true)
    (hbc : isBefore b c = true) : isBefore a c = true := by
  rw [isBefore_iff] at hab hbc ⊢
  omega

theorem isBefore_total (a b : ShardHit) : (isBefore a b || isBefore b a) = true := by
  rw [Bool.or_eq_true, isBefore_iff, isBefore_iff]
  omega

/-- Of hits of different documents one stands strictly before the other. -/
theorem outranks_of_isBefore {a b : ShardHit} (h : isBefore a b = true) (hne : a.doc ≠ b.doc) :
    a.Outranks b := by
  unfold Outranks
  rw [isBefore_iff] at h
  omega

theorem Outranks.asymm {a b : ShardHit} (hab : a.Outranks b) : ¬b.Outranks a := by
  unfold Outranks at *
  omega

/-- **Sorted hits of different documents** stand in a strict order. -/
theorem sort_outranks {hits : List ShardHit} (h : (hits.map (·.doc)).Nodup) :
    (sort hits).Pairwise Outranks :=
  pairwise_mergeSort_of_keys isBefore (fun _ _ _ => isBefore_trans) isBefore_total
    (·.doc) (fun _ _ => outranks_of_isBefore) h

/-- In a strict order as many hits stand before one as its place says. -/
theorem rank_of_sorted {sorted : List ShardHit} (h : sorted.Pairwise Outranks) :
    ∀ {place : Nat} {hit : ShardHit}, sorted[place]? = some hit → rank sorted hit = place := by
  induction sorted with
  | nil => exact fun hplace => nomatch hplace
  | cons first rest ih =>
      intro place hit hplace
      obtain ⟨hfirst, hrest⟩ := List.pairwise_cons.mp h
      cases place with
      | zero =>
          obtain rfl := Option.some.inj hplace
          refine List.countP_eq_zero.mpr fun other hother => ?_
          rw [decide_eq_true_eq]
          rcases List.mem_cons.mp hother with rfl | hother
          · exact fun hself => hself.asymm hself
          · exact (hfirst other hother).asymm
      | succ place =>
          -- the first hit stands before all others, so each place counts one more
          have hbefore : first.Outranks hit := hfirst hit (List.mem_of_getElem? hplace)
          rw [rank, List.countP_cons_of_pos (by simpa using hbefore)]
          exact congrArg (· + 1) (ih hrest hplace)

/-- **The place of a hit** once the hits are sorted. -/
theorem getElem?_rank {hits : List ShardHit} (h : (hits.map (·.doc)).Nodup) {hit : ShardHit}
    (hmem : hit ∈ hits) : (sort hits)[rank hits hit]? = some hit := by
  obtain ⟨place, hplace⟩ := List.mem_iff_getElem?.mp ((sort_perm hits).mem_iff.mpr hmem)
  have hrank : rank hits hit = place :=
    ((sort_perm hits).countP_eq _).symm.trans (rank_of_sorted (sort_outranks h) hplace)
  rw [hrank, hplace]

/-! ## Hits that are touched -/

/-- What new scores at the first places leave of some hits: the same documents in
    their new order, and the other scores as they were. -/
structure Touches (settings : Settings) (newScore : ShardHit → Float32) (count : Nat)
    (hits after : List ShardHit) : Prop where
  docs : (after.map (·.doc)).Perm (hits.map (·.doc))
  inside : ∀ hit ∈ hits, rank hits hit < count →
    ofScore settings hit.doc (newScore hit) ∈ after
  outside : ∀ hit ∈ hits, count ≤ rank hits hit → hit ∈ after
  ordered : after.Pairwise Outranks

/-- Hits whose first ones get new scores are touched up to there. -/
theorem touches_sort {hits : List ShardHit} (h : (hits.map (·.doc)).Nodup) (settings : Settings)
    (newScore : ShardHit → Float32) (window : Nat) :
    Touches settings newScore (min window hits.length) hits
      (sort (((sort hits).take window).map (fun hit => ofScore settings hit.doc (newScore hit)) ++
        (sort hits).drop window)) := by
  have htouched : (((sort hits).take window).map fun hit =>
      ofScore settings hit.doc (newScore hit)).map (·.doc)
        = Rescore.bestDocs hits window := List.map_map
  have hdocs := Rescore.rescored_perm hits window htouched
  refine ⟨hdocs, ?_, ?_, ?_⟩
  · intro hit hmem hrank
    refine (sort_perm _).mem_iff.mpr (List.mem_append_left _ (List.mem_map.mpr ⟨hit, ?_, rfl⟩))
    refine List.mem_iff_getElem?.mpr ⟨rank hits hit, ?_⟩
    rw [List.getElem?_take_of_lt (Nat.lt_of_lt_of_le hrank (Nat.min_le_left _ _)),
      getElem?_rank h hmem]
  · intro hit hmem hrank
    have hplace := getElem?_rank h hmem
    have hlt : rank hits hit < hits.length := by
      rw [← (sort_perm hits).length_eq]
      exact (List.getElem?_eq_some_iff.mp hplace).1
    refine (sort_perm _).mem_iff.mpr (List.mem_append_right _ ?_)
    refine List.mem_iff_getElem?.mpr ⟨rank hits hit - window, ?_⟩
    rw [List.getElem?_drop, Nat.add_sub_cancel' (by omega), hplace]
  · refine sort_outranks ?_
    exact ((sort_perm _).map _).nodup_iff.mp (hdocs.nodup_iff.mpr h)

/-- Touched hits that are known one by one are known as a list. -/
theorem Touches.eq_of_mem {settings : Settings} {newScore : ShardHit → Float32} {count : Nat}
    {hits after sorted : List ShardHit} (h : Touches settings newScore count hits after)
    (hsorted : sorted.Pairwise Outranks) (hmem : ∀ hit ∈ sorted, hit ∈ after)
    (hlength : sorted.length = hits.length) : after = sorted := by
  have : Std.Antisymm Outranks := ⟨fun _ _ hab hba => (hab.asymm hba).elim⟩
  have : Std.Irrefl Outranks := ⟨fun _ hself => hself.asymm hself⟩
  have hnodup : sorted.Nodup := hsorted.imp fun hab heq => by
    rw [heq] at hab
    exact hab.asymm hab
  have hcount : after.length = hits.length := by
    have hdocs := h.docs.length_eq
    rwa [List.length_map, List.length_map] at hdocs
  have hperm : sorted.Perm after := (List.subperm_of_subset hnodup hmem).perm_of_length_le
    (Nat.le_of_eq (hcount.trans hlength.symm))
  exact h.ordered.eq_of_mem_iff hsorted fun hit => hperm.symm.mem_iff

end ShardHit

/-! ## What a query gives -/

theorem lookup_map_snd {α β : Type} (f : α → β) (items : List (Nat × α)) (key : Nat) :
    (items.map fun x => (x.1, f x.2)).lookup key = (items.lookup key).map f := by
  induction items with
  | nil => rfl
  | cons x rest ih =>
      rw [List.map_cons, List.lookup_cons, List.lookup_cons, ih]
      cases key == x.1 <;> rfl

namespace QueryWeight

variable {w : QueryWeight} {docs : List IndexedDocument} {cache : Option ScoreCache}

/-- What a pass over a shard gives each number: a score to the number of a document
    that matches, and nothing to another. -/
structure Gives (w : QueryWeight) (s : Shard) (cache : Option ScoreCache)
    (given : Nat → Option Float32) : Prop where
  matched : ∀ number, (given number).isSome ↔ w.MatchesAt s number
  passed : ∃ scores after, w.passes none s.readers cache = .ok (scores, after) ∧
    ∀ number, given number = (scores.lookup number).map (·.value)

/-- What the terms of the document of a number say. -/
def givenOn (w : QueryWeight) (docs : List IndexedDocument) (cache : Option ScoreCache)
    (number : Nat) : Option Scored :=
  ((Shard.termsAt docs number).filter (w.matchesDoc ·)).map fun doc =>
    w.scoredOn doc (cache.bind (·.get? number))

/-- What a pass over a shard gives a number. -/
theorem lookup_scoresOn (w : QueryWeight) (docs : List IndexedDocument) (cache : Option ScoreCache)
    (number : Nat) :
    (w.scoresOn (fun _ => true) 0 cache (Shard.numbered docs)).lookup number
      = w.givenOn docs cache number := by
  refine Option.ext fun scored => ?_
  unfold givenOn Shard.numbered
  rw [lookup_scoresOn_eq_some_iff, Option.map_eq_some_iff, Nat.zero_add]
  constructor
  · rintro ⟨doc, hmem, -, hmatch, hscored⟩
    exact ⟨doc, Option.filter_eq_some_iff.mpr ⟨Plan.mem_numbered.mp hmem, hmatch⟩, hscored⟩
  · rintro ⟨doc, hdoc, hscored⟩
    obtain ⟨hterms, hmatch⟩ := Option.filter_eq_some_iff.mp hdoc
    exact ⟨doc, Plan.mem_numbered.mpr hterms, rfl, hmatch, hscored⟩

/-- What visits to the documents of a list give a place of it. -/
theorem lookup_visitsOn (w : QueryWeight) (docs : List IndexedDocument) (cache : Option ScoreCache)
    {numbers : List Nat} {index number : Nat} (hplace : numbers[index]? = some number) :
    (w.visitsOn (Shard.termsAt docs) cache (RankingWeight.placesOf numbers)).lookup index
      = w.givenOn docs cache number := by
  have heach : w.visitsOn (Shard.termsAt docs) cache (RankingWeight.placesOf numbers)
      = (RankingWeight.placesOf numbers).filterMap fun x =>
          (w.givenOn docs cache x.1).map (x.2, ·) := by
    refine List.filterMap_congr fun x _ => ?_
    rw [givenOn, Option.map_map]
    rfl
  -- no place of the list is visited twice, however often its number is there
  have hkeys : ((w.visitsOn (Shard.termsAt docs) cache
      (RankingWeight.placesOf numbers)).map (·.1)).Nodup := by
    rw [heach]
    refine List.pairwise_map.mpr (List.pairwise_filterMap.mpr ?_)
    refine (List.pairwise_map.mp (RankingWeight.placesOf_nodup numbers)).imp ?_
    intro x y hne a ha b hb
    obtain ⟨-, -, rfl⟩ := Option.map_eq_some_iff.mp ha
    obtain ⟨-, -, rfl⟩ := Option.map_eq_some_iff.mp hb
    exact hne
  refine Option.ext fun scored => ?_
  rw [lookup_eq_some_iff_mem hkeys, heach, List.mem_filterMap]
  simp only [Option.map_eq_some_iff]
  constructor
  · rintro ⟨x, hx, scored', hscored, heq⟩
    obtain ⟨rfl, rfl⟩ := Prod.mk.inj heq
    have hnumber := (RankingWeight.mem_placesOf.mp hx).symm.trans hplace
    rw [← Option.some.inj hnumber, hscored]
  · intro hscored
    exact ⟨(number, index), RankingWeight.mem_placesOf.mpr hplace, scored, hscored, rfl⟩

/-- **What a pass gives** is what the terms of the documents say. -/
theorem gives_of_terms {s : Shard} (hs : s.Holds docs) (hfits : w.Fits cache) :
    w.Gives s cache fun number => (w.givenOn docs cache number).map (·.value) where
  matched number := by
    rw [matchesAt_iff hs, givenOn, Option.isSome_map, Option.isSome_map]
  passed := by
    refine ⟨_, _, hs.passes none hfits, fun number => ?_⟩
    rw [← lookup_scoresOn]
    rfl

end QueryWeight

/-! ## Computations on hits in place -/

/-- A tracked computation that changes the hits of a shard in place: what it has made
    of them stays when it fails. -/
abbrev OnHits := ExceptT Failure (StateT (List ShardHit) (StateM Counters))

namespace OnHits

variable {α β : Type}

/-- A computation that leaves the hits alone. -/
def lift (m : Tracked α) : OnHits α := ExceptT.mk (StateT.lift (ExceptT.run m))

/-- The outcome, the hits that are left and what was counted. -/
def runOn (m : OnHits α) (hits : List ShardHit) (before : Counters) :
    (Except Failure α × List ShardHit) × Counters :=
  ((ExceptT.run m).run hits).run before

/-- The computation that gives the hits back with its value, and loses them when it
    fails. -/
def result (m : OnHits α) (hits : List ShardHit) : Tracked (α × List ShardHit) :=
  ExceptT.mk fun before =>
    let ((outcome, after), counters) := m.runOn hits before
    (outcome.map (·, after), counters)

/-- A computation that ends with an outcome and leaves some hits, whatever was counted. -/
def Ends (m : OnHits α) (hits : List ShardHit) (outcome : Except Failure α)
    (after : List ShardHit) : Prop :=
  ∀ before, (m.runOn hits before).1 = (outcome, after)

variable {m : OnHits α} {f : α → OnHits β} {hits between after : List ShardHit}
  {before counters : Counters} {failure : Failure}

/-- A sequence goes on from the hits that its first step leaves. -/
theorem runOn_bind_of_ok {a : α} (h : m.runOn hits before = ((.ok a, between), counters)) :
    (m >>= f).runOn hits before = (f a).runOn between counters := by
  show ((ExceptT.bindCont f (m.runOn hits before).1.1).run (m.runOn hits before).1.2).run
    (m.runOn hits before).2 = _
  rw [h]
  rfl

/-- A sequence leaves the hits that its first step leaves when this fails. -/
theorem runOn_bind_of_error (h : m.runOn hits before = ((.error failure, between), counters)) :
    (m >>= f).runOn hits before = ((.error failure, between), counters) := by
  show ((ExceptT.bindCont f (m.runOn hits before).1.1).run (m.runOn hits before).1.2).run
    (m.runOn hits before).2 = _
  rw [h]
  rfl

theorem runOn_lift (m : Tracked α) (hits : List ShardHit) (before : Counters) :
    (lift m).runOn hits before = ((((ExceptT.run m).run before).1, hits),
      ((ExceptT.run m).run before).2) := rfl

theorem run_result (m : OnHits α) (hits : List ShardHit) (before : Counters) :
    (ExceptT.run (m.result hits)).run before
      = ((m.runOn hits before).1.1.map (·, (m.runOn hits before).1.2),
        (m.runOn hits before).2) := rfl

/-! ### What is given back -/

theorem result_lift (m : Tracked α) (hits : List ShardHit) :
    (lift m).result hits = m >>= fun a => pure (a, hits) := by
  funext before
  show (ExceptT.run ((lift m).result hits)).run before
    = (ExceptT.run (m >>= fun a => pure (a, hits))).run before
  rw [run_result, runOn_lift]
  cases hm : (ExceptT.run m).run before with
  | mk outcome counters =>
      cases outcome with
      | error failure => rw [run_bind_of_error hm]; rfl
      | ok a => rw [run_bind_of_run hm]; rfl

/-- A sequence gives back what its second step makes of the hits that the first gives
    back. -/
theorem result_bind (m : OnHits α) (f : α → OnHits β) (hits : List ShardHit) :
    (m >>= f).result hits = m.result hits >>= fun x => (f x.1).result x.2 := by
  funext before
  show (ExceptT.run ((m >>= f).result hits)).run before
    = (ExceptT.run (m.result hits >>= fun x => (f x.1).result x.2)).run before
  have hresult := run_result m hits before
  cases hm : m.runOn hits before with
  | mk left counters =>
      obtain ⟨outcome, between⟩ := left
      rw [hm] at hresult
      cases outcome with
      | error failure =>
          rw [run_bind_of_error hresult, run_result, runOn_bind_of_error hm]
          rfl
      | ok a =>
          rw [run_bind_of_run hresult, run_result, runOn_bind_of_ok hm]
          rfl

/-! ### Ends -/

theorem Ends.bind {a : α} {outcome : Except Failure β} (h : m.Ends hits (.ok a) between)
    (hnext : (f a).Ends between outcome after) : (m >>= f).Ends hits outcome after := by
  intro before
  rw [runOn_bind_of_ok (Prod.ext (h before) rfl), hnext]

theorem Ends.bind_error (h : m.Ends hits (.error failure) after) (f : α → OnHits β) :
    (m >>= f).Ends hits (.error failure) after := by
  intro before
  rw [runOn_bind_of_error (Prod.ext (h before) rfl)]

theorem Ends.pure (a : α) (hits : List ShardHit) : (pure a : OnHits α).Ends hits (.ok a) hits :=
  fun _ => rfl

theorem Ends.modify (change : List ShardHit → List ShardHit) (hits : List ShardHit) :
    (modify change : OnHits Unit).Ends hits (.ok ()) (change hits) := fun _ => rfl

theorem Ends.lift {m : Tracked α} {outcome : Except Failure α} (h : m.Ends outcome)
    (hits : List ShardHit) : (lift m).Ends hits outcome hits := by
  intro before
  rw [runOn_lift, h]

/-- What ends in place ends alike when the hits are given back. -/
theorem Ends.result {outcome : Except Failure α} (h : m.Ends hits outcome after) :
    (m.result hits).Ends (outcome.map (·, after)) := by
  intro before
  rw [run_result, h]

/-- What gives hits back leaves them in place. -/
theorem ends_of_result {a : α} (h : (m.result hits).Ends (.ok (a, after))) :
    m.Ends hits (.ok a) after := by
  intro before
  have hrun := h before
  rw [run_result] at hrun
  cases hm : (m.runOn hits before).1 with
  | mk outcome left =>
      rw [hm] at hrun
      cases outcome with
      | error failure => exact nomatch hrun
      | ok b =>
          obtain ⟨rfl, rfl⟩ := Prod.mk.inj (Except.ok.inj hrun)
          rfl

end OnHits

/-! ## Stages in place -/

namespace Rescore

/-- A stage, which changes the hits in place. -/
def rescore (searcher : Searcher) (settings : Settings) : Rescore Slot → OnHits (Rescore Slot)
  | .scale factor window => do
    modify ShardHit.sort
    modify fun hits => (hits.take window).map (fun h => .ofScore settings h.doc (h.score * factor))
      ++ hits.drop window
    modify ShardHit.sort
    return .scale factor window
  | .query slot queryWeight rescoreWeight window => do
    modify ShardHit.sort
    let w ← OnHits.lift (slot.weighted searcher settings .scores)
    let docs := ((← get).take window).map (·.doc)
    let (visits, scores) ← OnHits.lift (ofChecked (w.weight.visit searcher.shard docs w.slot.scores))
    let rescored := visits.map fun (index, _, scored) => (index, scored.value)
    modify fun hits => (hits.take window).zipIdx.map (fun (h, index) =>
        .ofScore settings h.doc (combine queryWeight rescoreWeight h.score (rescored.lookup index)))
      ++ hits.drop window
    modify ShardHit.sort
    return .query { w.slot with scores } queryWeight rescoreWeight window

/-- All stages, one after the other; the first that fails ends them. -/
def rescoreAll (searcher : Searcher) (settings : Settings) :
    List (Rescore Slot) → OnHits (List (Rescore Slot))
  | [] => return []
  | stage :: rest => do
    let stage ← stage.rescore searcher (settings.under 0)
    let rest ← rescoreAll searcher (settings.under 1) rest
    return stage :: rest

/-- **A stage in place** is a stage that gives the hits back. -/
theorem apply_eq_rescore (searcher : Searcher) (settings : Settings) (hits : List ShardHit)
    (stage : Rescore Slot) :
    apply searcher settings hits stage = (stage.rescore searcher settings).result hits := by
  cases stage with
  | scale factor window => rfl
  | query slot queryWeight rescoreWeight window =>
      simp only [rescore, OnHits.result_bind, OnHits.result_lift, bind_assoc]
      rfl

theorem applyAll_eq_rescoreAll (searcher : Searcher) (stages : List (Rescore Slot)) :
    ∀ (settings : Settings) (hits : List ShardHit),
      applyAll searcher settings stages hits
        = (rescoreAll searcher settings stages).result hits := by
  induction stages with
  | nil => exact fun _ _ => rfl
  | cons stage rest ih =>
      intro settings hits
      simp only [applyAll, rescoreAll, apply_eq_rescore, ih, OnHits.result_bind]
      rfl

/-! ## What a stage does -/

/-- The refusal of a stage whose weight cannot be built. -/
def refusal? (searcher : Searcher) (settings : Settings) (stage : Rescore Slot) : Option Refusal :=
  stage.query?.bind fun slot =>
    match (slot.query.weight searcher settings.enabled .scores slot.weights).2 with
    | .error refusal => some refusal
    | .ok _ => none

/-- What the query of a stage gives the numbers of a shard. -/
def Gives (searcher : Searcher) (settings : Settings) (stage : Rescore Slot)
    (given : Nat → Option Float32) : Prop :=
  ∀ slot, stage.query? = some slot → ∃ made w,
    slot.query.weight searcher settings.enabled .scores slot.weights = (made, .ok w) ∧
      w.Gives searcher.shard slot.scores given

/-- The score that a stage gives a hit inside its window. -/
def newScore (stage : Rescore Slot) (given : Nat → Option Float32) (hit : ShardHit) : Float32 :=
  match stage with
  | .scale factor _ => hit.score * factor
  | .query _ queryWeight rescoreWeight _ =>
    match given hit.doc with
    | some score => hit.score * queryWeight + score * rescoreWeight
    | none => hit.score * queryWeight + 0.0

/-- The scores under the places of the best hits are put back to these hits. -/
theorem rescored_eq (settings : Settings) (slot : Slot) {queryWeight rescoreWeight : Float32}
    {window : Nat}
    {hits : List ShardHit} {scores : List (Nat × Scored)} {given : Nat → Option Float32}
    (h : ∀ index number, (bestDocs hits window)[index]? = some number →
      (scores.lookup index).map (·.value) = given number) :
    rescored settings queryWeight rescoreWeight window hits scores
      = ShardHit.sort (((ShardHit.sort hits).take window).map (fun hit => .ofScore settings hit.doc
          (newScore (.query slot queryWeight rescoreWeight window) given hit))
        ++ (ShardHit.sort hits).drop window) := by
  have hcombine : ∀ hit : ShardHit, combine queryWeight rescoreWeight hit.score (given hit.doc)
      = newScore (.query slot queryWeight rescoreWeight window) given hit := by
    intro hit
    unfold combine newScore
    cases given hit.doc <;> rfl
  refine congrArg (fun best => ShardHit.sort (best ++ (ShardHit.sort hits).drop window)) ?_
  rw [← List.zipIdx_map_fst 0 ((ShardHit.sort hits).take window), List.map_map,
    List.zipIdx_map_fst]
  refine List.map_congr_left fun x hx => ?_
  obtain ⟨hit, index⟩ := x
  have hplace : (bestDocs hits window)[index]? = some hit.doc := by
    rw [bestDocs, List.getElem?_map, List.mem_zipIdx_iff_getElem?.mp hx]
    rfl
  refine congrArg (ShardHit.ofScore settings hit.doc) ?_
  rw [lookup_map_snd, h index hit.doc hplace, hcombine]

variable {docs : List IndexedDocument} {s : Shard} {global : Option GlobalStatistics}
  {settings : Settings} {hits : List ShardHit} {stage : Rescore Slot}

/-- A stage whose weight is refused leaves the hits sorted. -/
theorem rescore_refused {searcher : Searcher} {refusal : Refusal}
    (h : stage.refusal? searcher settings = some refusal) (hits : List ShardHit) :
    (stage.rescore searcher settings).Ends hits (.error (.refused refusal))
      (ShardHit.sort hits) := by
  cases stage with
  | scale factor window => exact nomatch h
  | query slot queryWeight rescoreWeight window =>
      rcases hmade : slot.query.weight searcher settings.enabled .scores slot.weights with
        ⟨made, outcome⟩
      rw [refusal?, query?, Option.bind_some, hmade] at h
      cases outcome with
      | ok w => exact nomatch h
      | error other =>
          obtain rfl := Option.some.inj h
          have hweighted : (slot.weighted searcher settings .scores).Ends
              (.error (.refused other)) := by
            unfold Slot.weighted
            rw [hmade]
            exact fun _ => rfl
          -- the hits are sorted before the weight is asked for
          exact (OnHits.Ends.modify ShardHit.sort hits).bind
            ((OnHits.Ends.lift hweighted _).bind_error _)

/-- A stage whose visits succeed puts the scores back to the best hits. -/
theorem rescore_query_ends {searcher : Searcher} {slot : Slot} {made : WeightCache}
    {w : QueryWeight} {window : Nat} {visits : List (Nat × Nat × Scored)} {kept : Option ScoreCache}
    (hmade : slot.query.weight searcher settings.enabled .scores slot.weights = (made, .ok w))
    (hvisit : w.visit searcher.shard (bestDocs hits window) slot.scores = .ok (visits, kept))
    (queryWeight rescoreWeight : Float32) :
    (rescore searcher settings (.query slot queryWeight rescoreWeight window)).Ends hits
      (.ok (.query { slot with scores := kept, weights := made } queryWeight rescoreWeight window))
      (rescored settings queryWeight rescoreWeight window hits (eraseInside visits)) := by
  refine OnHits.ends_of_result ?_
  rw [← apply_eq_rescore, apply_query]
  refine (Slot.weighted_ends hmade).bind (Tracked.Ends.bind (a := (visits, kept)) ?_ (.pure _))
  rw [hvisit]
  exact .ofChecked (.ok (visits, kept))

/-- A stage by a query with a weight touches its window. -/
theorem rescore_query_touches (hs : s.Holds docs) (hhits : (hits.map (·.doc)).Nodup) {slot : Slot}
    (hslot : slot.Fits) {made : WeightCache} {w : QueryWeight}
    (hmade : slot.query.weight ⟨s, global⟩ settings.enabled .scores slot.weights = (made, .ok w))
    {queryWeight rescoreWeight : Float32} {window : Nat}
    (hstage : stage = .query slot queryWeight rescoreWeight window) :
    ∃ stage' after given, (stage.rescore ⟨s, global⟩ settings).Ends hits (.ok stage') after ∧
      stage.Gives ⟨s, global⟩ settings given ∧
      ShardHit.Touches settings (stage.newScore given) (min stage.window hits.length) hits
        after := by
  subst hstage
  have hfits : w.Fits slot.scores := hslot.weighted (Slot.weighted_ends hmade).yields
  have hgives := QueryWeight.gives_of_terms hs hfits
  obtain ⟨visits, hvisits, herased⟩ := hs.visit hfits (bestDocs_nodup hhits window)
  have hgiven : ∀ index number, (bestDocs hits window)[index]? = some number →
      ((eraseInside visits).lookup index).map (·.value)
        = (w.givenOn docs slot.scores number).map (·.value) := by
    intro index number hplace
    rw [eraseInside, herased, w.lookup_visitsOn docs _ hplace]
  have hends := rescore_query_ends hmade hvisits queryWeight rescoreWeight
  rw [rescored_eq settings slot hgiven] at hends
  refine ⟨_, _, _, hends, ?_, ShardHit.touches_sort hhits settings _ window⟩
  intro slot' hslot'
  obtain rfl := Option.some.inj hslot'
  exact ⟨made, w, hmade, hgives⟩

/-- A stage whose weight is built touches its window. -/
theorem rescore_touches (hs : s.Holds docs) (hhits : (hits.map (·.doc)).Nodup)
    (hstage : stage.Fits) (h : stage.refusal? ⟨s, global⟩ settings = none) :
    ∃ stage' after given, (stage.rescore ⟨s, global⟩ settings).Ends hits (.ok stage') after ∧
      stage.Gives ⟨s, global⟩ settings given ∧
      ShardHit.Touches settings (stage.newScore given) (min stage.window hits.length) hits
        after := by
  cases stage with
  | scale factor window =>
      have hgives : (Rescore.scale factor window).Gives ⟨s, global⟩ settings fun _ => none :=
        fun slot hslot => nomatch hslot
      exact ⟨_, _, _, fun _ => rfl, hgives, ShardHit.touches_sort hhits settings _ window⟩
  | query slot queryWeight rescoreWeight window =>
      rcases hmade : slot.query.weight ⟨s, global⟩ settings.enabled .scores slot.weights with
        ⟨made, outcome⟩
      rw [refusal?, query?, Option.bind_some, hmade] at h
      cases outcome with
      | error refusal => exact nomatch h
      | ok w => exact rescore_query_touches hs hhits (hstage slot rfl) hmade rfl

/-- **Rescoring touches only its window.**  A stage whose weight can be built leaves
    the hits of the same documents in their order, those inside its window with new
    scores and those outside with theirs; one whose weight is refused leaves all hits
    with theirs. -/
theorem rescore_window (hs : s.Built) (global : Option GlobalStatistics) (settings : Settings)
    (hstage : stage.Fits) (hhits : (hits.map (·.doc)).Nodup) :
    ∃ outcome after,
      (stage.rescore ⟨s, global⟩ settings).Ends hits outcome after ∧
      (apply ⟨s, global⟩ settings hits stage).Ends (outcome.map (·, after)) ∧
      (stage.refusal? ⟨s, global⟩ settings = none →
        ∃ stage' given, outcome = .ok stage' ∧ stage.Gives ⟨s, global⟩ settings given ∧
          ShardHit.Touches settings (stage.newScore given) (min stage.window hits.length) hits
            after) ∧
      ∀ refusal, stage.refusal? ⟨s, global⟩ settings = some refusal →
        outcome = .error (.refused refusal) ∧ after.Perm hits := by
  obtain ⟨docs, hdocs⟩ := hs.holds
  rw [apply_eq_rescore]
  cases hrefusal : stage.refusal? ⟨s, global⟩ settings with
  | none =>
      obtain ⟨stage', after, given, hends, hgives, htouches⟩ :=
        rescore_touches hdocs hhits hstage hrefusal
      exact ⟨.ok stage', after, hends, hends.result,
        fun _ => ⟨stage', given, rfl, hgives, htouches⟩, fun _ h => nomatch h⟩
  | some refusal =>
      have hends := rescore_refused hrefusal hits
      refine ⟨_, _, hends, hends.result, (fun h => nomatch h), fun other h => ?_⟩
      obtain rfl := Option.some.inj h
      exact ⟨rfl, ShardHit.sort_perm hits⟩

/-- A window of two.  A score that is no number stands before all numbers without a sign
    and behind them with one: the first hit is of no document, that of the second does not
    match, and the new score of the first gets its sign from the machine. -/
theorem rescore_window_of_two :
    let one := (Shard.empty.add "a" [1] 2).1
    let two := (one.add "b" [2] 2).1
    let shard := (two.add "c" [2, 1] 2).1
    let hits : List ShardHit := [⟨3, 1.0, .positive⟩, ⟨1, 0.0 / 0.0, .negative⟩,
      ⟨2, 4.0, .positive⟩, ⟨9, 0.0 / 0.0, .positive⟩]
    let settings : Settings := { nan := fun _ => .negative }
    let slot : Slot := { query := .plain (.phrase [1]) }
    ∃ stage', (apply ⟨shard, none⟩ settings hits (.query slot 0.5 3.0 2)).Ends
      (.ok (stage', [⟨2, 2.0, .positive⟩, ⟨3, 1.0, .positive⟩, ⟨1, 0.0 / 0.0, .negative⟩,
        ⟨9, 0.0 / 0.0, .negative⟩])) := by
  intro one two shard hits settings slot
  have hbuilt : shard.Built := ((Shard.Built.empty.add "a" [1] 2).add "b" [2] 2).add "c" [2, 1] 2
  have hstage : (Rescore.query slot 0.5 3.0 2).Fits := by
    intro slot' hslot'
    obtain rfl := Option.some.inj hslot'
    trivial
  have hhits : (hits.map (·.doc)).Nodup := by decide
  obtain ⟨outcome, after, -, hends, htouches, -⟩ :=
    rescore_window hbuilt none settings hstage hhits
  obtain ⟨stage', given, rfl, hgives, htouches⟩ := htouches rfl
  obtain ⟨made, w, hmade, hgives⟩ := hgives slot rfl
  have hweight : slot.query.weight ⟨shard, none⟩ true .scores slot.weights
      = (.empty, .ok (.plain (.phrase [1]))) := rfl
  obtain ⟨rfl, hw⟩ := Prod.mk.inj (hmade.symm.trans hweight)
  obtain rfl := Except.ok.inj hw
  -- the pass stops on neither document of the window, so nothing is given to them
  have hnone : given 2 = none := by
    refine Option.not_isSome_iff_eq_none.mp fun hsome => ?_
    obtain ⟨-, -, reader, inside, hlocate, hdocs⟩ := (hgives.matched 2).mp hsome
    obtain ⟨rfl, rfl⟩ := Prod.mk.inj (Option.some.inj hlocate)
    exact absurd hdocs (by decide)
  have hnone' : given 9 = none := by
    refine Option.not_isSome_iff_eq_none.mp fun hsome => ?_
    obtain ⟨-, -, reader, inside, hlocate, -⟩ := (hgives.matched 9).mp hsome
    cases hlocate
  have hsecond := htouches.inside ⟨2, 4.0, .positive⟩ (by simp [hits]) (by decide)
  have hfirst := htouches.inside ⟨9, 0.0 / 0.0, .positive⟩ (by simp [hits]) (by decide)
  have hhalf : newScore (.query slot 0.5 3.0 2) given ⟨2, 4.0, .positive⟩ = 2.0 := by
    simp only [newScore, hnone]
    decide
  have hnan : newScore (.query slot 0.5 3.0 2) given ⟨9, 0.0 / 0.0, .positive⟩ = 0.0 / 0.0 := by
    simp only [newScore, hnone']
    decide
  rw [hhalf] at hsecond
  rw [hnan] at hfirst
  have hthird := htouches.outside ⟨3, 1.0, .positive⟩ (by simp [hits]) (by decide)
  have hlast := htouches.outside ⟨1, 0.0 / 0.0, .negative⟩ (by simp [hits]) (by decide)
  have hsorted : [⟨2, 2.0, .positive⟩, ⟨3, 1.0, .positive⟩, ⟨1, 0.0 / 0.0, .negative⟩,
      ⟨9, 0.0 / 0.0, .negative⟩].Pairwise ShardHit.Outranks := by decide
  have hafter := htouches.eq_of_mem hsorted (List.forall_mem_cons.mpr ⟨hsecond,
    List.forall_mem_cons.mpr ⟨hthird, List.forall_mem_cons.mpr ⟨hlast,
      List.forall_mem_singleton.mpr hfirst⟩⟩⟩) rfl
  rw [hafter] at hends
  exact ⟨stage', hends⟩

/-! ## All stages -/

/-- What stages leave of some hits, one after the other: each touches its window of
    what the one before left, and the first that is refused ends them. -/
inductive Leaves (searcher : Searcher) :
    Settings → List (Rescore Slot) → List ShardHit → Except Failure (List (Rescore Slot)) →
      List ShardHit → Prop where
  | done {settings : Settings} (hits : List ShardHit) :
      Leaves searcher settings [] hits (.ok []) hits
  | refused {settings : Settings} {stage : Rescore Slot} {rest : List (Rescore Slot)}
      {hits after : List ShardHit} {refusal : Refusal}
      (h : stage.refusal? searcher settings = some refusal) (hkept : after.Perm hits) :
      Leaves searcher settings (stage :: rest) hits (.error (.refused refusal)) after
  | touched {settings : Settings} {stage stage' : Rescore Slot} {rest : List (Rescore Slot)}
      {hits between after : List ShardHit} {given : Nat → Option Float32}
      {outcome : Except Failure (List (Rescore Slot))}
      (h : stage.refusal? searcher settings = none) (hgives : stage.Gives searcher settings given)
      (htouches : ShardHit.Touches (settings.under 0) (stage.newScore given)
        (min stage.window hits.length) hits between)
      (hrest : Leaves searcher (settings.under 1) rest between outcome after) :
      Leaves searcher settings (stage :: rest) hits (outcome.map (stage' :: ·)) after

/-- Stages keep the documents, also when one of them is refused. -/
theorem Leaves.perm {searcher : Searcher} {stages : List (Rescore Slot)} {after : List ShardHit}
    {outcome : Except Failure (List (Rescore Slot))}
    (h : Leaves searcher settings stages hits outcome after) :
    (after.map (·.doc)).Perm (hits.map (·.doc)) := by
  induction h with
  | done hits => exact .refl _
  | refused h hkept => exact hkept.map _
  | touched h hgives htouches hrest ih => exact ih.trans htouches.docs

/-- **All stages** touch their windows one after the other, up to the first that is
    refused. -/
theorem rescoreAll_leaves (hs : s.Built) (global : Option GlobalStatistics)
    {stages : List (Rescore Slot)} :
    ∀ (settings : Settings) {hits : List ShardHit}, (∀ stage ∈ stages, stage.Fits) →
      (hits.map (·.doc)).Nodup →
      ∃ outcome after,
        (rescoreAll ⟨s, global⟩ settings stages).Ends hits outcome after ∧
        (applyAll ⟨s, global⟩ settings stages hits).Ends (outcome.map (·, after)) ∧
        Leaves ⟨s, global⟩ settings stages hits outcome after := by
  obtain ⟨docs, hdocs⟩ := hs.holds
  induction stages with
  | nil =>
      intro settings hits _ _
      exact ⟨.ok [], hits, fun _ => rfl, fun _ => rfl, .done hits⟩
  | cons stage rest ih =>
      intro settings hits hstages hhits
      obtain ⟨hstage, hrest⟩ := List.forall_mem_cons.mp hstages
      rw [applyAll_eq_rescoreAll]
      cases hrefusal : stage.refusal? ⟨s, global⟩ settings with
      | some refusal =>
          have hunder : stage.refusal? ⟨s, global⟩ (settings.under 0) = some refusal := hrefusal
          have hall : (rescoreAll ⟨s, global⟩ settings (stage :: rest)).Ends hits
              (.error (.refused refusal)) (ShardHit.sort hits) :=
            (rescore_refused hunder hits).bind_error _
          exact ⟨_, _, hall, hall.result, .refused hrefusal (ShardHit.sort_perm hits)⟩
      | none =>
          have hunder : stage.refusal? ⟨s, global⟩ (settings.under 0) = none := hrefusal
          obtain ⟨stage', between, given, hends, hgives, htouches⟩ :=
            rescore_touches hdocs hhits hstage hunder
          obtain ⟨outcome, after, hothers, -, hleaves⟩ :=
            ih (settings.under 1) hrest (htouches.docs.nodup_iff.mpr hhits)
          have hall : (rescoreAll ⟨s, global⟩ settings (stage :: rest)).Ends hits
              (outcome.map (stage' :: ·)) after := by
            refine hends.bind ?_
            cases outcome with
            | ok stages' => exact hothers.bind (.pure _ _)
            | error failure => exact hothers.bind_error _
          exact ⟨_, _, hall, hall.result, .touched hrefusal hgives htouches hleaves⟩

end Rescore

end FeatureRank
