import Mathlib.Data.List.Basic
import Mathlib.Data.List.TakeDrop
import Mathlib.Data.List.TakeWhile
import FeatureRank.Proofs.Ranking.ScoreCache
import FeatureRank.Proofs.Walk.Direct
import FeatureRank.Ranking.Disjunction

/-! # Disjunctions settle — the queue moves exactly the walks that are behind

    A disjunction keeps the ordinals of its walks in a queue and moves those at
    its front that are behind the document.  `Queued` is what makes that enough:
    each walk stands in the queue once, under the stop where it is, the earliest
    first.  Then moving the front is bringing *every* walk to the document
    (`moveWalks_walks`), so the order in which the walks wait never shows. -/

namespace FeatureRank

namespace Disjunction

open DocWalk

variable {ω : Type}

/-! ## The order of the queue -/

theorem enqueue_perm (place : Stop × Nat) (queue : List (Stop × Nat)) :
    (enqueue place queue).Perm (place :: queue) := by
  induction queue with
  | nil => exact List.Perm.refl _
  | cons first rest ih =>
      show (if isBefore place first then place :: first :: rest
        else first :: enqueue place rest).Perm _
      by_cases h : isBefore place first = true
      · rw [if_pos h]
      · rw [if_neg h]
        exact (ih.cons first).trans (List.Perm.swap place first rest)

/-- A place goes before no earlier stop and after no later one. -/
theorem le_of_isBefore {a b : Stop × Nat} (h : isBefore a b = true) : a.1.le b.1 = true := by
  unfold isBefore at h
  by_cases heq : a.1 = b.1
  · rw [heq]; exact Stop.le_refl _
  · rw [if_neg heq] at h; exact h

theorem le_of_not_isBefore {a b : Stop × Nat} (h : ¬isBefore a b = true) :
    b.1.le a.1 = true := by
  unfold isBefore at h
  by_cases heq : a.1 = b.1
  · rw [heq]; exact Stop.le_refl _
  · rw [if_neg heq] at h
    exact (Stop.le_total a.1 b.1).resolve_left h

/-- Places by their stops, the earliest first. -/
def Sorted (queue : List (Stop × Nat)) : Prop := queue.Pairwise fun a b => a.1.le b.1 = true

theorem Sorted.enqueue {queue : List (Stop × Nat)} (h : Sorted queue) (place : Stop × Nat) :
    Sorted (Disjunction.enqueue place queue) := by
  induction queue with
  | nil => exact List.pairwise_singleton _ _
  | cons first rest ih =>
      obtain ⟨hfirst, hrest⟩ := List.pairwise_cons.mp h
      show Sorted (if isBefore place first then place :: first :: rest
        else first :: Disjunction.enqueue place rest)
      by_cases hb : isBefore place first = true
      · rw [if_pos hb]
        refine List.pairwise_cons.mpr ⟨?_, h⟩
        intro x hx
        rcases List.mem_cons.mp hx with heq | hmem
        · rw [heq]; exact le_of_isBefore hb
        · exact Stop.le_trans (le_of_isBefore hb) (hfirst x hmem)
      · rw [if_neg hb]
        refine List.pairwise_cons.mpr ⟨?_, ih hrest⟩
        intro x hx
        rcases List.mem_cons.mp ((enqueue_perm place rest).mem_iff.mp hx) with heq | hmem
        · rw [heq]; exact le_of_not_isBefore hb
        · exact hfirst x hmem

/-- In a sorted queue nothing after the places behind a target is behind it. -/
theorem Sorted.dropWhile_ahead {queue : List (Stop × Nat)} (h : Sorted queue) (target : Nat) :
    ∀ x ∈ queue.dropWhile (·.1.behind target), x.1.behind target = false := by
  induction queue with
  | nil => intro x hx; exact nomatch hx
  | cons first rest ih =>
      obtain ⟨hfirst, hrest⟩ := List.pairwise_cons.mp h
      cases hb : first.1.behind target with
      | true =>
          rw [List.dropWhile_cons_of_pos (by exact hb)]
          exact ih hrest
      | false =>
          rw [List.dropWhile_cons_of_neg (by simp [hb])]
          intro x hx
          rcases List.mem_cons.mp hx with heq | hmem
          · rw [heq]; exact hb
          · cases hx' : x.1.behind target with
            | false => rfl
            | true =>
                rw [Stop.behind_of_le (hfirst x hmem) hx'] at hb
                exact nomatch hb

/-! ## What is held -/

/-- What is held stays held when more is recorded. -/
theorem isHeld_insertOnce {d : Disjunction ω} {held : ScoreCache} (hcache : d.cache = some held)
    {doc other : Nat} {scores : List Float32} (h : d.isHeld other = true) :
    isHeld { d with cache := some (held.insertOnce doc scores) } other = true := by
  unfold isHeld at h
  rw [hcache] at h
  exact ScoreCache.contains_insertOnce h

/-- What is held depends on the cache and the place of the segment only. -/
theorem isHeld_congr {d e : Disjunction ω} (hcache : d.cache = e.cache)
    (hbase : d.docBase = e.docBase) (doc : Nat) : d.isHeld doc = e.isHeld doc := by
  unfold isHeld absolute
  rw [hcache, hbase]

/-! ## Which walks wait -/

variable [DocWalk ω]

/-- Places that name each walk once, by where it stands. -/
structure Names (walks : List (Option ω)) (places : List (Stop × Nat)) : Prop where
  once : (places.map (·.2)).Nodup
  mem_iff : ∀ place, place ∈ places ↔
    ∃ w, walks[place.2]? = some (some w) ∧ DocWalk.stop w = place.1

/-- A queue with each walk once, under the stop where it is, the earliest first. -/
structure Queued (walks : List (Option ω)) (queue : List (Stop × Nat)) : Prop where
  names : Names walks queue
  sorted : Sorted queue

theorem Names.perm {walks : List (Option ω)} {places others : List (Stop × Nat)}
    (h : Names walks places) (hperm : others.Perm places) : Names walks others :=
  ⟨((hperm.map _).nodup_iff).mpr h.once, fun place => hperm.mem_iff.trans (h.mem_iff place)⟩

/-- Once a walk has moved, its new place names it. -/
theorem Names.move {walks : List (Option ω)} {place : Stop × Nat} {places : List (Stop × Nat)}
    (h : Names walks (place :: places)) (moved : ω) :
    Names (walks.set place.2 (some moved)) ((DocWalk.stop moved, place.2) :: places) := by
  obtain ⟨honce, hmem⟩ := h
  obtain ⟨w, hw, -⟩ := (hmem place).mp List.mem_cons_self
  have hlt : place.2 < walks.length := (List.getElem?_eq_some_iff.mp hw).1
  have hother : ∀ other ∈ places, other.2 ≠ place.2 := by
    intro other ho heq
    exact (List.nodup_cons.mp honce).1 (List.mem_map.mpr ⟨other, ho, heq⟩)
  refine ⟨honce, ?_⟩
  intro other
  -- the moved walk is told from the others by its ordinal, which is in the queue once
  by_cases heq : other.2 = place.2
  · have hset : (walks.set place.2 (some moved))[other.2]? = some (some moved) := by
      rw [heq, List.getElem?_set_self hlt]
    rw [hset]
    constructor
    · intro ho
      rcases List.mem_cons.mp ho with ho | ho
      · exact ⟨moved, rfl, by rw [ho]⟩
      · exact absurd heq (hother other ho)
    · rintro ⟨w', hw', hstop⟩
      have hw' : moved = w' := Option.some.inj (Option.some.inj hw')
      refine List.mem_cons.mpr (Or.inl (Prod.ext ?_ heq))
      rw [← hstop, hw']
  · rw [List.getElem?_set_ne (fun h => heq h.symm), ← hmem other]
    constructor
    · intro ho
      rcases List.mem_cons.mp ho with ho | ho
      · exact absurd (congrArg Prod.snd ho) heq
      · exact List.mem_cons_of_mem _ ho
    · intro ho
      rcases List.mem_cons.mp ho with ho | ho
      · exact absurd (congrArg Prod.snd ho) heq
      · exact List.mem_cons_of_mem _ ho

/-! ## Moving the front -/

/-- One step of the move: the walk of a place, to the target. -/
theorem moveWalk_eq {target : Nat} {walks : List (Option ω)} {queue : List (Stop × Nat)}
    {ordinal : Nat} {w : ω} (hw : walks[ordinal]? = some (some w)) :
    moveWalk target walks queue ordinal
      = (walks.set ordinal (some (DocWalk.advance target w)),
          enqueue (DocWalk.stop (DocWalk.advance target w), ordinal) queue) := by
  unfold moveWalk
  rw [hw]
  rfl

/-- Moving the walks of some places: just these have moved, and all are queued. -/
theorem moveLate (target : Nat) (late : List (Stop × Nat)) :
    ∀ (walks : List (Option ω)) (queue : List (Stop × Nat)),
      Names walks (late ++ queue) → Sorted queue →
      let moved := late.foldl
        (fun (walks, queue) (_, ordinal) => moveWalk target walks queue ordinal) (walks, queue)
      Queued moved.1 moved.2 ∧
        ∀ i, moved.1[i]? =
          if i ∈ late.map (·.2) then walks[i]?.map (Option.map (DocWalk.advance target)) else walks[i]? := by
  induction late with
  | nil =>
      intro walks queue hnames hsorted
      refine ⟨⟨hnames, hsorted⟩, ?_⟩
      intro i
      rw [if_neg (by simp)]
      rfl
  | cons place rest ih =>
      intro walks queue hnames hsorted
      obtain ⟨w, hw, -⟩ := (hnames.mem_iff place).mp List.mem_cons_self
      have hlt : place.2 < walks.length := (List.getElem?_eq_some_iff.mp hw).1
      -- the places still to be moved and the queue together name every walk
      have hstep : Names (walks.set place.2 (some (DocWalk.advance target w)))
          (rest ++ enqueue (DocWalk.stop (DocWalk.advance target w), place.2) queue) := by
        refine (Names.move hnames (DocWalk.advance target w)).perm ?_
        exact ((enqueue_perm _ queue).append_left rest).trans List.perm_middle
      obtain ⟨hqueued, hat⟩ := ih _ _ hstep (hsorted.enqueue _)
      simp only [List.foldl_cons, moveWalk_eq hw]
      refine ⟨hqueued, ?_⟩
      intro i
      rw [hat i]
      have hnotin : place.2 ∉ rest.map (·.2) := by
        intro hin
        have honce := hnames.once
        rw [List.cons_append, List.map_cons, List.map_append] at honce
        exact (List.nodup_cons.mp honce).1 (List.mem_append_left _ hin)
      by_cases hi : i = place.2
      · rw [hi, if_neg hnotin, if_pos (by simp), List.getElem?_set_self hlt, hw]
        rfl
      · rw [List.getElem?_set_ne (fun h => hi h.symm), List.map_cons]
        by_cases hin : i ∈ rest.map (·.2)
        · rw [if_pos hin, if_pos (List.mem_cons_of_mem _ hin)]
        · have hout : i ∉ place.2 :: rest.map (·.2) := by
            intro h
            rcases List.mem_cons.mp h with h | h
            · exact hi h
            · exact hin h
          rw [if_neg hin, if_neg hout]

/-- A walk is among the late ones at the front of its queue just when it is behind the
    target, since the queue is sorted by stops. -/
theorem Queued.mem_late {walks : List (Option ω)} {queue : List (Stop × Nat)}
    (h : Queued walks queue) (target : Nat) {i : Nat} {w : ω} (hi : walks[i]? = some (some w)) :
    i ∈ (queue.takeWhile (·.1.behind target)).map (·.2)
      ↔ (DocWalk.stop w).behind target = true := by
  constructor
  · intro hin
    obtain ⟨place, hplace, heq⟩ := List.mem_map.mp hin
    have hbehind : place.1.behind target = true :=
      List.mem_takeWhile_imp (p := fun x : Stop × Nat => x.1.behind target) hplace
    obtain ⟨w', hw', hstop⟩ := (h.names.mem_iff place).mp
      ((List.takeWhile_sublist _).subset hplace)
    rw [heq, hi] at hw'
    have hww : w = w' := Option.some.inj (Option.some.inj hw')
    rw [hww, hstop]
    exact hbehind
  · intro hbehind
    have hmem : (DocWalk.stop w, i) ∈ queue.takeWhile (·.1.behind target)
        ++ queue.dropWhile (·.1.behind target) := by
      rw [List.takeWhile_append_dropWhile]
      exact (h.names.mem_iff (DocWalk.stop w, i)).mpr ⟨w, hi, rfl⟩
    rcases List.mem_append.mp hmem with hin | hin
    · exact List.mem_map_of_mem (f := (·.2)) hin
    · have hahead := h.sorted.dropWhile_ahead target _ hin
      rw [hbehind] at hahead
      exact nomatch hahead

/-- **Moving the front of the queue brings every walk to the target.** -/
theorem moveWalks_walks (target : Nat) {walks : List (Option ω)} {queue : List (Stop × Nat)}
    (h : Queued walks queue) :
    (moveWalks target walks queue).1 = walks.map (Option.map (reach target)) ∧
      Queued (moveWalks target walks queue).1 (moveWalks target walks queue).2 := by
  have hspan : queue.span (·.1.behind target)
      = (queue.takeWhile (·.1.behind target), queue.dropWhile (·.1.behind target)) :=
    List.span_eq_takeWhile_dropWhile _ queue
  have hsplit : queue.takeWhile (·.1.behind target) ++ queue.dropWhile (·.1.behind target)
      = queue := List.takeWhile_append_dropWhile
  obtain ⟨hqueued, hat⟩ := moveLate target (queue.takeWhile (·.1.behind target))
    walks (queue.dropWhile (·.1.behind target)) (hsplit.symm ▸ h.names)
    (h.sorted.sublist (List.dropWhile_sublist _))
  have hmove : moveWalks target walks queue
      = (queue.takeWhile (·.1.behind target)).foldl
          (fun (walks, queue) (_, ordinal) => moveWalk target walks queue ordinal)
          (walks, queue.dropWhile (·.1.behind target)) := by
    unfold moveWalks
    rw [hspan]
  rw [hmove]
  refine ⟨?_, hqueued⟩
  refine List.ext_getElem? ?_
  intro i
  rw [hat i, List.getElem?_map]
  cases hi : walks[i]? with
  | none => split <;> rfl
  | some slot =>
      cases slot with
      | none => split <;> rfl
      | some w =>
          have hlate := h.mem_late target hi
          cases hb : (DocWalk.stop w).behind target with
          | true =>
              rw [if_pos (hlate.mpr hb)]
              simp only [Option.map_some, reach_behind hb]
          | false =>
              rw [if_neg fun hin => Bool.eq_false_iff.mp hb (hlate.mp hin)]
              simp only [Option.map_some, reach_ahead hb]

/-! ## The first queue -/

/-- Queueing walks one after the other keeps the queue sorted and adds just their
    places. -/
theorem foldl_enqueue (items : List (Option ω × Nat)) :
    ∀ queue : List (Stop × Nat), Sorted queue →
      let queued := items.foldl
        (fun queue (walk, ordinal) =>
          match walk with
          | some w => enqueue (DocWalk.stop w, ordinal) queue
          | none => queue)
        queue
      Sorted queued ∧
        queued.Perm (items.filterMap (fun x => x.1.map fun w => (DocWalk.stop w, x.2)) ++ queue) := by
  induction items with
  | nil => intro queue hsorted; exact ⟨hsorted, List.Perm.refl _⟩
  | cons item rest ih =>
      intro queue hsorted
      obtain ⟨walk, ordinal⟩ := item
      cases walk with
      | none => exact ih queue hsorted
      | some w =>
          obtain ⟨hs, hp⟩ := ih _ (hsorted.enqueue (DocWalk.stop w, ordinal))
          refine ⟨hs, hp.trans ?_⟩
          exact ((enqueue_perm _ queue).append_left _).trans List.perm_middle

/-- Every walk of a new disjunction is queued. -/
theorem ofWalks_queued (maxDoc : Nat) (walks : List (Option ω)) (docBase : Nat)
    (cache : Option ScoreCache) :
    Queued walks (ofWalks maxDoc walks docBase cache).queue := by
  obtain ⟨hsorted, hperm⟩ := foldl_enqueue walks.zipIdx [] List.Pairwise.nil
  rw [List.append_nil] at hperm
  refine ⟨Names.perm ⟨?_, ?_⟩ hperm, hsorted⟩
  · have hsub : ((walks.zipIdx.filterMap fun x => x.1.map fun w => (DocWalk.stop w, x.2)).map
        (·.2)).Sublist (walks.zipIdx.map (·.2)) := by
      generalize walks.zipIdx = items
      induction items with
      | nil => exact List.Sublist.refl _
      | cons item rest ih =>
          obtain ⟨walk, ordinal⟩ := item
          cases walk with
          | none => exact ih.cons ordinal
          | some w => exact ih.cons_cons ordinal
    refine List.Nodup.sublist hsub ?_
    rw [List.zipIdx_map_snd]
    exact List.nodup_range'
  · intro place
    rw [List.mem_filterMap]
    constructor
    · rintro ⟨⟨walk, ordinal⟩, hmem, heq⟩
      obtain ⟨w, hw, hplace⟩ := Option.map_eq_some_iff.mp heq
      rw [List.mem_zipIdx_iff_getElem?] at hmem
      refine ⟨w, ?_, by rw [← hplace]⟩
      rw [← hplace, ← hw]
      exact hmem
    · rintro ⟨w, hw, hstop⟩
      refine ⟨(some w, place.2), List.mem_zipIdx_iff_getElem?.mpr hw, ?_⟩
      simp only [Option.map_some, hstop]

/-! ## Moving on -/

/-- Where a disjunction gets to: past the last document, to one whose scores are
    held and where no walk moves, or to one to which every walk is brought. -/
theorem advance_cases {d : Disjunction ω} (hqueued : Queued d.walks d.queue) (target : Nat)
    (hpos : 0 < target) :
    (d.docs.maxDoc < target ∧
      d.advance target = { d with docs := ⟨d.docs.maxDoc, .exhausted⟩ }) ∨
    (target ≤ d.docs.maxDoc ∧ d.isHeld target = true ∧
      d.advance target = { d with docs := ⟨d.docs.maxDoc, .doc target⟩ }) ∨
    (target ≤ d.docs.maxDoc ∧ d.isHeld target = false ∧ ∃ queue,
      Queued (d.walks.map (Option.map (reach target))) queue ∧
      d.advance target = { d with
        docs := ⟨d.docs.maxDoc, .doc target⟩
        walks := d.walks.map (Option.map (reach target))
        queue }) := by
  have hmax : max target 1 = target := by omega
  have hdocs : d.docs.advance target
      = ⟨d.docs.maxDoc, if d.docs.maxDoc < target then .exhausted else .doc target⟩ := by
    simp only [AllDocs.advance, hmax]
  by_cases hpast : d.docs.maxDoc < target
  · rw [if_pos hpast] at hdocs
    exact Or.inl ⟨hpast, by rw [Disjunction.advance, hdocs]; rfl⟩
  · rw [if_neg hpast] at hdocs
    have hle : target ≤ d.docs.maxDoc := Nat.le_of_not_lt hpast
    have hsame : ∀ docs, isHeld { d with docs } target = d.isHeld target := fun _ => rfl
    cases hheld : d.isHeld target with
    | true =>
        refine Or.inr (Or.inl ⟨hle, rfl, ?_⟩)
        rw [Disjunction.advance, hdocs]
        simp only [settle, Disjunction.stop]
        rw [hsame, if_pos hheld]
    | false =>
        obtain ⟨hmoves, hmoved⟩ := moveWalks_walks target hqueued
        refine Or.inr (Or.inr ⟨hle, rfl, (moveWalks target d.walks d.queue).2, hmoves ▸ hmoved, ?_⟩)
        rw [Disjunction.advance, hdocs]
        simp only [settle, Disjunction.stop]
        rw [hsame, if_neg (by rw [hheld]; exact Bool.false_ne_true), hmoves]

/-- Moving on changes neither the cache nor the place of the segment. -/
theorem advance_cache (target : Nat) (d : Disjunction ω) :
    (d.advance target).cache = d.cache ∧ (d.advance target).docBase = d.docBase := by
  unfold Disjunction.advance settle
  split
  · exact ⟨rfl, rfl⟩
  · split
    · exact ⟨rfl, rfl⟩
    · exact ⟨rfl, rfl⟩

end Disjunction

end FeatureRank
