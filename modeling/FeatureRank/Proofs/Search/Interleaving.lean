import Mathlib.Algebra.GroupWithZero.Nat
import Mathlib.Logic.Relation
import FeatureRank.Proofs.Ranking.Weight
import FeatureRank.Proofs.Search.SegmentSearch

/-! # Interleaving — segments searched at the same time

    The segments of a shard are searched concurrently.  Between two steps of one
    search any other may take a step (`Searches.Step`), and a run is any number of
    steps in any order.  Nothing of the order shows: what holds of each search is
    kept by the steps of all of them (`Searches.Sound.step`), every run comes to an
    end (`Searches.Sound.finishes`), and the cache in the end is known beforehand
    (`Searches.Sound.finally`). -/

namespace FeatureRank

/-- The searches of the segments of a shard with the cache that they share. -/
structure Searches where
  shared : ScoreCache
  searches : List SegmentSearch

namespace Searches

def start (w : RankingWeight) (readers : List SegmentReader)
    (allowed : SegmentReader → Nat → Bool) : Searches where
  shared := .empty
  searches := readers.map fun reader => .start w reader (allowed reader)

/-- One search takes a step; which one is up to the scheduler. -/
inductive Step : Searches → Searches → Prop where
  | turn {c : Searches} {i : Nat} {t t' : SegmentSearch} {after : ScoreCache}
      (hturn : c.searches[i]? = some t) (hbusy : t.phase ≠ .done)
      (hstep : t.step c.shared = .ok (after, t')) : Step c ⟨after, c.searches.set i t'⟩

/-- Any number of steps, in any order. -/
abbrev Run : Searches → Searches → Prop := Relation.ReflTransGen Step

/-- Every search has reached its end. -/
def Done (c : Searches) : Prop := ∀ t ∈ c.searches, t.phase = .done

/-- How many steps all searches can still take. -/
def left (c : Searches) : Nat := (c.searches.map (·.left)).sum

/-- What holds of all searches in every state. -/
structure Sound (w : RankingWeight) (readers : List SegmentReader)
    (allowed : SegmentReader → Nat → Bool) (c : Searches) : Prop where
  length : c.searches.length = readers.length
  search : ∀ (i : Nat) (reader : SegmentReader) (t : SegmentSearch), readers[i]? = some reader →
    c.searches[i]? = some t → t.Sound w c.shared reader (allowed reader)
  entries : ∀ key scores, c.shared.get? key = some scores → ∃ reader ∈ readers, ∃ doc v,
    0 < doc ∧ doc ≤ reader.maxDoc ∧ key = reader.docBase + doc ∧
      w.Describes reader.segment doc v ∧ scores = v.kept 0 w.weights.length

variable {w : RankingWeight} {readers : List SegmentReader}
  {allowed : SegmentReader → Nat → Bool} {c c' : Searches}

theorem Sound.start (w : RankingWeight) (readers : List SegmentReader)
    (allowed : SegmentReader → Nat → Bool) : Sound w readers allowed (start w readers allowed) where
  length := List.length_map _
  search := by
    intro i reader t hreader ht
    have ht : (readers.map fun reader => SegmentSearch.start w reader (allowed reader))[i]? = some t := ht
    rw [List.getElem?_map, hreader] at ht
    rw [← Option.some.inj ht]
    exact SegmentSearch.Sound.start w reader (allowed reader)
  entries := by
    intro key scores hget
    exact nomatch Std.TreeMap.getElem?_emptyc.symm.trans hget

/-- The reader of a search. -/
theorem Sound.reader (h : Sound w readers allowed c) {i : Nat} {t : SegmentSearch}
    (ht : c.searches[i]? = some t) : ∃ reader, readers[i]? = some reader := by
  have hlt := (List.getElem?_eq_some_iff.mp ht).1
  rw [h.length] at hlt
  exact ⟨readers[i], List.getElem?_eq_getElem hlt⟩

/-- Documents of different segments have different numbers. -/
theorem absolute_ne (hpairs : readers.Pairwise fun a b => a.docBase + a.maxDoc ≤ b.docBase)
    {i j : Nat} (hne : i ≠ j) {a b : SegmentReader} (ha : readers[i]? = some a)
    (hb : readers[j]? = some b) {m n : Nat} (hm : 0 < m) (hma : m ≤ a.maxDoc) (hn : 0 < n)
    (hnb : n ≤ b.maxDoc) : a.docBase + m ≠ b.docBase + n := by
  obtain ⟨hi, hia⟩ := List.getElem?_eq_some_iff.mp ha
  obtain ⟨hj, hjb⟩ := List.getElem?_eq_some_iff.mp hb
  rcases Nat.lt_or_gt_of_ne hne with hlt | hgt
  · have := List.pairwise_iff_getElem.mp hpairs i j hi hj hlt
    rw [hia, hjb] at this
    omega
  · have := List.pairwise_iff_getElem.mp hpairs j i hj hi hgt
    rw [hia, hjb] at this
    omega

/-- A search that comes closer to its end brings all of them closer. -/
theorem left_set {searches : List SegmentSearch} {t t' : SegmentSearch} (hleft : t'.left < t.left) :
    ∀ {i : Nat}, searches[i]? = some t →
      ((searches.set i t').map (·.left)).sum < (searches.map (·.left)).sum := by
  induction searches with
  | nil => intro i ht; exact nomatch ht
  | cons first rest ih =>
      intro i ht
      cases i with
      | zero =>
          rw [Option.some.inj ht, List.set_cons_zero, List.map_cons, List.map_cons, List.sum_cons,
            List.sum_cons]
          exact Nat.add_lt_add_right hleft _
      | succ i =>
          rw [List.set_cons_succ, List.map_cons, List.map_cons, List.sum_cons, List.sum_cons]
          exact Nat.add_lt_add_left (ih ht) _

section

variable (hbuilt : ∀ r ∈ readers, r.segment.Built)
  (hpairs : readers.Pairwise fun a b => a.docBase + a.maxDoc ≤ b.docBase)
  (hcount : w.weights.length ≤ w.ranker.featureCount)

include hbuilt hcount

/-- Whichever search has its turn can take its step. -/
theorem Sound.progress (h : Sound w readers allowed c) {i : Nat} {t : SegmentSearch}
    (ht : c.searches[i]? = some t) (hbusy : t.phase ≠ .done) :
    ∃ after t', t.step c.shared = .ok (after, t') := by
  obtain ⟨reader, hreader⟩ := h.reader ht
  obtain ⟨after, t', hstep, -⟩ := (h.search i reader t hreader ht).step
    (hbuilt reader (List.mem_iff_getElem?.mpr ⟨i, hreader⟩)) hcount hbusy
  exact ⟨after, t', hstep⟩

include hpairs

/-- **Any step of any search** keeps what holds of all of them, changes no entry of
    the cache, and brings the end closer. -/
theorem Sound.step (h : Sound w readers allowed c) (hstep : Step c c') :
    Sound w readers allowed c' ∧ c'.shared.Extends c.shared ∧ c'.left < c.left := by
  obtain @⟨i, t, t', after, hturn, hbusy, hstep⟩ := hstep
  obtain ⟨reader, hreader⟩ := h.reader hturn
  have hmem := List.mem_iff_getElem?.mpr ⟨i, hreader⟩
  obtain ⟨after', t'', hstep', hsound, hwrites, hleft⟩ :=
    (h.search i reader t hreader hturn).step (hbuilt reader hmem) hcount hbusy
  rw [hstep] at hstep'
  obtain ⟨hafter, ht'⟩ := Prod.mk.inj (Except.ok.inj hstep')
  rw [← hafter] at hsound hwrites
  rw [← ht'] at hsound hleft
  have hlt := (List.getElem?_eq_some_iff.mp hturn).1
  -- the search that had its turn is sound again, and the others are untouched
  have hsearch : ∀ (j : Nat) (r : SegmentReader) (u : SegmentSearch), readers[j]? = some r →
      (c.searches.set i t')[j]? = some u → u.Sound w after r (allowed r) := by
    intro j r u hr hu
    by_cases hj : j = i
    · rw [hj] at hr hu
      rw [List.getElem?_set_self hlt] at hu
      rw [← Option.some.inj hu, Option.some.inj (hr.symm.trans hreader)]
      exact hsound
    · rw [List.getElem?_set_ne (fun heq => hj heq.symm)] at hu
      have hother := h.search j r u hr hu
      cases hwrites with
      | nothing => exact hother
      | scores hpos hle _ =>
          refine hother.others _ fun doc hdoc hinside heq => ?_
          exact absolute_ne hpairs hj hr hreader hdoc hinside hpos hle heq.symm
  refine ⟨⟨by rw [List.length_set, h.length], hsearch, ?_⟩, ?_, left_set hleft hturn⟩
  · intro key scores hget
    cases hwrites with
    | nothing => exact h.entries key scores hget
    | @scores doc v hpos hle hdescribes =>
        have hget : (c.shared.insertOnce _ _).get? key = some scores := hget
        rw [ScoreCache.get?_insertOnce] at hget
        by_cases hnew : key = reader.docBase + doc ∧ c.shared.get? (reader.docBase + doc) = none
        · rw [if_pos hnew] at hget
          exact ⟨reader, hmem, doc, v, hpos, hle, hnew.1, hdescribes, (Option.some.inj hget).symm⟩
        · rw [if_neg hnew] at hget
          exact h.entries key scores hget
  · cases hwrites with
    | nothing => exact ScoreCache.Extends.refl _
    | scores _ _ _ => exact ScoreCache.insertOnce_extends _ _ _

/-- What holds of all searches holds after any number of steps. -/
theorem Sound.run (h : Sound w readers allowed c) (hrun : Run c c') :
    Sound w readers allowed c' := by
  induction hrun with
  | refl => exact h
  | tail _ hstep ih => exact (Sound.step hbuilt hpairs hcount ih hstep).1

/-- **Every run comes to an end**: whatever happened so far, all searches get done. -/
theorem Sound.finishes (h : Sound w readers allowed c) : ∃ c', Run c c' ∧ c'.Done := by
  -- on the number of steps that are left
  induction hleft : c.left using Nat.strong_induction_on generalizing c with
  | _ n ih =>
      by_cases hdone : c.Done
      · exact ⟨c, Relation.ReflTransGen.refl, hdone⟩
      · unfold Done at hdone
        push Not at hdone
        obtain ⟨t, hmem, hbusy⟩ := hdone
        obtain ⟨i, hturn⟩ := List.mem_iff_getElem?.mp hmem
        obtain ⟨after, t', hstep⟩ := h.progress hbuilt hcount hturn hbusy
        have hturn := Step.turn hturn hbusy hstep
        obtain ⟨hsound, -, hless⟩ := Sound.step hbuilt hpairs hcount h hturn
        obtain ⟨c', hrun, hdone⟩ := ih _ (hleft ▸ hless) hsound rfl
        exact ⟨c', Relation.ReflTransGen.head hturn hrun, hdone⟩

omit hbuilt hpairs hcount in
/-- **What the cache holds in the end**: what is kept of the vectors of the allowed
    documents, and nothing else. -/
theorem Sound.finally (h : Sound w readers allowed c) (hdone : c.Done) (key : Nat)
    (scores : List Float32) :
    c.shared.get? key = some scores ↔ ∃ reader ∈ readers, ∃ doc v, 0 < doc ∧
      doc ≤ reader.maxDoc ∧ allowed reader doc = true ∧ key = reader.docBase + doc ∧
      w.Describes reader.segment doc v ∧ scores = v.kept 0 w.weights.length := by
  have hfound : ∀ reader ∈ readers, ∃ t : SegmentSearch,
      t.Sound w c.shared reader (allowed reader) ∧
      t.found.map (·.1) = (List.range' 1 reader.maxDoc).filter (allowed reader) := by
    intro reader hmem
    obtain ⟨i, hi⟩ := List.mem_iff_getElem?.mp hmem
    have hlt : i < c.searches.length := by
      rw [h.length]
      exact (List.getElem?_eq_some_iff.mp hi).1
    have ht := List.getElem?_eq_getElem hlt
    have hsound := h.search i reader _ hi ht
    have hstands := hsound.stands
    unfold SegmentSearch.Stands at hstands
    rw [hdone _ (List.mem_iff_getElem?.mpr ⟨i, ht⟩)] at hstands
    exact ⟨_, hsound, hstands⟩
  constructor
  · intro hget
    obtain ⟨reader, hmem, doc, v, hpos, hle, hkey, hdescribes, hscores⟩ := h.entries key scores hget
    obtain ⟨t, hsound, hdocs⟩ := hfound reader hmem
    refine ⟨reader, hmem, doc, v, hpos, hle, ?_, hkey, hdescribes, hscores⟩
    by_contra hnot
    have hfree := hsound.free doc hpos hle (by
      rw [hdocs]
      exact fun hin => hnot (List.mem_filter.mp hin).2)
    rw [← hkey, hget] at hfree
    exact nomatch hfree
  · rintro ⟨reader, hmem, doc, v, hpos, hle, hallowed, hkey, hdescribes, hscores⟩
    obtain ⟨t, hsound, hdocs⟩ := hfound reader hmem
    have hin : doc ∈ t.found.map (·.1) := by
      rw [hdocs]
      exact List.mem_filter.mpr ⟨List.mem_range'_1.mpr ⟨hpos, by omega⟩, hallowed⟩
    obtain ⟨x, hx, hdoc⟩ := List.mem_map.mp hin
    obtain ⟨v', hv', -, hget⟩ := hsound.given x hx
    rw [hdoc] at hv' hget
    rw [hkey, hget, hscores, hdescribes.unique hv']

end

end Searches

/-- **Segments that are searched at the same time do not disturb each other.**
    However the steps of their searches interleave, each gives the scores that it
    gives alone, each entry of the cache is the array of the document of its number
    and stays as it is, no search faults, all get done, and what the cache holds in
    the end depends on no schedule. -/
theorem RankingQuery.segments_undisturbed {name : String} {features : FeatureSet}
    {ranker : Ranker} {compilation : Nat} {model : Model}
    (hmodel : Model.make name features ranker compilation = .ok model)
    {context : QueryContext} {params : Params} {q : RankingQuery}
    (hquery : ofModel model context params = .ok q)
    {searcher : Searcher} {cache made : WeightCache} {w : RankingWeight}
    (hweight : q.weight searcher cache = (made, .ok w)) (hbuilt : searcher.shard.Built)
    (allowed : SegmentReader → Nat → Bool) :
    let start := Searches.start w searcher.shard.readers allowed
    (∀ c, Searches.Run start c →
      (∀ (i : Nat) (t : SegmentSearch), c.searches[i]? = some t →
        ∃ reader alone after, searcher.shard.readers[i]? = some reader ∧
          (QueryWeight.ranking w).pass reader (allowed reader) (some .empty) = .ok (alone, after) ∧
          t.found <+: alone.map (fun x => (x.1, x.2.value)) ∧
          (t.phase = .done → t.found = alone.map fun x => (x.1, x.2.value)) ∧
          (t.phase ≠ .done → ∃ after t', t.step c.shared = .ok (after, t'))) ∧
      (∀ key scores, c.shared.get? key = some scores →
        ∃ reader ∈ searcher.shard.readers, ∃ doc v, 0 < doc ∧ doc ≤ reader.maxDoc ∧
          key = reader.docBase + doc ∧ w.Describes reader.segment doc v ∧
          scores = v.kept 0 features.size) ∧
      (∀ c', Searches.Step c c' → c'.shared.Extends c.shared) ∧
      ∃ c', Searches.Run c c' ∧ c'.Done) ∧
    ∀ c c', Searches.Run start c → Searches.Run start c' → c.Done → c'.Done →
      ∀ key, c.shared.get? key = c'.shared.get? key := by
  intro start
  obtain ⟨hranker, -, hfeatures, hlength⟩ := ofModel_size hmodel hquery
  obtain ⟨hholds, -, -, hwranker, -⟩ := weight_eq_ok hweight
  have hsize : w.weights.length = features.size := by rw [← hholds.length_eq, hlength]
  have hcount : w.weights.length ≤ w.ranker.featureCount := by
    rw [hsize, hwranker, hranker, hfeatures]
  have hpairs := searcher.shard.readers_pairwise
  have hsound : ∀ c, Searches.Run start c → Searches.Sound w searcher.shard.readers allowed c :=
    fun c hrun => Searches.Sound.run hbuilt.readers hpairs hcount (Searches.Sound.start _ _ _) hrun
  refine ⟨?_, ?_⟩
  · intro c hrun
    have h := hsound c hrun
    refine ⟨?_, ?_, ?_, Searches.Sound.finishes hbuilt.readers hpairs hcount h⟩
    · intro i t ht
      obtain ⟨reader, hreader⟩ := h.reader ht
      have hmem := List.mem_iff_getElem?.mpr ⟨i, hreader⟩
      obtain ⟨alone, after, hpass, hprefix, hall⟩ :=
        (h.search i reader t hreader ht).alone (hbuilt.readers reader hmem) hcount
      exact ⟨reader, alone, after, hreader, hpass, hprefix, hall,
        h.progress hbuilt.readers hcount ht⟩
    · rw [← hsize]
      exact h.entries
    · intro c' hstep
      exact (Searches.Sound.step hbuilt.readers hpairs hcount h hstep).2.1
  · intro c c' hrun hrun' hdone hdone' key
    refine Option.ext fun scores => ?_
    rw [(hsound c hrun).finally hdone, (hsound c' hrun').finally hdone']

/-- Two segments with one document each: whoever goes first, both are scored `3.0`. -/
theorem RankingQuery.segments_undisturbed_two :
    let features : FeatureSet := ⟨"one", [.prebuilt "base" (.constant 1.5)]⟩
    let ranker : Ranker := .linear "one" [2.0] 0.0
    let shard := ((Shard.empty.add "a" [1] 1).1.add "b" [2] 1).1
    let w : RankingWeight := ⟨[.constant 1.5 true], ranker, features⟩
    let start := Searches.start w shard.readers fun _ _ => true
    ∃ c, Searches.Run start c ∧ c.Done ∧ ∀ c', Searches.Run start c' → c'.Done →
      (∀ (i : Nat) (t : SegmentSearch), c'.searches[i]? = some t → t.found = [(1, 3.0)]) ∧
      ∀ key, c'.shared.get? key = c.shared.get? key := by
  intro features ranker shard w start
  obtain ⟨hstates, hfinal⟩ := RankingQuery.segments_undisturbed
    (show Model.make "one" features ranker = .ok ⟨"one", features, ranker, 0⟩ from rfl)
    (show RankingQuery.ofPrebuilt ⟨"one", features, ranker, 0⟩ = .ok
      ⟨[.constant 1.5], features, ranker, 0⟩ from rfl)
    (show RankingQuery.weight _ ⟨shard, none⟩ .empty = (_, .ok w) from rfl)
    ((Shard.Built.empty.add "a" [1] 1).add "b" [2] 1) fun _ _ => true
  obtain ⟨-, -, -, c, hrun, hdone⟩ := hstates start Relation.ReflTransGen.refl
  refine ⟨c, hrun, hdone, ?_⟩
  intro c' hrun' hdone'
  refine ⟨?_, hfinal c' c hrun' hrun hdone' hdone⟩
  intro i t ht
  obtain ⟨reader, alone, after, hreader, hpass, -, hall, -⟩ := (hstates c' hrun').1 i t ht
  rw [hall (hdone' t (List.mem_iff_getElem?.mpr ⟨i, ht⟩))]
  match i with
  | 0 =>
      rw [← Option.some.inj hreader] at hpass
      rw [← (Prod.mk.inj (Except.ok.inj hpass)).1]
      decide
  | 1 =>
      rw [← Option.some.inj hreader] at hpass
      rw [← (Prod.mk.inj (Except.ok.inj hpass)).1]
      decide
  | _ + 2 => exact nomatch hreader

end FeatureRank
