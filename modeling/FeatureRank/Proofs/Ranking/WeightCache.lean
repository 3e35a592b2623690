import FeatureRank.Ranking.WeightCache

/-! # The weight cache — what it knows and that it knows it for good

    A cache is faithful to a searcher when each weight in it is the one that the
    searcher makes for its query (`WeightCache.Faithful`), and it extends another
    when it has every weight of that one (`WeightCache.Extends`).  Asking for a
    weight keeps a faithful cache faithful and only ever extends it
    (`WeightCache.getOrCreate_eq_ok`), and merging loses no query
    (`WeightCache.get?_merge_right`). -/

namespace FeatureRank

namespace WeightCache

/-- A cache whose weights are those that a searcher makes. -/
def Faithful (searcher : Searcher) (c : WeightCache) : Prop :=
  ∀ key w, (key, w) ∈ c.entries → key.weight searcher = .ok w

/-- A cache that has what another one has. -/
def Extends (more c : WeightCache) : Prop := ∀ key w, c.get? key = some w → more.get? key = some w

theorem Faithful.empty (searcher : Searcher) : Faithful searcher .empty :=
  fun _ _ h => nomatch h

/-- What a faithful cache answers is the weight of the query. -/
theorem Faithful.get? {searcher : Searcher} {c : WeightCache} (h : c.Faithful searcher)
    {key : FeatureQuery} {w : Weight} (hget : c.get? key = some w) :
    key.weight searcher = .ok w := by
  obtain ⟨before, after, hentries, -⟩ := List.lookup_eq_some_iff.mp hget
  refine h key w ?_
  rw [hentries]
  exact List.mem_append_right _ List.mem_cons_self

theorem Extends.refl (c : WeightCache) : c.Extends c := fun _ _ h => h

theorem Extends.trans {a b c : WeightCache} (hab : a.Extends b) (hbc : b.Extends c) :
    a.Extends c := fun key w h => hab key w (hbc key w h)

/-! ## Recording -/

theorem get?_insertOnce (c : WeightCache) (key : FeatureQuery) (w : Weight)
    (other : FeatureQuery) :
    (c.insertOnce key w).get? other
      = if other = key ∧ c.get? key = none then some w else c.get? other := by
  unfold insertOnce
  cases hkey : c.get? key with
  | some held =>
      rw [if_pos (by rfl), if_neg (fun h => nomatch h.2)]
  | none =>
      show List.lookup other ((key, w) :: c.entries) = _
      rw [List.lookup_cons]
      by_cases h : other = key
      · rw [if_pos ⟨h, rfl⟩, h, beq_self_eq_true]
      · rw [if_neg (fun h' => h h'.1), beq_eq_false_iff_ne.mpr h]
        rfl

theorem insertOnce_extends (c : WeightCache) (key : FeatureQuery) (w : Weight) :
    (c.insertOnce key w).Extends c := by
  intro other v h
  rw [get?_insertOnce]
  by_cases hnew : other = key ∧ c.get? key = none
  · rw [hnew.1, hnew.2] at h
    exact nomatch h
  · rw [if_neg hnew]
    exact h

/-- Recording a weight, one way or the other the query has one afterwards. -/
theorem isSome_insertOnce (c : WeightCache) (key : FeatureQuery) (w : Weight) :
    ((c.insertOnce key w).get? key).isSome = true := by
  rw [get?_insertOnce]
  cases h : c.get? key with
  | none => rw [if_pos ⟨rfl, rfl⟩]; rfl
  | some held => rw [if_neg (fun h => nomatch h.2)]; rfl

/-- What a cache has beyond another one was made by a searcher. -/
def MadeOver (searcher : Searcher) (more c : WeightCache) : Prop :=
  ∀ key w, (key, w) ∈ more.entries → (key, w) ∈ c.entries ∨ key.weight searcher = .ok w

theorem MadeOver.refl (searcher : Searcher) (c : WeightCache) : c.MadeOver searcher c :=
  fun _ _ => .inl

theorem MadeOver.trans {searcher : Searcher} {a b c : WeightCache} (hab : a.MadeOver searcher b)
    (hbc : b.MadeOver searcher c) : a.MadeOver searcher c :=
  fun key w h => (hab key w h).elim (hbc key w) .inr

theorem MadeOver.insertOnce {searcher : Searcher} (c : WeightCache) {key : FeatureQuery}
    {w : Weight} (hw : key.weight searcher = .ok w) :
    (c.insertOnce key w).MadeOver searcher c := by
  unfold WeightCache.insertOnce
  split
  · exact .refl searcher c
  · intro other v hmem
    rcases List.mem_cons.mp hmem with heq | hmem
    · obtain ⟨hother, hv⟩ := Prod.mk.inj heq
      rw [hother, hv]
      exact .inr hw
    · exact .inl hmem

theorem Faithful.over {searcher : Searcher} {more c : WeightCache} (h : c.Faithful searcher)
    (hmore : more.MadeOver searcher c) : more.Faithful searcher :=
  fun key w hmem => (hmore key w hmem).elim (h key w) id

theorem Faithful.insertOnce {searcher : Searcher} {c : WeightCache} (h : c.Faithful searcher)
    {key : FeatureQuery} {w : Weight} (hw : key.weight searcher = .ok w) :
    (c.insertOnce key w).Faithful searcher := h.over (.insertOnce c hw)

/-! ## Asking -/

/-- What asking for a weight comes to: it was there, or it is made and recorded. -/
theorem getOrCreate_eq_ok {c c' : WeightCache} {key : FeatureQuery} {w : Weight}
    {create : FeatureQuery → Except Refusal Weight}
    (hcacheable : ∀ w, create key = .ok w → w.cacheable = true)
    (h : c.getOrCreate key create = (c', .ok w)) :
    c'.get? key = some w ∧ c'.Extends c ∧
      (c' = c ∨ (create key = .ok w ∧ c' = c.insertOnce key w)) := by
  unfold getOrCreate at h
  cases hget : c.get? key with
  | some held =>
      rw [hget] at h
      obtain ⟨hc, hw⟩ := Prod.mk.inj h
      rw [← hc, ← Except.ok.inj hw]
      exact ⟨hget, Extends.refl c, Or.inl rfl⟩
  | none =>
      simp only [hget] at h
      cases hcreate : create key with
      | error refusal =>
          simp only [hcreate] at h
          exact nomatch (Prod.mk.inj h).2
      | ok made =>
          simp only [hcreate, hcacheable made hcreate, if_true] at h
          obtain ⟨hc, hw⟩ := Prod.mk.inj h
          rw [← hc, ← Except.ok.inj hw]
          refine ⟨?_, insertOnce_extends c key made, Or.inr ⟨rfl, rfl⟩⟩
          rw [get?_insertOnce, if_pos ⟨rfl, hget⟩]

/-- A weight that is there is not made again, whatever would make it. -/
theorem getOrCreate_of_get? {c : WeightCache} {key : FeatureQuery} {w : Weight}
    (h : c.get? key = some w) (create : FeatureQuery → Except Refusal Weight) :
    c.getOrCreate key create = (c, .ok w) := by
  unfold getOrCreate
  rw [h]

/-- A faithful cache gives the weight that the searcher makes, and has it afterwards. -/
theorem Faithful.getOrCreate {searcher : Searcher} {c : WeightCache} (hc : c.Faithful searcher)
    {key : FeatureQuery} {w : Weight} (hw : key.weight searcher = .ok w)
    (hcacheable : w.cacheable = true) :
    ∃ made, c.getOrCreate key (FeatureQuery.weight searcher) = (made, .ok w) ∧
      made.get? key = some w := by
  cases hget : c.get? key with
  | some held =>
      obtain rfl : held = w := Except.ok.inj ((hc.get? hget).symm.trans hw)
      exact ⟨c, getOrCreate_of_get? hget _, hget⟩
  | none =>
      refine ⟨c.insertOnce key w, ?_, ?_⟩
      · simp only [WeightCache.getOrCreate, hget, hw, hcacheable, if_true]
      · rw [get?_insertOnce, if_pos ⟨rfl, hget⟩]

/-! ## Merging -/

theorem merge_extends (c other : WeightCache) : (c.merge other).Extends c := by
  unfold merge
  induction other.entries with
  | nil => exact Extends.refl c
  | cons entry rest ih => exact (insertOnce_extends _ _ _).trans ih

/-- Every query of the cache that is merged in has a weight. -/
theorem get?_merge_right (c : WeightCache) {other : WeightCache} {key : FeatureQuery}
    (h : (other.get? key).isSome = true) : ((c.merge other).get? key).isSome = true := by
  unfold merge
  unfold get? at h
  -- the entries are merged from the last to the first, and each stays from then on
  generalize other.entries = entries at h
  induction entries with
  | nil => exact nomatch h
  | cons entry rest ih =>
      obtain ⟨other, w⟩ := entry
      rw [List.foldr_cons]
      by_cases heq : key = other
      · rw [heq]
        exact isSome_insertOnce _ _ _
      · rw [List.lookup_cons, beq_eq_false_iff_ne.mpr heq] at h
        obtain ⟨v, hv⟩ := Option.isSome_iff_exists.mp (ih h)
        rw [insertOnce_extends _ _ _ _ _ hv]
        rfl

theorem Faithful.merge {searcher : Searcher} {c other : WeightCache} (hc : c.Faithful searcher)
    (hother : other.Faithful searcher) : (c.merge other).Faithful searcher := by
  unfold WeightCache.merge
  unfold Faithful at hother
  generalize other.entries = entries at hother
  induction entries with
  | nil => exact hc
  | cons entry rest ih =>
      have hrest := ih fun key w h => hother key w (List.mem_cons_of_mem _ h)
      exact hrest.insertOnce (hother entry.1 entry.2 List.mem_cons_self)

end WeightCache

end FeatureRank
