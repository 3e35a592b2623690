import FeatureRank.Proofs.Outcome
import FeatureRank.Proofs.Ranking.Weight
import FeatureRank.Search.Slot

/-! # Tracked computations and slots

    A tracked computation yields a value when it ends with it from some counters
    (`Tracked.Yields`).  What a search computes never depends on what was counted,
    so this is all that needs to be known of a step, and the success of a whole is
    taken apart into the yields of its steps.

    The slot of a query starts with no weights, and with no scores kept or none
    yet; getting its weights fills only the weight cache
    (`Slot.weighted_yields`). -/

namespace FeatureRank

namespace Tracked

variable {α β : Type}

/-- A computation that ends with a value from some counters. -/
def Yields (m : Tracked α) (a : α) : Prop :=
  ∃ before after, (ExceptT.run m).run before = (.ok a, after)

/-- A sequence goes on from what was counted once its first step ended with a value. -/
theorem run_bind_of_run {m : Tracked α} {f : α → Tracked β} {a : α} {before between : Counters}
    (h : (ExceptT.run m).run before = (.ok a, between)) :
    (ExceptT.run (m >>= f)).run before = (ExceptT.run (f a)).run between := by
  show (ExceptT.bindCont f ((ExceptT.run m).run before).1).run ((ExceptT.run m).run before).2 = _
  rw [h]
  rfl

/-- A sequence ends with a value when its first step does, and the second step from
    what was counted then. -/
theorem run_bind {m : Tracked α} {f : α → Tracked β} {before after : Counters} {b : β}
    (h : (ExceptT.run (m >>= f)).run before = (.ok b, after)) :
    ∃ a between, (ExceptT.run m).run before = (.ok a, between) ∧
      (ExceptT.run (f a)).run between = (.ok b, after) := by
  cases hm : (ExceptT.run m).run before with
  | mk outcome between =>
      cases outcome with
      | error failure =>
          have h : (ExceptT.bindCont f ((ExceptT.run m).run before).1).run
              ((ExceptT.run m).run before).2 = (.ok b, after) := h
          rw [hm] at h
          exact nomatch (Prod.mk.inj h).1
      | ok a =>
          rw [run_bind_of_run hm] at h
          exact ⟨a, between, rfl, h⟩

theorem yields_bind {m : Tracked α} {f : α → Tracked β} {b : β} (h : (m >>= f).Yields b) :
    ∃ a, m.Yields a ∧ (f a).Yields b := by
  obtain ⟨before, after, h⟩ := h
  obtain ⟨a, between, hm, hf⟩ := run_bind h
  exact ⟨a, ⟨before, between, hm⟩, between, after, hf⟩

theorem yields_pure {a b : α} (h : (pure a : Tracked α).Yields b) : a = b := by
  obtain ⟨before, after, h⟩ := h
  exact Except.ok.inj (Prod.mk.inj h).1

theorem yields_map {m : Tracked α} {f : α → β} {b : β} (h : (f <$> m).Yields b) :
    ∃ a, m.Yields a ∧ f a = b := by
  obtain ⟨a, ha, hb⟩ := yields_bind (f := fun a => pure (f a)) (by
    rw [bind_pure_comp]
    exact h)
  exact ⟨a, ha, yields_pure hb⟩

theorem throw_bind (failure : Failure) (f : α → Tracked β) :
    (throw failure >>= f) = (throw failure : Tracked β) := rfl

theorem not_yields_throw {failure : Failure} {a : α} :
    ¬(throw failure : Tracked α).Yields a := by
  rintro ⟨before, after, h⟩
  exact nomatch (Prod.mk.inj h).1

theorem yields_ofExcept {x : Except Refusal α} {a : α} (h : (ofExcept x).Yields a) :
    x = .ok a := by
  cases x with
  | error refusal => exact absurd h not_yields_throw
  | ok value => exact congrArg Except.ok (yields_pure h)

theorem yields_ofChecked {x : Checked α} {a : α} (h : (ofChecked x).Yields a) : x = .ok a := by
  cases x with
  | error fault => exact absurd h not_yields_throw
  | ok value => exact congrArg Except.ok (yields_pure h)

/-- The results of a list of computations, one for each item. -/
theorem yields_mapM {f : α → Tracked β} {items : List α} {results : List β}
    (h : (items.mapM f).Yields results) :
    List.Forall₂ (fun item result => (f item).Yields result) items results := by
  induction items generalizing results with
  | nil =>
      rw [← yields_pure h]
      exact List.Forall₂.nil
  | cons first rest ih =>
      rw [List.mapM_cons] at h
      obtain ⟨head, hhead, h⟩ := yields_bind h
      obtain ⟨tail, htail, h⟩ := yields_bind h
      rw [← yields_pure h]
      exact List.Forall₂.cons hhead (ih htail)

/-- The result of a computation on what may be there. -/
theorem yields_mapM_option {f : α → Tracked β} {item : Option α} {result : Option β}
    (h : (item.mapM f).Yields result) :
    (item = none ∧ result = none) ∨ ∃ a b, item = some a ∧ result = some b ∧ (f a).Yields b := by
  cases item with
  | none => exact Or.inl ⟨rfl, (yields_pure h).symm⟩
  | some a =>
      obtain ⟨b, hb, h⟩ := yields_map h
      exact Or.inr ⟨a, b, rfl, h.symm, hb⟩

end Tracked

open Tracked

/-! ## The weights of queries -/

namespace Query

variable {searcher : Searcher} {enabled : Bool} {mode : ScoreMode} {cache made : WeightCache}
  {w : QueryWeight}

/-- What the weight of a ranking query is, and that ranking is not switched off. -/
theorem weight_of_ranking {q : RankingQuery}
    (h : (Query.ranking q).weight searcher enabled mode cache = (made, .ok w)) :
    enabled = true ∧ ((mode = .matching ∧ made = cache ∧ w = .plain (.constant 1.0 false)) ∨
      (mode = .scores ∧ ∃ v, q.weight searcher cache = (made, .ok v) ∧ w = .ranking v)) := by
  unfold Query.weight at h
  cases enabled with
  | false => cases (Prod.mk.inj h).2
  | true =>
      refine ⟨rfl, ?_⟩
      cases mode with
      | matching =>
          obtain ⟨hmade, hw⟩ := Prod.mk.inj h
          exact .inl ⟨rfl, hmade.symm, (Except.ok.inj hw).symm⟩
      | scores =>
          cases hweight : q.weight searcher cache with
          | mk between outcome =>
              simp only [hweight, if_true] at h
              cases outcome with
              | error refusal => cases (Prod.mk.inj h).2
              | ok v =>
                  obtain ⟨hmade, hw⟩ := Prod.mk.inj h
                  rw [← hmade]
                  exact .inr ⟨rfl, v, rfl, (Except.ok.inj hw).symm⟩

theorem weight_of_boost {inner : Query} {factor : Float32}
    (h : (Query.boost inner factor).weight searcher enabled mode cache = (made, .ok w)) :
    ∃ v, inner.weight searcher enabled mode cache = (made, .ok v) ∧ w = .boost v factor := by
  unfold Query.weight at h
  cases hinner : inner.weight searcher enabled mode cache with
  | mk between outcome =>
      rw [hinner] at h
      cases outcome with
      | error refusal => cases (Prod.mk.inj h).2
      | ok v =>
          obtain ⟨hmade, hw⟩ := Prod.mk.inj h
          rw [← hmade]
          exact ⟨v, rfl, (Except.ok.inj hw).symm⟩

theorem weight_of_plain {q : FeatureQuery}
    (h : (Query.plain q).weight searcher enabled mode cache = (made, .ok w)) :
    ∃ v, (q.canonical searcher.isEmpty).weight searcher = .ok v ∧ made = cache ∧
      w = .plain v := by
  unfold Query.weight at h
  cases hweight : (q.canonical searcher.isEmpty).weight searcher with
  | error refusal =>
      rw [hweight] at h
      cases (Prod.mk.inj h).2
  | ok v =>
      rw [hweight] at h
      obtain ⟨hmade, hw⟩ := Prod.mk.inj h
      exact ⟨v, rfl, hmade.symm, (Except.ok.inj hw).symm⟩

/-- A query that gets its weight again from the cache that it filled gets the same, and
    fills nothing more. -/
theorem weight_again {query : Query} :
    ∀ {cache made : WeightCache} {w : QueryWeight},
      query.weight searcher enabled mode cache = (made, .ok w) →
      query.weight searcher enabled mode made = (made, .ok w) := by
  induction query with
  | ranking q =>
      intro cache made w h
      obtain ⟨rfl, ⟨rfl, rfl, rfl⟩ | ⟨rfl, v, hv, rfl⟩⟩ := weight_of_ranking h
      · rfl
      · obtain ⟨hholds, -, -, hranker, hfeatures⟩ := RankingQuery.weight_eq_ok hv
        have hagain := RankingQuery.weight_of_holds hholds
        rw [← hranker, ← hfeatures] at hagain
        simp only [Query.weight, hagain, if_true]
  | boost inner factor ih =>
      intro cache made w h
      obtain ⟨v, hv, rfl⟩ := weight_of_boost h
      simp only [Query.weight, ih hv]
  | plain q =>
      intro cache made w h
      obtain ⟨v, hv, rfl, rfl⟩ := weight_of_plain h
      simp only [Query.weight, hv]

end Query

/-! ## The weights of a slot -/

/-- What a slot has once it has its weight. -/
theorem Slot.weighted_yields {s : Slot} {searcher : Searcher} {settings : Settings}
    {mode : ScoreMode} {w : WeightedSlot} (h : (s.weighted searcher settings mode).Yields w) :
    s.query.weight searcher settings.enabled mode s.weights = (w.slot.weights, .ok w.weight) ∧
      w.slot = { s with weights := w.slot.weights } := by
  unfold Slot.weighted at h
  cases hweight : s.query.weight searcher settings.enabled mode s.weights with
  | mk weights outcome =>
      simp only [hweight] at h
      obtain ⟨_, -, h⟩ := yields_bind h
      obtain ⟨weight, hok, h⟩ := yields_bind h
      rw [yields_ofExcept hok, ← yields_pure h]
      exact ⟨rfl, rfl⟩

end FeatureRank
