import Mathlib.Data.List.Forall2

/-! # Outcomes — taking successful computations apart

    A computation that may be refused or break a precondition succeeds only when
    each of its steps does.  These are the rules by which the success of a whole
    is read as the success of the steps. -/

namespace FeatureRank

variable {ε α β σ : Type}

/-- A sequence succeeds just when both steps do. -/
theorem bind_eq_ok {first : Except ε α} {next : α → Except ε β} {result : β} :
    first >>= next = .ok result ↔ ∃ value, first = .ok value ∧ next value = .ok result := by
  cases first with
  | error e => exact ⟨fun h => (nomatch h), fun ⟨_, h, _⟩ => nomatch h⟩
  | ok value =>
      constructor
      · intro h
        exact ⟨value, rfl, h⟩
      · rintro ⟨value', hfirst, hnext⟩
        rw [Except.ok.inj hfirst]
        exact hnext

/-- The results of a list of computations, one for each item. -/
theorem mapM_eq_ok {f : α → Except ε β} {items : List α} {results : List β} :
    items.mapM f = .ok results ↔
      List.Forall₂ (fun item result => f item = .ok result) items results := by
  induction items generalizing results with
  | nil =>
      rw [List.forall₂_nil_left_iff, List.mapM_nil]
      exact ⟨fun h => (Except.ok.inj h).symm, fun h => by rw [h]; rfl⟩
  | cons first rest ih =>
      rw [List.mapM_cons, List.forall₂_cons_left_iff]
      constructor
      · intro h
        obtain ⟨head, hhead, h⟩ := bind_eq_ok.mp h
        obtain ⟨tail, htail, h⟩ := bind_eq_ok.mp h
        exact ⟨head, tail, hhead, ih.mp htail, (Except.ok.inj h).symm⟩
      · rintro ⟨head, tail, hhead, htail, hresults⟩
        rw [hhead, hresults]
        exact bind_eq_ok.mpr ⟨head, rfl, bind_eq_ok.mpr ⟨tail, ih.mpr htail, rfl⟩⟩

/-- Items that are each related to something are related to a list. -/
theorem exists_forall₂ {R : α → β → Prop} {items : List α} (h : ∀ a ∈ items, ∃ b, R a b) :
    ∃ others, List.Forall₂ R items others := by
  induction items with
  | nil => exact ⟨[], .nil⟩
  | cons first rest ih =>
      obtain ⟨hfirst, hrest⟩ := List.forall_mem_cons.mp h
      obtain ⟨b, hb⟩ := hfirst
      obtain ⟨others, hothers⟩ := ih hrest
      exact ⟨b :: others, .cons hb hothers⟩

/-- Computations that all succeed have results. -/
theorem mapM_ok {f : α → Except ε β} {items : List α}
    (h : ∀ item ∈ items, ∃ result, f item = .ok result) : ∃ results, items.mapM f = .ok results := by
  obtain ⟨results, hresults⟩ := exists_forall₂ h
  exact ⟨results, mapM_eq_ok.mpr hresults⟩

/-- A list of computations is refused by the first that is. -/
theorem mapM_error {f : α → Except ε β} {items : List α} {e : ε} (h : items.mapM f = .error e) :
    ∃ (i : Nat) (item : α), items[i]? = some item ∧ f item = .error e ∧
      ∀ j < i, ∀ other, items[j]? = some other → ∃ result, f other = .ok result := by
  induction items with
  | nil => exact nomatch h
  | cons first rest ih =>
      rw [List.mapM_cons] at h
      cases hfirst : f first with
      | error refusal =>
          rw [hfirst] at h
          obtain rfl := Except.error.inj h
          exact ⟨0, first, rfl, hfirst, fun j hj => nomatch hj⟩
      | ok value =>
          cases hrest : rest.mapM f with
          | ok values =>
              rw [hfirst, hrest] at h
              exact nomatch h
          | error refusal =>
              rw [hfirst, hrest] at h
              obtain rfl := Except.error.inj h
              obtain ⟨i, item, hitem, herror, hbefore⟩ := ih hrest
              refine ⟨i + 1, item, hitem, herror, fun j hj other hother => ?_⟩
              cases j with
              | zero => exact ⟨value, (Option.some.inj hother) ▸ hfirst⟩
              | succ j => exact hbefore j (Nat.lt_of_succ_lt_succ hj) other hother

/-- Steps that always succeed do so one after the other. -/
theorem foldlM_ok {step : σ → α → Except ε σ} (h : ∀ state item, ∃ next, step state item = .ok next)
    (items : List α) : ∀ state, ∃ last, items.foldlM step state = .ok last := by
  induction items with
  | nil => exact fun state => ⟨state, rfl⟩
  | cons first rest ih =>
      intro state
      obtain ⟨next, hnext⟩ := h state first
      obtain ⟨last, hlast⟩ := ih next
      exact ⟨last, bind_eq_ok.mpr ⟨next, hnext, hlast⟩⟩

/-- What stands at a place of two related lists is related. -/
theorem forall₂_getElem? {R : α → β → Prop} {as : List α} {bs : List β}
    (h : List.Forall₂ R as bs) {i : Nat} {a : α} (ha : as[i]? = some a) :
    ∃ b, bs[i]? = some b ∧ R a b := by
  induction h generalizing i with
  | nil => exact nomatch ha
  | @cons a' b' as' bs' hr _ ih =>
      cases i with
      | zero =>
          refine ⟨b', rfl, ?_⟩
          rw [← Option.some.inj ha]
          exact hr
      | succ i => exact ih ha

/-- An item of one of two related lists has a counterpart in the other. -/
theorem forall₂_mem {R : α → β → Prop} {as : List α} {bs : List β} (h : List.Forall₂ R as bs)
    {a : α} (ha : a ∈ as) : ∃ b ∈ bs, R a b := by
  obtain ⟨i, hi⟩ := List.mem_iff_getElem?.mp ha
  obtain ⟨b, hb, hr⟩ := forall₂_getElem? h hi
  exact ⟨b, List.mem_of_getElem? hb, hr⟩

/-- Lists have equal images when their items have, one by one. -/
theorem map_eq_of_forall₂ {γ : Type} {f : α → γ} {g : β → γ} {as : List α} {bs : List β}
    (h : List.Forall₂ (fun a b => f a = g b) as bs) : as.map f = bs.map g := by
  induction h with
  | nil => rfl
  | cons hfirst _ ih => rw [List.map_cons, List.map_cons, hfirst, ih]

/-- Lists that end in an item are related just when their items and the rest of them are. -/
theorem forall₂_concat {R : α → β → Prop} {as : List α} {bs : List β} {a : α} {b : β} :
    List.Forall₂ R (as ++ [a]) (bs ++ [b]) ↔ List.Forall₂ R as bs ∧ R a b := by
  rw [← List.forall₂_reverse_iff, List.reverse_concat, List.reverse_concat, List.forall₂_cons,
    List.forall₂_reverse_iff, and_comm]

/-- Lists that are related one after the other. -/
theorem forall₂_comp {γ : Type} {R : α → β → Prop} {S : β → γ → Prop} {T : α → γ → Prop}
    {as : List α} {bs : List β} {cs : List γ} (hr : List.Forall₂ R as bs)
    (hs : List.Forall₂ S bs cs) (h : ∀ a b c, R a b → S b c → T a c) : List.Forall₂ T as cs := by
  induction hr generalizing cs with
  | nil =>
      rw [List.forall₂_nil_left_iff.mp hs]
      exact List.Forall₂.nil
  | cons hfirst _ ih =>
      obtain ⟨c, rest, hfirst', hrest, heq⟩ := List.forall₂_cons_left_iff.mp hs
      rw [heq]
      exact List.Forall₂.cons (h _ _ _ hfirst hfirst') (ih hrest)

end FeatureRank
