import FeatureRank.Proofs.Search.Slot

/-! # How computations end

    Two tracked computations match when they count alike and end alike, with the
    same failure or with related values (`Tracked.Matches`).  A computation ends
    with a result when it does so whatever was counted before (`Tracked.Ends`);
    what a search computes always does. -/

namespace FeatureRank

/-- Results with the same failure, or with related values. -/
inductive EndAlike {ε α β : Type} (R : α → β → Prop) : Except ε α → Except ε β → Prop where
  | ok {a : α} {b : β} (h : R a b) : EndAlike R (.ok a) (.ok b)
  | error (failure : ε) : EndAlike R (.error failure) (.error failure)

theorem EndAlike.symm {ε α β : Type} {R : α → β → Prop} {x : Except ε α} {y : Except ε β}
    (h : EndAlike R x y) : EndAlike (fun b a => R a b) y x := by
  cases h with
  | ok h => exact .ok h
  | error failure => exact .error failure

theorem EndAlike.trans {ε α β γ : Type} {R : α → β → Prop} {S : β → γ → Prop} {T : α → γ → Prop}
    {x : Except ε α} {y : Except ε β} {z : Except ε γ} (hxy : EndAlike R x y)
    (hyz : EndAlike S y z) (h : ∀ a b c, R a b → S b c → T a c) : EndAlike T x z := by
  cases hxy with
  | error failure =>
      cases hyz with
      | error _ => exact .error failure
  | ok hab =>
      cases hyz with
      | ok hbc => exact .ok (h _ _ _ hab hbc)

theorem EndAlike.mono {ε α β : Type} {R S : α → β → Prop} {x : Except ε α} {y : Except ε β}
    (h : EndAlike R x y) (hweaker : ∀ a b, R a b → S a b) : EndAlike S x y := by
  cases h with
  | ok hab => exact .ok (hweaker _ _ hab)
  | error failure => exact .error failure

theorem EndAlike.eq {ε α : Type} {x y : Except ε α} (h : EndAlike Eq x y) : x = y := by
  cases h with
  | ok h => rw [h]
  | error failure => rfl

namespace Tracked

variable {α β γ δ : Type}

/-- A sequence ends with the failure of its first step. -/
theorem run_bind_of_error {m : Tracked α} {f : α → Tracked β} {failure : Failure}
    {before between : Counters} (h : (ExceptT.run m).run before = (.error failure, between)) :
    (ExceptT.run (m >>= f)).run before = (.error failure, between) := by
  show (ExceptT.bindCont f ((ExceptT.run m).run before).1).run ((ExceptT.run m).run before).2 = _
  rw [h]
  rfl

/-- Sequences agree when they go on alike from every value that the first step yields. -/
theorem bind_congr_yields {m : Tracked α} {f g : α → Tracked β} (h : ∀ a, m.Yields a → f a = g a) :
    m >>= f = m >>= g := by
  funext before
  show (ExceptT.run (m >>= f)).run before = (ExceptT.run (m >>= g)).run before
  cases hm : (ExceptT.run m).run before with
  | mk outcome between =>
      cases outcome with
      | error failure => rw [run_bind_of_error hm, run_bind_of_error hm]
      | ok a => rw [run_bind_of_run hm, run_bind_of_run hm, h a ⟨before, between, hm⟩]

/-- Lists of computations that agree item by item. -/
theorem mapM_congr {ι κ : Type} {f : ι → Tracked α} {g : κ → Tracked α} {items : List ι}
    {others : List κ} (h : List.Forall₂ (fun i k => f i = g k) items others) :
    items.mapM f = others.mapM g := by
  induction h with
  | nil => rfl
  | cons hfirst _ ih => rw [List.mapM_cons, List.mapM_cons, hfirst, ih]

theorem mapM_option_congr {ι : Type} {f g : ι → Tracked α} {item : Option ι}
    (h : ∀ a ∈ item, f a = g a) : item.mapM f = item.mapM g := by
  cases item with
  | none => rfl
  | some a =>
      show some <$> f a = some <$> g a
      rw [h a rfl]

/-! ## Matching computations -/

/-- Computations that count alike and end alike. -/
def Matches (R : α → β → Prop) (m : Tracked α) (n : Tracked β) : Prop :=
  ∀ before, ((ExceptT.run m).run before).2 = ((ExceptT.run n).run before).2 ∧
    EndAlike R ((ExceptT.run m).run before).1 ((ExceptT.run n).run before).1

namespace Matches

/-- A computation matches itself by what holds of the values it yields. -/
theorem self {R : α → α → Prop} {m : Tracked α} (h : ∀ a, m.Yields a → R a a) :
    Matches R m m := by
  intro before
  refine ⟨rfl, ?_⟩
  cases hrun : (ExceptT.run m).run before with
  | mk outcome after =>
      cases outcome with
      | ok a => exact .ok (h a ⟨before, after, hrun⟩)
      | error failure => exact .error failure

theorem of_eq {m n : Tracked α} (h : m = n) : Matches Eq m n := by
  rw [h]
  exact self fun _ _ => rfl

theorem mono {R S : α → β → Prop} {m : Tracked α} {n : Tracked β} (h : Matches R m n)
    (hweaker : ∀ a b, R a b → S a b) : Matches S m n :=
  fun before => ⟨(h before).1, (h before).2.mono hweaker⟩

theorem pure {R : α → β → Prop} {a : α} {b : β} (h : R a b) :
    Matches R (pure a : Tracked α) (pure b : Tracked β) :=
  fun _ => ⟨rfl, .ok h⟩

theorem throw {R : α → β → Prop} (failure : Failure) :
    Matches R (throw failure : Tracked α) (throw failure : Tracked β) :=
  fun _ => ⟨rfl, .error failure⟩

/-- Sequences match when their steps do. -/
theorem bind {R : α → β → Prop} {S : γ → δ → Prop} {m : Tracked α} {n : Tracked β}
    {f : α → Tracked γ} {g : β → Tracked δ} (h : Matches R m n)
    (hnext : ∀ a b, R a b → m.Yields a → n.Yields b → Matches S (f a) (g b)) :
    Matches S (m >>= f) (n >>= g) := by
  intro before
  obtain ⟨hcount, hends⟩ := h before
  cases hm : (ExceptT.run m).run before with
  | mk x between =>
      cases hn : (ExceptT.run n).run before with
      | mk y between' =>
          rw [hm, hn] at hcount hends
          obtain rfl : between = between' := hcount
          cases hends with
          | error failure =>
              rw [run_bind_of_error hm, run_bind_of_error hn]
              exact ⟨rfl, .error failure⟩
          | @ok a b hrelated =>
              rw [run_bind_of_run hm, run_bind_of_run hn]
              exact hnext a b hrelated ⟨before, between, hm⟩ ⟨before, between, hn⟩ between

/-- Lists of computations match when they do item by item. -/
theorem mapM {ι κ : Type} {R : α → β → Prop} {f : ι → Tracked α} {g : κ → Tracked β}
    {items : List ι} {others : List κ}
    (h : List.Forall₂ (fun i k => Matches R (f i) (g k)) items others) :
    Matches (List.Forall₂ R) (items.mapM f) (others.mapM g) := by
  induction h with
  | nil => exact .pure .nil
  | cons hfirst hrest ih =>
      rw [List.mapM_cons, List.mapM_cons]
      refine hfirst.bind fun a b hab _ _ => ih.bind fun as bs hrests _ _ => ?_
      exact .pure (.cons hab hrests)

/-- Computations on what may be there match when they do where it is. -/
theorem mapM_option {ι κ : Type} {Q : ι → κ → Prop} {R : α → β → Prop} {f : ι → Tracked α}
    {g : κ → Tracked β} {item : Option ι} {other : Option κ} (hitem : Option.Rel Q item other)
    (h : ∀ i k, Q i k → Matches R (f i) (g k)) :
    Matches (Option.Rel R) (item.mapM f) (other.mapM g) := by
  cases hitem with
  | none => exact .pure .none
  | @some i k hik =>
      show Matches _ (Option.some <$> f i) (Option.some <$> g k)
      rw [← bind_pure_comp, ← bind_pure_comp]
      exact (h i k hik).bind fun _ _ hab _ _ => .pure (.some hab)

end Matches

/-! ## Results that do not depend on what was counted -/

/-- A computation that ends with a result whatever was counted before. -/
def Ends (m : Tracked α) (result : Except Failure α) : Prop :=
  ∀ before, ((ExceptT.run m).run before).1 = result

/-- A computation whose result does not depend on what was counted. -/
def Settled (m : Tracked α) : Prop := ∃ result, m.Ends result

theorem Ends.pure (a : α) : (pure a : Tracked α).Ends (.ok a) := fun _ => rfl

theorem Ends.throw (failure : Failure) : (throw failure : Tracked α).Ends (.error failure) :=
  fun _ => rfl

theorem Ends.yields {m : Tracked α} {a : α} (h : m.Ends (.ok a)) : m.Yields a :=
  ⟨{}, ((ExceptT.run m).run {}).2, Prod.ext (h {}) rfl⟩

theorem Ends.eq_of_yields {m : Tracked α} {result : Except Failure α} {a : α} (h : m.Ends result)
    (hyields : m.Yields a) : result = .ok a := by
  obtain ⟨before, after, hrun⟩ := hyields
  rw [← h before, hrun]

/-- A sequence whose first step ends with a value ends as it goes on from there. -/
theorem Ends.bind {m : Tracked α} {f : α → Tracked β} {a : α} {result : Except Failure β}
    (h : m.Ends (.ok a)) (hnext : (f a).Ends result) : (m >>= f).Ends result := by
  intro before
  rw [run_bind_of_run (Prod.ext (h before) rfl), hnext]

theorem Ends.bind_error {m : Tracked α} {failure : Failure} (h : m.Ends (.error failure))
    (f : α → Tracked β) : (m >>= f).Ends (.error failure) := by
  intro before
  rw [run_bind_of_error (Prod.ext (h before) rfl)]

theorem Ends.ofExcept (x : Except Refusal α) : (ofExcept x).Ends (x.mapError .refused) := by
  cases x with
  | error refusal => exact .throw (.refused refusal)
  | ok a => exact .pure a

theorem Ends.ofChecked (x : Checked α) : (ofChecked x).Ends (x.mapError .fault) := by
  cases x with
  | error fault => exact .throw (.fault fault)
  | ok a => exact .pure a

theorem Ends.count (counter : Counter) : (count counter).Ends (.ok ()) := fun _ => rfl

/-- A list of computations that end with values ends with all of them. -/
theorem Ends.mapM {ι : Type} {f : ι → Tracked α} {items : List ι} {results : List α}
    (h : List.Forall₂ (fun item result => (f item).Ends (.ok result)) items results) :
    (items.mapM f).Ends (.ok results) := by
  induction h with
  | nil => exact .pure []
  | cons hfirst hrest ih =>
      rw [List.mapM_cons]
      exact hfirst.bind (ih.bind (.pure _))

/-- Lists of computations end with values of which something holds, item by item. -/
theorem Ends.mapM_exists {ι κ : Type} {f : ι → Tracked α} {P : α → κ → Prop} {items : List ι}
    {others : List κ}
    (h : List.Forall₂ (fun item other => ∃ result, (f item).Ends (.ok result) ∧ P result other)
      items others) :
    ∃ results, (items.mapM f).Ends (.ok results) ∧ List.Forall₂ P results others := by
  induction h with
  | nil => exact ⟨[], .pure [], .nil⟩
  | cons hfirst _ ih =>
      obtain ⟨result, hresult, hP⟩ := hfirst
      obtain ⟨results, hresults, hPs⟩ := ih
      rw [List.mapM_cons]
      exact ⟨_, hresult.bind (hresults.bind (.pure _)), .cons hP hPs⟩

theorem Ends.mapM_mem {ι : Type} {f : ι → Tracked α} {items : List ι}
    (h : ∀ item ∈ items, ∃ a, (f item).Ends (.ok a)) :
    ∃ results, (items.mapM f).Ends (.ok results) := by
  obtain ⟨results, hresults⟩ := exists_forall₂ h
  exact ⟨results, .mapM hresults⟩

theorem Settled.bind {m : Tracked α} {f : α → Tracked β} (h : m.Settled)
    (hnext : ∀ a, m.Yields a → (f a).Settled) : (m >>= f).Settled := by
  obtain ⟨result, hresult⟩ := h
  cases result with
  | error failure => exact ⟨_, hresult.bind_error f⟩
  | ok a =>
      obtain ⟨next, hends⟩ := hnext a hresult.yields
      exact ⟨next, hresult.bind hends⟩

theorem Settled.mapM {ι : Type} {f : ι → Tracked α} (items : List ι)
    (h : ∀ item, (f item).Settled) : (items.mapM f).Settled := by
  induction items with
  | nil => exact ⟨_, .pure []⟩
  | cons first rest ih =>
      rw [List.mapM_cons]
      exact (h first).bind fun _ _ => ih.bind fun _ _ => ⟨_, .pure _⟩

theorem Settled.mapM_option {ι : Type} {f : ι → Tracked α} (item : Option ι)
    (h : ∀ item, (f item).Settled) : (item.mapM f).Settled := by
  cases item with
  | none => exact ⟨_, .pure none⟩
  | some a =>
      obtain ⟨result, hresult⟩ := h a
      refine ⟨result.map some, ?_⟩
      intro before
      show ((ExceptT.run (some <$> f a)).run before).1 = _
      rw [← bind_pure_comp]
      cases result with
      | error failure => exact hresult.bind_error _ before
      | ok b => exact hresult.bind (.pure (some b)) before

end Tracked

end FeatureRank
