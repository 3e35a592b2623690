import Mathlib.Algebra.BigOperators.Group.List.Basic
import Mathlib.Algebra.GroupWithZero.Nat
import FeatureRank.Proofs.Search.Ends

/-! # When computations succeed and what they count

    A tracked computation succeeds just under a condition when the condition alone
    decides how it ends, whatever was counted before; success counts some ranking
    queries and no error, and a failure counts one error just when it is that
    parameters are missing (`Tracked.SucceedsIff`).  Conditions of steps that follow
    one another conjoin and their counts add up (`SucceedsIff.bind`).

    What only has to be known of computations that cannot fail is that they count
    nothing (`Tracked.Silent`). -/

namespace FeatureRank

/-! ## Results under a condition -/

/-- A result that is there just under a condition, and else an error of some kind. -/
def OkIff {ε α : Type} (kind : ε → Prop) (x : Except ε α) (p : Prop) : Prop :=
  (p ∧ ∃ a, x = .ok a) ∨ (¬p ∧ ∃ e, x = .error e ∧ kind e)

namespace OkIff

variable {ε α β ι : Type} {kind : ε → Prop} {x : Except ε α} {p q : Prop}

theorem of_iff (h : OkIff kind x p) (hiff : p ↔ q) : OkIff kind x q := by
  rwa [propext hiff] at h

theorem ok (a : α) : OkIff kind (.ok a : Except ε α) True := .inl ⟨trivial, a, rfl⟩

theorem error {e : ε} (h : kind e) (hp : ¬p) : OkIff kind (.error e : Except ε α) p :=
  .inr ⟨hp, e, rfl, h⟩

theorem bind {f : α → Except ε β} (h : OkIff kind x p)
    (hnext : ∀ a, x = .ok a → OkIff kind (f a) q) : OkIff kind (x >>= f) (p ∧ q) := by
  rcases h with ⟨hp, a, rfl⟩ | ⟨hp, e, rfl, he⟩
  · rcases hnext a rfl with ⟨hq, b, hb⟩ | ⟨hq, e, hb, he⟩
    · exact .inl ⟨⟨hp, hq⟩, b, hb⟩
    · exact .inr ⟨fun h => hq h.2, e, hb, he⟩
  · exact .inr ⟨fun h => hp h.1, e, rfl, he⟩

/-- A first step that decides alone. -/
theorem bind_ok {f : α → Except ε β} (h : OkIff kind x p) (hnext : ∀ a, ∃ b, f a = .ok b) :
    OkIff kind (x >>= f) p := by
  refine (h.bind (q := True) fun a _ => ?_).of_iff (iff_of_eq (and_true p))
  obtain ⟨b, hb⟩ := hnext a
  rw [hb]
  exact ok b

/-- A list of results is there when each of them is. -/
theorem mapM {f : ι → Except ε α} {p : ι → Prop} {items : List ι}
    (h : ∀ i ∈ items, OkIff kind (f i) (p i)) :
    OkIff kind (items.mapM f) (∀ i ∈ items, p i) := by
  induction items with
  | nil => exact (ok []).of_iff (iff_of_true trivial (List.forall_mem_nil p))
  | cons first rest ih =>
      obtain ⟨hfirst, hrest⟩ := List.forall_mem_cons.mp h
      rw [List.mapM_cons]
      refine (hfirst.bind fun _ _ => ?_).of_iff List.forall_mem_cons.symm
      exact (ih hrest).bind_ok fun _ => ⟨_, rfl⟩

end OkIff

/-! ## Counting -/

/-- How many errors a failed request counts. -/
def Failure.errors : Failure → Nat
  | .refused (.missingParameters _ _) => 1
  | _ => 0

/-- Counters with so many more ranking queries. -/
def Counters.addTotal (c : Counters) (n : Nat) : Counters := { c with total := c.total + n }

@[simp] theorem Counters.addTotal_addTotal (c : Counters) (m n : Nat) :
    (c.addTotal m).addTotal n = c.addTotal (m + n) := by
  simp [addTotal, Nat.add_assoc]

namespace Tracked

variable {α β ι : Type} {m : Tracked α} {p q : Prop} {total more : Nat}

/-- A computation that succeeds just under a condition, whatever was counted before.
    Its success counts so many ranking queries, and its failure what the failure
    says. -/
def SucceedsIff (m : Tracked α) (p : Prop) (total : Nat) : Prop :=
  ∀ before,
    (p ∧ ∃ a, (ExceptT.run m).run before = (.ok a, before.addTotal total)) ∨
    (¬p ∧ ∃ failure after, (ExceptT.run m).run before = (.error failure, after) ∧
      after.errors = before.errors + failure.errors)

/-- A computation that counts nothing when it succeeds. -/
def Silent (m : Tracked α) : Prop :=
  ∀ before after a, (ExceptT.run m).run before = (.ok a, after) → after = before

/-! ## Silent computations -/

namespace Silent

theorem pure (a : α) : (pure a : Tracked α).Silent :=
  fun _ _ _ h => (Prod.mk.inj h).2.symm

theorem throw (failure : Failure) : (throw failure : Tracked α).Silent :=
  fun _ _ _ h => nomatch (Prod.mk.inj h).1

theorem bind {f : α → Tracked β} (h : m.Silent) (hnext : ∀ a, (f a).Silent) :
    (m >>= f).Silent := by
  intro before after b hrun
  obtain ⟨a, between, hm, hf⟩ := run_bind hrun
  rw [hnext a between after b hf, h before between a hm]

theorem ofChecked (x : Checked α) : (ofChecked x).Silent := by
  cases x with
  | error fault => exact throw (.fault fault)
  | ok a => exact pure a

theorem mapM {f : ι → Tracked α} (h : ∀ i, (f i).Silent) (items : List ι) :
    (items.mapM f).Silent := by
  induction items with
  | nil => exact pure []
  | cons first rest ih =>
      rw [List.mapM_cons]
      exact (h first).bind fun _ => ih.bind fun _ => pure _

end Silent

/-! ## Conditions of success -/

namespace SucceedsIff

theorem of_iff (h : m.SucceedsIff p total) (hiff : p ↔ q) : m.SucceedsIff q total := by
  rwa [propext hiff] at h

theorem pure (a : α) : (pure a : Tracked α).SucceedsIff True 0 :=
  fun _ => .inl ⟨trivial, a, rfl⟩

/-- A computation that cannot fail and counts nothing. -/
theorem of_ends {a : α} (h : m.Ends (.ok a)) (hsilent : m.Silent) : m.SucceedsIff True 0 := by
  intro before
  cases hrun : (ExceptT.run m).run before with
  | mk outcome after =>
      have houtcome : outcome = .ok a := by rw [← h before, hrun]
      rw [houtcome] at hrun ⊢
      exact .inl ⟨trivial, a, by rw [hsilent before after a hrun]; rfl⟩

/-- A result whose refusals have nothing to do with parameters. -/
theorem ofExcept {x : Except Refusal α}
    (h : OkIff (fun refusal => (Failure.refused refusal).errors = 0) x p) :
    (ofExcept x).SucceedsIff p 0 := by
  intro before
  rcases h with ⟨hp, a, rfl⟩ | ⟨hp, refusal, rfl, hcount⟩
  · exact .inl ⟨hp, a, rfl⟩
  · exact .inr ⟨hp, .refused refusal, before, rfl, by rw [hcount]; rfl⟩

/-- **Steps that follow one another** succeed under both conditions, and count what
    both count. -/
theorem bind {f : α → Tracked β} (h : m.SucceedsIff p total)
    (hnext : ∀ a, m.Yields a → (f a).SucceedsIff q more) :
    (m >>= f).SucceedsIff (p ∧ q) (total + more) := by
  intro before
  rcases h before with ⟨hp, a, hrun⟩ | ⟨hp, failure, after, hrun, hcount⟩
  · rw [run_bind_of_run hrun]
    rcases hnext a ⟨before, _, hrun⟩ (before.addTotal total) with
      ⟨hq, b, hb⟩ | ⟨hq, failure, after, hfailure, hcount⟩
    · exact .inl ⟨⟨hp, hq⟩, b, by rw [hb, Counters.addTotal_addTotal]⟩
    · exact .inr ⟨fun hpq => hq hpq.2, failure, after, hfailure, hcount⟩
  · exact .inr ⟨fun hpq => hp hpq.1, failure, after, run_bind_of_error hrun, hcount⟩

/-- A first step that decides alone. -/
theorem bind_true {f : α → Tracked β} (h : m.SucceedsIff p total)
    (hnext : ∀ a, m.Yields a → (f a).SucceedsIff True 0) : (m >>= f).SucceedsIff p total :=
  (h.bind hnext).of_iff (iff_of_eq (and_true p))

/-- A list of computations succeeds when each does. -/
theorem mapM {f : ι → Tracked α} {p : ι → Prop} {total : ι → Nat} {items : List ι}
    (h : ∀ i ∈ items, (f i).SucceedsIff (p i) (total i)) :
    (items.mapM f).SucceedsIff (∀ i ∈ items, p i) (items.map total).sum := by
  induction items with
  | nil => exact (pure []).of_iff (iff_of_true trivial (List.forall_mem_nil p))
  | cons first rest ih =>
      obtain ⟨hfirst, hrest⟩ := List.forall_mem_cons.mp h
      rw [List.mapM_cons, List.map_cons, List.sum_cons]
      refine (hfirst.bind fun _ _ => ?_).of_iff List.forall_mem_cons.symm
      exact (ih hrest).bind_true fun _ _ => pure _

/-- A computation on what may be there succeeds when it does on what is. -/
theorem mapM_option {f : ι → Tracked α} {p : ι → Prop} {total : ι → Nat} {item : Option ι}
    (h : ∀ i ∈ item, (f i).SucceedsIff (p i) (total i)) :
    (item.mapM f).SucceedsIff (∀ i ∈ item.toList, p i) (item.toList.map total).sum := by
  cases item with
  | none => exact (pure none).of_iff (iff_of_true trivial (List.forall_mem_nil p))
  | some i =>
      have hmap : (some <$> f i).SucceedsIff (p i) (total i) := by
        rw [← bind_pure_comp]
        exact (h i rfl).bind_true fun _ _ => pure _
      exact hmap.of_iff (by simp)

/-- Computations that all depend on one condition. -/
theorem mapM_const {f : ι → Tracked α} {items : List ι} (hitems : items ≠ [])
    (h : ∀ i ∈ items, (f i).SucceedsIff p total) :
    (items.mapM f).SucceedsIff p (items.length * total) := by
  have hall := mapM h
  rw [List.map_const', List.sum_replicate] at hall
  obtain ⟨first, hfirst⟩ := List.exists_mem_of_ne_nil items hitems
  exact hall.of_iff ⟨fun h => h first hfirst, fun h _ _ => h⟩

end SucceedsIff

end Tracked

end FeatureRank
