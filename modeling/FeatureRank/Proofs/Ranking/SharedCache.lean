import Mathlib.Logic.Function.Basic
import FeatureRank.Proofs.Ranking.WeightCache

/-! # Shared caches — the first writer wins

    Several callers may ask one cache for weights at the same time.  A caller touches the
    cache twice: it looks for a weight, and when it has made one it records it, unless
    another was recorded meanwhile.  What it makes it makes outside the cache.  So any
    callers together are a list of moves (`WeightCache.Move`), in any order, and a caller
    whose moves come one after the other asks as if it was alone (`Shared.run_alone`).
    Merging in another cache is a row of moves too, one for each of its weights
    (`Shared.run_merge`), and others may come between these.

    Each caller has its own way of making a weight, so one that gave back its own weight
    after another was recorded would be seen.  What a move can do is said once
    (`Shared.step_perform`).  From it a move only ever extends the cache, and each caller
    agrees with the cache as it was and so with any that extends it (`Agrees.extends`), which
    carries over to runs (`Shared.run_extends`, `Shared.Sound.run`).  The results are put
    together in `first_writer_wins`. -/

namespace FeatureRank

namespace WeightCache

/-! ## Callers and their moves -/

/-- A request for the weight of a query, with what makes it when there is none. -/
structure Request where
  key : FeatureQuery
  create : FeatureQuery → Except Refusal Weight

/-- What making the weight comes to, when that is nothing for other callers: a refusal, or a
    weight that may not be used again. -/
def Request.Unshared (q : Request) (result : Except Refusal Weight) : Prop :=
  q.create q.key = result ∧ ∀ w, result = .ok w → w.cacheable = false

/-- How far a caller has come. -/
inductive Progress where
  | waiting
  /-- there was no weight for its query -/
  | missed
  /-- it has made a weight, which is still to be recorded -/
  | made (weight : Weight)
  | returned (result : Except Refusal Weight)

/-- How many of its moves a caller has behind it. -/
def Progress.behind : Progress → Nat
  | .waiting => 0
  | .missed => 1
  | .made _ => 2
  | .returned _ => 3

theorem Progress.returned_of_behind {p : Progress} (h : 2 < p.behind) :
    ∃ result, p = .returned result := by
  cases p with
  | waiting => exact absurd h (Nat.not_lt_of_le (Nat.zero_le 2))
  | missed => exact absurd h (Nat.not_lt_of_le (Nat.le_succ 1))
  | made w => exact absurd h (Nat.lt_irrefl 2)
  | returned result => exact ⟨result, rfl⟩

/-- A cache with those who share it: how far each has come, and how often it made a weight. -/
structure Shared (ι : Type) where
  cache : WeightCache
  progress : ι → Progress
  makings : ι → Nat

/-- What happens next: a caller looks for its weight, makes it or records it, or a weight of
    another cache is merged in. -/
inductive Move (ι : Type) where
  | look (i : ι)
  | make (i : ι)
  | record (i : ι)
  | adopt (key : FeatureQuery) (weight : Weight)

namespace Shared

/-- A cache that nobody has asked yet. -/
def start {ι : Type} (c : WeightCache) : Shared ι := ⟨c, fun _ => .waiting, fun _ => 0⟩

variable {ι : Type} [DecidableEq ι]

/-- One caller comes further, and has made so many weights. -/
def reach (s : Shared ι) (i : ι) (p : Progress) (makings : Nat) : Shared ι :=
  { s with
    progress := Function.update s.progress i p
    makings := Function.update s.makings i makings }

@[simp] theorem progress_reach (s : Shared ι) (i : ι) (p : Progress) (n : Nat) :
    (s.reach i p n).progress i = p := Function.update_self _ _ _

@[simp] theorem cache_reach (s : Shared ι) (i : ι) (p : Progress) (n : Nat) :
    (s.reach i p n).cache = s.cache := rfl

@[simp] theorem makings_reach (s : Shared ι) (i : ι) (p : Progress) (n : Nat) :
    (s.reach i p n).makings i = n := Function.update_self _ _ _

/-- The other callers are where they were. -/
theorem reach_of_ne (s : Shared ι) {i j : ι} (h : j ≠ i) (p : Progress) (n : Nat) :
    (s.reach i p n).progress j = s.progress j ∧ (s.reach i p n).makings j = s.makings j :=
  ⟨Function.update_of_ne h _ _, Function.update_of_ne h _ _⟩

/-- One move.  A caller that has not come to it, or is past it, does nothing. -/
def perform (requests : ι → Request) (s : Shared ι) : Move ι → Shared ι
  | .look i =>
    match s.progress i with
    | .waiting =>
      match s.cache.get? (requests i).key with
      | some weight => s.reach i (.returned (.ok weight)) (s.makings i)
      | none => s.reach i .missed (s.makings i)
    | _ => s
  | .make i =>
    match s.progress i with
    | .missed =>
      match (requests i).create (requests i).key with
      | .error refusal => s.reach i (.returned (.error refusal)) (s.makings i + 1)
      | .ok weight =>
        if weight.cacheable then s.reach i (.made weight) (s.makings i + 1)
        else s.reach i (.returned (.ok weight)) (s.makings i + 1)
    | _ => s
  | .record i =>
    match s.progress i with
    | .made weight =>
      let cache := s.cache.insertOnce (requests i).key weight
      let held := (cache.get? (requests i).key).getD weight
      { s.reach i (.returned (.ok held)) (s.makings i) with cache }
    | _ => s
  | .adopt key weight => { s with cache := s.cache.insertOnce key weight }

def run (requests : ι → Request) (s : Shared ι) (moves : List (Move ι)) : Shared ι :=
  moves.foldl (perform requests) s

variable {requests : ι → Request} {s t : Shared ι}

theorem run_append (requests : ι → Request) (s : Shared ι) (moves more : List (Move ι)) :
    run requests s (moves ++ more) = run requests (run requests s moves) more :=
  List.foldl_append

/-- All that one move can do. -/
inductive Step (requests : ι → Request) (s : Shared ι) : Shared ι → Prop where
  | idle : Step requests s s
  | hit {i : ι} {w : Weight} (hat : s.progress i = .waiting)
      (hget : s.cache.get? (requests i).key = some w) :
      Step requests s (s.reach i (.returned (.ok w)) (s.makings i))
  | missed {i : ι} (hat : s.progress i = .waiting)
      (hget : s.cache.get? (requests i).key = none) :
      Step requests s (s.reach i .missed (s.makings i))
  | unshared {i : ι} {result : Except Refusal Weight} (hat : s.progress i = .missed)
      (hresult : (requests i).Unshared result) :
      Step requests s (s.reach i (.returned result) (s.makings i + 1))
  | made {i : ι} {w : Weight} (hat : s.progress i = .missed)
      (hmade : (requests i).create (requests i).key = .ok w) (hcacheable : w.cacheable = true) :
      Step requests s (s.reach i (.made w) (s.makings i + 1))
  | recorded {i : ι} {w held : Weight} (hat : s.progress i = .made w)
      (hheld : (s.cache.insertOnce (requests i).key w).get? (requests i).key = some held) :
      Step requests s { s.reach i (.returned (.ok held)) (s.makings i) with
        cache := s.cache.insertOnce (requests i).key w }
  | adopted (key : FeatureQuery) (w : Weight) :
      Step requests s { s with cache := s.cache.insertOnce key w }

theorem step_perform (requests : ι → Request) (s : Shared ι) (move : Move ι) :
    Step requests s (perform requests s move) := by
  cases move with
  | look i =>
      simp only [perform]
      cases hat : s.progress i with
      | waiting =>
          cases hget : s.cache.get? (requests i).key with
          | some w => exact .hit hat hget
          | none => exact .missed hat hget
      | missed => exact .idle
      | made w => exact .idle
      | returned result => exact .idle
  | make i =>
      simp only [perform]
      cases hat : s.progress i with
      | missed =>
          cases hmade : (requests i).create (requests i).key with
          | error refusal => exact .unshared hat ⟨hmade, fun _ h => nomatch h⟩
          | ok w =>
              cases hcacheable : w.cacheable with
              | true =>
                  simp only [hcacheable, if_true]
                  exact .made hat hmade hcacheable
              | false =>
                  simp only [hcacheable, Bool.false_eq_true, if_false]
                  refine .unshared hat ⟨hmade, ?_⟩
                  intro v hv
                  rw [← Except.ok.inj hv]
                  exact hcacheable
      | waiting => exact .idle
      | made w => exact .idle
      | returned result => exact .idle
  | record i =>
      simp only [perform]
      cases hat : s.progress i with
      | made w =>
          obtain ⟨held, hheld⟩ :=
            Option.isSome_iff_exists.mp (isSome_insertOnce s.cache (requests i).key w)
          simp only [hheld, Option.getD_some]
          exact .recorded hat hheld
      | waiting => exact .idle
      | missed => exact .idle
      | returned result => exact .idle
  | adopt key w => exact .adopted key w

/-- What a move keeps a run keeps. -/
theorem run_induction {motive : Shared ι → Prop}
    (hstep : ∀ {s t}, Step requests s t → motive s → motive t) (hs : motive s)
    (moves : List (Move ι)) : motive (run requests s moves) := by
  induction moves generalizing s with
  | nil => exact hs
  | cons move rest ih => exact ih (hstep (step_perform requests s move) hs)

/-! ## The cache -/

theorem Step.extends (h : Step requests s t) : t.cache.Extends s.cache := by
  cases h with
  | idle => exact .refl s.cache
  | hit => exact .refl s.cache
  | missed => exact .refl s.cache
  | unshared => exact .refl s.cache
  | made => exact .refl s.cache
  | recorded => exact insertOnce_extends _ _ _
  | adopted key w => exact insertOnce_extends _ _ _

/-- **A weight that is there stays**, whatever comes. -/
theorem run_extends (requests : ι → Request) (s : Shared ι) (moves : List (Move ι)) :
    (run requests s moves).cache.Extends s.cache :=
  run_induction (motive := fun t => t.cache.Extends s.cache) (fun h hs => h.extends.trans hs)
    (.refl s.cache) moves

end Shared

/-! ## Callers and the cache -/

/-- The states that a caller can be in, with how often it made a weight, and what it knows
    of the cache there. -/
inductive Agrees (q : Request) (c : WeightCache) : Progress → Nat → Prop where
  | waiting : Agrees q c .waiting 0
  | missed : Agrees q c .missed 0
  | made {w : Weight} (hmade : q.create q.key = .ok w) (hcacheable : w.cacheable = true) :
      Agrees q c (.made w) 1
  /-- it was there before the caller made one -/
  | found {w : Weight} (hget : c.get? q.key = some w) : Agrees q c (.returned (.ok w)) 0
  /-- it is there since the caller recorded its own weight, or another did before -/
  | recorded {w own : Weight} (hget : c.get? q.key = some w) (hmade : q.create q.key = .ok own)
      (hcacheable : own.cacheable = true) : Agrees q c (.returned (.ok w)) 1
  | unshared {result : Except Refusal Weight} (h : q.Unshared result) :
      Agrees q c (.returned result) 1

section

variable {q : Request} {c more : WeightCache} {p : Progress} {n : Nat}

/-- What a caller knows stays true. -/
theorem Agrees.extends (h : Agrees q c p n) (hmore : more.Extends c) : Agrees q more p n := by
  cases h with
  | waiting => exact .waiting
  | missed => exact .missed
  | made hmade hcacheable => exact .made hmade hcacheable
  | found hget => exact .found (hmore _ _ hget)
  | recorded hget hmade hcacheable => exact .recorded (hmore _ _ hget) hmade hcacheable
  | unshared h => exact .unshared h

/-- A weight that others may use is returned as it is in the cache. -/
theorem Agrees.get? {w : Weight} (h : Agrees q c (.returned (.ok w)) n)
    (hcacheable : w.cacheable = true) : c.get? q.key = some w := by
  cases h with
  | found hget => exact hget
  | recorded hget => exact hget
  | unshared h =>
      rw [h.2 w rfl] at hcacheable
      exact nomatch hcacheable

theorem Agrees.eq_zero_of_waiting (h : Agrees q c .waiting n) : n = 0 := by
  cases h
  rfl

theorem Agrees.eq_zero_of_missed (h : Agrees q c .missed n) : n = 0 := by
  cases h
  rfl

theorem Agrees.of_made {w : Weight} (h : Agrees q c (.made w) n) :
    n = 1 ∧ q.create q.key = .ok w ∧ w.cacheable = true := by
  cases h with
  | made hmade hcacheable => exact ⟨rfl, hmade, hcacheable⟩

theorem Agrees.makings_le (h : Agrees q c p n) : n ≤ 1 := by
  cases h <;> decide

/-- What is made for other callers is not returned unshared. -/
theorem Request.Unshared.not_made {result : Except Refusal Weight} (h : q.Unshared result)
    {w : Weight} (hmade : q.create q.key = .ok w) : ¬w.cacheable = true := by
  rw [h.2 w (h.1.symm.trans hmade)]
  exact Bool.false_ne_true

/-- A caller that made nothing for others has returned what came of it. -/
theorem Agrees.returned_of_unshared (h : Agrees q c p n) {result : Except Refusal Weight}
    (hresult : q.Unshared result) (hn : n ≠ 0) : p = .returned result := by
  cases h with
  | waiting => exact absurd rfl hn
  | missed => exact absurd rfl hn
  | made hmade hcacheable => exact absurd hcacheable (hresult.not_made hmade)
  | found hget => exact absurd rfl hn
  | recorded hget hmade hcacheable => exact absurd hcacheable (hresult.not_made hmade)
  | unshared h => rw [← h.1, hresult.1]

end

namespace Shared

variable {ι : Type}

/-- Every caller agrees with the cache. -/
def Sound (requests : ι → Request) (s : Shared ι) : Prop :=
  ∀ i, Agrees (requests i) s.cache (s.progress i) (s.makings i)

theorem Sound.start (requests : ι → Request) (c : WeightCache) : Sound requests (start c) :=
  fun _ => .waiting

variable [DecidableEq ι] {requests : ι → Request} {s t : Shared ι}

/-- One caller comes further and the others agree with the cache as before. -/
theorem Sound.reach (h : Sound requests s) {cache : WeightCache} (hcache : cache.Extends s.cache)
    {i : ι} {p : Progress} {n : Nat} (hi : Agrees (requests i) cache p n) :
    Sound requests { s.reach i p n with cache } := by
  intro j
  by_cases hj : j = i
  · subst hj
    show Agrees _ cache ((s.reach j p n).progress j) ((s.reach j p n).makings j)
    rw [progress_reach, makings_reach]
    exact hi
  · obtain ⟨hprogress, hmakings⟩ := s.reach_of_ne hj p n
    show Agrees _ cache ((s.reach i p n).progress j) ((s.reach i p n).makings j)
    rw [hprogress, hmakings]
    exact (h j).extends hcache

/-- **A move keeps callers and cache in agreement.** -/
theorem Sound.step (h : Sound requests s) (hstep : Step requests s t) : Sound requests t := by
  cases hstep with
  | idle => exact h
  | @hit i w hat hget =>
      have hnone : s.makings i = 0 := (hat ▸ h i).eq_zero_of_waiting
      exact h.reach (.refl _) (hnone ▸ .found hget)
  | @missed i hat hget =>
      have hnone : s.makings i = 0 := (hat ▸ h i).eq_zero_of_waiting
      exact h.reach (.refl _) (hnone ▸ .missed)
  | @unshared i result hat hresult =>
      have hnone : s.makings i = 0 := (hat ▸ h i).eq_zero_of_missed
      exact h.reach (.refl _) (hnone ▸ .unshared hresult)
  | @made i w hat hmade hcacheable =>
      have hnone : s.makings i = 0 := (hat ▸ h i).eq_zero_of_missed
      exact h.reach (.refl _) (hnone ▸ .made hmade hcacheable)
  | @recorded i w held hat hheld =>
      obtain ⟨hone, hmade, hcacheable⟩ := (hat ▸ h i).of_made
      exact h.reach (insertOnce_extends _ _ _) (hone ▸ .recorded hheld hmade hcacheable)
  | adopted key w => exact fun i => (h i).extends (insertOnce_extends _ key w)

/-- **Any moves of any callers** keep them and the cache in agreement. -/
theorem Sound.run (h : Sound requests s) (moves : List (Move ι)) :
    Sound requests (run requests s moves) :=
  run_induction (fun hstep hs => hs.step hstep) h moves

/-! ## A single caller -/

/-- What one move can do to one caller: nothing, or what it was there for. -/
theorem Step.caller (h : Step requests s t) (j : ι) :
    (t.progress j = s.progress j ∧ t.makings j = s.makings j) ∨
    (s.progress j = .waiting ∧ t.makings j = s.makings j ∧
      (s.cache.get? (requests j).key = none ∨
        ∃ w, s.cache.get? (requests j).key = some w ∧ t.progress j = .returned (.ok w))) ∨
    s.progress j = .missed ∨ ∃ w, s.progress j = .made w := by
  cases h with
  | idle => exact .inl ⟨rfl, rfl⟩
  | adopted key w => exact .inl ⟨rfl, rfl⟩
  | @hit i w hat hget =>
      by_cases hj : j = i
      · subst hj
        exact .inr (.inl ⟨hat, makings_reach _ _ _ _, .inr ⟨w, hget, progress_reach _ _ _ _⟩⟩)
      · exact .inl (s.reach_of_ne hj _ _)
  | @missed i hat hget =>
      by_cases hj : j = i
      · subst hj
        exact .inr (.inl ⟨hat, makings_reach _ _ _ _, .inl hget⟩)
      · exact .inl (s.reach_of_ne hj _ _)
  | @unshared i result hat =>
      by_cases hj : j = i
      · exact .inr (.inr (.inl (hj ▸ hat)))
      · exact .inl (s.reach_of_ne hj _ _)
  | @made i w hat =>
      by_cases hj : j = i
      · exact .inr (.inr (.inl (hj ▸ hat)))
      · exact .inl (s.reach_of_ne hj _ _)
  | @recorded i w held hat =>
      by_cases hj : j = i
      · exact .inr (.inr (.inr ⟨w, hj ▸ hat⟩))
      · exact .inl (s.reach_of_ne hj _ _)

/-- A caller that has returned does nothing more. -/
theorem run_returned {j : ι} {result : Except Refusal Weight}
    (h : s.progress j = .returned result) (moves : List (Move ι)) :
    (run requests s moves).progress j = .returned result := by
  refine run_induction (motive := fun t => t.progress j = .returned result) ?_ h moves
  intro s t hstep hs
  rcases hstep.caller j with ⟨hsame, -⟩ | ⟨hat, -⟩ | hat | ⟨w, hat⟩
  · exact hsame.trans hs
  · exact nomatch hat.symm.trans hs
  · exact nomatch hat.symm.trans hs
  · exact nomatch hat.symm.trans hs

/-- **A caller that starts when there is a weight makes none**, and returns that weight. -/
theorem run_present {j : ι} {w : Weight} (hat : s.progress j = .waiting) (hnone : s.makings j = 0)
    (hget : s.cache.get? (requests j).key = some w) (moves : List (Move ι)) :
    (run requests s moves).makings j = 0 ∧
      ((run requests s moves).progress j = .waiting ∨
        (run requests s moves).progress j = .returned (.ok w)) := by
  refine (run_induction (motive := fun t => t.cache.get? (requests j).key = some w ∧
    t.makings j = 0 ∧ (t.progress j = .waiting ∨ t.progress j = .returned (.ok w))) ?_
    ⟨hget, hnone, .inl hat⟩ moves).2
  rintro s t hstep ⟨hget, hnone, hat⟩
  refine ⟨hstep.extends _ _ hget, ?_⟩
  rcases hstep.caller j with ⟨hsame, hmakings⟩ | ⟨-, hmakings, hlooked⟩ | hpast | ⟨own, hpast⟩
  · rw [hsame, hmakings]
    exact ⟨hnone, hat⟩
  · obtain ⟨v, hv, hreturned⟩ := hlooked.resolve_left fun hno => nomatch hget.symm.trans hno
    obtain rfl : w = v := Option.some.inj (hget.symm.trans hv)
    exact ⟨hmakings.trans hnone, .inr hreturned⟩
  · rw [hpast] at hat
    exact hat.elim (fun h => nomatch h) fun h => nomatch h
  · rw [hpast] at hat
    exact hat.elim (fun h => nomatch h) fun h => nomatch h

/-- A caller that makes nothing for others leaves the cache as it is. -/
theorem Sound.cache_of_unshared (h : Sound requests s) {i : ι} {result : Except Refusal Weight}
    (hresult : (requests i).Unshared result) {move : Move ι}
    (hmove : move ∈ [.look i, .make i, .record i]) :
    (perform requests s move).cache = s.cache := by
  simp only [List.mem_cons, List.not_mem_nil, or_false] at hmove
  rcases hmove with rfl | rfl | rfl
  · simp only [perform]
    split
    · split <;> rfl
    · rfl
  · simp only [perform]
    split
    · split
      · rfl
      · split <;> rfl
    · rfl
  · simp only [perform]
    split
    next w hat =>
      obtain ⟨-, hmade, hcacheable⟩ := (hat ▸ h i).of_made
      exact absurd hcacheable (hresult.not_made hmade)
    next => rfl

/-! ## Callers return -/

theorem behind_reach_le {i : ι} {p : Progress} (h : (s.progress i).behind ≤ p.behind) (n : Nat)
    (j : ι) : (s.progress j).behind ≤ ((s.reach i p n).progress j).behind := by
  by_cases hj : j = i
  · subst hj
    rw [progress_reach]
    exact h
  · exact Nat.le_of_eq (congrArg Progress.behind (s.reach_of_ne hj p n).1).symm

/-- Moves put no caller back. -/
theorem Step.behind_le (h : Step requests s t) (j : ι) :
    (s.progress j).behind ≤ (t.progress j).behind := by
  cases h with
  | idle => exact Nat.le_refl _
  | adopted key w => exact Nat.le_refl _
  | hit hat => exact behind_reach_le (by simp [hat, Progress.behind]) _ j
  | missed hat => exact behind_reach_le (by simp [hat, Progress.behind]) _ j
  | unshared hat => exact behind_reach_le (by simp [hat, Progress.behind]) _ j
  | made hat => exact behind_reach_le (by simp [hat, Progress.behind]) _ j
  | @recorded i w held hat =>
      exact behind_reach_le (p := .returned (.ok held)) (by simp [hat, Progress.behind])
        (s.makings i) j

theorem behind_run_le (requests : ι → Request) (s : Shared ι) (moves : List (Move ι)) (j : ι) :
    (s.progress j).behind ≤ ((run requests s moves).progress j).behind :=
  run_induction (motive := fun t => (s.progress j).behind ≤ (t.progress j).behind)
    (fun hstep hs => Nat.le_trans hs (hstep.behind_le j)) (Nat.le_refl _) moves

/-- The moves of a caller. -/
def Move.own (i : ι) : Fin 3 → Move ι
  | 0 => .look i
  | 1 => .make i
  | 2 => .record i

/-- A caller that has come to a move has it behind it afterwards. -/
theorem behind_perform (requests : ι → Request) (s : Shared ι) (i : ι) (k : Fin 3)
    (h : k ≤ (s.progress i).behind) :
    k < ((perform requests s (Move.own i k)).progress i).behind := by
  match k with
  | 0 =>
      simp only [Move.own, perform]
      cases hat : s.progress i with
      | waiting => cases s.cache.get? (requests i).key <;> simp [Progress.behind]
      | missed => simp [hat, Progress.behind]
      | made w => simp [hat, Progress.behind]
      | returned result => simp [hat, Progress.behind]
  | 1 =>
      simp only [Move.own, perform]
      cases hat : s.progress i with
      | waiting =>
          rw [hat] at h
          exact absurd h (by decide)
      | missed =>
          cases (requests i).create (requests i).key with
          | error refusal => simp [Progress.behind]
          | ok w => cases hcacheable : w.cacheable <;> simp [hcacheable, Progress.behind]
      | made w => simp [hat, Progress.behind]
      | returned result => simp [hat, Progress.behind]
  | 2 =>
      simp only [Move.own, perform]
      cases hat : s.progress i with
      | waiting =>
          rw [hat] at h
          exact absurd h (by decide)
      | missed =>
          rw [hat] at h
          exact absurd h (by decide)
      | made w =>
          simp only [progress_reach]
          exact Nat.lt_succ_self 2
      | returned result => simp [hat, Progress.behind]

/-- A caller that gets to make a move of its own has it behind it from then on. -/
theorem behind_run {i : ι} {k : Fin 3} {moves : List (Move ι)} (hmem : Move.own i k ∈ moves)
    (h : k ≤ (s.progress i).behind) : k < ((run requests s moves).progress i).behind := by
  obtain ⟨before, after, rfl⟩ := List.append_of_mem hmem
  have hbefore := behind_run_le requests s before i
  have hown := behind_perform requests (run requests s before) i k (Nat.le_trans h hbefore)
  have hafter := behind_run_le requests
    (perform requests (run requests s before) (Move.own i k)) after i
  rw [run_append]
  exact Nat.lt_of_lt_of_le hown hafter

/-- **Every caller returns** once its three moves were made, whatever the others did. -/
theorem run_returns {i : ι} {moves : List (Move ι)}
    (h : [.look i, .make i, .record i].Sublist moves) :
    ∃ result, (run requests s moves).progress i = .returned result := by
  obtain ⟨first, later, rfl, hlook, h⟩ := List.cons_sublist_iff.mp h
  obtain ⟨second, last, rfl, hmake, h⟩ := List.cons_sublist_iff.mp h
  have hrecord : .record i ∈ last := List.singleton_sublist.mp h
  have hlooked : 0 < ((run requests s first).progress i).behind :=
    behind_run (k := 0) hlook (Nat.zero_le _)
  have hmade : 1 < ((run requests (run requests s first) second).progress i).behind :=
    behind_run (k := 1) hmake hlooked
  have hreturned :
      2 < ((run requests (run requests (run requests s first) second) last).progress i).behind :=
    behind_run (k := 2) hrecord hmade
  rw [run_append, run_append]
  exact Progress.returned_of_behind hreturned

/-! ## Runs without interference -/

/-- **A caller that is alone asks as a cache is asked.** -/
theorem run_alone {i : ι} (h : s.progress i = .waiting) :
    let t := run requests s [.look i, .make i, .record i]
    let asked := s.cache.getOrCreate (requests i).key (requests i).create
    t.cache = asked.1 ∧ t.progress i = .returned asked.2 := by
  simp only [run, List.foldl_cons, List.foldl_nil, getOrCreate]
  cases hget : s.cache.get? (requests i).key with
  | some w =>
      simp only [perform, h, hget, progress_reach, cache_reach, and_self]
  | none =>
      cases hmade : (requests i).create (requests i).key with
      | error refusal =>
          simp only [perform, h, hget, hmade, progress_reach, cache_reach, and_self]
      | ok w =>
          cases hcacheable : w.cacheable with
          | false =>
              simp only [perform, h, hget, hmade, hcacheable, progress_reach, cache_reach,
                Bool.false_eq_true, if_false, and_self]
          | true =>
              have hheld : (s.cache.insertOnce (requests i).key w).get? (requests i).key = some w := by
                rw [get?_insertOnce, if_pos ⟨rfl, hget⟩]
              simp only [perform, h, hget, hmade, hcacheable, progress_reach, cache_reach, if_true,
                hheld, Option.getD_some, and_self]

/-- **Merging in a cache** is a move for each of its weights. -/
theorem run_merge (requests : ι → Request) (s : Shared ι) (other : WeightCache) :
    run requests s (other.entries.reverse.map fun (key, w) => .adopt key w)
      = { s with cache := s.cache.merge other } := by
  rw [run, List.foldl_map, List.foldl_reverse, merge]
  induction other.entries with
  | nil => rfl
  | cons entry rest ih =>
      rw [List.foldr_cons, List.foldr_cons, ih]
      rfl

/-- **The first writer wins.**  Whatever cache callers start from, whoever they are, and
    whichever moves came before and come after, merged weights among them: a weight that is
    in the cache stays there; what a caller was given that others may use is in the cache
    from then on, so all of them were given the same; a caller whose weight is refused or may
    not be used again never changes the cache and returns just that; and a caller that
    starts when there is a weight makes none and returns that one.  Nobody makes two, and
    everyone returns.

    The moves are those of the cache that rankings use: the three of a caller, with none
    between them, are `WeightCache.getOrCreate` (`run_alone`), and those that adopt the
    weights of another cache are `WeightCache.merge` (`run_merge`). -/
theorem first_writer_wins (requests : ι → Request) (c : WeightCache)
    (before after : List (Move ι)) :
    let s := run requests (start c) before
    let t := run requests s after
    t.cache.Extends s.cache ∧
    (∀ i w, s.progress i = .returned (.ok w) → w.cacheable = true →
      s.cache.get? (requests i).key = some w ∧ t.cache.get? (requests i).key = some w ∧
      ∀ j v, (requests j).key = (requests i).key → t.progress j = .returned (.ok v) →
        v.cacheable = true → v = w) ∧
    (∀ i result, (requests i).Unshared result →
      (∀ move ∈ [.look i, .make i, .record i], (perform requests s move).cache = s.cache) ∧
      (s.makings i ≠ 0 → s.progress i = .returned result ∧ t.progress i = .returned result)) ∧
    (∀ i w, s.progress i = .waiting → s.cache.get? (requests i).key = some w →
      t.makings i = 0 ∧ (t.progress i = .waiting ∨ t.progress i = .returned (.ok w))) ∧
    ∀ i, t.makings i ≤ 1 ∧
      ([.look i, .make i, .record i].Sublist after → ∃ result, t.progress i = .returned result) := by
  intro s t
  have hs : Sound requests s := (Sound.start requests c).run before
  have ht : Sound requests t := hs.run after
  have hextends : t.cache.Extends s.cache := run_extends requests s after
  refine ⟨hextends, ?_, ?_, ?_, ?_⟩
  · intro i w hreturned hcacheable
    have hheld := (hreturned ▸ hs i).get? hcacheable
    have hlater := hextends _ _ hheld
    refine ⟨hheld, hlater, ?_⟩
    intro j v hkey hreturned' hcacheable'
    have hheld' := (hreturned' ▸ ht j).get? hcacheable'
    rw [hkey, hlater] at hheld'
    exact (Option.some.inj hheld').symm
  · intro i result hresult
    refine ⟨fun move hmove => hs.cache_of_unshared hresult hmove, ?_⟩
    intro hmade
    have hreturned := (hs i).returned_of_unshared hresult hmade
    exact ⟨hreturned, run_returned hreturned after⟩
  · intro i w hat hget
    exact run_present hat (hat ▸ hs i).eq_zero_of_waiting hget after
  · intro i
    exact ⟨(ht i).makings_le, run_returns⟩

/-- Two callers that both find nothing and make different weights: the one that records
    last is given the weight of the other, and a weight that is merged in then is not kept. -/
theorem first_writer_wins_race :
    let key : FeatureQuery := .anyTerm [1]
    let requests : Bool → Request := fun i => ⟨key, fun _ => .ok (.phrase (if i then [1] else [2]))⟩
    let before : List (Move Bool) := [.look true, .look false, .make true, .make false,
      .record false, .adopt key .nothing, .record true]
    let s := run requests (start .empty) before
    s.cache.get? key = some (.phrase [2]) ∧
    s.progress true = .returned (.ok (.phrase [2])) ∧
    s.progress false = .returned (.ok (.phrase [2])) ∧ s.makings true = 1 ∧
    ∀ j v, s.progress j = .returned (.ok v) → v.cacheable = true → v = .phrase [2] := by
  intro key requests before s
  have hheld : s.progress false = .returned (.ok (.phrase [2])) := rfl
  refine ⟨rfl, rfl, hheld, rfl, ?_⟩
  intro j v hj hcacheable
  exact ((first_writer_wins requests .empty before []).2.1 false _ hheld rfl).2.2 j v rfl hj
    hcacheable

end Shared

end WeightCache

end FeatureRank
