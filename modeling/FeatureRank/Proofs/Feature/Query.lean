import FeatureRank.Feature.Query
import FeatureRank.Feature.Weight

/-! # Canonical queries — one key however the query gets there

    Ranking ties a query to its vector and then takes the canonical form; logging
    takes the canonical form first, ties that, and takes the canonical form again.
    The canonical form is a fixed point (`FeatureQuery.normal_normal`) and commutes
    with tying (`bind_normal`), so both come to the same query (`bind_canonical`),
    and a weight that was made under the one is found under the other. -/

namespace FeatureRank

namespace Number

@[simp] theorem unsignedZero_unsignedZero (x : Float32) :
    unsignedZero (unsignedZero x) = unsignedZero x := by
  unfold unsignedZero
  cases h : x == 0.0 with
  | true =>
      simp only [if_true]
      exact ite_self _
  | false => simp only [h, Bool.false_eq_true, if_false]

/-- Taking the sign off a zero makes no number one. -/
theorem unsignedZero_ne_one {x : Float32} (h : (x == 1.0) = false) :
    (unsignedZero x == 1.0) = false := by
  have hzero : ((0.0 : Float32) == 1.0) = false := by decide
  unfold unsignedZero
  split
  · exact hzero
  · exact h

end Number

/-- Whether a searcher sees documents depends on its shard only. -/
theorem Searcher.isEmpty_eq {a b : Searcher} (hshard : a.shard = b.shard) :
    a.isEmpty = b.isEmpty := by
  unfold isEmpty
  rw [hshard]

@[simp] theorem DerivedSum.canonical_canonical (s : DerivedSum) :
    s.canonical.canonical = s.canonical := by
  simp only [DerivedSum.canonical, List.map_map, Number.unsignedZero_unsignedZero]
  congr 1
  refine List.map_congr_left fun input _ => ?_
  simp only [Function.comp_apply, Number.unsignedZero_unsignedZero]

/-- The canonical form of a sum reads the same ordinals. -/
theorem DerivedSum.find?_canonical (s : DerivedSum) (features : Nat) :
    s.canonical.inputs.find? (fun x => features ≤ x.1)
      = (s.inputs.find? (fun x => features ≤ x.1)).map
          fun x => (x.1, Number.unsignedZero x.2) := List.find?_map ..

namespace FeatureQuery

@[simp] theorem sortTerms_sortTerms (terms : List TermId) :
    sortTerms (sortTerms terms) = sortTerms terms := by
  unfold sortTerms
  refine List.mergeSort_of_pairwise (List.pairwise_mergeSort ?_ ?_ terms)
  · intro a b c hab hbc
    rw [decide_eq_true_eq] at hab hbc ⊢
    exact Nat.le_trans hab hbc
  · intro a b
    rw [Bool.or_eq_true, decide_eq_true_eq, decide_eq_true_eq]
    exact Nat.le_total a b

/-- A kind of query whose canonical form sorts its terms is in canonical form once
    they are sorted. -/
theorem normal_sorted {f : List TermId → FeatureQuery}
    (hf : ∀ term rest, (f (term :: rest)).normal = f (sortTerms (term :: rest)))
    (term : TermId) (rest : List TermId) :
    (f (sortTerms (term :: rest))).normal = f (sortTerms (term :: rest)) := by
  cases h : sortTerms (term :: rest) with
  | nil =>
      -- sorting leaves a term where there is one
      have hlength := congrArg List.length h
      rw [sortTerms, List.length_mergeSort] at hlength
      exact nomatch hlength
  | cons first others =>
      rw [hf, ← h, sortTerms_sortTerms]

/-! ## The canonical form of a canonical form -/

/-- A boost around a query in canonical form is in canonical form. -/
theorem normal_boosted (factor : Float32) {q : FeatureQuery} (h : q.normal = q) :
    (boosted factor q).normal = boosted factor q := by
  by_cases hnothing : q = .nothing
  · rw [hnothing]
    rfl
  rw [boosted.eq_2 factor q hnothing]
  cases hone : factor == 1.0 with
  | true => exact h
  | false =>
      show boosted (Number.unsignedZero factor) q.normal = .boost q (Number.unsignedZero factor)
      rw [h, boosted.eq_2 _ q hnothing, Number.unsignedZero_ne_one hone,
        Number.unsignedZero_unsignedZero]
      rfl

/-- The canonical form is a fixed point. -/
@[simp] theorem normal_normal (q : FeatureQuery) : q.normal.normal = q.normal := by
  induction q with
  | anyTerm terms =>
      cases terms with
      | nil => rfl
      | cons term rest => exact normal_sorted (f := .anyTerm) (fun _ _ => rfl) term rest
  | phrase terms => cases terms <;> rfl
  | languageModel terms =>
      cases terms with
      | nil => rfl
      | cons term rest => exact normal_sorted (f := .languageModel) (fun _ _ => rfl) term rest
  | constant score =>
      exact congrArg FeatureQuery.constant (Number.unsignedZero_unsignedZero score)
  | boost inner factor ih => exact normal_boosted factor ih
  | derived sum => exact congrArg FeatureQuery.derived (DerivedSum.canonical_canonical sum)
  | bound sum => exact congrArg FeatureQuery.bound (DerivedSum.canonical_canonical sum)
  | nothing => rfl

@[simp] theorem canonical_canonical (emptyShard : Bool) (q : FeatureQuery) :
    (q.canonical emptyShard).canonical emptyShard = q.canonical emptyShard := by
  cases emptyShard with
  | true => rfl
  | false => exact normal_normal q

/-! ## Tying and the canonical form -/

/-- Only nothing becomes nothing by being tied. -/
theorem bind_ne_nothing {features : Nat} {q tied : FeatureQuery}
    (h : q.bind features = .ok tied) (hq : q ≠ .nothing) : tied ≠ .nothing := by
  cases q with
  | nothing => exact absurd rfl hq
  | derived sum =>
      simp only [bind] at h
      split at h
      · exact nomatch h
      · rw [← Except.ok.inj h]
        exact FeatureQuery.noConfusion
  | boost inner factor =>
      simp only [bind] at h
      split at h
      · rw [← Except.ok.inj h]
        exact FeatureQuery.noConfusion
      · exact nomatch h
  | _ =>
      rw [← Except.ok.inj h]
      exact FeatureQuery.noConfusion

/-- Tying a boost ties what is under it. -/
theorem bind_boosted (features : Nat) (factor : Float32) (q : FeatureQuery) :
    (boosted factor q).bind features = (q.bind features).map (boosted factor) := by
  by_cases hnothing : q = .nothing
  · rw [hnothing]
    rfl
  rw [boosted.eq_2 factor q hnothing]
  cases htied : q.bind features with
  | error refusal =>
      cases factor == 1.0 with
      | true => exact htied
      | false => simp only [Bool.false_eq_true, if_false, bind, htied, Except.map]
  | ok tied =>
      rw [Except.map, boosted.eq_2 factor tied (bind_ne_nothing htied hnothing)]
      cases factor == 1.0 with
      | true => exact htied
      | false => simp only [Bool.false_eq_true, if_false, bind, htied]

/-- **Tying and the canonical form commute**: a query is tied after it was brought
    into canonical form just when it is tied before, and is refused alike. -/
theorem bind_normal (features : Nat) (q : FeatureQuery) :
    q.normal.bind features = (q.bind features).map normal := by
  -- only a boost has a query under it; all other kinds are tied as they are
  induction q with
  | anyTerm terms => cases terms <;> rfl
  | phrase terms => cases terms <;> rfl
  | languageModel terms => cases terms <;> rfl
  | boost inner factor ih =>
      rw [normal, bind_boosted, ih, bind]
      cases inner.bind features <;> rfl
  | derived sum =>
      -- a sum and its canonical form read the same ordinals
      simp only [normal, bind, DerivedSum.find?_canonical]
      cases sum.inputs.find? fun x => features ≤ x.1 <;> rfl
  | _ => rfl

/-- **Logging comes to the query that ranking ran.**  Tying a query that is in
    canonical form already succeeds and has the same canonical form. -/
theorem bind_canonical {features : Nat} {q tied : FeatureQuery} (emptyShard : Bool)
    (h : q.bind features = .ok tied) :
    ∃ t, (q.canonical emptyShard).bind features = .ok t ∧
      t.canonical emptyShard = tied.canonical emptyShard := by
  cases emptyShard with
  | true => exact ⟨.nothing, rfl, rfl⟩
  | false =>
      refine ⟨tied.normal, ?_, normal_normal tied⟩
      show q.normal.bind features = _
      rw [bind_normal, h]
      rfl

/-! ## Weights -/

/-- Every weight of a query may be used again. -/
theorem weight_cacheable {searcher : Searcher} {q : FeatureQuery} {w : Weight}
    (h : q.weight searcher = .ok w) : w.cacheable = true := by
  induction q generalizing w with
  | boost inner factor ih =>
      simp only [weight] at h
      cases hinner : inner.weight searcher with
      | error refusal => rw [hinner] at h; exact nomatch h
      | ok v =>
          rw [hinner] at h
          rw [← Except.ok.inj h]
          show v.cacheable = true
          exact ih hinner
  | derived sum => exact nomatch h
  | _ => rw [← Except.ok.inj h]; rfl

end FeatureQuery

end FeatureRank
