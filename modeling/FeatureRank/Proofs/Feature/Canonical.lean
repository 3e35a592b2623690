import FeatureRank.Proofs.Feature.Query
import FeatureRank.Proofs.Number.Arithmetic
import FeatureRank.Proofs.Search.Agreement

/-! # Canonical queries — the same meaning

    The canonical form of a query may have other terms in another order, fewer
    boosts and zeros of another sign, and on a shard without documents it is
    nothing at all.  None of this is seen in a result: the scorers of the query
    and of its canonical form walk alike, and score alike up to the sign of a zero
    (`FeatureScorer.Alike`), so one weight serves all queries that have the
    canonical form (`FeatureQuery.Tied.canonical_agreeIn`). -/

namespace FeatureRank

open Number (Alike unsignedZero)

/-- A number with its zero unsigned is alike to the number itself. -/
theorem Number.Alike.unsigned (x : Float32) : Alike x (unsignedZero x) :=
  (unsignedZero_unsignedZero x).symm

/-- Outcomes that are alike: the same fault, or numbers that are alike. -/
theorem Number.map_unsigned_eq {a b : Checked Float32}
    (h : a.map unsignedZero = b.map unsignedZero) :
    (∃ fault, a = .error fault ∧ b = .error fault) ∨
      ∃ x y, a = .ok x ∧ b = .ok y ∧ Alike x y := by
  cases a with
  | error fault =>
      cases b with
      | error fault' => exact .inl ⟨fault, rfl, congrArg Except.error (Except.error.inj h).symm⟩
      | ok y => cases h
  | ok x =>
      cases b with
      | error fault => cases h
      | ok y => exact .inr ⟨x, y, rfl, rfl, Except.ok.inj h⟩

/-! ## Scorers -/

/-- A sum and its canonical form have values that differ in the sign of a zero at
    most. -/
theorem DerivedSum.value_canonical (s : DerivedSum) (vector : Option FeatureVector) :
    Alike (s.value vector) (s.canonical.value vector) := by
  have hfold : ∀ (inputs : List (Nat × Float32)) {a b : Float32}, Alike a b →
      Alike
        (inputs.foldl (fun sum input =>
          sum + input.2 * (vector.map (·.get input.1)).getD 0.0) a)
        ((inputs.map fun input => (input.1, unsignedZero input.2)).foldl
          (fun sum input => sum + input.2 * (vector.map (·.get input.1)).getD 0.0) b) := by
    intro inputs
    induction inputs with
    | nil => exact id
    | cons input rest ih =>
        intro a b hab
        simp only [List.map_cons, List.foldl_cons]
        exact ih (hab.add ((Number.Alike.unsigned input.2).mul (.refl _)))
  exact hfold s.inputs (Number.Alike.unsigned s.constant)

/-- A scorer and the one that takes its place in the canonical form. -/
inductive FeatureScorer.Alike : FeatureScorer → FeatureScorer → Prop where
  | refl (s : FeatureScorer) : Alike s s
  | constant (walk : AllDocs) (score : Float32) :
      Alike (.constant walk score) (.constant walk (unsignedZero score))
  | derived (walk : AllDocs) (sum : DerivedSum) :
      Alike (.derived walk sum) (.derived walk sum.canonical)
  | boost {s t : FeatureScorer} (h : Alike s t) (factor : Float32) :
      Alike (.boost s factor) (.boost t (unsignedZero factor))
  /-- a boost of one is left out -/
  | unboosted {s t : FeatureScorer} (h : Alike s t) : Alike (.boost s 1.0) t

namespace FeatureScorer.Alike

variable {s t : FeatureScorer}

theorem stop_eq (h : s.Alike t) : s.stop = t.stop := by
  induction h with
  | refl s => rfl
  | constant walk score => rfl
  | derived walk sum => rfl
  | boost h factor ih => exact ih
  | unboosted h ih => exact ih

theorem advance (h : s.Alike t) (target : Nat) : (s.advance target).Alike (t.advance target) := by
  induction h with
  | refl s => exact .refl _
  | constant walk score => exact .constant _ score
  | derived walk sum => exact .derived _ sum
  | boost h factor ih => exact .boost ih factor
  | unboosted h ih => exact .unboosted ih

theorem next (h : s.Alike t) : (DocWalk.next s).Alike (DocWalk.next t) := by
  have hstop : DocWalk.stop s = DocWalk.stop t := h.stop_eq
  unfold DocWalk.next
  rw [hstop]
  cases DocWalk.stop t with
  | doc d => exact h.advance (d + 1)
  | exhausted => exact h

/-- **Scores differ in the sign of a zero at most**, and the one is a fault just
    when the other is. -/
theorem score (h : s.Alike t) (vector : Option FeatureVector) :
    (s.score vector).map unsignedZero = (t.score vector).map unsignedZero := by
  induction h with
  | refl s => rfl
  | constant walk score => exact congrArg Except.ok (Number.Alike.unsigned score)
  | derived walk sum => exact congrArg Except.ok (sum.value_canonical vector)
  | @boost s t h factor ih =>
      rw [FeatureScorer.score, FeatureScorer.score]
      rcases Number.map_unsigned_eq ih with ⟨fault, hs, ht⟩ | ⟨x, y, hs, ht, hxy⟩
      · rw [hs, ht]
        rfl
      · rw [hs, ht]
        exact congrArg Except.ok (hxy.mul (Number.Alike.unsigned factor))
  | @unboosted s t h ih =>
      rw [← ih]
      simp only [FeatureScorer.score]
      cases s.score vector with
      | error fault => rfl
      | ok x => exact congrArg (fun y => Except.ok (unsignedZero y)) (Number.mul_one x)

/-- Scorers that are alike pass the same documents. -/
theorem docsFrom (stops : Nat) : ∀ {s t : FeatureScorer}, s.Alike t →
    (QueryScorer.plain s).docsFrom stops = (QueryScorer.plain t).docsFrom stops := by
  induction stops with
  | zero => exact fun _ => rfl
  | succ stops ih =>
      intro s t h
      have hnext : ∀ s : FeatureScorer,
          DocWalk.next (QueryScorer.plain s) = .plain (DocWalk.next s) := by
        intro s
        cases hstop : DocWalk.stop s with
        | doc d =>
            rw [DocWalk.next_doc hstop]
            exact DocWalk.next_doc hstop
        | exhausted =>
            rw [DocWalk.next_exhausted hstop]
            exact DocWalk.next_exhausted hstop
      simp only [QueryScorer.docsFrom, hnext]
      have hstop : (QueryScorer.plain (DocWalk.next s)).stop
          = (QueryScorer.plain (DocWalk.next t)).stop := h.next.stop_eq
      rw [hstop, ih h.next]

end FeatureScorer.Alike

/-! ## Weights -/

namespace Weight

/-- Weights that have no scorer for the same segments, and alike ones for the others. -/
def Alike (w w' : Weight) : Prop :=
  ∀ segment, (w.scorer? segment = none ∧ w'.scorer? segment = none) ∨
    ∃ s t, w.scorer? segment = some s ∧ w'.scorer? segment = some t ∧ s.Alike t

theorem Alike.refl (w : Weight) : w.Alike w := by
  intro segment
  cases h : w.scorer? segment with
  | none => exact .inl ⟨rfl, rfl⟩
  | some s => exact .inr ⟨s, s, rfl, rfl, .refl s⟩

/-- A weight without scorers is alike to nothing. -/
theorem Alike.nothing {w : Weight} (h : ∀ segment, w.scorer? segment = none) :
    w.Alike .nothing := fun segment => .inl ⟨h segment, rfl⟩

/-- Weights that match the same documents of a segment, and give each of them the
    same score for every vector, up to the sign of a zero. -/
structure AgreeIn (reader : SegmentReader) (w w' : Weight) : Prop where
  docs : (QueryWeight.plain w).docs reader = (QueryWeight.plain w').docs reader
  scores : ∀ doc, 0 < doc → ∀ vector,
    (w.scoreAt reader.segment doc vector).map (Option.map unsignedZero)
      = (w'.scoreAt reader.segment doc vector).map (Option.map unsignedZero)

namespace AgreeIn

variable {reader : SegmentReader} {w w' w'' : Weight}

theorem symm (h : w.AgreeIn reader w') : w'.AgreeIn reader w :=
  ⟨h.docs.symm, fun doc hpos vector => (h.scores doc hpos vector).symm⟩

theorem trans (h : w.AgreeIn reader w') (h' : w'.AgreeIn reader w'') : w.AgreeIn reader w'' :=
  ⟨h.docs.trans h'.docs, fun doc hpos vector =>
    (h.scores doc hpos vector).trans (h'.scores doc hpos vector)⟩

end AgreeIn

theorem Alike.scoreAt {w w' : Weight} (h : w.Alike w') (segment : Segment) (doc : Nat)
    (vector : Option FeatureVector) :
    (w.scoreAt segment doc vector).map (Option.map unsignedZero)
      = (w'.scoreAt segment doc vector).map (Option.map unsignedZero) := by
  rcases h segment with ⟨hw, hw'⟩ | ⟨s, t, hw, hw', hst⟩
  · simp only [Weight.scoreAt, scorerAt?, hw, hw']
  · simp only [Weight.scoreAt, scorerAt?_of_scorer? hw, scorerAt?_of_scorer? hw',
      (hst.advance doc).stop_eq]
    by_cases hon : (t.advance doc).stop = .doc doc
    · simp only [hon, if_true]
      rcases Number.map_unsigned_eq ((hst.advance doc).score vector) with
        ⟨fault, hs, ht⟩ | ⟨x, y, hs, ht, hxy⟩
      · rw [hs, ht]
      · rw [hs, ht]
        exact congrArg (fun z => Except.ok (some z)) hxy
    · simp only [hon, if_false]

/-- Weights that are alike agree in every segment. -/
theorem Alike.agreeIn {w w' : Weight} (h : w.Alike w') (reader : SegmentReader) :
    w.AgreeIn reader w' := by
  refine ⟨?_, fun doc _ vector => h.scoreAt reader.segment doc vector⟩
  unfold QueryWeight.docs QueryWeight.scorer?
  rcases h reader.segment with ⟨hw, hw'⟩ | ⟨s, t, hw, hw', hst⟩
  · rw [hw, hw']
  · rw [hw, hw']
    exact hst.docsFrom reader.maxDoc

/-- In a segment without documents every weight agrees with nothing. -/
theorem agreeIn_empty {reader : SegmentReader} (hbuilt : reader.segment.Built)
    (hempty : reader.maxDoc = 0) (w : Weight) : w.AgreeIn reader .nothing := by
  refine ⟨?_, fun doc hpos vector => ?_⟩
  · unfold QueryWeight.docs
    rw [hempty]
    cases (QueryWeight.plain w).scorer? reader none <;> rfl
  · have hnone : w.scorerAt? reader.segment doc = none := by
      cases hs : w.scorer? reader.segment with
      | none => rw [scorerAt?, hs, Option.map_none, Option.filter_none]
      | some s =>
          have hinside : (s.advance doc).stop.Inside reader.segment.maxDoc :=
            ((scorer?_inside hbuilt hs).advance hpos).2
          have hoff : ¬(s.advance doc).stop = .doc doc := by
            intro hon
            have hlast : doc ≤ reader.maxDoc := (hinside doc hon).2
            omega
          rw [scorerAt?_of_scorer? hs, if_neg hoff]
    rw [scoreAt_of_none hnone, scoreAt_of_none rfl]

end Weight

/-! ## Queries -/

namespace FeatureQuery

theorem queryFrequencies_sortTerms (terms : List TermId) :
    queryFrequencies (sortTerms terms) = queryFrequencies terms := by
  have hdistinct : distinctTerms (sortTerms terms) = distinctTerms terms :=
    congrArg List.eraseReps (sortTerms_sortTerms terms)
  unfold queryFrequencies
  rw [hdistinct]
  refine List.map_congr_left fun term _ => ?_
  rw [sortTerms, (List.mergeSort_perm terms _).count_eq]

theorem queryFrequencies_nil : queryFrequencies [] = [] := by
  have hdistinct : distinctTerms [] = [] := by
    unfold distinctTerms
    rw [List.mergeSort_nil]
    rfl
  rw [queryFrequencies, hdistinct, List.map_nil]

/-- Without terms nothing matches. -/
theorem scorer?_ofAnyTerm_nil (searcher : Searcher) (segment : Segment) :
    (Weight.ofAnyTerm searcher []).scorer? segment = none := by
  rw [Weight.ofAnyTerm, queryFrequencies_nil]
  rfl

theorem scorer?_ofLanguageModel_nil (searcher : Searcher) (segment : Segment) :
    (Weight.ofLanguageModel searcher []).scorer? segment = none := by
  rw [Weight.ofLanguageModel, queryFrequencies_nil]
  rfl

/-- The order of the terms does not matter to BM25. -/
theorem ofAnyTerm_sortTerms (searcher : Searcher) (terms : List TermId) :
    Weight.ofAnyTerm searcher (sortTerms terms) = Weight.ofAnyTerm searcher terms := by
  unfold Weight.ofAnyTerm
  rw [queryFrequencies_sortTerms]

/-- The order of the terms does not matter to a language model. -/
theorem ofLanguageModel_sortTerms (searcher : Searcher) (terms : List TermId) :
    Weight.ofLanguageModel searcher (sortTerms terms) = Weight.ofLanguageModel searcher terms := by
  unfold Weight.ofLanguageModel
  rw [queryFrequencies_sortTerms, sortTerms, List.length_mergeSort]

/-- What becomes of a boost: nothing around nothing, what is under a boost of one,
    or a boost whose factor has no signed zero. -/
theorem boosted_cases (factor : Float32) (q : FeatureQuery) :
    (q = .nothing ∧ boosted factor q = .nothing) ∨
      (factor = 1.0 ∧ boosted factor q = q) ∨
      boosted factor q = .boost q (unsignedZero factor) := by
  by_cases hnothing : q = .nothing
  · exact .inl ⟨hnothing, by rw [hnothing, boosted]⟩
  · rw [boosted.eq_2 factor q hnothing]
    cases hone : factor == 1.0 with
    | true => exact .inr (.inl ⟨Number.eq_one_of_beq hone, if_pos rfl⟩)
    | false => exact .inr (.inr (if_neg Bool.false_ne_true))

/-- **The canonical form on a shard with documents** has a weight whose scorers are
    alike to those of the query. -/
theorem Tied.normal_alike {q : FeatureQuery} (h : q.Tied) (searcher : Searcher) :
    ∃ w w', q.weight searcher = .ok w ∧ q.normal.weight searcher = .ok w' ∧ w.Alike w' := by
  induction q with
  | anyTerm terms =>
      cases terms with
      | nil => exact ⟨_, _, rfl, rfl, .nothing fun segment => scorer?_ofAnyTerm_nil searcher segment⟩
      | cons term rest =>
          refine ⟨_, _, rfl, rfl, ?_⟩
          rw [ofAnyTerm_sortTerms]
          exact .refl _
  | phrase terms =>
      cases terms with
      | nil => exact ⟨_, _, rfl, rfl, .nothing fun _ => rfl⟩
      | cons term rest => exact ⟨_, _, rfl, rfl, .refl _⟩
  | languageModel terms =>
      cases terms with
      | nil =>
          exact ⟨_, _, rfl, rfl, .nothing fun segment => scorer?_ofLanguageModel_nil searcher segment⟩
      | cons term rest =>
          refine ⟨_, _, rfl, rfl, ?_⟩
          rw [ofLanguageModel_sortTerms]
          exact .refl _
  | constant score =>
      exact ⟨_, _, rfl, rfl, fun segment => .inr ⟨_, _, rfl, rfl, .constant _ score⟩⟩
  | boost inner factor ih =>
      obtain ⟨w, w', hw, hw', halike⟩ := ih h
      have hboost : (FeatureQuery.boost inner factor).weight searcher = .ok (.boost w factor) := by
        rw [FeatureQuery.weight, hw]
      have hscorer : ∀ (v : Weight) (factor : Float32) (segment : Segment),
          (Weight.boost v factor).scorer? segment = (v.scorer? segment).map (.boost · factor) :=
        fun _ _ _ => rfl
      rcases boosted_cases factor inner.normal with ⟨hnormal, hform⟩ | ⟨rfl, hform⟩ | hform
      -- what has no scorer has none under a boost
      · refine ⟨_, .nothing, hboost, by rw [normal, hform]; rfl, .nothing fun segment => ?_⟩
        rw [hnormal] at hw'
        obtain rfl : Weight.nothing = w' := Except.ok.inj hw'
        rcases halike segment with ⟨hs, -⟩ | ⟨_, _, -, ht, -⟩
        · rw [hscorer, hs, Option.map_none]
        · cases ht
      · refine ⟨_, w', hboost, by rw [normal, hform]; exact hw', fun segment => ?_⟩
        rw [hscorer]
        rcases halike segment with ⟨hs, ht⟩ | ⟨s, t, hs, ht, hst⟩
        · exact .inl ⟨by rw [hs]; rfl, ht⟩
        · exact .inr ⟨_, t, by rw [hs]; rfl, ht, .unboosted hst⟩
      · refine ⟨_, .boost w' (unsignedZero factor), hboost, ?_, fun segment => ?_⟩
        · rw [normal, hform, FeatureQuery.weight, hw']
        · rw [hscorer, hscorer]
          rcases halike segment with ⟨hs, ht⟩ | ⟨s, t, hs, ht, hst⟩
          · exact .inl ⟨by rw [hs]; rfl, by rw [ht]; rfl⟩
          · exact .inr ⟨_, _, by rw [hs]; rfl, by rw [ht]; rfl, .boost hst factor⟩
  | derived sum => exact h.elim
  | bound sum => exact ⟨_, _, rfl, rfl, fun segment => .inr ⟨_, _, rfl, rfl, .derived _ sum⟩⟩
  | nothing => exact ⟨_, _, rfl, rfl, .refl _⟩

/-- The canonical form of a query agrees with the query in every segment of the
    shard. -/
theorem Tied.canonical_agreeIn {q : FeatureQuery} (h : q.Tied) {searcher : Searcher}
    (hbuilt : searcher.shard.Built) :
    ∃ own shared, q.weight searcher = .ok own ∧
      (q.canonical searcher.isEmpty).weight searcher = .ok shared ∧
      ∀ reader ∈ searcher.shard.readers, own.AgreeIn reader shared := by
  obtain ⟨own, shared, hown, hshared, halike⟩ := h.normal_alike searcher
  cases hempty : searcher.isEmpty with
  | false => exact ⟨own, shared, hown, hshared, fun reader _ => halike.agreeIn reader⟩
  | true =>
      -- here the canonical form is nothing even for a constant, which has a scorer
      refine ⟨own, .nothing, hown, rfl, fun reader hreader => ?_⟩
      have hcount : searcher.shard.docCount = 0 := eq_of_beq hempty
      obtain ⟨docs, hdocs⟩ := hbuilt.holds
      exact Weight.agreeIn_empty (hbuilt.readers reader hreader)
        (hdocs.maxDoc_eq_zero hcount reader hreader) own

/-- **The canonical form of a query means what the query means.**  The weight of
    the canonical form matches the documents that the weight of the query matches,
    in every segment of the shard, and gives each of them the same score for every
    vector, up to the sign of a zero.  So does the one weight that a faithful cache
    holds for every query that has the canonical form. -/
theorem canonical_keeps_meaning {q : FeatureQuery} (hq : q.Tied) {searcher : Searcher}
    (hbuilt : searcher.shard.Built) :
    ∃ own shared, q.weight searcher = .ok own ∧
      (q.canonical searcher.isEmpty).weight searcher = .ok shared ∧
      (∀ reader ∈ searcher.shard.readers, own.AgreeIn reader shared) ∧
      ∀ q' : FeatureQuery, q'.Tied → q'.canonical searcher.isEmpty = q.canonical searcher.isEmpty →
        (∃ own', q'.weight searcher = .ok own' ∧ ∀ reader ∈ searcher.shard.readers,
          own'.AgreeIn reader shared ∧ own'.AgreeIn reader own) ∧
        ∀ cache : WeightCache, cache.Faithful searcher → ∃ made,
          cache.getOrCreate (q.canonical searcher.isEmpty) (weight searcher)
            = (made, .ok shared) ∧
          made.getOrCreate (q'.canonical searcher.isEmpty) (weight searcher)
            = (made, .ok shared) := by
  obtain ⟨own, shared, hown, hshared, hagree⟩ := hq.canonical_agreeIn hbuilt
  refine ⟨own, shared, hown, hshared, hagree, fun q' hq' hsame => ⟨?_, fun cache hcache => ?_⟩⟩
  · obtain ⟨own', shared', hown', hshared', hagree'⟩ := hq'.canonical_agreeIn hbuilt
    rw [hsame, hshared] at hshared'
    obtain rfl : shared = shared' := Except.ok.inj hshared'
    exact ⟨own', hown', fun reader hreader =>
      ⟨hagree' reader hreader, (hagree' reader hreader).trans (hagree reader hreader).symm⟩⟩
  · obtain ⟨made, hmade, hheld⟩ := hcache.getOrCreate hshared (weight_cacheable hshared)
    refine ⟨made, hmade, ?_⟩
    rw [hsame]
    exact WeightCache.getOrCreate_of_get? hheld _

/-- Two terms under a boost of one share a weight with the same terms in another
    order. -/
theorem canonical_keeps_meaning_reordered :
    ∃ own shared other,
      (FeatureQuery.boost (.anyTerm [2, 1]) 1.0).weight ⟨(Shard.empty.add "a" [1, 2] 10).1, none⟩
        = .ok own ∧
      (FeatureQuery.anyTerm [1, 2]).weight ⟨(Shard.empty.add "a" [1, 2] 10).1, none⟩
        = .ok other ∧
      ∀ reader ∈ (Shard.empty.add "a" [1, 2] 10).1.readers,
        own.AgreeIn reader shared ∧ other.AgreeIn reader shared ∧ other.AgreeIn reader own := by
  let searcher : Searcher := ⟨(Shard.empty.add "a" [1, 2] 10).1, none⟩
  have hbuilt : searcher.shard.Built := Shard.Built.empty.add "a" [1, 2] 10
  obtain ⟨own, shared, hown, -, hagree, hsharing⟩ :=
    canonical_keeps_meaning (q := .boost (.anyTerm [2, 1]) 1.0) trivial hbuilt
  have hsame : (FeatureQuery.anyTerm [1, 2]).canonical false
      = (FeatureQuery.boost (.anyTerm [2, 1]) 1.0).canonical false := by
    have hsorted : sortTerms [1, 2] = sortTerms [2, 1] := by
      simp [sortTerms, List.mergeSort, List.MergeSort.Internal.splitInTwo]
    exact congrArg FeatureQuery.anyTerm hsorted
  obtain ⟨⟨other, hother, hboth⟩, -⟩ := hsharing (.anyTerm [1, 2]) trivial hsame
  exact ⟨own, shared, other, hown, hother, fun reader hreader =>
    ⟨hagree reader hreader, hboth reader hreader⟩⟩

end FeatureQuery

end FeatureRank
