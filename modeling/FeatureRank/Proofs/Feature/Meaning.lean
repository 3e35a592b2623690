import FeatureRank.Proofs.Feature.Cursors

/-! # The meaning of a weight — what it says about the terms of a document

    Whether a weight matches a document, the score it gives and what it leaves to
    a log are read off the terms of the document (`Weight.matchesDoc`,
    `Weight.valueOn`, `Weight.extraOn`).  A fresh scorer says just this, whatever
    other documents are in the segment (`Weight.scorerAt?_ofDocs`). -/

namespace FeatureRank

open DocWalk

namespace Weight

/-! ## What a weight says -/

/-- Whether a document of some terms matches. -/
def matchesDoc (doc : List TermId) : Weight → Bool
  | .anyTerm terms _ => terms.any fun x => decide (x.1 ∈ doc)
  | .phrase terms => 0 < phraseCount doc terms
  | .languageModel terms _ _ => terms.any fun x => decide (x.1 ∈ doc)
  | .constant _ _ => true
  | .boost inner _ => inner.matchesDoc doc
  | .derived _ => true
  | .nothing => false

/-- The score of a document that matches, given the vector filled so far. -/
def valueOn (doc : List TermId) (vector : Option FeatureVector) : Weight → Float32
  | .anyTerm terms average => Bm25.score (occurring doc terms) doc.length average
  | .phrase terms => Float32.ofNat (phraseCount doc terms)
  | .languageModel terms queryLength average =>
    LanguageModel.score
      ((occurring doc terms).map fun ((count, docs), frequency) => (count, docs, frequency))
      doc.length average queryLength
  | .constant score _ => score
  | .boost inner factor => inner.valueOn doc vector * factor
  | .derived sum => sum.value vector
  | .nothing => 0.0

/-- What is left to a log beside the score of a document that matches. -/
def extraOn (vector : Option FeatureVector) : Weight → Option (String × Float32)
  | .derived sum => sum.logKey.map fun key => (key, sum.value vector)
  | .boost inner _ => inner.extraOn vector
  | _ => none

/-- The explanation of the score of a document. -/
def explanationOn (doc : List TermId) (vector : Option FeatureVector) : Weight → Explanation
  | .boost inner factor =>
    explainBoost (inner.explanationOn doc vector) (boostText inner.description factor) factor
  | w =>
    if w.matchesDoc doc then .matched (w.valueOn doc vector) w.description
    else .noMatch w.description

theorem isMatch_explainBoost (inner : Explanation) (description : String) (factor : Float32) :
    (explainBoost inner description factor).isMatch = inner.isMatch := by
  cases hmatch : inner.isMatch with
  | true => exact congrArg Explanation.isMatch (if_pos hmatch)
  | false => exact (congrArg Explanation.isMatch (if_neg (by simp [hmatch]))).trans hmatch

/-- An explanation matches just when the document does. -/
theorem isMatch_explanationOn (doc : List TermId) (vector : Option FeatureVector) (w : Weight) :
    (w.explanationOn doc vector).isMatch = w.matchesDoc doc := by
  have hplain : ∀ (matching : Bool) (value : Float32) (description : String),
      (if matching then Explanation.matched value description
        else .noMatch description).isMatch = matching := by
    intro matching value description
    cases matching <;> rfl
  induction w with
  | boost inner factor ih => exact (isMatch_explainBoost _ _ _).trans ih
  | anyTerm terms average => exact hplain _ _ _
  | phrase terms => exact hplain _ _ _
  | languageModel terms queryLength average => exact hplain _ _ _
  | constant score cacheable => rfl
  | derived sum => rfl
  | nothing => rfl

/-- **The explained value of a document that matches is its score.** -/
theorem value_explanationOn {doc : List TermId} (vector : Option FeatureVector) {w : Weight}
    (h : w.matchesDoc doc = true) :
    (w.explanationOn doc vector).value = w.valueOn doc vector := by
  have hplain : ∀ (matching : Bool) (value : Float32) (description : String), matching = true →
      (if matching then Explanation.matched value description
        else .noMatch description).value = value := by
    intro matching value description hmatch
    rw [hmatch]
    rfl
  induction w with
  | boost inner factor ih =>
      have hinner : (inner.explanationOn doc vector).isMatch = true :=
        (isMatch_explanationOn doc vector inner).trans h
      refine (congrArg Explanation.value (if_pos hinner)).trans ?_
      exact congrArg (· * factor) (ih h)
  | anyTerm terms average => exact hplain _ _ _ h
  | phrase terms => exact hplain _ _ _ h
  | languageModel terms queryLength average => exact hplain _ _ _ h
  | constant score cacheable => rfl
  | derived sum => rfl
  | nothing => cases h

/-! ## Scorers -/

section

variable {docs : List (List TermId)} {index : Nat} {doc : List TermId} {τ : Type}
  (hdoc : docs[index]? = some doc)

/-- A scorer that says of the document where it stands what a weight says of its terms. -/
structure Says (w : Weight) (doc : List TermId) (s : FeatureScorer) : Prop where
  score : ∀ vector, s.score vector = .ok (w.valueOn doc vector)
  extra : ∀ vector, s.extra? vector = w.extraOn vector

theorem scorerAt?_boost (segment : Segment) (number : Nat) (inner : Weight) (factor : Float32) :
    (Weight.boost inner factor).scorerAt? segment number
      = (inner.scorerAt? segment number).map (.boost · factor) := by
  unfold scorerAt?
  rw [scorer?]
  cases inner.scorer? segment with
  | none => rfl
  | some s =>
      simp only [Option.map_some, Option.filter_some]
      show (if decide ((advance number s).stop = .doc number) then _ else _) = _
      by_cases hstop : (advance number s).stop = .doc number
      · simp [hstop]
        rfl
      · simp [hstop]

/-- What a scorer at a document is for a weight whose scorer is known. -/
theorem scorerAt?_of_scorer? {segment : Segment} {number : Nat} {w : Weight} {s : FeatureScorer}
    (h : w.scorer? segment = some s) :
    w.scorerAt? segment number
      = if (s.advance number).stop = .doc number then some (s.advance number) else none := by
  unfold scorerAt?
  rw [h, Option.map_some, Option.filter_some]
  show (if decide ((s.advance number).stop = .doc number) = true then _ else _) = _
  simp only [decide_eq_true_eq]
  rfl

/-- A weight says something of a document when it matches, else it has no scorer
    for it. -/
def Meets (w : Weight) (doc : List TermId) (scorer : Option FeatureScorer) : Prop :=
  (w.matchesDoc doc = false ∧ scorer = none) ∨
    (w.matchesDoc doc = true ∧ ∃ s, scorer = some s ∧ w.Says doc s)

include hdoc in
/-- Weights whose scorers walk a union say what the terms of the union say. -/
theorem meets_union {w : Weight} {terms : List (TermId × τ)} (wrap : Union τ → FeatureScorer)
    (hnone : cursors (Segment.ofDocs docs) terms = [] → w.scorer? (Segment.ofDocs docs) = none)
    (hsome : cursors (Segment.ofDocs docs) terms ≠ [] → w.scorer? (Segment.ofDocs docs)
      = some (wrap (.ofCursors (cursors (Segment.ofDocs docs) terms))))
    (hadvance : ∀ target u, (wrap u).advance target = wrap (u.advance target))
    (hstop : ∀ u, (wrap u).stop = u.stop)
    (hmatches : w.matchesDoc doc = terms.any fun x => decide (x.1 ∈ doc))
    (hreads : (unionAt docs (index + 1) terms).stop = .doc (index + 1) →
      w.Says doc (wrap (unionAt docs (index + 1) terms))) :
    w.Meets doc (w.scorerAt? (Segment.ofDocs docs) (index + 1)) := by
  have hany : w.matchesDoc doc = true ↔ ∃ x ∈ terms, x.1 ∈ doc := by
    simp [hmatches]
  by_cases hcursors : cursors (Segment.ofDocs docs) terms = []
  · refine Or.inl ⟨?_, ?_⟩
    · rw [Bool.eq_false_iff, Ne, hany]
      rintro ⟨x, hx, hmem⟩
      exact cursors_eq_nil hcursors hdoc x hx hmem
    · unfold scorerAt?
      rw [hnone hcursors]
      rfl
  · rw [scorerAt?_of_scorer? (hsome hcursors), hadvance, hstop]
    by_cases hon : (unionAt docs (index + 1) terms).stop = .doc (index + 1)
    · exact Or.inr ⟨hany.mpr ((stop_unionAt hdoc terms).mp hon), _, if_pos hon, hreads hon⟩
    · refine Or.inl ⟨?_, if_neg hon⟩
      rw [Bool.eq_false_iff, Ne, hany]
      exact fun h => hon ((stop_unionAt hdoc terms).mpr h)

include hdoc in
theorem lengthAt_unionAt {terms : List (TermId × τ)}
    (hstop : (unionAt docs (index + 1) terms).stop = .doc (index + 1)) :
    FeatureScorer.lengthAt (Segment.ofDocs docs) (unionAt docs (index + 1) terms).stop
      = .ok doc.length := by
  rw [hstop]
  exact Segment.length_ofDocs hdoc

include hdoc in
theorem meets_anyTerm (terms : List (TermId × Float32)) (average : Float32) :
    (Weight.anyTerm terms average).Meets doc
      ((Weight.anyTerm terms average).scorerAt? (Segment.ofDocs docs) (index + 1)) := by
  refine meets_union hdoc (FeatureScorer.anyTerm (Segment.ofDocs docs) · average)
    (fun h => by simp only [scorer?, h]) ?_ (fun _ _ => rfl) (fun _ => rfl) rfl ?_
  · intro hne
    simp only [scorer?]
  · intro hstop
    refine ⟨fun vector => ?_, fun _ => rfl⟩
    exact bind_eq_ok.mpr ⟨_, lengthAt_unionAt hdoc hstop,
      bind_eq_ok.mpr ⟨_, frequencies_unionAt hdoc hstop, rfl⟩⟩

include hdoc in
theorem meets_languageModel (terms : List (TermId × Float32 × Float32))
    (queryLength average : Float32) :
    (Weight.languageModel terms queryLength average).Meets doc
      ((Weight.languageModel terms queryLength average).scorerAt? (Segment.ofDocs docs)
        (index + 1)) := by
  refine meets_union hdoc (FeatureScorer.languageModel (Segment.ofDocs docs) · queryLength average)
    (fun h => by simp only [scorer?, h]) ?_ (fun _ _ => rfl) (fun _ => rfl) rfl ?_
  · intro hne
    simp only [scorer?]
  · intro hstop
    refine ⟨fun vector => ?_, fun _ => rfl⟩
    exact bind_eq_ok.mpr ⟨_, lengthAt_unionAt hdoc hstop,
      bind_eq_ok.mpr ⟨_, frequencies_unionAt hdoc hstop, rfl⟩⟩

include hdoc in
theorem meets_phrase (terms : List TermId) :
    (Weight.phrase terms).Meets doc
      ((Weight.phrase terms).scorerAt? (Segment.ofDocs docs) (index + 1)) := by
  cases terms with
  | nil => exact Or.inl ⟨rfl, rfl⟩
  | cons term rest =>
      rcases ofPostings?_cases docs term rest with hwalk | ⟨hnone, t, ht, hempty⟩
      · have hscorer : (Weight.phrase (term :: rest)).scorer? (Segment.ofDocs docs)
            = some (.phrase (phraseWalk docs term rest)) := by
          rw [scorer?, hwalk]
          rfl
        rw [scorerAt?_of_scorer? hscorer]
        rcases phraseWalk_cases hdoc term rest with ⟨hzero, hoff⟩ | ⟨hpos, hon, hcount⟩
        · refine Or.inl ⟨?_, if_neg hoff⟩
          simp [matchesDoc, hzero]
        · refine Or.inr ⟨decide_eq_true hpos, _, if_pos hon, fun vector => ?_, fun _ => rfl⟩
          show Except.ok (Float32.ofNat _) = _
          rw [hcount]
          rfl
      · refine Or.inl ⟨?_, ?_⟩
        · have hnot : t ∉ doc := fun hmem => postingsOf_ne_nil hdoc hmem hempty
          simp [matchesDoc, phraseCount_eq_zero ht hnot]
        · unfold scorerAt?
          rw [scorer?, hnone]
          rfl

include hdoc in
/-- A walk over all documents stands on each of them. -/
theorem stop_allDocs :
    (AllDocs.advance (index + 1) { maxDoc := (Segment.ofDocs docs).maxDoc }).stop
      = .doc (index + 1) := by
  have hlt : ¬docs.length < index + 1 := Nat.not_lt.mpr (List.getElem?_eq_some_iff.mp hdoc).1
  simp [AllDocs.advance, hlt]

include hdoc in
/-- **A weight says of a document what it says of its terms**, wherever the
    document stands in a segment. -/
theorem scorerAt?_ofDocs (w : Weight) :
    w.Meets doc (w.scorerAt? (Segment.ofDocs docs) (index + 1)) := by
  induction w with
  | anyTerm terms average => exact meets_anyTerm hdoc terms average
  | phrase terms => exact meets_phrase hdoc terms
  | languageModel terms queryLength average =>
      exact meets_languageModel hdoc terms queryLength average
  | constant score cacheable =>
      rw [scorerAt?_of_scorer? rfl]
      exact Or.inr ⟨rfl, _, if_pos (stop_allDocs hdoc), fun _ => rfl, fun _ => rfl⟩
  | boost inner factor ih =>
      rw [scorerAt?_boost]
      rcases ih with ⟨hnot, hnone⟩ | ⟨hmatch, s, hs, hreads⟩
      · exact Or.inl ⟨hnot, by rw [hnone]; rfl⟩
      · refine Or.inr ⟨hmatch, .boost s factor, by rw [hs]; rfl, fun vector => ?_, hreads.extra⟩
        exact bind_eq_ok.mpr ⟨_, hreads.score vector, rfl⟩
  | derived sum =>
      rw [scorerAt?_of_scorer? rfl]
      exact Or.inr ⟨rfl, _, if_pos (stop_allDocs hdoc), fun _ => rfl, fun _ => rfl⟩
  | nothing => exact Or.inl ⟨rfl, rfl⟩

include hdoc in
/-- Whether there is a scorer for a document says whether it matches. -/
theorem isSome_scorerAt? (w : Weight) :
    (w.scorerAt? (Segment.ofDocs docs) (index + 1)).isSome = w.matchesDoc doc := by
  rcases scorerAt?_ofDocs hdoc w with ⟨hnot, hnone⟩ | ⟨hmatch, s, hs, -⟩
  · rw [hnot, hnone]
    rfl
  · rw [hmatch, hs]
    rfl

include hdoc in
theorem explainScorer_ofDocs (vector : Option FeatureVector) (w : Weight) :
    w.explainScorer (Segment.ofDocs docs) (index + 1) vector = .ok
      (if w.matchesDoc doc then .matched (w.valueOn doc vector) w.description
        else .noMatch w.description) := by
  have hmeets := scorerAt?_ofDocs hdoc w
  unfold explainScorer
  cases hs : w.scorer? (Segment.ofDocs docs) with
  | none =>
      have hnone : w.scorerAt? (Segment.ofDocs docs) (index + 1) = none := by
        unfold scorerAt?
        rw [hs]
        rfl
      rw [hnone] at hmeets
      rcases hmeets with ⟨hnot, -⟩ | ⟨-, _, hsome, -⟩
      · rw [hnot]
        rfl
      · exact nomatch hsome
  | some s =>
      rw [scorerAt?_of_scorer? hs] at hmeets
      by_cases hon : (s.advance (index + 1)).stop = .doc (index + 1)
      · rw [if_pos hon] at hmeets
        rcases hmeets with ⟨-, hnone⟩ | ⟨hmatch, t, ht, hreads⟩
        · exact nomatch hnone
        · rw [Option.map_some, hmatch]
          simp only [hon, if_true]
          rw [Option.some.inj ht]
          exact bind_eq_ok.mpr ⟨_, hreads.score vector, rfl⟩
      · rw [if_neg hon] at hmeets
        rcases hmeets with ⟨hnot, -⟩ | ⟨-, _, hsome, -⟩
        · rw [Option.map_some, hnot]
          simp only [hon, if_false]
          rfl
        · exact nomatch hsome

include hdoc in
/-- **How the score of a document comes about** is read off its terms too. -/
theorem explain_ofDocs (vector : Option FeatureVector) (w : Weight) :
    w.explain (Segment.ofDocs docs) (index + 1) vector = .ok (w.explanationOn doc vector) := by
  induction w with
  | boost inner factor ih => exact bind_eq_ok.mpr ⟨_, ih, rfl⟩
  | anyTerm terms average => exact explainScorer_ofDocs hdoc vector _
  | phrase terms => exact explainScorer_ofDocs hdoc vector _
  | languageModel terms queryLength average => exact explainScorer_ofDocs hdoc vector _
  | constant score cacheable => exact explainScorer_ofDocs hdoc vector _
  | derived sum => exact explainScorer_ofDocs hdoc vector _
  | nothing => exact explainScorer_ofDocs hdoc vector _

end

end Weight

end FeatureRank
