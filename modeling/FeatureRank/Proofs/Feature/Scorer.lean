import FeatureRank.Feature.Scorer
import FeatureRank.Proofs.Feature.Vector
import FeatureRank.Proofs.Walk.Inside

/-! # Scorers of features — a fresh scorer for each document

    What a feature says about a document is what a fresh scorer says that goes
    straight there: whether it stops on the document (`Weight.scorerAt?`), and its
    score for a vector (`Weight.scoreAt`).  On a built segment the scorer of every
    weight is direct (`Weight.scorer?_direct`), so one that has been elsewhere
    before says the same, and scoring a document of the segment never fails
    (`Weight.scoreAt_ok`).  It never leaves the segment
    (`FeatureScorer.Inside.advance`). -/

namespace FeatureRank

open DocWalk

namespace Weight

/-- A fresh scorer brought to a document, none when the document does not match. -/
def scorerAt? (segment : Segment) (doc : Nat) (w : Weight) : Option FeatureScorer :=
  ((w.scorer? segment).map (DocWalk.advance doc)).filter (·.stop = .doc doc)

/-- The score that a fresh scorer gives a document, none when it does not match. -/
def scoreAt (segment : Segment) (doc : Nat) (vector : Option FeatureVector) (w : Weight) :
    Checked (Option Float32) :=
  match w.scorerAt? segment doc with
  | some scorer => return some (← scorer.score vector)
  | none => return none

theorem scoreAt_of_none {segment : Segment} {doc : Nat} {w : Weight}
    (h : w.scorerAt? segment doc = none) (vector : Option FeatureVector) :
    w.scoreAt segment doc vector = .ok none := by
  unfold scoreAt
  rw [h]
  rfl

theorem scoreAt_of_some {segment : Segment} {doc : Nat} {w : Weight} {scorer : FeatureScorer}
    (h : w.scorerAt? segment doc = some scorer) {vector : Option FeatureVector} {value : Float32}
    (hvalue : scorer.score vector = .ok value) :
    w.scoreAt segment doc vector = .ok (some value) := by
  unfold scoreAt
  rw [h]
  exact bind_eq_ok.mpr ⟨value, hvalue, rfl⟩

/-! ## Where cursors come from -/

/-- Every cursor of a weight is over the postings of one term, before the first move. -/
theorem mem_cursors {τ : Type} {segment : Segment} {terms : List (TermId × τ)} {x : τ × Cursor}
    (h : x ∈ cursors segment terms) : ∃ term, x.2 = .ofPostings (segment.postingsOf term) := by
  obtain ⟨⟨term, label⟩, -, hx⟩ := List.mem_filterMap.mp h
  refine ⟨term, ?_⟩
  cases hp : segment.postingsOf term with
  | nil => simp only [hp] at hx; exact nomatch hx
  | cons p rest =>
      simp only [hp] at hx
      rw [← Option.some.inj hx]

/-- The scorer of a phrase stands before its first document and has the postings
    of its first term ahead. -/
theorem ofPostings?_eq_some {terms : List TermId} {segment : Segment} {walk : PhraseWalk}
    (h : PhraseWalk.ofPostings? (terms.map segment.postingsOf) = some walk) :
    walk.stop = .start ∧ ∃ term, walk.lead.ahead = segment.postingsOf term := by
  cases terms with
  | nil => exact nomatch h
  | cons term rest =>
      simp only [List.map_cons, PhraseWalk.ofPostings?] at h
      split at h
      · exact nomatch h
      · rw [← Option.some.inj h]
        exact ⟨rfl, term, rfl⟩

/-! ## Directness -/

/-- The scorer of a boosted weight wraps the scorer under the boost. -/
theorem scorer?_boost {segment : Segment} {inner : Weight} {factor : Float32} {s : FeatureScorer}
    (h : (Weight.boost inner factor).scorer? segment = some s) :
    ∃ t, inner.scorer? segment = some t ∧ s = .boost t factor := by
  obtain ⟨t, ht, hs⟩ := Option.map_eq_some_iff.mp h
  exact ⟨t, ht, hs.symm⟩

/-- **Every scorer of a built segment is direct.** -/
theorem scorer?_direct {segment : Segment} (hbuilt : segment.Built) {w : Weight}
    {s : FeatureScorer} (h : w.scorer? segment = some s) : Direct s := by
  induction w generalizing s with
  | anyTerm terms average =>
      simp only [scorer?] at h
      split at h
      · exact nomatch h
      · rw [← Option.some.inj h]
        exact (Union.direct _).map (FeatureScorer.anyTerm segment · average)
          (fun _ => rfl) (fun _ _ => rfl)
  | phrase terms =>
      obtain ⟨walk, hwalk, hs⟩ := Option.map_eq_some_iff.mp h
      obtain ⟨hfresh, term, hlead⟩ := ofPostings?_eq_some hwalk
      have hdirect : Direct walk := by
        refine PhraseWalk.direct hfresh ?_
        rw [hlead]
        exact (hbuilt.inOrder term).ascending
      rw [← hs]
      exact hdirect.map FeatureScorer.phrase (fun _ => rfl) (fun _ _ => rfl)
  | languageModel terms queryLength average =>
      simp only [scorer?] at h
      split at h
      · exact nomatch h
      · rw [← Option.some.inj h]
        exact (Union.direct _).map (FeatureScorer.languageModel segment · queryLength average)
          (fun _ => rfl) (fun _ _ => rfl)
  | constant score cacheable =>
      rw [← Option.some.inj h]
      exact (AllDocs.direct segment.maxDoc).map (FeatureScorer.constant · score)
        (fun _ => rfl) (fun _ _ => rfl)
  | boost inner factor ih =>
      obtain ⟨t, ht, hs⟩ := scorer?_boost h
      rw [hs]
      exact (ih ht).map (FeatureScorer.boost · factor) (fun _ => rfl) (fun _ _ => rfl)
  | derived sum =>
      rw [← Option.some.inj h]
      exact (AllDocs.direct segment.maxDoc).map (FeatureScorer.derived · sum)
        (fun _ => rfl) (fun _ _ => rfl)
  | nothing => exact nomatch h

/-! ## Documents of the segment -/

end Weight

/-- A scorer whose walk stays inside the segment. -/
def FeatureScorer.Inside (last : Nat) : FeatureScorer → Prop
  | .anyTerm _ walk _ => walk.Inside last
  | .phrase walk => walk.Inside last
  | .languageModel _ walk _ _ => walk.Inside last
  | .constant walk _ => walk.maxDoc = last
  | .derived walk _ => walk.maxDoc = last
  | .boost inner _ => inner.Inside last

/-- **Every move ends on a document of the segment**, or past all of them. -/
theorem FeatureScorer.Inside.advance {last target : Nat} {s : FeatureScorer} (h : s.Inside last)
    (hpos : 0 < target) : (s.advance target).Inside last ∧ (s.advance target).stop.Inside last := by
  induction s with
  | anyTerm segment walk average => exact Union.Inside.advance h hpos
  | phrase walk => exact PhraseWalk.Inside.advance h hpos
  | languageModel segment walk queryLength average => exact Union.Inside.advance h hpos
  | constant walk score => exact AllDocs.advance_inside target h
  | derived walk sum => exact AllDocs.advance_inside target h
  | boost inner factor ih => exact ih h

namespace Weight

/-- The cursors of terms are inside. -/
theorem cursors_inside {τ : Type} {segment : Segment} (hbuilt : segment.Built)
    (terms : List (TermId × τ)) :
    (Union.ofCursors (cursors segment terms)).Inside segment.maxDoc := by
  intro x hx
  obtain ⟨term, hpostings⟩ := mem_cursors hx
  rw [hpostings]
  exact Cursor.Inside.fresh (hbuilt.inOrder term)

/-- A fresh scorer is inside. -/
theorem scorer?_inside {segment : Segment} (hbuilt : segment.Built) {w : Weight}
    {s : FeatureScorer} (h : w.scorer? segment = some s) : s.Inside segment.maxDoc := by
  induction w generalizing s with
  | anyTerm terms average =>
      simp only [scorer?] at h
      split at h
      · exact nomatch h
      · rw [← Option.some.inj h]
        exact cursors_inside hbuilt terms
  | phrase terms =>
      obtain ⟨walk, hwalk, hs⟩ := Option.map_eq_some_iff.mp h
      obtain ⟨-, term, hlead⟩ := ofPostings?_eq_some hwalk
      rw [← hs]
      show ∀ p ∈ walk.lead.ahead, 0 < p.doc ∧ p.doc ≤ segment.maxDoc
      rw [hlead]
      exact (hbuilt.inOrder term).inside
  | languageModel terms queryLength average =>
      simp only [scorer?] at h
      split at h
      · exact nomatch h
      · rw [← Option.some.inj h]
        exact cursors_inside hbuilt terms
  | constant score cacheable =>
      rw [← Option.some.inj h]
      rfl
  | boost inner factor ih =>
      obtain ⟨t, ht, hs⟩ := scorer?_boost h
      have hinner : t.Inside segment.maxDoc := ih ht
      rw [hs]
      exact hinner
  | derived sum =>
      rw [← Option.some.inj h]
      rfl
  | nothing => exact nomatch h

/-! ## Scoring where it stands -/

/-- The cursors that match stand on a posting, so their frequencies are known. -/
theorem frequencies_ok {τ : Type} {segment : Segment} {terms : List (TermId × τ)} {doc : Nat}
    (hpos : 0 < doc) {walk : Union τ}
    (hwalk : walk = (Union.ofCursors (cursors segment terms)).advance doc)
    (hstop : walk.stop = .doc doc) :
    ∃ frequencies, FeatureScorer.frequencies walk = .ok frequencies := by
  refine mapM_ok ?_
  intro x hx
  obtain ⟨hmem, hon⟩ := List.mem_filter.mp hx
  rw [hwalk] at hmem
  obtain ⟨fresh, hfresh, hreach⟩ := List.mem_map.mp hmem
  obtain ⟨term, hpostings⟩ := mem_cursors hfresh
  have hbehind : (stop fresh.2).behind doc = true := by
    rw [hpostings]
    exact decide_eq_true hpos
  have hmoved : x.2 = fresh.2.advance doc := by
    rw [← hreach]
    exact reach_behind hbehind
  have hat : x.2.stop = .doc doc := by
    rw [hstop] at hon
    exact beq_iff_eq.mp hon
  cases hahead : x.2.ahead with
  | nil =>
      -- a cursor with nothing ahead has run out
      have hout : x.2.stop = Cursor.stopAt x.2.ahead := by rw [hmoved]; rfl
      rw [hat, hahead] at hout
      exact nomatch hout
  | cons p rest =>
      refine ⟨(x.1, p.frequency), ?_⟩
      simp only [Cursor.frequency, Cursor.posting, hahead]
      rfl

/-- A union that stands on a document of the segment has all that a score is read from. -/
theorem union_reads {τ : Type} {segment : Segment} {doc : Nat} (hpos : 0 < doc)
    (hle : doc ≤ segment.maxDoc) {terms : List (TermId × τ)}
    (hstop : ((Union.ofCursors (cursors segment terms)).advance doc).stop = .doc doc) :
    ∃ length frequencies,
      FeatureScorer.lengthAt segment ((Union.ofCursors (cursors segment terms)).advance doc).stop
        = .ok length ∧
      FeatureScorer.frequencies ((Union.ofCursors (cursors segment terms)).advance doc)
        = .ok frequencies := by
  obtain ⟨length, hlength⟩ := segment.length_ok hpos hle
  obtain ⟨frequencies, hfreq⟩ := frequencies_ok hpos rfl hstop
  refine ⟨length, frequencies, ?_, hfreq⟩
  rw [hstop]
  exact hlength

/-- A document of the segment is scored by every feature that it matches. -/
theorem scorerAt?_score_ok {segment : Segment} {doc : Nat} (hpos : 0 < doc)
    (hle : doc ≤ segment.maxDoc) {w : Weight} {s : FeatureScorer}
    (h : w.scorerAt? segment doc = some s) (vector : Option FeatureVector) :
    ∃ value, s.score vector = .ok value := by
  obtain ⟨hmap, hon⟩ := Option.filter_eq_some_iff.mp h
  obtain ⟨fresh, hfresh, hs⟩ := Option.map_eq_some_iff.mp hmap
  have hstop : s.stop = .doc doc := of_decide_eq_true hon
  -- under a boost only where the inner scorer stands is known, so the rest is left out
  clear h hmap hon
  induction w generalizing s fresh with
  | anyTerm terms average =>
      simp only [scorer?] at hfresh
      split at hfresh
      · exact nomatch hfresh
      · rw [← Option.some.inj hfresh] at hs
        rw [← hs] at hstop ⊢
        obtain ⟨length, frequencies, hlength, hfreq⟩ := union_reads hpos hle hstop
        exact ⟨Bm25.score frequencies length average,
          bind_eq_ok.mpr ⟨length, hlength, bind_eq_ok.mpr ⟨frequencies, hfreq, rfl⟩⟩⟩
  | phrase terms =>
      obtain ⟨walk, -, hwalk⟩ := Option.map_eq_some_iff.mp hfresh
      rw [← hwalk] at hs
      rw [← hs]
      exact ⟨_, rfl⟩
  | languageModel terms queryLength average =>
      simp only [scorer?] at hfresh
      split at hfresh
      · exact nomatch hfresh
      · rw [← Option.some.inj hfresh] at hs
        rw [← hs] at hstop ⊢
        obtain ⟨length, frequencies, hlength, hfreq⟩ := union_reads hpos hle hstop
        exact ⟨_, bind_eq_ok.mpr ⟨length, hlength, bind_eq_ok.mpr ⟨frequencies, hfreq, rfl⟩⟩⟩
  | constant score cacheable =>
      rw [← Option.some.inj hfresh] at hs
      rw [← hs]
      exact ⟨_, rfl⟩
  | boost inner factor ih =>
      obtain ⟨t, ht, hboost⟩ := scorer?_boost hfresh
      rw [hboost] at hs
      rw [← hs] at hstop ⊢
      obtain ⟨value, hvalue⟩ := ih t ht rfl hstop
      exact ⟨value * factor, bind_eq_ok.mpr ⟨value, hvalue, rfl⟩⟩
  | derived sum =>
      rw [← Option.some.inj hfresh] at hs
      rw [← hs]
      exact ⟨_, rfl⟩
  | nothing => exact nomatch hfresh

/-- **Every document of a segment has a score or none, but never a fault.** -/
theorem scoreAt_ok {segment : Segment} {doc : Nat} (hpos : 0 < doc) (hle : doc ≤ segment.maxDoc)
    (w : Weight) (vector : Option FeatureVector) :
    ∃ score, w.scoreAt segment doc vector = .ok score := by
  cases h : w.scorerAt? segment doc with
  | none => exact ⟨none, scoreAt_of_none h vector⟩
  | some s =>
      obtain ⟨value, hvalue⟩ := scorerAt?_score_ok hpos hle h vector
      exact ⟨some value, scoreAt_of_some h hvalue⟩

/-- Whether there is a score depends on no vector. -/
theorem scoreAt_isSome {segment : Segment} {doc : Nat} {w : Weight} {vector : Option FeatureVector}
    {score : Option Float32} (h : w.scoreAt segment doc vector = .ok score) :
    score.isSome = (w.scorerAt? segment doc).isSome := by
  cases hscorer : w.scorerAt? segment doc with
  | none =>
      rw [scoreAt_of_none hscorer] at h
      rw [← Except.ok.inj h]
      rfl
  | some s =>
      unfold scoreAt at h
      rw [hscorer] at h
      obtain ⟨value, -, h⟩ := bind_eq_ok.mp h
      rw [← Except.ok.inj h]
      rfl

/-- A scorer that was brought to other documents on the way is the fresh one where
    it stands on the document. -/
theorem filter_reachAll {segment : Segment} (hbuilt : segment.Built) (w : Weight)
    {targets : List Nat} {doc : Nat} (hasc : (targets ++ [doc]).Pairwise (· < ·))
    (hpos : ∀ t ∈ targets ++ [doc], 0 < t) :
    ((w.scorer? segment).map (reachAll (targets ++ [doc]))).filter (·.stop = .doc doc)
      = w.scorerAt? segment doc := by
  unfold scorerAt?
  cases h : w.scorer? segment with
  | none => rfl
  | some s =>
      have halike := (scorer?_direct hbuilt h).reachAll hasc hpos
      have hstops : (reachAll (targets ++ [doc]) s).stop = (DocWalk.advance doc s).stop :=
        halike.stop_eq
      simp only [Option.map_some, Option.filter_some, hstops]
      by_cases hon : (DocWalk.advance doc s).stop = .doc doc
      · rw [halike.eq_of_doc hon]
      · rw [if_neg (by simpa using hon), if_neg (by simpa using hon)]

end Weight

end FeatureRank
