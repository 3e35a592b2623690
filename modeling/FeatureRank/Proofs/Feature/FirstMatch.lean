import FeatureRank.Proofs.Feature.Meaning

/-! # First matches

    A scorer that is brought to a document stops on the first document from there on
    that its weight matches (`Weight.firstMatch`). -/

namespace FeatureRank

open DocWalk

namespace Weight

/-! ## Where scorers stop -/

section

variable {docs : List (List TermId)} {w : Weight} {s : FeatureScorer}
  (hs : w.scorer? (Segment.ofDocs docs) = some s)

include hs in
/-- A scorer never stops before the document that it is brought to. -/
theorem behind_advance (index : Nat) : (s.advance (index + 1)).stop.behind (index + 1) = false := by
  have hall : (AllDocs.advance (index + 1) { maxDoc := (Segment.ofDocs docs).maxDoc }).stop.behind
      (index + 1) = false := by
    by_cases hlt : docs.length < index + 1
    · simp [AllDocs.advance, hlt, Stop.behind]
    · simp [AllDocs.advance, hlt, Stop.behind]
  induction w generalizing s with
  | anyTerm terms average =>
      simp only [scorer?] at hs
      split at hs
      · cases hs
      · rw [← Option.some.inj hs]
        exact behind_unionAt docs index terms
  | phrase terms =>
      obtain ⟨walk, hwalk, hphrase⟩ := Option.map_eq_some_iff.mp hs
      rw [← hphrase]
      cases terms with
      | nil => cases hwalk
      | cons term rest =>
          rcases ofPostings?_cases docs term rest with hsome | ⟨hnone, -⟩
          · rw [Option.some.inj (hwalk.symm.trans hsome)]
            exact behind_phraseWalk docs index term rest
          · rw [hnone] at hwalk
            cases hwalk
  | languageModel terms queryLength average =>
      simp only [scorer?] at hs
      split at hs
      · cases hs
      · rw [← Option.some.inj hs]
        exact behind_unionAt docs index terms
  | constant score cacheable =>
      rw [← Option.some.inj hs]
      exact hall
  | boost inner factor ih =>
      obtain ⟨t, ht, hboost⟩ := scorer?_boost hs
      have hinner : (t.advance (index + 1)).stop.behind (index + 1) = false := ih ht
      rw [hboost]
      exact hinner
  | derived sum =>
      rw [← Option.some.inj hs]
      exact hall
  | nothing => cases hs

include hs in
/-- Where a scorer stops it is as if it was brought straight there. -/
theorem scorerAt?_of_stop {index number : Nat}
    (hstop : (s.advance (index + 1)).stop = .doc number) :
    index < number ∧ number ≤ docs.length ∧
      w.scorerAt? (Segment.ofDocs docs) number = some (s.advance (index + 1)) := by
  have hbuilt := Segment.built_ofDocs docs
  have hbehind := behind_advance hs index
  rw [hstop] at hbehind
  have hle : index + 1 ≤ number := Nat.not_lt.mp (of_decide_eq_false hbehind)
  have hlast := (((scorer?_inside hbuilt hs).advance (Nat.succ_pos index)).2 number hstop).2
  rw [Segment.maxDoc_ofDocs] at hlast
  refine ⟨hle, hlast, ?_⟩
  have halike := (scorer?_direct hbuilt hs).via (Nat.succ_pos index) hle
  have hstands : reach number (advance (index + 1) s) = advance (index + 1) s := by
    refine reach_ahead ?_
    rw [show stop (advance (index + 1) s) = _ from hstop]
    exact decide_eq_false (Nat.lt_irrefl _)
  rw [hstands] at halike
  have hsame : advance number s = advance (index + 1) s := halike.symm.eq_of_doc hstop
  rw [scorerAt?_of_scorer? hs, show s.advance number = s.advance (index + 1) from hsame,
    if_pos hstop]

include hs in
/-- A scorer stops only on documents that match, and says what the weight says of them. -/
theorem matches_of_stop {index number : Nat} (hstop : (s.advance (index + 1)).stop = .doc number) :
    ∃ place doc, number = place + 1 ∧ index ≤ place ∧ docs[place]? = some doc ∧
      w.matchesDoc doc = true ∧ w.Says doc (s.advance (index + 1)) := by
  obtain ⟨hlt, hlast, hat⟩ := scorerAt?_of_stop hs hstop
  obtain ⟨place, rfl⟩ : ∃ place, number = place + 1 := ⟨number - 1, by omega⟩
  have hdoc : docs[place]? = some docs[place] := List.getElem?_eq_getElem hlast
  refine ⟨place, docs[place], rfl, by omega, hdoc, ?_⟩
  rcases scorerAt?_ofDocs hdoc w with ⟨-, hnone⟩ | ⟨hmatch, t, ht, hreads⟩
  · rw [hat] at hnone
    exact nomatch hnone
  · rw [Option.some.inj (hat.symm.trans ht)]
    exact ⟨hmatch, hreads⟩

include hs in
/-- A scorer passes over no document that matches. -/
theorem stop_le_of_matches {index place : Nat} (hle : index ≤ place) {doc : List TermId}
    (hdoc : docs[place]? = some doc) (hmatch : w.matchesDoc doc = true) :
    (s.advance (index + 1)).stop.le (.doc (place + 1)) = true := by
  have hfresh : (s.advance (place + 1)).stop = .doc (place + 1) := by
    by_contra hne
    rw [← isSome_scorerAt? hdoc w, scorerAt?_of_scorer? hs, if_neg hne] at hmatch
    exact nomatch hmatch
  have halike := (scorer?_direct (Segment.built_ofDocs docs) hs).via (Nat.succ_pos index)
    (Nat.succ_le_succ hle)
  have hstands : stop (reach (place + 1) (advance (index + 1) s)) = .doc (place + 1) :=
    halike.stop_eq.trans hfresh
  by_cases hbehind : (stop (advance (index + 1) s)).behind (place + 1) = true
  · cases hstop : stop (advance (index + 1) s) with
    | exhausted =>
        rw [hstop] at hbehind
        exact nomatch hbehind
    | doc number =>
        rw [hstop] at hbehind
        have hlt : number < place + 1 := of_decide_eq_true hbehind
        rw [show (s.advance (index + 1)).stop = .doc number from hstop]
        exact decide_eq_true (Nat.le_of_lt hlt)
  · rw [reach_ahead (Bool.eq_false_iff.mpr hbehind)] at hstands
    rw [show (s.advance (index + 1)).stop = _ from hstands]
    exact Stop.le_refl _

end

/-- The first document of some that matches, by how many are passed over before it;
    nothing when none does. -/
inductive FirstMatch (matching : List TermId → Bool) (before : Nat) :
    List (List TermId) → Stop → Prop where
  | none {docs : List (List TermId)} (hnone : ∀ doc ∈ docs, matching doc = false) :
      FirstMatch matching before docs .exhausted
  | found {skipped later : List (List TermId)} {doc : List TermId}
      (hskipped : ∀ doc ∈ skipped, matching doc = false) (hmatch : matching doc = true) :
      FirstMatch matching before (skipped ++ doc :: later) (.doc (before + skipped.length + 1))

/-- The first document that matches, found among the documents after some earlier
    ones: those up to it, by their numbers, and those that are left. -/
structure FoundAt (matching : List TermId → Bool) (earlier rest : List (List TermId))
    (place : Nat) (doc : List TermId) (skipped : List (List TermId × Nat))
    (upTo later : List (List TermId)) : Prop where
  found : (earlier ++ rest)[place]? = some doc
  hmatch : matching doc = true
  after : earlier.length ≤ place
  split : earlier ++ rest = upTo ++ later
  length : upTo.length = place + 1
  numbered : rest.zipIdx (earlier.length + 1)
    = skipped ++ (doc, place + 1) :: later.zipIdx (place + 2)
  hskipped : ∀ x ∈ skipped, matching x.1 = false
  fewer : later.length < rest.length

/-- What holds of all numbered documents holds of the one found and of those left. -/
theorem FoundAt.forall_numbered {matching : List TermId → Bool}
    {earlier rest upTo later : List (List TermId)} {place : Nat} {doc : List TermId}
    {skipped : List (List TermId × Nat)}
    (h : FoundAt matching earlier rest place doc skipped upTo later)
    {P : List TermId × Nat → Prop} (hall : ∀ x ∈ rest.zipIdx (earlier.length + 1), P x) :
    P (doc, place + 1) ∧ ∀ x ∈ later.zipIdx (upTo.length + 1), P x := by
  rw [h.numbered] at hall
  rw [h.length]
  exact List.forall_mem_cons.mp fun x hx => hall x (List.mem_append_right skipped hx)

theorem FirstMatch.cases {matching : List TermId → Bool} {earlier rest : List (List TermId)}
    {s : Stop} (h : FirstMatch matching earlier.length rest s) :
    (s = .exhausted ∧ ∀ x ∈ rest.zipIdx (earlier.length + 1), matching x.1 = false) ∨
    ∃ place doc skipped upTo later, s = .doc (place + 1) ∧
      FoundAt matching earlier rest place doc skipped upTo later := by
  cases h with
  | none hnone => exact Or.inl ⟨rfl, fun x hx => hnone x.1 (List.fst_mem_of_mem_zipIdx hx)⟩
  | @found skipped later doc hskipped hmatch =>
      refine Or.inr ⟨earlier.length + skipped.length, doc,
        skipped.zipIdx (earlier.length + 1), earlier ++ skipped ++ [doc], later, rfl, ?_⟩
      exact {
        found := by simp
        hmatch
        after := Nat.le_add_right _ _
        split := by simp
        length := by simp [Nat.add_assoc]
        numbered := by
          rw [List.zipIdx_append, List.zipIdx_cons,
            show earlier.length + 1 + skipped.length = earlier.length + skipped.length + 1 by omega]
        hskipped := fun x hx => hskipped x.1 (List.fst_mem_of_mem_zipIdx hx)
        fewer := by
          simp only [List.length_append, List.length_cons]
          omega }

/-- **A scorer stops on the first document that matches** among those from its
    target on. -/
theorem firstMatch {before rest : List (List TermId)} {w : Weight} {s : FeatureScorer}
    (hs : w.scorer? (Segment.ofDocs (before ++ rest)) = some s) :
    FirstMatch (w.matchesDoc ·) before.length rest (s.advance (before.length + 1)).stop := by
  have hpast : ∀ k (hk : k < rest.length), w.matchesDoc rest[k] = true →
      (s.advance (before.length + 1)).stop.le (.doc (before.length + k + 1)) = true := by
    intro k hk hmatch
    refine stop_le_of_matches hs (Nat.le_add_right _ _) ?_ hmatch
    rw [List.getElem?_append_right (Nat.le_add_right _ _), Nat.add_sub_cancel_left,
      List.getElem?_eq_getElem hk]
  cases hstop : (s.advance (before.length + 1)).stop with
  | exhausted =>
      refine .none ?_
      intro doc hdoc
      obtain ⟨k, hk, rfl⟩ := List.mem_iff_getElem.mp hdoc
      rw [Bool.eq_false_iff]
      intro hmatch
      have := hpast k hk hmatch
      rw [hstop] at this
      exact nomatch this
  | doc number =>
      obtain ⟨place, doc, rfl, hle, hdoc, hmatch, -⟩ := matches_of_stop hs hstop
      obtain ⟨k, rfl⟩ := Nat.exists_eq_add_of_le hle
      rw [List.getElem?_append_right (Nat.le_add_right _ _), Nat.add_sub_cancel_left] at hdoc
      obtain ⟨hk, rfl⟩ := List.getElem?_eq_some_iff.mp hdoc
      have hskipped : ∀ doc ∈ rest.take k, w.matchesDoc doc = false := by
        intro doc hdoc
        obtain ⟨j, hj, rfl⟩ := List.mem_iff_getElem.mp hdoc
        rw [List.length_take] at hj
        rw [List.getElem_take, Bool.eq_false_iff]
        intro hmatch
        have hle := hpast j (by omega) hmatch
        rw [hstop] at hle
        have : before.length + k + 1 ≤ before.length + j + 1 := of_decide_eq_true hle
        omega
      have hfound : FirstMatch (w.matchesDoc ·) before.length
          (rest.take k ++ rest[k] :: rest.drop (k + 1)) _ := .found hskipped hmatch
      rw [List.length_take, Nat.min_eq_left (Nat.le_of_lt hk)] at hfound
      rw [← List.take_append_drop k rest, List.drop_eq_getElem_cons hk]
      exact hfound

end Weight

end FeatureRank
