import Mathlib.Data.List.Induction
import Mathlib.Data.List.TakeWhile
import FeatureRank.Proofs.Index.Postings
import FeatureRank.Walk.Phrase

/-! # Direct walks — the way to a document does not matter

    A disjunction moves the walks of its features only when it has to, so a walk
    reaches a document by way of whatever targets came up before.  A fresh walk
    is *direct* when none of that shows: brought to an earlier target first, it
    ends up where it would have gone at once (`DocWalk.Direct`), and then the same
    holds for any number of targets in between (`DocWalk.Direct.reachAll`).

    Walks that have run out keep a memory of how they got there, which nothing
    ever reads; `DocWalk.Alike` is equality up to that.

    Unions and walks over all documents are direct for any postings.  A phrase is
    direct because its first term has its postings in order: the heart is
    `PhraseWalk.seek_alike`, which says where seeking ends in terms of fresh
    cursors only. -/

namespace FeatureRank

namespace Stop

/-- A walk that is behind a target is behind every later one. -/
theorem behind_mono {s : Stop} {t u : Nat} (h : s.behind t = true) (hle : t ≤ u) :
    s.behind u = true := by
  cases s with
  | exhausted => exact absurd h (by simp [behind])
  | doc d =>
      simp only [behind, decide_eq_true_eq] at h ⊢
      omega

/-- An earlier stop is behind whatever a later one is behind. -/
theorem behind_of_le {a b : Stop} {t : Nat} (hle : a.le b = true) (h : b.behind t = true) :
    a.behind t = true := by
  cases b with
  | exhausted => exact absurd h (by simp [behind])
  | doc d =>
      cases a with
      | exhausted => exact absurd hle (by simp [le])
      | doc c =>
          simp only [behind, le, decide_eq_true_eq] at h hle ⊢
          omega

theorem le_refl (a : Stop) : a.le a = true := by
  cases a <;> simp [le]

theorem le_total (a b : Stop) : a.le b = true ∨ b.le a = true := by
  cases a <;> cases b <;> simp [le, Nat.le_total]

theorem le_trans {a b c : Stop} (hab : a.le b = true) (hbc : b.le c = true) :
    a.le c = true := by
  cases a <;> cases b <;> cases c <;> simp_all [le]
  omega

theorem earlier_le_left (a b : Stop) : (a.earlier b).le a = true := by
  unfold earlier
  by_cases h : a.le b = true
  · rw [if_pos h]; exact le_refl a
  · rw [if_neg h]
    exact (le_total a b).resolve_left h

theorem earlier_le_right (a b : Stop) : (a.earlier b).le b = true := by
  unfold earlier
  by_cases h : a.le b = true
  · rw [if_pos h]; exact h
  · rw [if_neg h]; exact le_refl b

theorem earlier_eq (a b : Stop) : a.earlier b = a ∨ a.earlier b = b := by
  unfold earlier
  split
  · exact Or.inl rfl
  · exact Or.inr rfl

end Stop

namespace DocWalk

variable {ω ν : Type} [DocWalk ω] [DocWalk ν]

theorem reach_behind {w : ω} {t : Nat} (h : (stop w).behind t = true) :
    reach t w = advance t w := if_pos h

theorem reach_ahead {w : ω} {t : Nat} (h : (stop w).behind t = false) : reach t w = w :=
  if_neg (by rw [h]; exact Bool.false_ne_true)

theorem next_doc {w : ω} {d : Nat} (h : stop w = .doc d) : next w = advance (d + 1) w := by
  unfold next
  rw [h]

theorem next_exhausted {w : ω} (h : stop w = .exhausted) : next w = w := by
  unfold next
  rw [h]

/-- Two walks that nothing tells apart from here on: they are the same, or both
    have run out. -/
def Alike (a b : ω) : Prop := a = b ∨ (stop a = .exhausted ∧ stop b = .exhausted)

namespace Alike

theorem refl (a : ω) : Alike a a := Or.inl rfl

theorem symm {a b : ω} (h : Alike a b) : Alike b a := by
  rcases h with rfl | ⟨ha, hb⟩
  · exact refl a
  · exact Or.inr ⟨hb, ha⟩

theorem stop_eq {a b : ω} (h : Alike a b) : stop a = stop b := by
  rcases h with rfl | ⟨ha, hb⟩
  · rfl
  · rw [ha, hb]

theorem trans {a b c : ω} (hab : Alike a b) (hbc : Alike b c) : Alike a c := by
  rcases hab with rfl | ⟨ha, hb⟩
  · exact hbc
  · exact Or.inr ⟨ha, hbc.stop_eq ▸ hb⟩

/-- Alike walks that stand on a document are the same. -/
theorem eq_of_doc {a b : ω} {d : Nat} (h : Alike a b) (hd : stop b = .doc d) : a = b := by
  rcases h with rfl | ⟨-, hb⟩
  · rfl
  · rw [hd] at hb; exact nomatch hb

/-- Bringing alike walks to a target leaves them alike. -/
theorem reach {a b : ω} (h : Alike a b) (t : Nat) :
    Alike (DocWalk.reach t a) (DocWalk.reach t b) := by
  rcases h with rfl | ⟨ha, hb⟩
  · exact refl _
  · rw [reach_ahead (by rw [ha]; rfl), reach_ahead (by rw [hb]; rfl)]
    exact Or.inr ⟨ha, hb⟩

end Alike

/-- A fresh walk that may be brought to a target by way of an earlier one. -/
structure Direct (w : ω) : Prop where
  fresh : stop w = .start
  via : ∀ {t u : Nat}, 0 < t → t ≤ u → Alike (reach u (advance t w)) (advance u w)

/-- A walk brought to targets one after the other. -/
def reachAll (targets : List Nat) (w : ω) : ω := targets.foldl (fun w t => reach t w) w

@[simp] theorem reachAll_nil (w : ω) : reachAll [] w = w := rfl

theorem reachAll_concat (targets : List Nat) (last : Nat) (w : ω) :
    reachAll (targets ++ [last]) w = reach last (reachAll targets w) := by
  simp [reachAll]

namespace Direct

/-- **Any ascending targets lead where the last one leads.** -/
theorem reachAll {w : ω} (h : Direct w) {targets : List Nat} {last : Nat}
    (hasc : (targets ++ [last]).Pairwise (· < ·)) (hpos : ∀ t ∈ targets ++ [last], 0 < t) :
    Alike (DocWalk.reachAll (targets ++ [last]) w) (advance last w) := by
  induction targets using List.reverseRecOn generalizing last with
  | nil =>
      have hbehind : (stop w).behind last = true := by
        rw [h.fresh]
        exact decide_eq_true (hpos last (by simp))
      rw [reachAll_concat, reachAll_nil, reach_behind hbehind]
      exact Alike.refl _
  | append_singleton earlier t ih =>
      have hprev : Alike (DocWalk.reachAll (earlier ++ [t]) w) (advance t w) :=
        ih (List.pairwise_append.mp hasc).1
          fun u hu => hpos u (List.mem_append_left _ hu)
      have hlt : t < last :=
        (List.pairwise_append.mp hasc).2.2 t (by simp) last (List.mem_singleton_self _)
      rw [reachAll_concat]
      exact (hprev.reach last).trans (h.via (hpos t (by simp)) (Nat.le_of_lt hlt))

/-- A walk that only wraps a direct one is direct. -/
theorem map {w : ω} (h : Direct w) (f : ω → ν) (hstop : ∀ a, stop (f a) = stop a)
    (hadvance : ∀ t a, advance t (f a) = f (advance t a)) : Direct (f w) := by
  refine ⟨(hstop w).trans h.fresh, ?_⟩
  intro t u ht htu
  have hreach : ∀ a, DocWalk.reach u (f a) = f (DocWalk.reach u a) := by
    intro a
    unfold DocWalk.reach
    rw [hstop, hadvance]
    split <;> rfl
  rw [hadvance, hadvance, hreach]
  rcases h.via ht htu with heq | ⟨ha, hb⟩
  · exact Or.inl (congrArg f heq)
  · exact Or.inr ⟨(hstop _).trans ha, (hstop _).trans hb⟩

end Direct

end DocWalk

open DocWalk

/-! ## All documents -/

/-- The walk over all documents is direct. -/
theorem AllDocs.direct (maxDoc : Nat) : Direct ({ maxDoc } : AllDocs) := by
  refine ⟨rfl, ?_⟩
  intro t u ht htu
  refine Or.inl ?_
  show reach u (AllDocs.advance t { maxDoc }) = AllDocs.advance u { maxDoc }
  unfold reach AllDocs.advance
  have hmax : max t 1 = t := by omega
  have hmax' : max u 1 = u := by omega
  simp only [DocWalk.stop, hmax]
  by_cases hpast : maxDoc < t
  · have hpast' : maxDoc < u := by omega
    rw [if_pos hpast, hmax', if_pos hpast']
    rfl
  · rw [if_neg hpast]
    simp only [Stop.behind, decide_eq_true_eq]
    by_cases hlt : t < u
    · rw [if_pos hlt]
      rfl
    · have heq : t = u := by omega
      rw [if_neg hlt, ← heq, hmax, if_neg hpast]

/-! ## Cursors and their union -/

/-- Dropping what is before an earlier target first makes no difference. -/
theorem dropWhile_doc_lt {t u : Nat} (h : t ≤ u) (postings : List Posting) :
    (postings.dropWhile (·.doc < t)).dropWhile (·.doc < u)
      = postings.dropWhile (·.doc < u) := by
  induction postings with
  | nil => rfl
  | cons p rest ih =>
      by_cases hp : p.doc < t
      · have hp' : p.doc < u := by omega
        rw [List.dropWhile_cons_of_pos (by simpa using hp),
          List.dropWhile_cons_of_pos (by simpa using hp')]
        exact ih
      · rw [List.dropWhile_cons_of_neg (by simpa using hp)]

/-- Nothing is dropped when the first posting is at the target or beyond. -/
theorem dropWhile_of_stopAt {u : Nat} {postings : List Posting}
    (h : (Cursor.stopAt postings).behind u = false) :
    postings.dropWhile (·.doc < u) = postings := by
  cases postings with
  | nil => rfl
  | cons p rest =>
      simp only [Cursor.stopAt, Stop.behind, decide_eq_false_iff_not] at h
      exact List.dropWhile_cons_of_neg (by simpa using h)

/-- A cursor may be brought to a target by way of an earlier one. -/
theorem Cursor.reach_reach {t u : Nat} (h : t ≤ u) (c : Cursor) :
    reach u (reach t c) = reach u c := by
  cases hc : c.stop.behind t with
  | false => rw [reach_ahead (w := c) (t := t) hc]
  | true =>
      rw [reach_behind (w := c) (t := t) hc,
        reach_behind (w := c) (t := u) (Stop.behind_mono hc h)]
      have hdirect : c.advance u = (c.advance t).advance u := by
        simp only [Cursor.advance, dropWhile_doc_lt h]
      cases hstop : (c.advance t).stop.behind u with
      | true =>
          rw [show reach u (DocWalk.advance t c) = (c.advance t).advance u
            from reach_behind hstop]
          exact hdirect.symm
      | false =>
          rw [show reach u (DocWalk.advance t c) = c.advance t from reach_ahead hstop]
          show c.advance t = c.advance u
          rw [hdirect]
          have hkeep := dropWhile_of_stopAt hstop
          simp only [Cursor.advance] at hkeep ⊢
          rw [hkeep]

namespace Union

variable {τ : Type}

/-- The earliest stop is before the stop of every cursor. -/
theorem earliest_le {cursors : List (τ × Cursor)} {label : τ} {c : Cursor}
    (h : (label, c) ∈ cursors) : (earliest cursors).le c.stop = true := by
  have hfold : ∀ (l : List (τ × Cursor)) (s : Stop),
      (l.foldl (fun stop x => stop.earlier x.2.stop) s).le s = true ∧
        ∀ x ∈ l, (l.foldl (fun stop x => stop.earlier x.2.stop) s).le x.2.stop = true := by
    intro l
    induction l with
    | nil => intro s; exact ⟨Stop.le_refl s, by simp⟩
    | cons first rest ih =>
        intro s
        obtain ⟨hinit, hrest⟩ := ih (s.earlier first.2.stop)
        refine ⟨Stop.le_trans hinit (Stop.earlier_le_left _ _), ?_⟩
        intro x hx
        rcases List.mem_cons.mp hx with heq | hmem
        · rw [heq]
          exact Stop.le_trans hinit (Stop.earlier_le_right _ _)
        · exact hrest x hmem
  exact (hfold cursors .exhausted).2 (label, c) h

/-- A union stands where one of its cursors stands. -/
theorem earliest_eq_doc {cursors : List (τ × Cursor)} {doc : Nat}
    (h : earliest cursors = .doc doc) : ∃ x ∈ cursors, x.2.stop = .doc doc := by
  have hfold : ∀ (l : List (τ × Cursor)) (s : Stop),
      l.foldl (fun stop x => stop.earlier x.2.stop) s = .doc doc →
      s = .doc doc ∨ ∃ x ∈ l, x.2.stop = .doc doc := by
    intro l
    induction l with
    | nil => intro s hs; exact Or.inl hs
    | cons first rest ih =>
        intro s hs
        rcases ih (s.earlier first.2.stop) hs with hfirst | ⟨x, hx, hstop⟩
        · rcases Stop.earlier_eq s first.2.stop with heq | heq
          · exact Or.inl (heq ▸ hfirst)
          · exact Or.inr ⟨first, List.mem_cons_self, heq ▸ hfirst⟩
        · exact Or.inr ⟨x, List.mem_cons_of_mem _ hx, hstop⟩
  rcases hfold cursors .exhausted h with hnone | hfound
  · cases hnone
  · exact hfound

/-- A union may be brought to a target by way of an earlier one. -/
theorem reach_advance {t u : Nat} (h : t ≤ u) (w : Union τ) :
    reach u (w.advance t) = w.advance u := by
  have hvia : ∀ x : τ × Cursor,
      (x.1, reach u (reach t x.2)) = (x.1, reach u x.2) := fun x => by
    rw [Cursor.reach_reach h]
  cases hstop : (w.advance t).stop.behind u with
  | true =>
      rw [reach_behind (w := w.advance t) hstop]
      show (w.advance t).advance u = w.advance u
      simp only [Union.advance, List.map_map, Function.comp_def, hvia]
  | false =>
      rw [reach_ahead (w := w.advance t) hstop]
      -- no cursor is behind the target, so none would have moved any further
      have hkeep : ∀ x ∈ w.cursors, reach t x.2 = reach u x.2 := by
        intro x hx
        rw [← Cursor.reach_reach h]
        refine (reach_ahead ?_).symm
        have hle : (w.advance t).stop.le (reach t x.2).stop = true :=
          earliest_le (List.mem_map.mpr ⟨x, hx, rfl⟩)
        cases hx' : (reach t x.2).stop.behind u with
        | false => rfl
        | true =>
            rw [Stop.behind_of_le hle hx'] at hstop
            exact nomatch hstop
      have hcursors : w.cursors.map (fun x => (x.1, reach t x.2))
          = w.cursors.map (fun x => (x.1, reach u x.2)) :=
        List.map_congr_left fun x hx => by rw [hkeep x hx]
      show (⟨w.cursors.map (fun x => (x.1, reach t x.2)), _⟩ : Union τ) = _
      simp only [Union.advance, hcursors]

/-- A fresh union is direct, whatever its postings. -/
theorem direct (cursors : List (τ × Cursor)) : Direct (Union.ofCursors cursors) :=
  ⟨rfl, fun _ htu => Or.inl (reach_advance htu _)⟩

end Union

/-! ## Phrases -/

namespace PhraseWalk

/-- How often the phrase occurs in the document of a posting of the first term,
    told by bringing the cursors of the other terms straight there. -/
def occurrencesIn (others : List Cursor) (p : Posting) : Nat :=
  countAt p.doc p (others.map (reach p.doc))

/-- The postings of the first term from the first one on whose document holds
    the phrase. -/
def holding (others : List Cursor) (postings : List Posting) : List Posting :=
  postings.dropWhile fun p => occurrencesIn others p == 0

/-- The walk that stands on the first of some postings. -/
def standOn (total : Nat) (others : List Cursor) : List Posting → PhraseWalk
  | [] => finished total others
  | p :: rest =>
    ⟨⟨p :: rest, total, .doc p.doc⟩, others.map (reach p.doc), .doc p.doc,
      occurrencesIn others p⟩

/-- A phrase does not occur where one of its cursors has run out. -/
theorem countAt_exhausted {doc : Nat} {lead : Posting} {others : List Cursor} {c : Cursor}
    (hc : c ∈ others) (hstop : c.stop = .exhausted) : countAt doc lead others = 0 := by
  have hnone : others.mapM (postingAt? doc) = none := by
    induction others with
    | nil => exact nomatch hc
    | cons first rest ih =>
        rw [List.mapM_cons]
        rcases List.mem_cons.mp hc with heq | hmem
        · have hfirst : postingAt? doc first = none := by
            unfold postingAt?
            rw [← heq, hstop]
            cases c.ahead with
            | nil => rfl
            | cons p l => rfl
          rw [hfirst]
          rfl
        · rw [ih hmem]
          cases postingAt? doc first <;> rfl
  unfold countAt
  rw [hnone]

/-- **Where seeking ends**: on the first posting whose document holds the phrase.
    The cursors may have been brought to earlier documents before. -/
theorem seek_alike (total : Nat) (others : List Cursor) {postings : List Posting}
    (hasc : postings.Pairwise fun p q => p.doc < q.doc) :
    ∀ moved : List Cursor,
      (∀ p ∈ postings, moved.map (reach p.doc) = others.map (reach p.doc)) →
      Alike (seek total postings moved) (standOn total others (holding others postings)) := by
  induction postings with
  | nil => intro moved _; exact Or.inr ⟨rfl, rfl⟩
  -- on the postings ahead, with the other cursors general: trying a document moves them
  | cons p rest ih =>
      intro moved hmoved
      obtain ⟨hlater, hrest⟩ := List.pairwise_cons.mp hasc
      have hhere : moved.map (reach p.doc) = others.map (reach p.doc) :=
        hmoved p List.mem_cons_self
      -- from here on only cursors that were brought to this document matter
      have hon : ∀ q ∈ rest,
          (others.map (reach p.doc)).map (reach q.doc) = others.map (reach q.doc) := by
        intro q hq
        rw [List.map_map]
        exact List.map_congr_left fun c _ =>
          Cursor.reach_reach (Nat.le_of_lt (hlater q hq)) c
      unfold seek
      rw [hhere]
      cases hcount : occurrencesIn others p with
      | succ n =>
          have hhold : holding others (p :: rest) = p :: rest :=
            List.dropWhile_cons_of_neg (by rw [hcount]; simp)
          have hcount' : countAt p.doc p (others.map (reach p.doc)) = n + 1 := hcount
          rw [hhold]
          simp only [hcount', standOn, hcount]
          exact Alike.refl _
      | zero =>
          have hhold : holding others (p :: rest) = holding others rest :=
            List.dropWhile_cons_of_pos (by rw [hcount]; rfl)
          have hcount' : countAt p.doc p (others.map (reach p.doc)) = 0 := hcount
          rw [hhold]
          simp only [hcount']
          by_cases hany : (others.map (reach p.doc)).any (·.stop == .exhausted) = true
          · rw [if_pos hany]
            obtain ⟨c, hc, hout⟩ := List.any_eq_true.mp hany
            have hout' : c.stop = .exhausted := by simpa using hout
            -- a cursor that has run out stays out, so no later document holds the phrase
            have hnone : holding others rest = [] := by
              refine List.dropWhile_eq_nil_iff.mpr ?_
              intro q hq
              have hkeep : c ∈ others.map (reach q.doc) := by
                rw [← hon q hq]
                have hstay : reach q.doc c = c :=
                  reach_ahead (by show c.stop.behind q.doc = false; rw [hout']; rfl)
                exact List.mem_map.mpr ⟨c, hc, hstay⟩
              exact beq_iff_eq.mpr (countAt_exhausted hkeep hout')
            rw [hnone]
            exact Or.inr ⟨rfl, rfl⟩
          · rw [if_neg hany]
            exact ih hrest _ hon

/-- Postings before the first one that holds the phrase may be skipped, whichever
    way they are left out. -/
theorem holding_dropWhile (u : Nat) (others : List Cursor) {postings : List Posting}
    (hasc : postings.Pairwise fun p q => p.doc < q.doc) :
    match holding others postings with
    | [] => holding others (postings.dropWhile (·.doc < u)) = []
    | p :: rest =>
        (p.doc < u → (p :: rest).dropWhile (·.doc < u) = postings.dropWhile (·.doc < u)) ∧
        (u ≤ p.doc → holding others (postings.dropWhile (·.doc < u)) = p :: rest) := by
  induction postings with
  | nil => rfl
  | cons q qs ih =>
      obtain ⟨hlater, hqs⟩ := List.pairwise_cons.mp hasc
      -- only a posting that does not hold the phrase may be skipped, by either of the two
      by_cases hq : occurrencesIn others q = 0
      · have hhold : holding others (q :: qs) = holding others qs :=
          List.dropWhile_cons_of_pos (by rw [hq]; rfl)
        rw [hhold]
        have ih := ih hqs
        by_cases hlt : q.doc < u
        · rw [List.dropWhile_cons_of_pos (by simpa using hlt)]
          exact ih
        · have hkeep : (q :: qs).dropWhile (·.doc < u) = q :: qs :=
            List.dropWhile_cons_of_neg (by simpa using hlt)
          rw [hkeep, hhold]
          cases hqs' : holding others qs with
          | nil => rfl
          | cons p rest =>
              refine ⟨fun hp => ?_, fun _ => rfl⟩
              have hmem : p ∈ qs :=
                (List.dropWhile_sublist _).subset (hqs' ▸ List.mem_cons_self)
              have := hlater p hmem
              omega
      · have hhold : holding others (q :: qs) = q :: qs :=
          List.dropWhile_cons_of_neg (by simpa using hq)
        rw [hhold]
        refine ⟨fun _ => rfl, fun hle => ?_⟩
        rw [List.dropWhile_cons_of_neg (by simpa using hle)]
        exact hhold

/-- A phrase that is told to go further seeks among the postings ahead. -/
theorem advance_eq_seek {t : Nat} (ht : 0 < t) (w : PhraseWalk) :
    w.advance t = seek w.lead.total (w.lead.ahead.dropWhile (·.doc < t)) w.others := by
  have hcount : w.countUnmoved t = 0 := by
    unfold countUnmoved
    cases w.lead.ahead with
    | nil => rfl
    | cons p rest =>
        have hne : t ≠ 0 := by omega
        simp [hne]
  unfold advance
  rw [hcount]

/-- A fresh phrase is direct when its first term has its postings in order. -/
theorem direct {w : PhraseWalk} (hfresh : w.stop = .start)
    (hasc : w.lead.ahead.Pairwise fun p q => p.doc < q.doc) : Direct w := by
  refine ⟨hfresh, ?_⟩
  intro t u ht htu
  have hu : 0 < u := by omega
  have hto : ∀ s, 0 < s → Alike (w.advance s)
      (standOn w.lead.total w.others (holding w.others (w.lead.ahead.dropWhile (·.doc < s)))) := by
    intro s hs
    rw [advance_eq_seek hs]
    exact seek_alike _ _ (hasc.sublist (List.dropWhile_sublist _)) w.others fun _ _ => rfl
  refine ((hto t ht).reach u).trans (Alike.trans ?_ (hto u hu).symm)
  -- both sides now speak of fresh cursors only
  have hasc' : (w.lead.ahead.dropWhile (·.doc < t)).Pairwise fun p q => p.doc < q.doc :=
    hasc.sublist (List.dropWhile_sublist _)
  have hskip := holding_dropWhile u w.others hasc'
  rw [dropWhile_doc_lt htu] at hskip
  cases hhold : holding w.others (w.lead.ahead.dropWhile (·.doc < t)) with
  | nil =>
      simp only [hhold] at hskip
      rw [hskip]
      exact Or.inr ⟨rfl, rfl⟩
  | cons p rest =>
      simp only [hhold] at hskip
      by_cases hlt : p.doc < u
      · have hbehind : (standOn w.lead.total w.others (p :: rest)).stop.behind u = true :=
          decide_eq_true hlt
        -- it goes on from the document where it stands, with cursors that were moved there
        rw [show reach u (standOn w.lead.total w.others (p :: rest))
          = (standOn w.lead.total w.others (p :: rest)).advance u from reach_behind hbehind]
        rw [advance_eq_seek hu]
        show Alike (seek w.lead.total ((p :: rest).dropWhile (·.doc < u))
          (w.others.map (reach p.doc))) _
        rw [hskip.1 hlt]
        have hu' : (w.lead.ahead.dropWhile (·.doc < u)).Pairwise fun p q => p.doc < q.doc :=
          hasc.sublist (List.dropWhile_sublist _)
        refine seek_alike _ _ hu' _ ?_
        intro q hq
        rw [List.map_map]
        refine List.map_congr_left fun c _ => Cursor.reach_reach ?_ c
        rw [← hskip.1 hlt] at hq
        have hqmem : q ∈ p :: rest := (List.dropWhile_sublist _).subset hq
        have hpr : (p :: rest).Pairwise fun p q => p.doc < q.doc :=
          hhold ▸ hasc'.sublist (List.dropWhile_sublist _)
        rcases List.mem_cons.mp hqmem with heq | hmem
        · exact Nat.le_of_eq (congrArg Posting.doc heq.symm)
        · exact Nat.le_of_lt ((List.pairwise_cons.mp hpr).1 q hmem)
      · have hahead : (standOn w.lead.total w.others (p :: rest)).stop.behind u = false :=
          decide_eq_false hlt
        rw [show reach u (standOn w.lead.total w.others (p :: rest))
          = standOn w.lead.total w.others (p :: rest) from reach_ahead hahead]
        rw [hskip.2 (Nat.le_of_not_lt hlt)]
        exact Alike.refl _

end PhraseWalk

end FeatureRank
