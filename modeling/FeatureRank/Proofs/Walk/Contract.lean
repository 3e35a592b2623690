import FeatureRank.Proofs.Walk.Direct

/-! # The contract of a walk — on to the first match, whatever came before

    A walk over the documents that match something keeps a contract: told to go on
    to a target beyond the document where it stands, it stops on the first match
    that is not before the target, and runs out when there is none
    (`DocWalk.Obeys`).  The contract speaks of every state that calls lead to
    (`DocWalk.Moved`), so it says where a walk stops after any mixture of steps and
    jumps.

    Two walks with the same matches stop alike, since a first match is unique
    (`Stop.IsFirst.unique`).  A direct walk keeps the contract when its first move
    does (`DocWalk.Direct.obeys`), because its state remembers no more of its way
    than the last target (`DocWalk.Direct.moved_cases`). -/

namespace FeatureRank

namespace Stop

/-- A stop on the first match that is not before a target, or past the last document
    when there is no such match. -/
def IsFirst (matching : Nat → Prop) (target : Nat) : Stop → Prop
  | .doc d => target ≤ d ∧ matching d ∧ ∀ n, target ≤ n → n < d → ¬matching n
  | .exhausted => ∀ n, target ≤ n → ¬matching n

namespace IsFirst

variable {matching other : Nat → Prop} {target : Nat}

/-- **A first match is unique.** -/
theorem unique {s t : Stop} (hs : s.IsFirst matching target) (ht : t.IsFirst matching target) :
    s = t := by
  cases s with
  | exhausted =>
      cases t with
      | exhausted => rfl
      | doc d => exact absurd ht.2.1 (hs d ht.1)
  | doc c =>
      cases t with
      | exhausted => exact absurd hs.2.1 (ht c hs.1)
      | doc d =>
          obtain ⟨hc, hmatch, hfirst⟩ := hs
          obtain ⟨hd, hmatch', hfirst'⟩ := ht
          rcases Nat.lt_trichotomy c d with hlt | heq | hgt
          · exact absurd hmatch (hfirst' c hc hlt)
          · rw [heq]
          · exact absurd hmatch' (hfirst d hd hgt)

/-- A first match depends only on what matches from the target on. -/
theorem congr {s : Stop} (h : s.IsFirst matching target)
    (hsame : ∀ n, target ≤ n → (matching n ↔ other n)) : s.IsFirst other target := by
  cases s with
  | exhausted =>
      intro n hn hother
      exact h n hn ((hsame n hn).mpr hother)
  | doc d =>
      obtain ⟨hle, hmatch, hnone⟩ := h
      refine ⟨hle, (hsame d hle).mp hmatch, ?_⟩
      intro n hn hlt hother
      exact hnone n hn hlt ((hsame n hn).mpr hother)

/-- A first match from a later target on is the first one from an earlier target on
    when nothing between the targets matches. -/
theorem of_later {later : Nat} {s : Stop} (h : s.IsFirst matching later) (hle : target ≤ later)
    (hnone : ∀ n, target ≤ n → n < later → ¬matching n) : s.IsFirst matching target := by
  -- only what is from the later target on has to be looked at
  have hbefore : ∀ n, target ≤ n → (later ≤ n → ¬matching n) → ¬matching n := by
    intro n hn hlater
    rcases Nat.lt_or_ge n later with hlt | hge
    · exact hnone n hn hlt
    · exact hlater hge
  cases s with
  | exhausted =>
      intro n hn
      exact hbefore n hn (h n)
  | doc d =>
      obtain ⟨hlater, hmatch, hfirst⟩ := h
      refine ⟨Nat.le_trans hle hlater, hmatch, ?_⟩
      intro n hn hlt
      exact hbefore n hn fun hge => hfirst n hge hlt

/-- A first match is not before its target. -/
theorem not_behind {s : Stop} (h : s.IsFirst matching target) : s.behind target = false := by
  cases s with
  | exhausted => rfl
  | doc d => exact decide_eq_false (Nat.not_lt.mpr h.1)

/-- A first match is on the target just when that matches. -/
theorem eq_doc_iff {s : Stop} (h : s.IsFirst matching target) :
    s = .doc target ↔ matching target := by
  constructor
  · intro hs
    rw [hs] at h
    exact h.2.1
  · intro hmatch
    exact h.unique ⟨Nat.le_refl _, hmatch, by omega⟩

/-- A first match is beyond a target that does not match. -/
theorem beyond {s : Stop} (h : s.IsFirst matching target) (hnot : ¬matching target) :
    s.behind (target + 1) = false := by
  cases s with
  | exhausted => rfl
  | doc d =>
      obtain ⟨hle, hmatch, -⟩ := h
      have hne : d ≠ target := by
        rintro rfl
        exact hnot hmatch
      exact decide_eq_false (by omega)

/-- A first match passes over no match. -/
theorem le_of_matching {s : Stop} (h : s.IsFirst matching target) {n : Nat} (hle : target ≤ n)
    (hmatch : matching n) : s.le (.doc n) = true := by
  cases s with
  | exhausted => exact absurd hmatch (h n hle)
  | doc d =>
      refine decide_eq_true (Nat.le_of_not_lt ?_)
      intro hlt
      exact h.2.2 n hle hlt hmatch

/-- A walk that passed over no match, on the way to a target that is not before where
    it stands, is at the first match already. -/
theorem of_stop {s : Stop} (hmatch : ∀ d, s = .doc d → matching d)
    (hle : ∀ n, target ≤ n → matching n → s.le (.doc n) = true) (hahead : s.behind target = false) :
    s.IsFirst matching target := by
  cases s with
  | exhausted =>
      intro n hn hmatching
      exact nomatch hle n hn hmatching
  | doc d =>
      refine ⟨Nat.not_lt.mp (of_decide_eq_false hahead), hmatch d rfl, ?_⟩
      intro n hn hlt hmatching
      have hback : d ≤ n := of_decide_eq_true (hle n hn hmatching)
      omega

end IsFirst

end Stop

namespace DocWalk

variable {ω : Type} [DocWalk ω]

/-- A call of a walk that stands on a document or before the first one: a step to the
    next document, or a jump to a target further on.  The call asks for a document from
    the target on and turns the walk into another. -/
inductive Call (w : ω) : Nat → ω → Prop where
  | next {doc : Nat} (hstop : stop w = .doc doc) : Call w (doc + 1) (DocWalk.next w)
  | advance {doc target : Nat} (hstop : stop w = .doc doc) (hlt : doc < target) :
      Call w target (DocWalk.advance target w)

/-- What a walk becomes by any calls.  A step of a walk that has run out is none: it
    leaves the walk as it is (`DocWalk.next_exhausted`). -/
inductive Moved (w : ω) : ω → Prop where
  | unmoved : Moved w w
  | call {v u : ω} {target : Nat} (h : Moved w v) (hcall : Call v target u) : Moved w u

/-- A walk over the documents that match.  It starts before all of them, and wherever
    calls lead it, the next one leads to the first match from its target on. -/
structure Obeys (matching : Nat → Prop) (w : ω) : Prop where
  fresh : stop w = .start
  first : ∀ {v u : ω} {target : Nat}, Moved w v → Call v target u →
    (stop u).IsFirst matching target

variable {w v u : ω} {target : Nat}

/-- A step is a jump to the next number. -/
theorem Call.eq_advance (h : Call w target u) :
    u = DocWalk.advance target w ∧ ∃ doc, stop w = .doc doc ∧ doc < target := by
  cases h with
  | next hstop => exact ⟨next_doc hstop, _, hstop, Nat.lt_succ_self _⟩
  | advance hstop hlt => exact ⟨rfl, _, hstop, hlt⟩

/-- Bringing a walk to a target is a call, or none at all. -/
theorem Moved.reach (h : Moved w v) (target : Nat) : Moved w (DocWalk.reach target v) := by
  cases hbehind : (stop v).behind target with
  | false =>
      rw [reach_ahead hbehind]
      exact h
  | true =>
      rw [reach_behind hbehind]
      cases hstop : stop v with
      | exhausted => rw [hstop] at hbehind; exact nomatch hbehind
      | doc doc =>
          rw [hstop] at hbehind
          exact h.call (.advance hstop (of_decide_eq_true hbehind))

namespace Obeys

variable {matching : Nat → Prop}

/-- The contract depends only on which documents match. -/
theorem congr {other : Nat → Prop} (h : Obeys matching w) (hsame : ∀ n, matching n ↔ other n) :
    Obeys other w where
  fresh := h.fresh
  first := by
    intro v u target hmoved hcall
    exact (h.first hmoved hcall).congr fun n _ => hsame n

/-- **A walk stands on documents that match**, once it has left the start. -/
theorem matching_of_stop (h : Obeys matching w) (hmoved : Moved w v) {doc : Nat}
    (hstop : stop v = .doc doc) : doc = 0 ∨ matching doc := by
  cases hmoved with
  | unmoved =>
      rw [h.fresh] at hstop
      exact Or.inl (Stop.doc.inj hstop).symm
  | call hmoved hcall =>
      have hfirst := h.first hmoved hcall
      rw [hstop] at hfirst
      exact Or.inr hfirst.2.1

/-- A walk that has passed over no match from a target on is brought to the first one. -/
theorem reach_isFirst (h : Obeys matching w) (hmoved : Moved w v) (hpos : 0 < target)
    (hle : ∀ n, target ≤ n → matching n → (stop v).le (.doc n) = true) :
    (stop (DocWalk.reach target v)).IsFirst matching target := by
  cases hbehind : (stop v).behind target with
  | true =>
      rw [reach_behind hbehind]
      cases hstop : stop v with
      | exhausted => rw [hstop] at hbehind; exact nomatch hbehind
      | doc doc =>
          rw [hstop] at hbehind
          exact h.first hmoved (.advance hstop (of_decide_eq_true hbehind))
  | false =>
      rw [reach_ahead hbehind]
      refine Stop.IsFirst.of_stop ?_ hle hbehind
      intro doc hstop
      rcases h.matching_of_stop hmoved hstop with rfl | hmatch
      · rw [hstop] at hbehind
        exact absurd hpos (of_decide_eq_false hbehind)
      · exact hmatch

end Obeys

/-! ## Walks that wrap others -/

section

variable {ν : Type} [DocWalk ν] {f : ω → ν} (hstop : ∀ a, stop (f a) = stop a)
  (hadvance : ∀ t a, DocWalk.advance t (f a) = f (DocWalk.advance t a))

include hstop hadvance in
/-- A call of the inner walk is one of the walk that wraps it. -/
theorem Call.map (h : Call w target u) : Call (f w) target (f u) := by
  obtain ⟨rfl, doc, hdoc, hlt⟩ := h.eq_advance
  rw [← hadvance]
  exact .advance ((hstop w).trans hdoc) hlt

include hstop hadvance in
theorem Moved.map (h : Moved w v) : Moved (f w) (f v) := by
  induction h with
  | unmoved => exact .unmoved
  | call _ hcall ih => exact ih.call (hcall.map hstop hadvance)

include hstop hadvance in
/-- The walk that wraps another moves only as that does. -/
theorem Moved.of_map {y : ν} (h : Moved (f w) y) : ∃ v, Moved w v ∧ y = f v := by
  induction h with
  | unmoved => exact ⟨w, .unmoved, rfl⟩
  | call _ hcall ih =>
      obtain ⟨v, hmoved, rfl⟩ := ih
      obtain ⟨rfl, doc, hdoc, hlt⟩ := hcall.eq_advance
      exact ⟨_, hmoved.call (.advance ((hstop v).symm.trans hdoc) hlt), hadvance _ v⟩

include hstop hadvance in
/-- A walk keeps the contract when one that wraps it does. -/
theorem Obeys.of_map {matching : Nat → Prop} (h : Obeys matching (f w)) : Obeys matching w where
  fresh := (hstop w).symm.trans h.fresh
  first := by
    intro v u target hmoved hcall
    rw [← hstop u]
    exact h.first (hmoved.map hstop hadvance) (hcall.map hstop hadvance)

end

/-! ## Direct walks -/

namespace Direct

/-- A call of a walk that a last target led to leads where the jump from the start does. -/
theorem call (h : Direct w)
    (hahead : ∀ t, 0 < t → (stop (DocWalk.advance t w)).behind t = false)
    (hv : v = w ∨ ∃ t, 0 < t ∧ Alike v (DocWalk.advance t w)) (hcall : Call v target u) :
    Alike u (DocWalk.advance target w) := by
  obtain ⟨rfl, doc, hstop, hlt⟩ := hcall.eq_advance
  rcases hv with rfl | ⟨t, ht, halike⟩
  · exact Alike.refl _
  · have hsame : DocWalk.advance t w = v := halike.symm.eq_of_doc hstop
    have hle : t ≤ doc := by
      have hnot := hahead t ht
      rw [hsame, hstop] at hnot
      exact Nat.not_lt.mp (of_decide_eq_false hnot)
    -- the walk is behind the target, so reaching it by way of the document is the jump
    have hbehind : (stop v).behind target = true := by
      rw [hstop]
      exact decide_eq_true hlt
    have hvia := h.via ht (show t ≤ target by omega)
    rw [hsame, reach_behind hbehind] at hvia
    exact hvia

/-- **All that a direct walk remembers is the last target**, provided that it never
    stops before a target. -/
theorem moved_cases (h : Direct w)
    (hahead : ∀ t, 0 < t → (stop (DocWalk.advance t w)).behind t = false) (hmoved : Moved w v) :
    v = w ∨ ∃ t, 0 < t ∧ Alike v (DocWalk.advance t w) := by
  -- on the calls: each one forgets the target of the one before
  induction hmoved with
  | unmoved => exact Or.inl rfl
  | call _ hcall ih =>
      obtain ⟨-, doc, -, hlt⟩ := hcall.eq_advance
      exact Or.inr ⟨_, Nat.zero_lt_of_lt hlt, h.call hahead ih hcall⟩

/-- **A direct walk keeps the contract when its first move does.** -/
theorem obeys (h : Direct w) {matching : Nat → Prop}
    (hfirst : ∀ t, 0 < t → (stop (DocWalk.advance t w)).IsFirst matching t) :
    Obeys matching w where
  fresh := h.fresh
  first := by
    intro v u target hmoved hcall
    have hahead : ∀ t, 0 < t → (stop (DocWalk.advance t w)).behind t = false :=
      fun t ht => (hfirst t ht).not_behind
    obtain ⟨-, doc, -, hlt⟩ := hcall.eq_advance
    rw [(h.call hahead (h.moved_cases hahead hmoved) hcall).stop_eq]
    exact hfirst target (Nat.zero_lt_of_lt hlt)

/-- Where a direct walk stands on a document it is as if it was brought straight
    there. -/
theorem eq_advance_of_stop (h : Direct w)
    (hahead : ∀ t, 0 < t → (stop (DocWalk.advance t w)).behind t = false) (hmoved : Moved w v)
    {doc : Nat} (hstop : stop v = .doc doc) (hpos : 0 < doc) : v = DocWalk.advance doc w := by
  rcases h.moved_cases hahead hmoved with rfl | ⟨t, ht, halike⟩
  · rw [h.fresh] at hstop
    have hzero : 0 = doc := Stop.doc.inj hstop
    omega
  -- the last target was not beyond the document, and from there the walk stays
  · have hsame : DocWalk.advance t w = v := halike.symm.eq_of_doc hstop
    have hnot := hahead t ht
    rw [hsame, hstop] at hnot
    have hvia := h.via ht (Nat.not_lt.mp (of_decide_eq_false hnot))
    rw [hsame, reach_ahead (by rw [hstop]; exact decide_eq_false (Nat.lt_irrefl doc))] at hvia
    exact (hvia.symm.eq_of_doc hstop).symm

end Direct

end DocWalk

/-! ## Cursors -/

namespace Cursor

open DocWalk

/-- A fresh cursor is direct. -/
theorem direct (postings : List Posting) : Direct (ofPostings postings) where
  fresh := rfl
  via := by
    intro t u ht htu
    have hmoves : ∀ target, 0 < target →
        DocWalk.advance target (ofPostings postings) = reach target (ofPostings postings) := by
      intro target htarget
      have hbehind : (DocWalk.stop (ofPostings postings)).behind target = true :=
        decide_eq_true htarget
      exact (reach_behind hbehind).symm
    rw [hmoves t ht, hmoves u (by omega), Cursor.reach_reach htu]
    exact Alike.refl _

/-- Without the postings before a target, those that are left begin with the first one
    from the target on. -/
theorem stopAt_isFirst (target : Nat) {postings : List Posting}
    (hasc : postings.Pairwise fun p q => p.doc < q.doc) :
    (stopAt (postings.dropWhile (·.doc < target))).IsFirst (fun n => ∃ p ∈ postings, p.doc = n)
      target := by
  induction postings with
  | nil =>
      rintro n - ⟨p, hp, -⟩
      exact nomatch hp
  | cons first rest ih =>
      obtain ⟨hlater, hrest⟩ := List.pairwise_cons.mp hasc
      by_cases hlt : first.doc < target
      · rw [List.dropWhile_cons_of_pos (by simpa using hlt)]
        refine (ih hrest).congr ?_
        intro n hn
        constructor
        · rintro ⟨p, hp, hdoc⟩
          exact ⟨p, List.mem_cons_of_mem _ hp, hdoc⟩
        · rintro ⟨p, hp, hdoc⟩
          rcases List.mem_cons.mp hp with rfl | hmem
          · omega
          · exact ⟨p, hmem, hdoc⟩
      · rw [List.dropWhile_cons_of_neg (by simpa using hlt)]
        refine ⟨Nat.le_of_not_lt hlt, ⟨first, List.mem_cons_self, rfl⟩, ?_⟩
        rintro n - hn ⟨p, hp, hdoc⟩
        rcases List.mem_cons.mp hp with rfl | hmem
        · omega
        · have hbefore := hlater p hmem
          omega

/-- **A cursor keeps the contract** over the documents of its postings. -/
theorem obeys {postings : List Posting} (hasc : postings.Pairwise fun p q => p.doc < q.doc) :
    Obeys (fun n => ∃ p ∈ postings, p.doc = n) (ofPostings postings) :=
  (direct postings).obeys fun target _ => stopAt_isFirst target hasc

end Cursor

end FeatureRank
