import Mathlib.Data.List.Forall2
import FeatureRank.Proofs.Walk.Contract

/-! # Leapfrogging — the documents that several cursors have in common

    Cursors that all have to stand on one document may be brought there in rounds: a
    round brings them to a target one after the other and breaks off at the first that
    is past it, and the next round begins with the document of that cursor for its
    target (`Leapfrog.Meets`).  Where the document does not count, the search begins
    again behind it (`Leapfrog.Finds`).

    The cursors come out of a round in disorder, some at the target, some past it and
    some still behind.  What they have in common is that from the target on each goes
    where a fresh one would (`Leapfrog.Lag`), and that is all the next round needs.  The
    targets rise with every round and stay within the documents, so there is a last
    round, and no document was passed over (`Leapfrog.leapt_finds`). -/

namespace FeatureRank

open DocWalk

/-- A cursor that is brought to a target is not behind it. -/
theorem Cursor.reach_not_behind (target : Nat) (c : Cursor) :
    (reach target c).stop.behind target = false := by
  cases hbehind : c.stop.behind target with
  | false =>
      rw [reach_ahead (w := c) hbehind]
      exact hbehind
  | true =>
      rw [reach_behind (w := c) hbehind]
      show (stopAt (c.ahead.dropWhile (·.doc < target))).behind target = false
      cases hahead : c.ahead.dropWhile (·.doc < target) with
      | nil => rfl
      | cons p rest =>
          have hhead := List.head?_dropWhile_not (fun p : Posting => decide (p.doc < target)) c.ahead
          rw [hahead] at hhead
          simpa [stopAt, Stop.behind] using hhead

/-- A cursor that is not behind a later target stays where it is. -/
theorem Cursor.reach_later {target later : Nat} (hle : target ≤ later) {c : Cursor}
    (hahead : (reach target c).stop.behind later = false) : reach later c = reach target c := by
  rw [← Cursor.reach_reach hle]
  exact reach_ahead hahead

namespace Leapfrog

/-- A document on which every cursor stands that is brought to it. -/
def Common (fresh : List Cursor) (n : Nat) : Prop := ∀ f ∈ fresh, (reach n f).stop = .doc n

/-- Cursors that may have been brought to targets before.  From one target on they go where
    fresh ones go. -/
def Lag (target : Nat) : List Cursor → List Cursor → Prop :=
  List.Forall₂ fun c f => ∀ later, target ≤ later → reach later c = reach later f

/-- One round: the cursors brought to the target from the first one on, up to one that is
    past it; and where that is, or the target. -/
def round (target : Nat) : List Cursor → List Cursor × Stop
  | [] => ([], .doc target)
  | c :: rest =>
    match (reach target c).stop with
    | .exhausted => (reach target c :: rest, .exhausted)
    | .doc doc =>
      if target < doc then (reach target c :: rest, .doc doc)
      else (reach target c :: (round target rest).1, (round target rest).2)

/-- Round after round, up to one in which all cursors meet or one of them has run out. -/
inductive Meets : Nat → List Cursor → Stop → List Cursor → Prop where
  | met {target : Nat} {cs last : List Cursor} (h : round target cs = (last, .doc target)) :
      Meets target cs (.doc target) last
  | out {target : Nat} {cs last : List Cursor} (h : round target cs = (last, .exhausted)) :
      Meets target cs .exhausted last
  | again {target later : Nat} {cs next last : List Cursor} {stop : Stop}
      (h : round target cs = (next, .doc later)) (hlt : target < later)
      (hrest : Meets later next stop last) : Meets target cs stop last

/-- To the first document where the cursors meet and that counts for something. -/
inductive Finds (count : Nat → List Cursor → Nat) :
    Nat → List Cursor → Stop → Nat → List Cursor → Prop where
  | out {target : Nat} {cs last : List Cursor} (h : Meets target cs .exhausted last) :
      Finds count target cs .exhausted 0 last
  | found {target doc n : Nat} {cs last : List Cursor} (h : Meets target cs (.doc doc) last)
      (hcount : count doc last = n + 1) : Finds count target cs (.doc doc) (n + 1) last
  | again {target doc n : Nat} {cs next last : List Cursor} {stop : Stop}
      (h : Meets target cs (.doc doc) next) (hcount : count doc next = 0)
      (hrest : Finds count (doc + 1) next stop n last) : Finds count target cs stop n last

/-- A search that any calls were made of: where it stands, what it has found there, and its
    cursors. -/
inductive Leapt (count : Nat → List Cursor → Nat) (fresh : List Cursor) :
    Stop → Nat → List Cursor → Prop where
  | unmoved : Leapt count fresh .start 0 fresh
  | call {doc target n m : Nat} {cs last : List Cursor} {stop : Stop}
      (h : Leapt count fresh (.doc doc) n cs) (hlt : doc < target)
      (hfinds : Finds count target cs stop m last) : Leapt count fresh stop m last

/-! ## Lagging behind -/

theorem Lag.refl (target : Nat) (fresh : List Cursor) : Lag target fresh fresh :=
  List.forall₂_same.mpr fun _ _ _ _ => rfl

theorem Lag.mono {target later : Nat} {cs fresh : List Cursor} (h : Lag target cs fresh)
    (hle : target ≤ later) : Lag later cs fresh :=
  h.imp fun _ _ hcursor u hu => hcursor u (Nat.le_trans hle hu)

/-- Fresh cursors brought to a target lag behind from there on. -/
theorem Lag.reached (target : Nat) (fresh : List Cursor) :
    Lag target (fresh.map (reach target)) fresh :=
  List.forall₂_map_left_iff.mpr
    (List.forall₂_same.mpr fun f _ _ hle => Cursor.reach_reach hle f)

/-! ## One round -/

/-- What a round comes to, said of fresh cursors: all meet at the target, or one is past
    it, or one has run out. -/
inductive Rounded (target : Nat) (fresh : List Cursor) : List Cursor × Stop → Prop where
  | met (hcommon : Common fresh target) :
      Rounded target fresh (fresh.map (reach target), .doc target)
  | past {cs : List Cursor} {later : Nat} (hlt : target < later) (hlag : Lag later cs fresh)
      (hat : ∃ f ∈ fresh, (reach target f).stop = .doc later)
      (hnone : ∀ n, target ≤ n → n < later → ¬Common fresh n) :
      Rounded target fresh (cs, .doc later)
  | out {cs : List Cursor} (hnone : ∀ n, target ≤ n → ¬Common fresh n) :
      Rounded target fresh (cs, .exhausted)

/-- **A round passes over no common document.** -/
theorem rounded {target : Nat} {cs fresh : List Cursor} (h : Lag target cs fresh) :
    Rounded target fresh (round target cs) := by
  induction h with
  | nil => exact .met fun f hf => nomatch hf
  | @cons c f cs fresh hcursor hrest ih =>
      have hhere : reach target c = reach target f := hcursor target (Nat.le_refl _)
      -- where a cursor has stopped it stays until a target is beyond that
      have hstays : ∀ n, target ≤ n → (reach target f).stop.behind n = false →
          Common (f :: fresh) n → (reach target f).stop = .doc n := by
        intro n hn hahead hcommon
        rw [← Cursor.reach_later hn hahead]
        exact hcommon f List.mem_cons_self
      have hmoved : ∀ later, target ≤ later →
          (∀ u, later ≤ u → reach u (reach target f) = reach u f) := by
        intro later hle u hu
        exact Cursor.reach_reach (Nat.le_trans hle hu) f
      rw [round, hhere]
      cases hstop : (reach target f).stop with
      | exhausted =>
          refine .out ?_
          intro n hn hcommon
          have hon := hstays n hn (by rw [hstop]; rfl) hcommon
          rw [hstop] at hon
          exact nomatch hon
      | doc doc =>
          have hahead := Cursor.reach_not_behind target f
          rw [hstop] at hahead
          have hle : target ≤ doc := Nat.not_lt.mp (of_decide_eq_false hahead)
          by_cases hlt : target < doc
          · simp only [if_pos hlt]
            refine .past hlt ?_ ⟨f, List.mem_cons_self, hstop⟩ ?_
            · exact .cons (hmoved doc hle) (Lag.mono hrest hle)
            · intro n hn hbefore hcommon
              have hon := hstays n hn
                (by rw [hstop]; exact decide_eq_false (by omega)) hcommon
              rw [hstop] at hon
              have heq : doc = n := Stop.doc.inj hon
              omega
          · have heq : doc = target := by omega
            simp only [if_neg hlt]
            have hfewer : ∀ n, ¬Common fresh n → ¬Common (f :: fresh) n :=
              fun n hnot hcommon => hnot fun g hg => hcommon g (List.mem_cons_of_mem _ hg)
            -- this cursor is at the target, so the round comes to what it does for the rest
            revert ih
            generalize round target cs = rest
            intro ih
            cases ih with
            | met hcommon =>
                refine .met (List.forall_mem_cons.mpr ⟨?_, hcommon⟩)
                rw [hstop, heq]
            | past hlt hlag hat hnone =>
                obtain ⟨g, hg, hon⟩ := hat
                exact .past hlt (.cons (hmoved _ (Nat.le_of_lt hlt)) hlag)
                  ⟨g, List.mem_cons_of_mem _ hg, hon⟩ fun n hn hbefore => hfewer n (hnone n hn hbefore)
            | out hnone => exact .out fun n hn => hfewer n (hnone n hn)

/-! ## Round after round -/

section

variable {count : Nat → List Cursor → Nat} {fresh cs : List Cursor} {target last : Nat}
  (hlast : ∀ f ∈ fresh, ∀ n doc, (reach n f).stop = .doc doc → doc ≤ last)

include hlast in
/-- **The rounds come to an end**, at the first document that the cursors have in common. -/
theorem exists_meets (hlag : Lag target cs fresh) :
    ∃ stop met, Meets target cs stop met ∧ stop.IsFirst (Common fresh) target ∧
      ∀ doc, stop = .doc doc → met = fresh.map (reach doc) := by
  -- on how far the target is from the last document
  induction hleft : last + 1 - target using Nat.strong_induction_on generalizing target cs with
  | h left ih =>
      have hround := rounded hlag
      generalize hresult : round target cs = result at hround
      cases hround with
      | met hcommon =>
          refine ⟨_, _, .met hresult, ⟨Nat.le_refl _, hcommon, by omega⟩, ?_⟩
          intro doc hdoc
          rw [Stop.doc.inj hdoc]
      | @past next later hlt hlater hat hnone =>
          obtain ⟨f, hf, hon⟩ := hat
          have hwithin : later ≤ last := hlast f hf target later hon
          obtain ⟨stop, met, hmeets, hfirst, hmet⟩ := ih (last + 1 - later) (by omega) hlater rfl
          exact ⟨stop, met, .again hresult hlt hmeets,
            hfirst.of_later (Nat.le_of_lt hlt) hnone, hmet⟩
      | out hnone => exact ⟨_, _, .out hresult, hnone, nofun⟩

/-- A document that the cursors have in common and that counts for something. -/
def Counts (count : Nat → List Cursor → Nat) (fresh : List Cursor) (n : Nat) : Prop :=
  Common fresh n ∧ 0 < count n (fresh.map (reach n))

include hlast in
/-- **The search comes to an end**, at the first document that counts. -/
theorem exists_finds (hsome : fresh ≠ []) (hlag : Lag target cs fresh) :
    ∃ stop n found, Finds count target cs stop n found ∧
      stop.IsFirst (Counts count fresh) target ∧
      ∀ doc, stop = .doc doc →
        found = fresh.map (reach doc) ∧ n = count doc (fresh.map (reach doc)) := by
  -- on how far the target is from the last document; where the cursors meet, fresh ones
  -- would stand too, so the next search is like the first
  induction hleft : last + 1 - target using Nat.strong_induction_on generalizing target cs with
  | h left ih =>
      obtain ⟨stop, met, hmeets, hfirst, hmet⟩ := exists_meets hlast hlag
      cases stop with
      | exhausted =>
          exact ⟨_, _, _, .out hmeets, fun n hn hcounts => hfirst n hn hcounts.1, nofun⟩
      | doc doc =>
          obtain ⟨hle, hcommon, hnone⟩ := hfirst
          obtain rfl := hmet doc rfl
          cases hcount : count doc (fresh.map (reach doc)) with
          | succ n =>
              refine ⟨_, _, _, .found hmeets hcount, ⟨hle, ⟨hcommon, ?_⟩, ?_⟩, ?_⟩
              · rw [hcount]
                exact Nat.succ_pos n
              · intro m hm hbefore hcounts
                exact hnone m hm hbefore hcounts.1
              · intro other hother
                rw [← Stop.doc.inj hother, hcount]
                exact ⟨rfl, rfl⟩
          | zero =>
              obtain ⟨f, hf⟩ := List.exists_mem_of_ne_nil fresh hsome
              have hwithin : doc ≤ last := hlast f hf doc doc (hcommon f hf)
              obtain ⟨stop, n, found, hfinds, hfirst, hfound⟩ := ih (last + 1 - (doc + 1)) (by omega)
                ((Lag.reached doc fresh).mono (Nat.le_succ doc)) rfl
              refine ⟨stop, n, found, .again hmeets hcount hfinds, ?_, hfound⟩
              refine hfirst.of_later (by omega) ?_
              intro m hm hbefore hcounts
              rcases Nat.lt_or_ge m doc with hlt | hge
              · exact hnone m hm hlt hcounts.1
              · have hpos := hcounts.2
                rw [show m = doc by omega, hcount] at hpos
                exact Nat.lt_irrefl 0 hpos

/-! ## Any number of searches -/

/-- A round has one result, so the rounds come to one end. -/
theorem Meets.unique {stop stop' : Stop} {met met' : List Cursor} (h : Meets target cs stop met)
    (h' : Meets target cs stop' met') : stop = stop' ∧ met = met' := by
  induction h with
  | met h =>
      cases h' with
      | met h' => exact ⟨rfl, congrArg Prod.fst (h.symm.trans h')⟩
      | out h' => exact nomatch congrArg Prod.snd (h.symm.trans h')
      | again h' hlt _ =>
          have hsame := Stop.doc.inj (congrArg Prod.snd (h.symm.trans h'))
          omega
  | out h =>
      cases h' with
      | met h' => exact nomatch congrArg Prod.snd (h.symm.trans h')
      | out h' => exact ⟨rfl, congrArg Prod.fst (h.symm.trans h')⟩
      | again h' _ _ => exact nomatch congrArg Prod.snd (h.symm.trans h')
  | again h hlt _ ih =>
      cases h' with
      | met h' =>
          have hsame := Stop.doc.inj (congrArg Prod.snd (h.symm.trans h'))
          omega
      | out h' => exact nomatch congrArg Prod.snd (h.symm.trans h')
      | again h' _ hrest =>
          obtain ⟨rfl, hstop⟩ := Prod.mk.inj (h.symm.trans h')
          obtain rfl := Stop.doc.inj hstop
          exact ih hrest

theorem Finds.unique {stop stop' : Stop} {n n' : Nat} {found found' : List Cursor}
    (h : Finds count target cs stop n found) (h' : Finds count target cs stop' n' found') :
    stop = stop' ∧ n = n' ∧ found = found' := by
  induction h with
  | out h =>
      cases h' with
      | out h' => exact ⟨rfl, rfl, (h.unique h').2⟩
      | found h' _ => exact nomatch (h.unique h').1
      | again h' _ _ => exact nomatch (h.unique h').1
  | found h hcount =>
      cases h' with
      | out h' => exact nomatch (h.unique h').1
      | found h' hcount' =>
          obtain ⟨hstop, rfl⟩ := h.unique h'
          rw [Stop.doc.inj hstop, hcount'] at hcount
          exact ⟨hstop, hcount.symm, rfl⟩
      | again h' hcount' _ =>
          obtain ⟨hstop, rfl⟩ := h.unique h'
          rw [Stop.doc.inj hstop, hcount'] at hcount
          exact nomatch hcount
  | again h hcount _ ih =>
      cases h' with
      | out h' => exact nomatch (h.unique h').1
      | found h' hcount' =>
          obtain ⟨hstop, rfl⟩ := h.unique h'
          rw [Stop.doc.inj hstop, hcount'] at hcount
          exact nomatch hcount
      | again h' _ hrest =>
          obtain ⟨hstop, rfl⟩ := h.unique h'
          obtain rfl := Stop.doc.inj hstop
          exact ih hrest

include hlast in
/-- After any calls the cursors go from the document of the search where fresh ones go. -/
theorem Leapt.lag (hsome : fresh ≠ []) {stop : Stop} {n : Nat} (h : Leapt count fresh stop n cs) :
    ∀ doc, stop = .doc doc → Lag doc cs fresh := by
  induction h with
  | unmoved =>
      intro doc _
      exact Lag.refl doc fresh
  | call _ hlt hfinds ih =>
      intro doc hdoc
      -- the search that was made is the one that is known to come to an end
      obtain ⟨_, _, _, hfinds', -, hfound⟩ :=
        exists_finds hlast hsome ((ih _ rfl).mono (Nat.le_of_lt hlt))
      obtain ⟨rfl, -, rfl⟩ := hfinds.unique hfinds'
      rw [(hfound doc hdoc).1]
      exact Lag.reached doc fresh

include hlast in
/-- **Leapfrogging keeps the contract of a walk.**  After any calls the next search comes
    to an end, on the first document from its target on that counts, with every cursor on
    that document and what it counts for; or past the last one, when no other counts. -/
theorem leapt_finds (hsome : fresh ≠ []) {doc n : Nat} (h : Leapt count fresh (.doc doc) n cs)
    (hlt : doc < target) :
    ∃ stop m found, Finds count target cs stop m found ∧
      stop.IsFirst (Counts count fresh) target ∧
      ∀ doc, stop = .doc doc →
        found = fresh.map (reach doc) ∧ m = count doc (fresh.map (reach doc)) :=
  exists_finds hlast hsome ((h.lag hlast hsome doc rfl).mono (Nat.le_of_lt hlt))

/-- A search that has run out has found nothing. -/
theorem Finds.eq_zero {n : Nat} {found : List Cursor}
    (h : Finds count target cs .exhausted n found) : n = 0 := by
  generalize hstop : Stop.exhausted = stop at h
  induction h with
  | out _ => rfl
  | found _ _ => exact nomatch hstop
  | again _ _ _ ih => exact ih hstop

end

end Leapfrog

end FeatureRank
