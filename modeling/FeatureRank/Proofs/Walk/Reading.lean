import FeatureRank.Feature.Scorer
import FeatureRank.Proofs.Outcome
import FeatureRank.Proofs.Walk.Direct

/-! # Reading postings

    The frequency and the positions of a term may be read while a posting of it is
    ahead.  A cursor over postings has one wherever it stands
    (`Cursor.Readable`): the first one before it moves, and that of the document
    on which it stops.  So a union reads the frequencies of the terms that stand on
    its document (`FeatureScorer.frequencies_readable`), and a phrase that reads
    every position through its cursors goes where the walk goes
    (`PhraseWalk.Readable.advanceRead`). -/

namespace FeatureRank

open DocWalk

/-! ## Cursors -/

/-- A cursor with a posting ahead unless it has run out. -/
def Cursor.Readable (c : Cursor) : Prop := ∀ doc, c.stop = .doc doc → ∃ p, c.posting = .ok p

namespace Cursor

theorem Readable.fresh {postings : List Posting} (h : postings ≠ []) :
    (ofPostings postings).Readable := by
  obtain ⟨p, rest, rfl⟩ := List.exists_cons_of_ne_nil h
  exact fun _ _ => ⟨p, rfl⟩

/-- A move ends on a posting, or past all of them. -/
theorem readable_advance (target : Nat) (c : Cursor) : (c.advance target).Readable := by
  intro doc hstop
  unfold Cursor.advance at hstop ⊢
  cases hahead : c.ahead.dropWhile (·.doc < target) with
  | nil =>
      simp only [hahead] at hstop
      cases hstop
  | cons p rest => exact ⟨p, rfl⟩

theorem Readable.reach {c : Cursor} (h : c.Readable) (target : Nat) :
    (DocWalk.reach target c).Readable := by
  unfold DocWalk.reach
  split
  · exact readable_advance target c
  · exact h

end Cursor

/-! ## Unions -/

/-- A union of cursors that can all be read. -/
def Union.Readable {τ : Type} (u : Union τ) : Prop := ∀ x ∈ u.cursors, x.2.Readable

theorem Union.Readable.advance {τ : Type} {u : Union τ} (h : u.Readable) (target : Nat) :
    (u.advance target).Readable := by
  intro x hx
  obtain ⟨y, hy, rfl⟩ := List.mem_map.mp hx
  exact (h y hy).reach target

/-- **The terms that stand on the document of a union** have their frequencies there. -/
theorem FeatureScorer.frequencies_readable {τ : Type} {u : Union τ} (h : u.Readable) {doc : Nat}
    (hstop : u.stop = .doc doc) : ∃ found, frequencies u = .ok found := by
  refine mapM_ok fun x hx => ?_
  obtain ⟨hmem, hon⟩ := List.mem_filter.mp hx
  obtain ⟨p, hp⟩ := h x hmem doc ((beq_iff_eq.mp hon).trans hstop)
  exact ⟨(x.1, p.frequency), bind_eq_ok.mpr ⟨_, bind_eq_ok.mpr ⟨p, hp, rfl⟩, rfl⟩⟩

/-! ## Phrases -/

namespace PhraseWalk

/-- How often a phrase occurs in a document, by what its cursors read: nothing unless
    the cursors of the terms after the first stand on the document. -/
def countRead (doc : Nat) (lead : Cursor) (others : List Cursor) : Checked Nat :=
  if others.all (·.stop == .doc doc) then do
    let starts ← lead.positions
    let rest ← others.mapM (·.posting)
    return starts.toList.countP fun start => continues start rest
  else return 0

/-- To the first of some documents of the first term that holds the phrase, by what
    the cursors read. -/
def seekRead (total : Nat) : List Posting → List Cursor → Checked PhraseWalk
  | [], others => return finished total others
  | p :: rest, others => do
    let others := others.map (DocWalk.reach p.doc)
    let lead : Cursor := ⟨p :: rest, total, .doc p.doc⟩
    match ← countRead p.doc lead others with
    | 0 =>
      if others.any (·.stop == .exhausted) then return finished total others
      else seekRead total rest others
    | n + 1 => return ⟨lead, others, .doc p.doc, n + 1⟩

/-- What a walk that is told to go no further counts before its first move. -/
def countUnmovedRead (w : PhraseWalk) (target : Nat) : Checked Nat :=
  if target = 0 && w.lead.stop == .start then countRead 0 w.lead w.others else return 0

/-- A move of a phrase by what its cursors read. -/
def advanceRead (target : Nat) (w : PhraseWalk) : Checked PhraseWalk := do
  match ← w.countUnmovedRead target with
  | 0 => seekRead w.lead.total (w.lead.ahead.dropWhile (·.doc < target)) w.others
  | n + 1 => return { w with stop := .start, occurrences := n + 1 }

/-- A phrase whose cursors can all be read. -/
structure Readable (w : PhraseWalk) : Prop where
  lead : w.lead.Readable
  others : ∀ c ∈ w.others, c.Readable

theorem readable_finished (total : Nat) {others : List Cursor} (h : ∀ c ∈ others, c.Readable) :
    (finished total others).Readable where
  lead := fun _ hstop => nomatch hstop
  others := h

/-- What a cursor has on a document: its posting there, if it stands on it. -/
theorem postingAt?_cases {c : Cursor} (h : c.Readable) (doc : Nat) :
    (c.stop = .doc doc ∧ ∃ p, postingAt? doc c = some p ∧ c.posting = .ok p) ∨
      (c.stop ≠ .doc doc ∧ postingAt? doc c = none) := by
  unfold postingAt? Cursor.posting
  by_cases hstop : c.stop = .doc doc
  · obtain ⟨p, hp⟩ := h doc hstop
    unfold Cursor.posting at hp
    cases hahead : c.ahead with
    | nil =>
        rw [hahead] at hp
        cases hp
    | cons first rest => exact .inl ⟨hstop, first, if_pos (beq_iff_eq.mpr hstop), rfl⟩
  · refine .inr ⟨hstop, ?_⟩
    cases c.ahead with
    | nil => rfl
    | cons first rest => exact if_neg fun hon => hstop (beq_iff_eq.mp hon)

/-- No term of a phrase that has a walk is without postings. -/
theorem ofPostings?_readable {postings : List (List Posting)} {w : PhraseWalk}
    (h : ofPostings? postings = some w) : w.Readable := by
  cases postings with
  | nil => cases h
  | cons lead others =>
      simp only [ofPostings?] at h
      split at h
      · cases h
      · next hsome =>
          have hall : ∀ postings ∈ lead :: others, postings ≠ [] := fun postings hin hnil =>
            hsome (List.any_eq_true.mpr ⟨postings, hin, List.isEmpty_iff.mpr hnil⟩)
          obtain ⟨hlead, hothers⟩ := List.forall_mem_cons.mp hall
          rw [← Option.some.inj h]
          exact ⟨.fresh hlead, List.forall_mem_map.mpr fun postings hin =>
            .fresh (hothers postings hin)⟩

variable {others : List Cursor}

/-- What several cursors have on a document: all of their postings, or one of them
    stands elsewhere. -/
theorem postingsAt_cases (h : ∀ c ∈ others, c.Readable) (doc : Nat) :
    (others.all (·.stop == .doc doc) = true ∧
        ∃ rest, others.mapM (postingAt? doc) = some rest ∧ others.mapM (·.posting) = .ok rest) ∨
      (others.all (·.stop == .doc doc) = false ∧ others.mapM (postingAt? doc) = none) := by
  induction others with
  | nil => exact .inl ⟨rfl, [], rfl, rfl⟩
  | cons c cs ih =>
      obtain ⟨hc, hcs⟩ := List.forall_mem_cons.mp h
      rw [List.all_cons, List.mapM_cons, List.mapM_cons]
      rcases postingAt?_cases hc doc with ⟨hstop, p, hat, hp⟩ | ⟨hstop, hat⟩
      · rw [beq_iff_eq.mpr hstop, Bool.true_and, hat, hp]
        rcases ih hcs with ⟨hall, rest, hats, hps⟩ | ⟨hall, hats⟩
        · rw [hats, hps]
          exact .inl ⟨hall, p :: rest, rfl, rfl⟩
        · rw [hats]
          exact .inr ⟨hall, rfl⟩
      · rw [beq_eq_false_iff_ne.mpr hstop, hat]
        exact .inr ⟨rfl, rfl⟩

/-- **Reading the positions counts the occurrences.** -/
theorem countRead_eq (h : ∀ c ∈ others, c.Readable) {lead : Cursor} {p : Posting}
    (hlead : lead.posting = .ok p) (doc : Nat) :
    countRead doc lead others = .ok (countAt doc p others) := by
  have hpositions : lead.positions = .ok p.positions := bind_eq_ok.mpr ⟨p, hlead, rfl⟩
  unfold countRead countAt
  rcases postingsAt_cases h doc with ⟨hall, rest, hats, hps⟩ | ⟨hall, hats⟩
  · rw [if_pos hall, hats]
    exact bind_eq_ok.mpr ⟨_, hpositions, bind_eq_ok.mpr ⟨_, hps, rfl⟩⟩
  · rw [hall, hats]
    rfl

/-- **Seeking by what the cursors read** ends where seeking does. -/
theorem seekRead_eq (total : Nat) (postings : List Posting) :
    ∀ {others : List Cursor}, (∀ c ∈ others, c.Readable) →
      seekRead total postings others = .ok (seek total postings others) ∧
        (seek total postings others).Readable := by
  induction postings with
  | nil => exact fun h => ⟨rfl, readable_finished total h⟩
  | cons p rest ih =>
      intro others h
      have hmoved : ∀ c ∈ others.map (DocWalk.reach p.doc), c.Readable :=
        List.forall_mem_map.mpr fun c hc => (h c hc).reach p.doc
      have hlead : Cursor.posting ⟨p :: rest, total, .doc p.doc⟩ = .ok p := rfl
      have hcount := countRead_eq hmoved hlead p.doc
      simp only [seekRead, seek, hcount]
      cases countAt p.doc p (others.map (DocWalk.reach p.doc)) with
      | succ n => exact ⟨rfl, fun _ _ => ⟨p, rfl⟩, hmoved⟩
      | zero =>
          by_cases hout : (others.map (DocWalk.reach p.doc)).any (·.stop == .exhausted) = true
          · simp only [hout, if_true]
            exact ⟨rfl, readable_finished total hmoved⟩
          · simp only [hout]
            exact ih hmoved

theorem Readable.countUnmovedRead {w : PhraseWalk} (h : w.Readable) (target : Nat) :
    w.countUnmovedRead target = .ok (w.countUnmoved target) := by
  unfold PhraseWalk.countUnmovedRead countUnmoved
  by_cases hstart : (decide (target = 0) && w.lead.stop == .start) = true
  · obtain ⟨p, hp⟩ := h.lead 0 (beq_iff_eq.mp (Bool.and_eq_true_iff.mp hstart).2)
    rw [if_pos hstart, countRead_eq h.others hp 0]
    unfold Cursor.posting at hp
    cases hahead : w.lead.ahead with
    | nil =>
        rw [hahead] at hp
        cases hp
    | cons first rest =>
        rw [hahead] at hp
        simp only [hstart, if_true, Except.ok.inj hp]
  · simp only [hstart]
    cases w.lead.ahead <;> rfl

/-- **A phrase reads its positions where they are**: wherever it moves, it goes where its
    cursors say that they can be read, and they can be read there. -/
theorem Readable.advanceRead {w : PhraseWalk} (h : w.Readable) (target : Nat) :
    w.advanceRead target = .ok (w.advance target) ∧ (w.advance target).Readable := by
  unfold PhraseWalk.advanceRead PhraseWalk.advance
  rw [h.countUnmovedRead target]
  cases w.countUnmoved target with
  | zero => exact seekRead_eq _ _ h.others
  | succ n => exact ⟨rfl, h.lead, h.others⟩

end PhraseWalk

end FeatureRank
