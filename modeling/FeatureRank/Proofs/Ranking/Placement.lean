import FeatureRank.Proofs.Ranking.Disjunction
import FeatureRank.Proofs.Walk.Contract

/-! # Where the walks of a disjunction stand

    The queue of a disjunction is worked off from its front: while the walk that
    waits there is behind the document, it is moved and put back
    (`Disjunction.Turns`).  A walk that keeps its contract lands on the document or
    beyond it, so each turn leaves one walk less behind, and after as many turns as
    there were such walks nothing is left to do (`Disjunction.turns_moveWalks`).

    What the walks remember of this is little: none has passed over a match that is
    still to come (`Disjunction.Waits`).  Documents whose scores are held move no
    walk, and the walks catch up at the next document whose scores are not
    (`Disjunction.walks_in_place`). -/

namespace FeatureRank

namespace Disjunction

open DocWalk

variable {ω : Type} [DocWalk ω]

/-! ## The queue, one turn after the other -/

/-- One turn of the queue: the walk at the front, if it is behind the target, is moved
    to the target and put back by its new stop. -/
def turn? (target : Nat) :
    List (Option ω) × List (Stop × Nat) → Option (List (Option ω) × List (Stop × Nat))
  | (_, []) => none
  | (walks, (stop, ordinal) :: rest) =>
    if stop.behind target then some (moveWalk target walks rest ordinal) else none

/-- So many turns, up to the state in which no turn is left. -/
inductive Turns (target : Nat) : List (Option ω) × List (Stop × Nat) → Nat →
    List (Option ω) × List (Stop × Nat) → Prop where
  | done {state : List (Option ω) × List (Stop × Nat)} (h : turn? target state = none) :
      Turns target state 0 state
  | turn {state next last : List (Option ω) × List (Stop × Nat)} {turns : Nat}
      (h : turn? target state = some next) (hrest : Turns target next turns last) :
      Turns target state (turns + 1) last

/-- A place that is not behind goes after all that are. -/
theorem enqueue_append {target : Nat} {place : Stop × Nat} (hplace : place.1.behind target = false)
    {late : List (Stop × Nat)} (hlate : ∀ x ∈ late, x.1.behind target = true)
    (rest : List (Stop × Nat)) : enqueue place (late ++ rest) = late ++ enqueue place rest := by
  induction late with
  | nil => rfl
  | cons first later ih =>
      obtain ⟨hfirst, hlater⟩ := List.forall_mem_cons.mp hlate
      have hnot : ¬isBefore place first = true := by
        intro hbefore
        have hbehind := Stop.behind_of_le (le_of_isBefore hbefore) hfirst
        rw [hplace] at hbehind
        exact nomatch hbehind
      show (if isBefore place first then place :: first :: (later ++ rest)
        else first :: enqueue place (later ++ rest)) = _
      rw [if_neg hnot, ih hlater]
      rfl

/-- Walks that a move brings to the target, or past it. -/
def Arrive (target : Nat) (walks : List (Option ω)) : Prop :=
  ∀ (i : Nat) (w : ω), walks[i]? = some (some w) → (DocWalk.stop w).behind target = true →
    (DocWalk.stop (DocWalk.advance target w)).behind target = false

/-- Once a walk has moved, the walks arrive as before. -/
theorem Arrive.move {target : Nat} {walks : List (Option ω)} (h : Arrive target walks)
    {ordinal : Nat} {moved : ω} (hmoved : (DocWalk.stop moved).behind target = false) :
    Arrive target (walks.set ordinal (some moved)) := by
  intro i w hi hbehind
  by_cases heq : i = ordinal
  · rw [heq, List.getElem?_set_self'] at hi
    cases hat : walks[ordinal]? with
    | none => rw [hat] at hi; exact nomatch hi
    | some slot =>
        rw [hat] at hi
        have hw : moved = w := Option.some.inj (Option.some.inj hi)
        rw [← hw, hmoved] at hbehind
        exact nomatch hbehind
  · rw [List.getElem?_set_ne fun h => heq h.symm] at hi
    exact h i w hi hbehind

/-- The turns that work off the front of a queue move the walks that wait there. -/
theorem turns_late {target : Nat} (late : List (Stop × Nat)) :
    ∀ (walks : List (Option ω)) (rest : List (Stop × Nat)), Names walks (late ++ rest) →
      (∀ x ∈ late, x.1.behind target = true) → (∀ x ∈ rest, x.1.behind target = false) →
      Arrive target walks →
      Turns target (walks, late ++ rest) late.length (late.foldl
        (fun (walks, queue) (_, ordinal) => moveWalk target walks queue ordinal) (walks, rest)) := by
  induction late with
  | nil =>
      intro walks rest _ _ hrest _
      refine Turns.done ?_
      cases rest with
      | nil => rfl
      | cons first later =>
          show (if first.1.behind target = true then _ else none) = none
          rw [hrest first List.mem_cons_self]
          rfl
  -- on the places that are behind: a turn moves the first, and its new place is not among them
  | cons place later ih =>
      intro walks rest hnames hlate hrest harrive
      obtain ⟨hplace, hlater⟩ := List.forall_mem_cons.mp hlate
      obtain ⟨w, hw, hstop⟩ := (hnames.mem_iff place).mp List.mem_cons_self
      have hland : (DocWalk.stop (DocWalk.advance target w)).behind target = false :=
        harrive place.2 w hw (by rw [hstop]; exact hplace)
      have hturn : turn? target (walks, place :: (later ++ rest))
          = some (walks.set place.2 (some (DocWalk.advance target w)),
              later ++ enqueue (DocWalk.stop (DocWalk.advance target w), place.2) rest) := by
        show (if place.1.behind target = true
          then some (moveWalk target walks (later ++ rest) place.2) else none) = _
        rw [if_pos hplace, moveWalk_eq hw, enqueue_append hland hlater]
      have hstep : Names (walks.set place.2 (some (DocWalk.advance target w)))
          (later ++ enqueue (DocWalk.stop (DocWalk.advance target w), place.2) rest) := by
        refine (Names.move hnames (DocWalk.advance target w)).perm ?_
        exact ((enqueue_perm _ rest).append_left later).trans List.perm_middle
      -- the walk arrives, so its new place goes behind all that are late
      have hahead : ∀ x ∈ enqueue (DocWalk.stop (DocWalk.advance target w), place.2) rest,
          x.1.behind target = false := by
        intro x hx
        rcases List.mem_cons.mp ((enqueue_perm _ rest).mem_iff.mp hx) with rfl | hmem
        · exact hland
        · exact hrest x hmem
      simp only [List.foldl_cons, moveWalk_eq hw]
      exact Turns.turn hturn (ih _ _ hstep hlater hahead (harrive.move hland))

/-- **The queue is worked off** in at most one turn for each place, when every walk
    that moves arrives. -/
theorem turns_moveWalks {target : Nat} {walks : List (Option ω)} {queue : List (Stop × Nat)}
    (h : Queued walks queue) (harrive : Arrive target walks) :
    ∃ turns ≤ queue.length, Turns target (walks, queue) turns (moveWalks target walks queue) := by
  -- the queue is sorted, so the places that are late come first
  have hsplit : queue.takeWhile (·.1.behind target) ++ queue.dropWhile (·.1.behind target)
      = queue := List.takeWhile_append_dropWhile
  have hspan : queue.span (·.1.behind target)
      = (queue.takeWhile (·.1.behind target), queue.dropWhile (·.1.behind target)) :=
    List.span_eq_takeWhile_dropWhile _ queue
  have hturns := turns_late (queue.takeWhile (·.1.behind target)) walks
    (queue.dropWhile (·.1.behind target)) (hsplit.symm ▸ h.names)
    (fun x hx => List.mem_takeWhile_imp (p := fun x : Stop × Nat => x.1.behind target) hx)
    (h.sorted.dropWhile_ahead target) harrive
  rw [hsplit] at hturns
  refine ⟨(queue.takeWhile (·.1.behind target)).length, (List.takeWhile_sublist _).length_le, ?_⟩
  rw [moveWalks, hspan]
  exact hturns

/-- A call that moves walks leaves them as the moves do. -/
theorem advance_moveWalks {d : Disjunction ω} {target : Nat} (hle : target ≤ d.docs.maxDoc)
    (hpos : 0 < target) (hheld : d.isHeld target = false) :
    ((d.advance target).walks, (d.advance target).queue) = moveWalks target d.walks d.queue := by
  have hmax : max target 1 = target := by omega
  have hdocs : d.docs.advance target = ⟨d.docs.maxDoc, .doc target⟩ := by
    simp only [AllDocs.advance, hmax, if_neg (Nat.not_lt.mpr hle)]
  have hnot : ¬isHeld { d with docs := ⟨d.docs.maxDoc, .doc target⟩ } target = true :=
    fun h => Bool.eq_false_iff.mp hheld h
  rw [Disjunction.advance, hdocs]
  simp only [settle, Disjunction.stop, if_neg hnot]

/-- A walk that all were brought along with was there before. -/
theorem mem_moved {target i : Nat} {walks : List (Option ω)} {w : ω}
    (h : (walks.map (Option.map (reach target)))[i]? = some (some w)) :
    ∃ v, walks[i]? = some (some v) ∧ reach target v = w := by
  rw [List.getElem?_map] at h
  obtain ⟨slot, hslot, hmap⟩ := Option.map_eq_some_iff.mp h
  obtain ⟨v, rfl, hv⟩ := Option.map_eq_some_iff.mp hmap
  exact ⟨v, hslot, hv⟩

/-! ## What the walks remember -/

/-- A disjunction as it is after some calls, while its cache may be given more scores
    in between. -/
inductive Reached (first : Disjunction ω) : Disjunction ω → Prop where
  | fresh : Reached first first
  | call {d e : Disjunction ω} {target : Nat} (h : Reached first d) (hcall : Call d target e) :
      Reached first e
  | record {d : Disjunction ω} {held more : ScoreCache} (h : Reached first d)
      (hcache : d.cache = some held) (hmore : more.Extends held) :
      Reached first { d with cache := some more }

/-- The walks of a disjunction between two calls: those that it was made of, moved, and
    none of them past a match that is still to come. -/
structure Waits (matching : Nat → Nat → Prop) (maxDoc : Nat) (walks : List (Option ω))
    (d : Disjunction ω) : Prop where
  maxDoc : d.docs.maxDoc = maxDoc
  queued : Queued d.walks d.queue
  present : d.walks.map Option.isSome = walks.map Option.isSome
  moved : ∀ (i : Nat) (w : ω), d.walks[i]? = some (some w) →
    ∃ first : ω, walks[i]? = some (some first) ∧ Moved first w
  ahead : ∀ (i : Nat) (w : ω) (n : Nat), d.walks[i]? = some (some w) → matching i n →
    d.stop.behind n = true → (DocWalk.stop w).le (.doc n) = true

namespace Waits

variable {matching : Nat → Nat → Prop} {maxDoc target : Nat} {walks : List (Option ω)}
  {d e : Disjunction ω}

theorem fresh (hobeys : ∀ (i : Nat) (w : ω), walks[i]? = some (some w) → Obeys (matching i) w)
    (docBase : Nat) (cache : Option ScoreCache) :
    Waits matching maxDoc walks (ofWalks maxDoc walks docBase cache) where
  maxDoc := rfl
  queued := ofWalks_queued _ _ _ _
  present := rfl
  moved := fun i w hi => ⟨w, hi, .unmoved⟩
  ahead := by
    intro i w n hi _ _
    rw [(hobeys i w hi).fresh]
    exact decide_eq_true (Nat.zero_le n)

/-- More scores in the cache move nothing. -/
theorem record (h : Waits matching maxDoc walks d) (cache : Option ScoreCache) :
    Waits matching maxDoc walks { d with cache } :=
  ⟨h.maxDoc, h.queued, h.present, h.moved, h.ahead⟩

/-- A walk that waits is brought to the first match from the target on. -/
theorem reach_isFirst (h : Waits matching maxDoc walks d)
    (hobeys : ∀ (i : Nat) (w : ω), walks[i]? = some (some w) → Obeys (matching i) w)
    {doc : Nat} (hstop : d.stop = .doc doc) (hlt : doc < target) {i : Nat} {w : ω}
    (hi : d.walks[i]? = some (some w)) :
    (DocWalk.stop (DocWalk.reach target w)).IsFirst (matching i) target := by
  obtain ⟨first, hfirst, hmoved⟩ := h.moved i w hi
  refine (hobeys i first hfirst).reach_isFirst hmoved (Nat.zero_lt_of_lt hlt) ?_
  intro n hn hmatch
  refine h.ahead i w n hi hmatch ?_
  rw [hstop]
  exact decide_eq_true (by omega)

/-- A walk that waits arrives when it is moved. -/
theorem arrive (h : Waits matching maxDoc walks d)
    (hobeys : ∀ (i : Nat) (w : ω), walks[i]? = some (some w) → Obeys (matching i) w)
    {doc : Nat} (hstop : d.stop = .doc doc) (hlt : doc < target) : Arrive target d.walks := by
  intro i w hi hbehind
  have hfirst := h.reach_isFirst hobeys hstop hlt hi
  rw [reach_behind hbehind] at hfirst
  exact hfirst.not_behind

/-- After a call the walks wait again. -/
theorem call (h : Waits matching maxDoc walks d)
    (hobeys : ∀ (i : Nat) (w : ω), walks[i]? = some (some w) → Obeys (matching i) w)
    (hcall : Call d target e) : Waits matching maxDoc walks e := by
  obtain ⟨rfl, doc, hstop, hlt⟩ := hcall.eq_advance
  have hbefore : ∀ n, target ≤ n → d.stop.behind n = true := by
    intro n hn
    show (DocWalk.stop d).behind n = true
    rw [hstop]
    exact decide_eq_true (by omega)
  show Waits matching maxDoc walks (d.advance target)
  rcases advance_cases h.queued target (Nat.zero_lt_of_lt hlt) with
    ⟨-, heq⟩ | ⟨-, -, heq⟩ | ⟨-, -, queue, hqueued, heq⟩
  · rw [heq]
    refine ⟨h.maxDoc, h.queued, h.present, h.moved, ?_⟩
    intro i w n _ _ hbehind
    exact nomatch hbehind
  -- no walk moves, and what is to come from the target on was to come before
  · rw [heq]
    refine ⟨h.maxDoc, h.queued, h.present, h.moved, ?_⟩
    intro i w n hi hmatch hbehind
    exact h.ahead i w n hi hmatch (hbefore n (Nat.le_of_lt (of_decide_eq_true hbehind)))
  -- here the walks move, each to its first match from the target on
  · rw [heq]
    refine ⟨h.maxDoc, hqueued, ?_, ?_, ?_⟩
    · show (d.walks.map (Option.map (reach target))).map Option.isSome = _
      rw [← h.present, List.map_map]
      exact List.map_congr_left fun slot _ => by cases slot <;> rfl
    · intro i w hi
      obtain ⟨v, hv, rfl⟩ := mem_moved hi
      obtain ⟨first, hfirst, hmoved⟩ := h.moved i v hv
      exact ⟨first, hfirst, hmoved.reach target⟩
    · intro i w n hi hmatch hbehind
      obtain ⟨v, hv, rfl⟩ := mem_moved hi
      exact (h.reach_isFirst hobeys hstop hlt hv).le_of_matching
        (Nat.le_of_lt (of_decide_eq_true hbehind)) hmatch

end Waits

/-- Where a call of a disjunction leads and what becomes of its walks: they are brought to
    the document unless there is none or its scores are held. -/
structure Led (matching : Nat → Nat → Prop) (target : Nat) (d e : Disjunction ω) : Prop where
  stop : e.stop = if target ≤ d.docs.maxDoc then .doc target else .exhausted
  /-- past the last document no walk moves -/
  past : d.docs.maxDoc < target → e.walks = d.walks ∧ e.queue = d.queue
  /-- for a document whose scores are held no walk moves -/
  held : d.isHeld target = true → e.walks = d.walks ∧ e.queue = d.queue
  /-- for another the queue is worked off, in at most one turn for each walk -/
  turns : target ≤ d.docs.maxDoc → d.isHeld target = false →
    ∃ turns ≤ d.queue.length, Turns target (d.walks, d.queue) turns (e.walks, e.queue)
  /-- and each walk is on the document just when that matches, and beyond it if not -/
  placed : target ≤ d.docs.maxDoc → d.isHeld target = false →
    ∀ (i : Nat) (w : ω), e.walks[i]? = some (some w) →
      (DocWalk.stop w = .doc target ↔ matching i target) ∧
        (¬matching i target → (DocWalk.stop w).behind (target + 1) = false)

/-- Where the walks that wait are led by a call. -/
theorem Waits.led {matching : Nat → Nat → Prop} {maxDoc target : Nat} {walks : List (Option ω)}
    {d e : Disjunction ω} (h : Waits matching maxDoc walks d)
    (hobeys : ∀ (i : Nat) (w : ω), walks[i]? = some (some w) → Obeys (matching i) w)
    (hcall : Call d target e) : Led matching target d e := by
  obtain ⟨rfl, doc, hstop, hlt⟩ := hcall.eq_advance
  show Led matching target d (d.advance target)
  rcases advance_cases h.queued target (Nat.zero_lt_of_lt hlt) with
    ⟨hpast, heq⟩ | ⟨hle, hheld, heq⟩ | ⟨hle, hheld, queue, -, heq⟩
  · have hnot : ¬target ≤ d.docs.maxDoc := Nat.not_le.mpr hpast
    rw [heq]
    exact ⟨(if_neg hnot).symm, fun _ => ⟨rfl, rfl⟩, fun _ => ⟨rfl, rfl⟩,
      fun hle => absurd hle hnot, fun hle => absurd hle hnot⟩
  · have hhold : d.isHeld target ≠ false := by
      rw [hheld]
      exact Bool.false_ne_true.symm
    rw [heq]
    exact ⟨(if_pos hle).symm, fun _ => ⟨rfl, rfl⟩, fun _ => ⟨rfl, rfl⟩,
      fun _ hnot => absurd hnot hhold, fun _ hnot => absurd hnot hhold⟩
  · have hturns : ((d.advance target).walks, (d.advance target).queue)
        = moveWalks target d.walks d.queue := advance_moveWalks hle (Nat.zero_lt_of_lt hlt) hheld
    refine ⟨?_, fun hpast => absurd hle (Nat.not_le.mpr hpast), ?_, ?_, ?_⟩
    · rw [if_pos hle, heq]
      rfl
    · intro hhold
      rw [hheld] at hhold
      exact nomatch hhold
    · intro _ _
      rw [hturns]
      exact turns_moveWalks h.queued (h.arrive hobeys hstop hlt)
    · intro _ _ i w hi
      rw [heq] at hi
      obtain ⟨v, hv, rfl⟩ := mem_moved hi
      have hfirst := h.reach_isFirst hobeys hstop hlt hv
      exact ⟨hfirst.eq_doc_iff, hfirst.beyond⟩

/-- Walks wait wherever calls lead. -/
theorem Reached.waits {matching : Nat → Nat → Prop} {maxDoc : Nat} {walks : List (Option ω)}
    {docBase : Nat} {cache : Option ScoreCache} {d : Disjunction ω}
    (h : Reached (ofWalks maxDoc walks docBase cache) d)
    (hobeys : ∀ (i : Nat) (w : ω), walks[i]? = some (some w) → Obeys (matching i) w) :
    Waits matching maxDoc walks d := by
  induction h with
  | fresh => exact Waits.fresh hobeys docBase cache
  | call _ hcall ih => exact ih.call hobeys hcall
  | record _ _ _ ih => exact ih.record _

/-- **The walks of a disjunction are where they must be.**  Whatever mixture of steps,
    jumps and new scores came before, the queue holds each walk under its stop and no walk
    has passed over a match that is still to come; and the next call moves no walk when the
    scores of its document are held, and otherwise, in as many turns as there are walks at
    most, leaves on the document just the walks that it matches. -/
theorem walks_in_place {matching : Nat → Nat → Prop} {maxDoc : Nat} {walks : List (Option ω)}
    {docBase : Nat} {cache : Option ScoreCache} {d : Disjunction ω}
    (hobeys : ∀ (i : Nat) (w : ω), walks[i]? = some (some w) → Obeys (matching i) w)
    (hreached : Reached (ofWalks maxDoc walks docBase cache) d) :
    Waits matching maxDoc walks d ∧
      ∀ (target : Nat) (e : Disjunction ω), Call d target e →
        Waits matching maxDoc walks e ∧ Led matching target d e := by
  have hwaits := hreached.waits hobeys
  refine ⟨hwaits, ?_⟩
  intro target e hcall
  exact ⟨hwaits.call hobeys hcall, hwaits.led hobeys hcall⟩

/-- Three features, of which the second matches nothing, after a jump to a document whose
    scores are held. -/
theorem walks_in_place_behind_held :
    let postings : Nat → List Posting := fun i =>
      if i = 0 then [⟨1, 1, #[1]⟩, ⟨3, 1, #[1]⟩] else [⟨2, 1, #[1]⟩]
    let matching : Nat → Nat → Prop := fun i n => ∃ p ∈ postings i, p.doc = n
    let walks := [some (Cursor.ofPostings (postings 0)), none,
      some (Cursor.ofPostings (postings 2))]
    let first := ofWalks 3 walks 10 (some (ScoreCache.empty.insertOnce 12 [1.0]))
    (∀ (i : Nat) (w : Cursor), walks[i]? = some (some w) → Obeys (matching i) w) ∧
      Reached first (first.advance 2) ∧
      Waits matching 3 walks (first.advance 2) ∧
      ∀ (target : Nat) (e : Disjunction Cursor), Call (first.advance 2) target e →
        Waits matching 3 walks e ∧ Led matching target (first.advance 2) e := by
  intro postings matching walks first
  have hobeys : ∀ (i : Nat) (w : Cursor), walks[i]? = some (some w) → Obeys (matching i) w := by
    intro i w hi
    match i with
    | 0 =>
        have hw : Cursor.ofPostings (postings 0) = w := Option.some.inj (Option.some.inj hi)
        rw [← hw]
        exact Cursor.obeys (by decide)
    | 1 => exact nomatch Option.some.inj hi
    | 2 =>
        have hw : Cursor.ofPostings (postings 2) = w := Option.some.inj (Option.some.inj hi)
        rw [← hw]
        exact Cursor.obeys (by decide)
    | _ + 3 => exact nomatch hi
  have hfresh : DocWalk.stop first = .doc 0 := rfl
  have hreached : Reached first (first.advance 2) :=
    Reached.fresh.call (Call.advance hfresh (by decide))
  exact ⟨hobeys, hreached, walks_in_place hobeys hreached⟩

end Disjunction

end FeatureRank
