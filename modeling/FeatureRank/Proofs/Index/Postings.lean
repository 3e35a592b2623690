import Mathlib.Data.List.Basic
import FeatureRank.Index.Shard

/-! # Postings stay in order — the shape of an index that documents built

    A segment is only ever made by adding documents to the empty one, and a
    shard by adding documents to its last segment.  Both histories are inductive
    predicates here (`Segment.Built`, `Shard.Built`).  What every walk relies on
    follows from them by induction over the documents: for each term the postings
    ascend, and each is of a document that the segment holds
    (`Segment.Built.inOrder`). -/

namespace FeatureRank

/-- Postings in ascending order of documents, all of them of the first `last`
    documents. -/
structure InOrder (last : Nat) (postings : List Posting) : Prop where
  ascending : postings.Pairwise fun p q => p.doc < q.doc
  inside : ∀ p ∈ postings, 0 < p.doc ∧ p.doc ≤ last

namespace InOrder

theorem nil (last : Nat) : InOrder last [] := ⟨List.Pairwise.nil, by simp⟩

/-- More documents leave postings in order. -/
theorem mono {last more : Nat} {postings : List Posting} (h : InOrder last postings)
    (hle : last ≤ more) : InOrder more postings :=
  ⟨h.ascending, fun p hp => ⟨(h.inside p hp).1, Nat.le_trans (h.inside p hp).2 hle⟩⟩

/-- The newest posting may be replaced by one of the same document. -/
theorem replaceLast {last : Nat} {postings : List Posting} {old new : Posting}
    (h : InOrder last (postings ++ [old])) (hdoc : new.doc = old.doc) :
    InOrder last (postings ++ [new]) := by
  obtain ⟨hasc, hin⟩ := h
  rw [List.pairwise_append] at hasc
  obtain ⟨hfront, -, hcross⟩ := hasc
  constructor
  · rw [List.pairwise_append]
    refine ⟨hfront, List.pairwise_singleton _ _, ?_⟩
    intro p hp q hq
    rw [List.mem_singleton] at hq
    rw [hq, hdoc]
    exact hcross p hp old (List.mem_singleton_self old)
  · intro p hp
    rcases List.mem_append.mp hp with hp | hp
    · exact hin p (List.mem_append_left _ hp)
    · rw [List.mem_singleton] at hp
      rw [hp, hdoc]
      exact hin old (List.mem_append_right _ (List.mem_singleton_self old))

/-- A posting of a later document goes to the end. -/
theorem concat {last : Nat} {postings : List Posting} {new : Posting}
    (h : InOrder last postings) (hlater : ∀ p ∈ postings, p.doc < new.doc)
    (hpos : 0 < new.doc) (hlast : new.doc ≤ last) : InOrder last (postings ++ [new]) := by
  constructor
  · rw [List.pairwise_append]
    refine ⟨h.ascending, List.pairwise_singleton _ _, ?_⟩
    intro p hp q hq
    rw [List.mem_singleton] at hq
    rw [hq]
    exact hlater p hp
  · intro p hp
    rcases List.mem_append.mp hp with hp | hp
    · exact h.inside p hp
    · rw [List.mem_singleton] at hp
      rw [hp]
      exact ⟨hpos, hlast⟩

end InOrder

/-- Noting an occurrence in the newest document keeps the postings in order. -/
theorem noteOccurrence_inOrder {doc : Nat} (position : Nat) (hpos : 0 < doc)
    {postings : Array Posting} (h : InOrder doc postings.toList) :
    InOrder doc (noteOccurrence doc position postings).toList := by
  unfold noteOccurrence
  cases hback : postings.back? with
  | none =>
      have hfirst : InOrder doc ([] ++ [(⟨doc, 1, #[position]⟩ : Posting)]) :=
        (InOrder.nil doc).concat (by simp) hpos (Nat.le_refl doc)
      exact hfirst
  | some newest =>
      obtain ⟨front, hfront⟩ := Array.back?_eq_some_iff.mp hback
      have hsplit : postings.toList = front.toList ++ [newest] := by
        rw [hfront, Array.toList_push]
      have hpop : postings.pop = front := by rw [hfront, Array.pop_push]
      rw [hsplit] at h
      by_cases hdoc : newest.doc = doc
      · simp only [if_pos hdoc, Array.toList_push, hpop]
        exact h.replaceLast rfl
      · simp only [if_neg hdoc, Array.toList_push]
        have hnewest : newest.doc < doc := by
          have := (h.inside newest (by simp)).2
          omega
        rw [hsplit]
        refine h.concat ?_ hpos (Nat.le_refl doc)
        intro p hp
        rcases List.mem_append.mp hp with hp | hp
        · have hlt : p.doc < newest.doc :=
            (List.pairwise_append.mp h.ascending).2.2 p hp newest (List.mem_singleton_self _)
          exact Nat.lt_trans hlt hnewest
        · rw [List.mem_singleton] at hp
          rw [hp]
          exact hnewest

namespace Segment

/-- Noting the terms of the newest document keeps all postings in order. -/
theorem noteTerms_inOrder {doc : Nat} (hpos : 0 < doc) (terms : List TermId) :
    ∀ (position : Nat) (postings : Std.TreeMap TermId (Array Posting)),
      (∀ term, InOrder doc (postings.getD term #[]).toList) →
      ∀ term, InOrder doc ((noteTerms doc position terms postings).getD term #[]).toList := by
  induction terms with
  | nil => intro position postings h term; exact h term
  | cons first rest ih =>
      intro position postings h
      refine ih (position + 1) _ ?_
      intro term
      rw [Std.TreeMap.getD_alter]
      split
      · simp only [Option.getD_some]
        rw [← Std.TreeMap.getD_eq_getD_getElem?]
        exact noteOccurrence_inOrder position hpos (h first)
      · exact h term

/-- A segment that documents built, one after the other. -/
inductive Built : Segment → Prop where
  | empty : Built .empty
  | add {s : Segment} (h : Built s) (terms : List TermId) : Built (s.add terms).1

@[simp] theorem maxDoc_add (s : Segment) (terms : List TermId) :
    (s.add terms).1.maxDoc = s.maxDoc + 1 := Array.size_push _

/-- **The postings of a built segment are in order.** -/
theorem Built.inOrder {s : Segment} (h : s.Built) :
    ∀ term, InOrder s.maxDoc (s.postingsOf term) := by
  induction h with
  | empty => intro term; exact InOrder.nil 0
  | @add s _ terms ih =>
      rw [maxDoc_add]
      exact noteTerms_inOrder (Nat.succ_pos s.maxDoc) terms 1 s.postings
        fun term => (ih term).mono (Nat.le_succ s.maxDoc)

/-- A segment knows the length of each of its documents. -/
theorem length_ok (s : Segment) {doc : Nat} (hpos : 0 < doc) (hle : doc ≤ s.maxDoc) :
    ∃ length, s.length doc = .ok length := by
  cases doc with
  | zero => exact absurd hpos (Nat.lt_irrefl 0)
  | succ index =>
      have hlt : index < s.lengths.size := hle
      exact ⟨s.lengths[index], by simp only [Segment.length, Array.getElem?_eq_getElem hlt]⟩

end Segment

namespace Shard

/-- A shard that documents built, one after the other, with any segment sizes. -/
inductive Built : Shard → Prop where
  | empty : Built .empty
  | add {s : Shard} (h : Built s) (key : String) (terms : List TermId) (segmentSize : Nat) :
      Built (s.add key terms segmentSize).1

/-- The segment that takes the next document and those before it were there
    already, or the segment is the empty one. -/
theorem openSegment_mem (s : Shard) (segmentSize : Nat) :
    (∀ x ∈ (s.openSegment segmentSize).1, x ∈ s.segments) ∧
      ((s.openSegment segmentSize).2 ∈ s.segments ∨ (s.openSegment segmentSize).2 = .empty) := by
  unfold openSegment
  cases hback : s.segments.back? with
  | none => exact ⟨fun x hx => absurd hx (Array.not_mem_empty x), Or.inr rfl⟩
  | some last =>
      by_cases hfull : segmentSize ≤ last.maxDoc
      · simp only [if_pos hfull]
        exact ⟨fun x hx => hx, Or.inr trivial⟩
      · simp only [if_neg hfull]
        obtain ⟨front, hfront⟩ := Array.back?_eq_some_iff.mp hback
        rw [hfront, Array.pop_push]
        exact ⟨fun x hx => Array.mem_push_of_mem last hx, Or.inl Array.mem_push_self⟩

/-- Every segment of a built shard is built. -/
theorem Built.segments {s : Shard} (h : s.Built) : ∀ segment ∈ s.segments, segment.Built := by
  induction h with
  | empty => intro segment hmem; simp [Shard.empty] at hmem
  | @add s _ key terms segmentSize ih =>
      intro segment hmem
      obtain ⟨hfull, hopen⟩ := openSegment_mem s segmentSize
      have hmem' : segment ∈ (s.openSegment segmentSize).1.push
          ((s.openSegment segmentSize).2.add terms).1 := hmem
      rcases Array.mem_push.mp hmem' with hold | hnew
      · exact ih segment (hfull segment hold)
      · rw [hnew]
        rcases hopen with hlast | hempty
        · exact (ih _ hlast).add terms
        · rw [hempty]
          exact Segment.Built.empty.add terms

/-- A reader from a list of segments reads one of them. -/
theorem mem_readersFrom {segments : List Segment} {ordinal docBase : Nat} {r : SegmentReader}
    (h : r ∈ readersFrom ordinal docBase segments) : r.segment ∈ segments := by
  induction segments generalizing ordinal docBase with
  | nil => exact nomatch h
  | cons first rest ih =>
      rcases List.mem_cons.mp h with heq | hmem
      · rw [heq]; exact List.mem_cons_self
      · exact List.mem_cons_of_mem _ (ih hmem)

/-- The segments of a list take the documents from the base on. -/
theorem docBase_readersFrom {segments : List Segment} {ordinal docBase : Nat} {r : SegmentReader}
    (h : r ∈ readersFrom ordinal docBase segments) : docBase ≤ r.docBase := by
  induction segments generalizing ordinal docBase with
  | nil => exact nomatch h
  | cons first rest ih =>
      rcases List.mem_cons.mp h with heq | hmem
      · exact Nat.le_of_eq (congrArg SegmentReader.docBase heq).symm
      · exact Nat.le_trans (Nat.le_add_right _ _) (ih hmem)

/-- The documents of one segment all precede those of the next. -/
theorem readersFrom_pairwise (segments : List Segment) (ordinal docBase : Nat) :
    (readersFrom ordinal docBase segments).Pairwise
      fun a b => a.docBase + a.maxDoc ≤ b.docBase := by
  induction segments generalizing ordinal docBase with
  | nil => exact List.Pairwise.nil
  | cons first rest ih =>
      refine List.pairwise_cons.mpr ⟨?_, ih _ _⟩
      intro r hr
      exact docBase_readersFrom hr

theorem readers_pairwise (s : Shard) :
    s.readers.Pairwise fun a b => a.docBase + a.maxDoc ≤ b.docBase :=
  readersFrom_pairwise s.segments.toList 0 0

/-- An absolute number is in one segment only, and at one place there. -/
theorem readers_unique (s : Shard) {a b : SegmentReader} (ha : a ∈ s.readers)
    (hb : b ∈ s.readers) {i j : Nat} (hi : 0 < i) (hia : i ≤ a.maxDoc) (hj : 0 < j)
    (hjb : j ≤ b.maxDoc) (h : a.docBase + i = b.docBase + j) : a = b ∧ i = j := by
  obtain ⟨m, hm, hma⟩ := List.mem_iff_getElem.mp ha
  obtain ⟨n, hn, hnb⟩ := List.mem_iff_getElem.mp hb
  have hpairs := List.pairwise_iff_getElem.mp s.readers_pairwise
  have hsame : m = n := by
    rcases Nat.lt_trichotomy m n with hlt | heq | hgt
    · have hbefore := hpairs m n hm hn hlt
      rw [hma, hnb] at hbefore
      omega
    · exact heq
    · have hbefore := hpairs n m hn hm hgt
      rw [hma, hnb] at hbefore
      omega
  subst hsame
  have hab : a = b := hma.symm.trans hnb
  subst hab
  exact ⟨rfl, by omega⟩

/-- Every reader of a built shard reads a built segment. -/
theorem Built.readers {s : Shard} (h : s.Built) : ∀ r ∈ s.readers, r.segment.Built :=
  fun _ hr => h.segments _ (Array.mem_toList_iff.mp (mem_readersFrom hr))

end Shard

end FeatureRank
