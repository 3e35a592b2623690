import Mathlib.Data.List.Forall2
import FeatureRank.Proofs.Index.Contents

/-! # Inversion — an index says all about its documents and nothing else

    `Segment.Inverts` collects what the postings of every term and the statistics
    have to say when a segment indexes some documents; it is stated from the lists
    of terms alone.  Every segment that documents built inverts them
    (`Segment.inverts_ofDocs`), and the places of the terms give the documents back
    (`Segment.Inverts.terms_eq`).  A shard cuts its documents into segments and
    adds up what they count, for whichever sizes the documents came with
    (`index_inverts`). -/

namespace FeatureRank

/-- Whether a term stands at a position of a document; both count from 1. -/
def StandsAt (docs : List (List TermId)) (doc position : Nat) (term : TermId) : Prop :=
  0 < doc ∧ 0 < position ∧ ∃ terms, docs[doc - 1]? = some terms ∧ terms[position - 1]? = some term

/-- A document holds a term just when the term stands at a position there. -/
theorem exists_standsAt {docs : List (List TermId)} {doc : Nat} {term : TermId} :
    (∃ position, StandsAt docs doc position term) ↔
      0 < doc ∧ ∃ terms, docs[doc - 1]? = some terms ∧ term ∈ terms := by
  constructor
  · rintro ⟨position, hdoc, -, terms, hterms, hterm⟩
    exact ⟨hdoc, terms, hterms, List.mem_of_getElem? hterm⟩
  · rintro ⟨hdoc, terms, hterms, hmem⟩
    obtain ⟨index, hindex⟩ := List.mem_iff_getElem?.mp hmem
    exact ⟨index + 1, hdoc, Nat.succ_pos index, terms, hterms, hindex⟩

/-! ## What the postings hold -/

/-- Where a term stands ascends. -/
theorem positionsOf_pairwise (term : TermId) (first : Nat) (terms : List TermId) :
    (positionsOf term first terms).Pairwise (· < ·) := by
  rw [positionsOf_eq_filter]
  exact List.Pairwise.filter _ List.pairwise_lt_range'

theorem pos_of_mem_positionsOf {term : TermId} {terms : List TermId} {position : Nat}
    (h : position ∈ positionsOf term 1 terms) : 0 < position := by
  rw [positionsOf_eq_filter] at h
  exact (List.mem_range'_1.mp (List.mem_filter.mp h).1).1

/-- A posting for a document is made of all its positions. -/
theorem mem_postingFor {doc : Nat} {positions : List Nat} {p : Posting} :
    p ∈ postingFor doc positions ↔
      positions ≠ [] ∧ p = ⟨doc, positions.length, positions.toArray⟩ := by
  cases positions with
  | nil => simp [postingFor]
  | cons position rest => simp [postingFor]

/-- The postings of a term over numbered documents: one for each document that
    holds it. -/
theorem mem_postingsFrom {term : TermId} {docs : List (List TermId)} {first : Nat} {p : Posting} :
    p ∈ postingsFrom term first docs ↔
      ∃ index terms, docs[index]? = some terms ∧
        p ∈ postingFor (first + index) (positionsOf term 1 terms) := by
  induction docs generalizing first with
  | nil => simp [postingsFrom]
  | cons terms rest ih =>
      rw [postingsFrom, List.mem_append, ih]
      constructor
      · rintro (hhere | ⟨index, later, hlater, hp⟩)
        · exact ⟨0, terms, rfl, hhere⟩
        · rw [show first + 1 + index = first + (index + 1) by omega] at hp
          exact ⟨index + 1, later, hlater, hp⟩
      · rintro ⟨index, later, hlater, hp⟩
        cases index with
        | zero =>
            rw [List.getElem?_cons_zero, Option.some_inj] at hlater
            rw [hlater]
            exact .inl hp
        | succ index =>
            rw [show first + (index + 1) = first + 1 + index by omega] at hp
            exact .inr ⟨index, later, hlater, hp⟩

namespace Segment

/-! ## Segments -/

/-- A segment that indexes some documents: its postings and its statistics are
    those of the lists of terms. -/
structure Inverts (docs : List (List TermId)) (s : Segment) : Prop where
  /-- the postings of a term come in strictly ascending order of documents -/
  ascending : ∀ term, (s.postingsOf term).Pairwise fun p q => p.doc < q.doc
  /-- a document has a posting of just the terms that it holds -/
  posted : ∀ term doc, (∃ p ∈ s.postingsOf term, p.doc = doc) ↔
    0 < doc ∧ ∃ terms, docs[doc - 1]? = some terms ∧ term ∈ terms
  /-- the positions of a posting are those where the term stands -/
  positions : ∀ term, ∀ p ∈ s.postingsOf term, ∀ position,
    position ∈ p.positions.toList ↔ StandsAt docs p.doc position term
  positionsAscend : ∀ term, ∀ p ∈ s.postingsOf term, p.positions.toList.Pairwise (· < ·)
  frequency : ∀ term, ∀ p ∈ s.postingsOf term, p.frequency = p.positions.size
  maxDoc : s.maxDoc = docs.length
  length : ∀ doc, s.length doc = if 0 < doc then
    match docs[doc - 1]? with
    | some terms => .ok terms.length
    | none => .error .noDocument
    else .error .noDocument
  tokens : s.tokens = (docs.map (·.length)).sum
  docFrequency : ∀ term, s.docFrequency term = docs.countP (term ∈ ·)
  termFrequency : ∀ term, s.termFrequency term = (docs.map (·.count term)).sum

/-- A posting of a built segment, taken apart: its document, and the positions
    that it was made of. -/
theorem mem_postingsOf {docs : List (List TermId)} {term : TermId} {p : Posting} :
    p ∈ (ofDocs docs).postingsOf term ↔
      ∃ index terms, docs[index]? = some terms ∧ term ∈ terms ∧
        p = ⟨index + 1, terms.count term, (positionsOf term 1 terms).toArray⟩ := by
  rw [postingsOf_ofDocs, mem_postingsFrom]
  refine exists_congr fun index => exists_congr fun terms => and_congr_right fun _ => ?_
  rw [mem_postingFor, ← length_positionsOf term terms 1, Nat.add_comm 1 index]
  exact and_congr_left fun _ => not_iff_comm.mp positionsOf_eq_nil.symm

theorem length_eq (docs : List (List TermId)) (doc : Nat) :
    (ofDocs docs).length doc = if 0 < doc then
      match docs[doc - 1]? with
      | some terms => .ok terms.length
      | none => .error .noDocument
      else .error .noDocument := by
  cases doc with
  | zero => rfl
  | succ index =>
      rw [if_pos (Nat.succ_pos index), Nat.add_sub_cancel]
      cases h : docs[index]? with
      | some terms => exact length_ofDocs h
      | none => simp [Segment.length, lengths_ofDocs, h]

/-- **Every segment that documents built inverts them.** -/
theorem inverts_ofDocs (docs : List (List TermId)) : (ofDocs docs).Inverts docs where
  ascending term := ((built_ofDocs docs).inOrder term).ascending
  posted term doc := by
    constructor
    · rintro ⟨p, hp, rfl⟩
      obtain ⟨index, terms, hterms, hterm, rfl⟩ := mem_postingsOf.mp hp
      exact ⟨Nat.succ_pos index, terms, hterms, hterm⟩
    · rintro ⟨hdoc, terms, hterms, hterm⟩
      exact ⟨_, mem_postingsOf.mpr ⟨doc - 1, terms, hterms, hterm, rfl⟩, Nat.sub_add_cancel hdoc⟩
  positions term p hp position := by
    obtain ⟨index, terms, hterms, -, rfl⟩ := mem_postingsOf.mp hp
    constructor
    · intro hposition
      have hpos := pos_of_mem_positionsOf hposition
      rw [← Nat.sub_add_cancel hpos] at hposition
      exact ⟨Nat.succ_pos index, hpos, terms, hterms, mem_positionsOf.mp hposition⟩
    · rintro ⟨-, hpos, others, hothers, hterm⟩
      have hsame : terms = others := Option.some.inj (hterms.symm.trans hothers)
      have hmem := mem_positionsOf.mpr hterm
      rw [Nat.sub_add_cancel hpos] at hmem
      rw [hsame]
      exact hmem
  positionsAscend term p hp := by
    obtain ⟨index, terms, -, -, rfl⟩ := mem_postingsOf.mp hp
    exact positionsOf_pairwise term 1 terms
  frequency term p hp := by
    obtain ⟨index, terms, -, -, rfl⟩ := mem_postingsOf.mp hp
    rw [List.size_toArray, length_positionsOf]
  maxDoc := maxDoc_ofDocs docs
  length := length_eq docs
  tokens := tokens_ofDocs docs
  docFrequency := docFrequency_ofDocs docs
  termFrequency := termFrequency_ofDocs docs

/-- Whether the postings put a term at a position of a document. -/
def Places (s : Segment) (doc position : Nat) (term : TermId) : Prop :=
  ∃ p ∈ s.postingsOf term, p.doc = doc ∧ position ∈ p.positions.toList

/-- The postings put a term just where it stands. -/
theorem Inverts.places_iff {docs : List (List TermId)} {s : Segment} (h : s.Inverts docs)
    {doc position : Nat} {term : TermId} :
    s.Places doc position term ↔ StandsAt docs doc position term := by
  constructor
  · rintro ⟨p, hp, rfl, hposition⟩
    exact (h.positions term p hp position).mp hposition
  · intro hstands
    obtain ⟨p, hp, rfl⟩ := (h.posted term doc).mpr (exists_standsAt.mp ⟨position, hstands⟩)
    exact ⟨p, hp, rfl, (h.positions term p hp position).mpr hstands⟩

/-- **The postings give the documents back**: two documents whose terms are put at
    the same positions are the same list of terms. -/
theorem Inverts.terms_eq {docs others : List (List TermId)} {s t : Segment} (hs : s.Inverts docs)
    (ht : t.Inverts others) {i j : Nat} {terms more : List TermId}
    (hi : docs[i]? = some terms) (hj : others[j]? = some more)
    (hplaces : ∀ position term, s.Places (i + 1) position term ↔ t.Places (j + 1) position term) :
    terms = more := by
  have hstands : ∀ {docs : List (List TermId)} {i : Nat} {terms : List TermId},
      docs[i]? = some terms → ∀ index term,
        StandsAt docs (i + 1) (index + 1) term ↔ terms[index]? = some term := by
    intro docs i terms hi index term
    simp [StandsAt, hi]
  refine List.ext_getElem? fun index => Option.ext fun term => ?_
  rw [← hstands hi, ← hstands hj, ← hs.places_iff, ← ht.places_iff]
  exact hplaces (index + 1) term

end Segment

namespace Shard

/-! ## Shards -/

/-- The shard of some documents, each with the size of segments that it was added
    under. -/
def ofDocs (docs : List (IndexedDocument × Nat)) : Shard :=
  docs.foldl (fun s d => (s.add d.1.1 d.1.2 d.2).1) .empty

theorem holds_ofDocs (docs : List (IndexedDocument × Nat)) :
    (ofDocs docs).Holds (docs.map (·.1)) := by
  induction docs using List.reverseRecOn with
  | nil => exact .empty
  | append_singleton docs d ih =>
      rw [ofDocs, List.foldl_append, List.map_append]
      exact (ih.add d.1.1 d.1.2 d.2).1

/-- A shard that indexes some documents: its segments index them one part after
    the other, and its statistics are sums over all of them. -/
structure Inverts (docs : List (List TermId)) (s : Shard) : Prop where
  segments : ∃ chunks, List.Forall₂ Segment.Inverts chunks s.segments.toList ∧
    chunks.flatten = docs
  docCount : s.docCount = docs.length
  tokens : s.tokens = (docs.map (·.length)).sum
  docFrequency : ∀ term, s.docFrequency term = docs.countP (term ∈ ·)
  termFrequency : ∀ term, s.termFrequency term = (docs.map (·.count term)).sum

theorem Holds.inverts {docs : List IndexedDocument} {s : Shard} (h : s.Holds docs) :
    s.Inverts (docs.map (·.2)) where
  segments := by
    obtain ⟨chunks, hchunks, hflatten⟩ := h.segments
    refine ⟨chunks, ?_, hflatten⟩
    rw [hchunks, List.forall₂_map_right_iff, List.forall₂_same]
    exact fun chunk _ => Segment.inverts_ofDocs chunk
  docCount := by rw [h.docCount, List.length_map]
  tokens := by rw [h.tokens, List.map_map]; rfl
  docFrequency term := by rw [h.docFrequency, List.countP_map]; rfl
  termFrequency term := by rw [h.termFrequency, List.map_map]; rfl

end Shard

/-! ## The index -/

/-- **An index is a faithful inversion of its documents.**  A segment inverts the
    documents that were added to it, whichever they are; each gets the next number;
    a document is the only list of terms with its places; and a shard inverts its
    documents in the same sense, whatever the keys and the sizes of segments. -/
theorem index_inverts (docs others : List (List TermId)) (added : List (IndexedDocument × Nat)) :
    (Segment.ofDocs docs).Inverts docs ∧
    (∀ terms, ((Segment.ofDocs docs).add terms).2 = docs.length + 1) ∧
    (∀ (i j : Nat) (terms more : List TermId), docs[i]? = some terms → others[j]? = some more →
      (∀ position term, (Segment.ofDocs docs).Places (i + 1) position term ↔
        (Segment.ofDocs others).Places (j + 1) position term) → terms = more) ∧
    (Shard.ofDocs added).Inverts (added.map (·.1.2)) := by
  refine ⟨Segment.inverts_ofDocs docs, ?_, ?_, ?_⟩
  · intro terms
    show (Segment.ofDocs docs).maxDoc + 1 = _
    rw [Segment.maxDoc_ofDocs]
  · intro i j terms more hi hj hplaces
    exact (Segment.inverts_ofDocs docs).terms_eq (Segment.inverts_ofDocs others) hi hj hplaces
  · have hinverts := (Shard.holds_ofDocs added).inverts
    rw [List.map_map] at hinverts
    exact hinverts

end FeatureRank
