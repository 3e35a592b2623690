import FeatureRank.Proofs.Index.Inversion

/-! # Addresses — an absolute number stands for one document, for good

    The segments of a shard, the bases that are summed up over them and the list of
    keys are kept apart, and segments are closed by sizes that may change from
    document to document.  They agree all the same (`Shard.Addresses`): the numbers
    of the segments are those of the documents, part after part, and a number is
    located at the one place that has it, where the postings are those of its
    document.

    One more document leaves the segments where they are and makes the last one
    longer at most (`Shard.readers_add`), so what was answered for a number stays
    answered (`Shard.Kept`), over any further documents (`addresses_for_good`). -/

namespace FeatureRank

/-! ## A document in its segment -/

/-- The postings of a term that are of one document. -/
def Segment.postingsAt (s : Segment) (term : TermId) (doc : Nat) : List Posting :=
  (s.postingsOf term).filter (·.doc == doc)

/-- A segment that has a document of some terms under a number: each term has the
    posting that its positions in the document make. -/
structure Segment.HasAt (s : Segment) (doc : Nat) (terms : List TermId) : Prop where
  postings : ∀ term, s.postingsAt term doc = postingFor doc (positionsOf term 1 terms)
  length : s.length doc = .ok terms.length

/-- Of postings over numbered documents, those of one number are the posting of its
    document. -/
theorem filter_postingsFrom {docs : List (List TermId)} {index : Nat} {terms : List TermId}
    (h : docs[index]? = some terms) (term : TermId) (first : Nat) :
    (postingsFrom term first docs).filter (·.doc == first + index)
      = postingFor (first + index) (positionsOf term 1 terms) := by
  induction docs generalizing first index with
  | nil => exact nomatch h
  | cons head rest ih =>
      rw [postingsFrom, List.filter_append]
      cases index with
      | zero =>
          rw [List.getElem?_cons_zero, Option.some_inj] at h
          have hhere : (postingFor first (positionsOf term 1 head)).filter (·.doc == first + 0)
              = postingFor first (positionsOf term 1 head) :=
            List.filter_eq_self.mpr fun p hp => beq_iff_eq.mpr (doc_postingFor hp)
          have hlater : (postingsFrom term (first + 1) rest).filter (·.doc == first + 0) = [] := by
            refine List.filter_eq_nil_iff.mpr fun p hp hdoc => ?_
            have := (doc_postingsFrom hp).1
            have := beq_iff_eq.mp hdoc
            omega
          rw [hhere, hlater, List.append_nil, h, Nat.add_zero]
      | succ index =>
          have hhere : (postingFor first (positionsOf term 1 head)).filter
              (·.doc == first + (index + 1)) = [] := by
            refine List.filter_eq_nil_iff.mpr fun p hp hdoc => ?_
            rw [doc_postingFor hp] at hdoc
            have := beq_iff_eq.mp hdoc
            omega
          rw [hhere, List.nil_append, show first + (index + 1) = first + 1 + index by omega]
          exact ih h (first + 1)

/-- A segment has each document that it is made of. -/
theorem Segment.hasAt_ofDocs {docs : List (List TermId)} {index : Nat} {terms : List TermId}
    (h : docs[index]? = some terms) : (ofDocs docs).HasAt (index + 1) terms where
  postings term := by
    rw [postingsAt, postingsOf_ofDocs, Nat.add_comm index 1]
    exact filter_postingsFrom h term 1
  length := length_ofDocs h

namespace SegmentReader

/-- The absolute numbers of the documents of a segment. -/
def numbers (r : SegmentReader) : List Nat := List.range' (r.docBase + 1) r.maxDoc

end SegmentReader

namespace Shard

variable {docs : List IndexedDocument} {s t : Shard}

/-! ## Segments in their places -/

theorem readersFrom_append (segments more : List Segment) (ordinal docBase : Nat) :
    readersFrom ordinal docBase (segments ++ more)
      = readersFrom ordinal docBase segments ++ readersFrom (ordinal + segments.length)
          (docBase + (segments.map (·.maxDoc)).sum) more := by
  induction segments generalizing ordinal docBase with
  | nil => rfl
  | cons first rest ih =>
      rw [List.cons_append, readersFrom, readersFrom, ih, List.cons_append, List.length_cons,
        List.map_cons, List.sum_cons, Nat.add_assoc docBase, Nat.add_right_comm ordinal,
        ← Nat.add_assoc ordinal]

theorem segment_readersFrom (segments : List Segment) (ordinal docBase : Nat) :
    (readersFrom ordinal docBase segments).map (·.segment) = segments := by
  induction segments generalizing ordinal docBase with
  | nil => rfl
  | cons first rest ih => rw [readersFrom, List.map_cons, ih]

theorem ordinal_readersFrom (segments : List Segment) (ordinal docBase : Nat) :
    (readersFrom ordinal docBase segments).map (·.ordinal)
      = List.range' ordinal segments.length := by
  induction segments generalizing ordinal docBase with
  | nil => rfl
  | cons first rest ih =>
      rw [readersFrom, List.map_cons, ih, List.length_cons, List.range'_succ]

/-- **The numbers of segments, part after part**, are the numbers from the base on. -/
theorem numbers_readersFrom (segments : List Segment) (ordinal docBase : Nat) :
    (readersFrom ordinal docBase segments).flatMap (·.numbers)
      = List.range' (docBase + 1) (segments.map (·.maxDoc)).sum := by
  induction segments generalizing ordinal docBase with
  | nil => rfl
  | cons first rest ih =>
      rw [readersFrom, List.flatMap_cons, ih, List.map_cons, List.sum_cons, ← List.range'_append_1,
        Nat.add_right_comm]
      rfl

/-- A shard has as many documents as its segments. -/
theorem Holds.docCount_eq_sum (h : s.Holds docs) :
    s.docCount = (s.segments.toList.map (·.maxDoc)).sum := by
  obtain ⟨chunks, hchunks, hflatten⟩ := h.segments
  rw [h.docCount, ← List.length_map (f := (·.2)), ← hflatten, List.length_flatten, hchunks,
    List.map_map]
  refine congrArg List.sum (List.map_congr_left fun chunk _ => ?_)
  exact (Segment.maxDoc_ofDocs chunk).symm

/-- No segment of a shard is empty: one is made for the document that it takes. -/
theorem Built.maxDoc_pos (h : s.Built) : ∀ segment ∈ s.segments, 0 < segment.maxDoc := by
  induction h with
  | empty => intro segment hmem; simp [Shard.empty] at hmem
  | @add s _ key terms segmentSize ih =>
      intro segment hmem
      have hmem : segment ∈ (s.openSegment segmentSize).1.push
          ((s.openSegment segmentSize).2.add terms).1 := hmem
      rcases Array.mem_push.mp hmem with hold | rfl
      · exact ih segment ((openSegment_mem s segmentSize).1 segment hold)
      · rw [Segment.maxDoc_add]
        exact Nat.succ_pos _

theorem built_ofDocs (added : List (IndexedDocument × Nat)) : (ofDocs added).Built := by
  induction added using List.reverseRecOn with
  | nil => exact .empty
  | append_singleton added d ih =>
      rw [ofDocs, List.foldl_append]
      exact ih.add d.1.1 d.1.2 d.2

/-! ## Locating a number -/

/-- **A number is located at the one place that has it.** -/
theorem locate?_eq_some_iff {doc inside : Nat} {r : SegmentReader} :
    s.locate? doc = some (r, inside) ↔
      r ∈ s.readers ∧ 0 < inside ∧ inside ≤ r.maxDoc ∧ r.docBase + inside = doc := by
  have hcovers : ∀ {r : SegmentReader}, r.covers doc = true ↔
      r.docBase < doc ∧ doc ≤ r.docBase + r.maxDoc := by
    intro r
    rw [SegmentReader.covers, Bool.and_eq_true, decide_eq_true_eq, decide_eq_true_eq]
  have hfound : ∀ {r : SegmentReader}, s.readers.find? (·.covers doc) = some r →
      r ∈ s.readers ∧ r.docBase < doc ∧ doc ≤ r.docBase + r.maxDoc := fun hfind =>
    ⟨List.mem_of_find?_eq_some hfind,
      hcovers.mp (@List.find?_some _ (SegmentReader.covers · doc) _ _ hfind)⟩
  unfold locate?
  constructor
  · intro h
    obtain ⟨r', hfind, heq⟩ := Option.map_eq_some_iff.mp h
    obtain ⟨rfl, rfl⟩ := Prod.mk.inj heq
    obtain ⟨hr', hlo, hhi⟩ := hfound hfind
    exact ⟨hr', by omega, by omega, by omega⟩
  · rintro ⟨hr, hpos, hle, hdoc⟩
    have hsome : (s.readers.find? (·.covers doc)).isSome = true :=
      List.find?_isSome.mpr ⟨r, hr, hcovers.mpr (by omega)⟩
    obtain ⟨r', hfind⟩ := Option.isSome_iff_exists.mp hsome
    obtain ⟨hr', hlo, hhi⟩ := hfound hfind
    -- the segments are one after the other, so the first one found is the only one
    obtain ⟨rfl, -⟩ := s.readers_unique hr' hr
      (show 0 < doc - r'.docBase by omega) (by omega) hpos hle (by omega)
    rw [hfind, Option.map_some, ← hdoc, Nat.add_sub_cancel_left]

/-- A shard that addresses its documents by the numbers 1, 2, … -/
structure Addresses (docs : List IndexedDocument) (s : Shard) : Prop where
  docCount : s.docCount = docs.length
  segments : s.readers.map (·.segment) = s.segments.toList
  nonempty : ∀ segment ∈ s.segments, 0 < segment.maxDoc
  ordinals : s.readers.map (·.ordinal) = List.range s.readers.length
  /-- the numbers of the segments, in order, are each number once -/
  numbers : s.readers.flatMap (·.numbers) = List.range' 1 s.docCount
  located : ∀ doc, (s.locate? doc).isSome = true ↔ 0 < doc ∧ doc ≤ s.docCount
  /-- a number is located in the one segment, and at the one place there, that has it -/
  place : ∀ doc r inside, s.locate? doc = some (r, inside) ↔
    r ∈ s.readers ∧ 0 < inside ∧ inside ≤ r.maxDoc ∧ r.docBase + inside = doc
  /-- at that place is the document of the number -/
  document : ∀ doc r inside, s.locate? doc = some (r, inside) →
    ∃ d, docs[doc - 1]? = some d ∧ r.segment.HasAt inside d.2
  key : ∀ doc, s.key? doc = if 0 < doc then docs[doc - 1]?.map (·.1) else none
  /-- a key leads to the least number that has it, and nowhere when none has -/
  docOf : ∀ key doc, s.docOf? key = some doc ↔
    s.key? doc = some key ∧ ∀ other, s.key? other = some key → doc ≤ other

theorem Holds.located_iff (h : s.Holds docs) (doc : Nat) :
    (s.locate? doc).isSome = true ↔ 0 < doc ∧ doc ≤ s.docCount := by
  constructor
  · intro hsome
    by_contra hnot
    rw [h.docCount] at hnot
    rw [h.locate?_eq_none (by omega)] at hsome
    exact nomatch hsome
  · rintro ⟨hpos, hle⟩
    rw [h.docCount] at hle
    obtain ⟨r, chunk, inside, hlocate, -, -⟩ :=
      h.locate? (List.getElem?_eq_getElem (show doc - 1 < docs.length by omega))
    rw [Nat.sub_add_cancel hpos] at hlocate
    rw [hlocate]
    rfl

theorem Holds.hasAt (h : s.Holds docs) {doc inside : Nat} {r : SegmentReader}
    (hlocate : s.locate? doc = some (r, inside)) :
    ∃ d, docs[doc - 1]? = some d ∧ r.segment.HasAt inside d.2 := by
  obtain ⟨hpos, hle⟩ := (h.located_iff doc).mp (Option.isSome_of_eq_some hlocate)
  rw [h.docCount] at hle
  have hdoc := List.getElem?_eq_getElem (show doc - 1 < docs.length by omega)
  obtain ⟨r', chunk, inside', hlocate', hsegment, hinside⟩ := h.locate? hdoc
  rw [Nat.sub_add_cancel hpos, hlocate] at hlocate'
  obtain ⟨rfl, rfl⟩ := Prod.mk.inj (Option.some.inj hlocate')
  refine ⟨_, hdoc, ?_⟩
  rw [hsegment]
  exact Segment.hasAt_ofDocs hinside

/-- The first of the documents with a key, by its number. -/
theorem docOf?_eq_some_iff (s : Shard) {key : String} {doc : Nat} :
    s.docOf? key = some doc ↔
      s.key? doc = some key ∧ ∀ other, s.key? other = some key → doc ≤ other := by
  have hfind : s.docOf? key = (s.keys.toList.findIdx? (· == key)).map (· + 1) := by
    have hlist : s.keys.idxOf? key = s.keys.toList.idxOf? key :=
      List.idxOf?_toArray key s.keys.toList
    rw [docOf?, hlist]
    rfl
  have hkey : ∀ index, s.key? (index + 1) = some key ↔
      ∃ hlt : index < s.keys.toList.length, s.keys.toList[index] = key := by
    intro index
    show s.keys[index]? = some key ↔ _
    rw [← Array.getElem?_toList, List.getElem?_eq_some_iff]
  rw [hfind, Option.map_eq_some_iff]
  constructor
  · rintro ⟨index, hindex, rfl⟩
    obtain ⟨hlt, hhere, hbefore⟩ := List.findIdx?_eq_some_iff_getElem.mp hindex
    refine ⟨(hkey index).mpr ⟨hlt, beq_iff_eq.mp hhere⟩, ?_⟩
    intro other hother
    cases other with
    | zero => exact nomatch hother
    | succ other =>
        obtain ⟨hlt', hsame⟩ := (hkey other).mp hother
        by_contra hless
        exact hbefore other (by omega) (beq_iff_eq.mpr hsame)
  · rintro ⟨hdoc, hleast⟩
    cases doc with
    | zero => exact nomatch hdoc
    | succ index =>
        obtain ⟨hlt, hhere⟩ := (hkey index).mp hdoc
        refine ⟨index, ?_, rfl⟩
        refine List.findIdx?_eq_some_iff_getElem.mpr ⟨hlt, beq_iff_eq.mpr hhere, ?_⟩
        intro other hless hsame
        have := hleast (other + 1) ((hkey other).mpr ⟨by omega, beq_iff_eq.mp hsame⟩)
        omega

/-- **A shard addresses the documents that it holds.** -/
theorem Holds.addresses (h : s.Holds docs) (hbuilt : s.Built) : s.Addresses docs where
  docCount := h.docCount
  segments := segment_readersFrom _ 0 0
  nonempty := hbuilt.maxDoc_pos
  ordinals := by
    have hlength : s.readers.length = s.segments.toList.length := by
      rw [← List.length_map (f := (·.segment)), readers, segment_readersFrom]
    rw [hlength, List.range_eq_range']
    exact ordinal_readersFrom _ 0 0
  numbers := by
    rw [h.docCount_eq_sum]
    exact numbers_readersFrom _ 0 0
  located := h.located_iff
  place _ _ _ := locate?_eq_some_iff
  document _ _ _ := h.hasAt
  key doc := by
    cases doc with
    | zero => rfl
    | succ index =>
        rw [if_pos (Nat.succ_pos index), Nat.add_sub_cancel]
        exact h.key? index
  docOf _ _ := s.docOf?_eq_some_iff

/-! ## One more document -/

/-- **One more document** leaves each segment in its place, and makes it longer at most. -/
theorem readers_add (s : Shard) (key : String) (terms : List TermId) (size : Nat) :
    ∀ r ∈ s.readers, ∃ r' ∈ (s.add key terms size).1.readers,
      r'.ordinal = r.ordinal ∧ r'.docBase = r.docBase ∧ r.maxDoc ≤ r'.maxDoc := by
  have hadd : (s.add key terms size).1.segments
      = (s.openSegment size).1.push ((s.openSegment size).2.add terms).1 := rfl
  unfold readers
  rw [hadd, Array.toList_push, readersFrom_append]
  intro r hr
  unfold openSegment
  cases hback : s.segments.back? with
  | none =>
      rw [Array.back?_eq_none_iff.mp hback] at hr
      exact nomatch hr
  | some last =>
      by_cases hfull : size ≤ last.maxDoc
      · -- a new segment comes after all others
        simp only [if_pos hfull]
        exact ⟨r, List.mem_append_left _ hr, rfl, rfl, Nat.le_refl _⟩
      · -- the last segment takes the document, the others are as they were
        obtain ⟨front, hfront⟩ := Array.back?_eq_some_iff.mp hback
        rw [hfront, Array.toList_push, readersFrom_append] at hr
        simp only [if_neg hfull]
        rw [hfront, Array.pop_push]
        rcases List.mem_append.mp hr with hr | hr
        · exact ⟨r, List.mem_append_left _ hr, rfl, rfl, Nat.le_refl _⟩
        · obtain rfl := List.mem_singleton.mp hr
          refine ⟨_, List.mem_append_right _ (List.mem_singleton_self _), rfl, rfl, ?_⟩
          show last.maxDoc ≤ (last.add terms).1.maxDoc
          rw [Segment.maxDoc_add]
          exact Nat.le_succ _

/-- What a shard answers for its numbers and keys, another one answers too: the same
    place in the same segment, with the same postings, the same key and the same number
    for a key. -/
structure Kept (s t : Shard) : Prop where
  place : ∀ doc r inside, s.locate? doc = some (r, inside) →
    ∃ r', t.locate? doc = some (r', inside) ∧ r'.ordinal = r.ordinal ∧ r'.docBase = r.docBase ∧
      (∀ term, r'.segment.postingsAt term inside = r.segment.postingsAt term inside) ∧
      r'.segment.length inside = r.segment.length inside
  key : ∀ doc key, s.key? doc = some key → t.key? doc = some key
  docOf : ∀ key doc, s.docOf? key = some doc → t.docOf? key = some doc

namespace Kept

theorem refl (s : Shard) : s.Kept s where
  place _ r _ h := ⟨r, h, rfl, rfl, fun _ => rfl, rfl⟩
  key _ _ h := h
  docOf _ _ h := h

theorem trans {u : Shard} (hst : s.Kept t) (htu : t.Kept u) : s.Kept u where
  place doc r inside h := by
    obtain ⟨r', h', hordinal, hbase, hpostings, hlength⟩ := hst.place doc r inside h
    obtain ⟨r'', h'', hordinal', hbase', hpostings', hlength'⟩ := htu.place doc r' inside h'
    exact ⟨r'', h'', hordinal'.trans hordinal, hbase'.trans hbase,
      fun term => (hpostings' term).trans (hpostings term), hlength'.trans hlength⟩
  key doc key h := htu.key doc key (hst.key doc key h)
  docOf key doc h := htu.docOf key doc (hst.docOf key doc h)

end Kept

/-- The new key is that of the next number, and the other numbers keep theirs. -/
theorem key?_add (s : Shard) (key : String) (terms : List TermId) (size doc : Nat) :
    (s.add key terms size).1.key? doc
      = if doc = s.docCount + 1 then some key else s.key? doc := by
  cases doc with
  | zero => rfl
  | succ index =>
      show (s.keys.push key)[index]? = _
      rw [Array.getElem?_push]
      simp only [docCount, Nat.add_right_cancel_iff]
      rfl

/-- **One more document changes no answer.** -/
theorem Holds.kept_add (h : s.Holds docs) (key : String) (terms : List TermId) (size : Nat) :
    s.Kept (s.add key terms size).1 := by
  have hmore := (h.add key terms size).1
  have hbelow : ∀ {doc other}, s.key? doc = some other → doc ≤ s.docCount := by
    intro doc other hdoc
    cases doc with
    | zero => exact nomatch hdoc
    | succ index =>
        have hdoc : s.keys[index]? = some other := hdoc
        exact (Array.getElem?_eq_some_iff.mp hdoc).1
  have hkey : ∀ doc other, s.key? doc = some other →
      (s.add key terms size).1.key? doc = some other := by
    intro doc other hdoc
    have := hbelow hdoc
    rw [key?_add, if_neg (by omega), hdoc]
  refine ⟨?_, hkey, ?_⟩
  · intro doc r inside hlocate
    obtain ⟨hr, hpos, hle, hdoc⟩ := locate?_eq_some_iff.mp hlocate
    obtain ⟨r', hr', hordinal, hbase, hlonger⟩ := readers_add s key terms size r hr
    have hlocate' : (s.add key terms size).1.locate? doc = some (r', inside) :=
      locate?_eq_some_iff.mpr ⟨hr', hpos, by omega, by omega⟩
    -- both places have the document of the number, so their postings are the same
    obtain ⟨d, hd, hhas⟩ := h.hasAt hlocate
    obtain ⟨d', hd', hhas'⟩ := hmore.hasAt hlocate'
    rw [List.getElem?_append_left (List.getElem?_eq_some_iff.mp hd).1, hd] at hd'
    obtain rfl := Option.some.inj hd'
    exact ⟨r', hlocate', hordinal, hbase,
      fun term => (hhas'.postings term).trans (hhas.postings term).symm,
      hhas'.length.trans hhas.length.symm⟩
  · intro other doc hdoc
    obtain ⟨hhere, hleast⟩ := s.docOf?_eq_some_iff.mp hdoc
    refine (docOf?_eq_some_iff _).mpr ⟨hkey doc other hhere, ?_⟩
    intro later hlater
    rw [key?_add] at hlater
    split at hlater
    · have := hbelow hhere
      omega
    · exact hleast later hlater

/-- Further documents change no answer. -/
theorem kept_ofDocs (added more : List (IndexedDocument × Nat)) :
    (ofDocs added).Kept (ofDocs (added ++ more)) := by
  induction more using List.reverseRecOn with
  | nil =>
      rw [List.append_nil]
      exact .refl _
  | append_singleton more d ih =>
      rw [← List.append_assoc, show ofDocs (added ++ more ++ [d])
        = ((ofDocs (added ++ more)).add d.1.1 d.1.2 d.2).1 by rw [ofDocs, List.foldl_append]; rfl]
      exact ih.trans ((holds_ofDocs (added ++ more)).kept_add d.1.1 d.1.2 d.2)

/-- **Absolute numbers address documents uniquely and for good.**  Whatever documents
    were added, under whatever keys and sizes of segments, the next one gets the next
    number, the numbers from 1 on address just the documents, in order, and no further
    documents change what is answered for them. -/
theorem addresses_for_good (added more : List (IndexedDocument × Nat)) :
    (∀ key terms size, ((ofDocs added).add key terms size).2 = added.length + 1) ∧
    (ofDocs added).Addresses (added.map (·.1)) ∧
    (ofDocs added).Kept (ofDocs (added ++ more)) := by
  refine ⟨?_, (holds_ofDocs added).addresses (built_ofDocs added), kept_ofDocs added more⟩
  intro key terms size
  rw [((holds_ofDocs added).add key terms size).2, List.length_map]

end Shard

end FeatureRank
