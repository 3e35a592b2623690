import Mathlib.Algebra.GroupWithZero.Nat
import Mathlib.Data.List.Induction
import Mathlib.Data.List.TakeWhile
import Mathlib.Algebra.BigOperators.Group.List.Basic
import FeatureRank.Proofs.Index.Postings

/-! # Contents — what an index says about the documents that it was made of

    A segment is determined by the documents that were added to it
    (`Segment.ofDocs`), and everything that it answers is read off them: the
    postings of a term say at which positions of which documents the term stands
    (`Segment.postingsOf_ofDocs`).  A shard holds a list of documents
    (`Shard.Holds`) whichever way they were cut into segments, and its statistics
    count over that list (`Shard.Holds.docFrequency` and the lemmas beside it). -/

namespace FeatureRank

/-- A document of an index: its key and its terms. -/
abbrev IndexedDocument := String × List TermId

/-! ## The posting of one document -/

/-- Where a term stands in a list of terms, with positions from `first` on. -/
def positionsOf (term : TermId) : Nat → List TermId → List Nat
  | _, [] => []
  | first, t :: rest =>
    if t = term then first :: positionsOf term (first + 1) rest
    else positionsOf term (first + 1) rest

/-- The posting that some positions make for a document, none without positions. -/
def postingFor (doc : Nat) (positions : List Nat) : List Posting :=
  match positions with
  | [] => []
  | p :: rest => [⟨doc, rest.length + 1, (p :: rest).toArray⟩]

theorem length_positionsOf (term : TermId) (terms : List TermId) (first : Nat) :
    (positionsOf term first terms).length = terms.count term := by
  induction terms generalizing first with
  | nil => rfl
  | cons t rest ih =>
      by_cases h : t = term
      · simp [positionsOf, h, ih]
      · simp [positionsOf, h, ih]

theorem positionsOf_eq_nil {term : TermId} {terms : List TermId} {first : Nat} :
    positionsOf term first terms = [] ↔ term ∉ terms := by
  rw [← List.length_eq_zero_iff, length_positionsOf, List.count_eq_zero]

/-- The positions of a term are those of the list where it stands. -/
theorem positionsOf_eq_filter (term : TermId) (terms : List TermId) (first : Nat) :
    positionsOf term first terms
      = (List.range' first terms.length).filter fun position =>
          terms[position - first]? == some term := by
  induction terms generalizing first with
  | nil => rfl
  | cons t rest ih =>
      have hlater : (List.range' (first + 1) rest.length).filter
            (fun position => (t :: rest)[position - first]? == some term)
          = positionsOf term (first + 1) rest := by
        rw [ih]
        refine List.filter_congr ?_
        intro position hposition
        have hle : first + 1 ≤ position := (List.mem_range'_1.mp hposition).1
        rw [show position - first = position - (first + 1) + 1 by omega, List.getElem?_cons_succ]
      rw [List.length_cons, List.range'_succ, List.filter_cons, hlater]
      by_cases h : t = term
      · simp [positionsOf, h]
      · simp [positionsOf, h]

theorem mem_positionsOf {term : TermId} {terms : List TermId} {index : Nat} :
    index + 1 ∈ positionsOf term 1 terms ↔ terms[index]? = some term := by
  rw [positionsOf_eq_filter, List.mem_filter, List.mem_range'_1, Nat.add_sub_cancel, beq_iff_eq]
  constructor
  · rintro ⟨-, h⟩
    exact h
  · intro h
    have := (List.getElem?_eq_some_iff.mp h).1
    exact ⟨by omega, h⟩

/-- The postings of a term over documents that are numbered from `first` on. -/
def postingsFrom (term : TermId) : Nat → List (List TermId) → List Posting
  | _, [] => []
  | first, terms :: rest =>
    postingFor first (positionsOf term 1 terms) ++ postingsFrom term (first + 1) rest

theorem postingsFrom_append (term : TermId) (docs more : List (List TermId)) (first : Nat) :
    postingsFrom term first (docs ++ more)
      = postingsFrom term first docs ++ postingsFrom term (first + docs.length) more := by
  induction docs generalizing first with
  | nil => rfl
  | cons terms rest ih =>
      simp [postingsFrom, ih, Nat.add_assoc, Nat.add_comm 1]

/-- The posting of a document is of its number. -/
theorem doc_postingFor {doc : Nat} {positions : List Nat} {p : Posting}
    (h : p ∈ postingFor doc positions) : p.doc = doc := by
  cases positions with
  | nil => exact nomatch h
  | cons position rest => rw [List.mem_singleton.mp h]

/-- Postings are of the documents that were numbered. -/
theorem doc_postingsFrom {term : TermId} {docs : List (List TermId)} {first : Nat} {p : Posting}
    (h : p ∈ postingsFrom term first docs) : first ≤ p.doc ∧ p.doc < first + docs.length := by
  induction docs generalizing first with
  | nil => exact nomatch h
  | cons terms rest ih =>
      rw [List.length_cons]
      rcases List.mem_append.mp h with hhere | hlater
      · rw [doc_postingFor hhere]
        omega
      · have := ih hlater
        omega

/-- **Leaving out the documents before a target.** -/
theorem dropWhile_postingsFrom (term : TermId) (docs : List (List TermId)) (first skipped : Nat) :
    (postingsFrom term first docs).dropWhile (·.doc < first + skipped)
      = postingsFrom term (first + skipped) (docs.drop skipped) := by
  induction docs generalizing first skipped with
  | nil => simp [postingsFrom]
  | cons terms rest ih =>
      cases skipped with
      | zero =>
          rw [List.drop_zero, Nat.add_zero]
          refine List.dropWhile_eq_self_iff.mpr ?_
          intro hlt hdoc
          have := (doc_postingsFrom (List.getElem_mem hlt)).1
          simp only [decide_eq_true_eq] at hdoc
          omega
      | succ skipped =>
          have hhere : ∀ p ∈ postingFor first (positionsOf term 1 terms),
              decide (p.doc < first + (skipped + 1)) = true := by
            intro p hp
            rw [doc_postingFor hp, decide_eq_true_eq]
            omega
          rw [postingsFrom, List.dropWhile_append_of_pos hhere, List.drop_succ_cons,
            show first + (skipped + 1) = first + 1 + skipped by omega]
          exact ih (first + 1) skipped

/-! ## Segments -/

/-- One more position of a term in the newest document. -/
theorem noteOccurrence_toList {doc position : Nat} {old : List Posting} {noted : List Nat}
    {postings : Array Posting} (hold : ∀ p ∈ old, p.doc ≠ doc)
    (h : postings.toList = old ++ postingFor doc noted) :
    (noteOccurrence doc position postings).toList = old ++ postingFor doc (noted ++ [position]) := by
  have harray : postings = (old ++ postingFor doc noted).toArray := by
    rw [← h, Array.toArray_toList]
  cases noted with
  | nil =>
      have hpostings : postings = old.toArray := by
        rw [harray]
        simp [postingFor]
      unfold noteOccurrence
      cases hback : postings.back? with
      | none =>
          have hempty : postings = #[] := Array.back?_eq_none_iff.mp hback
          have : old = [] := by simpa [hempty] using hpostings.symm
          simp [this, postingFor]
      | some newest =>
          obtain ⟨front, hfront⟩ := Array.back?_eq_some_iff.mp hback
          have hmem : newest ∈ old := by
            have : newest ∈ postings := by rw [hfront]; exact Array.mem_push_self
            rw [hpostings] at this
            simpa using this
          simp only [if_neg (hold newest hmem), Array.toList_push, h]
          simp [postingFor]
  | cons first rest =>
      have hpush : postings = old.toArray.push ⟨doc, rest.length + 1, (first :: rest).toArray⟩ := by
        rw [harray]
        simp [postingFor]
      unfold noteOccurrence
      rw [hpush]
      simp [postingFor]

namespace Segment

/-- Noting the terms of the newest document adds, for each term, the positions
    where it stands. -/
theorem noteTerms_toList {doc : Nat} {old : TermId → List Posting}
    (hold : ∀ term, ∀ p ∈ old term, p.doc ≠ doc) (terms : List TermId) :
    ∀ (position : Nat) (noted : TermId → List Nat)
      (postings : Std.TreeMap TermId (Array Posting)),
      (∀ term, (postings.getD term #[]).toList = old term ++ postingFor doc (noted term)) →
      ∀ term, ((noteTerms doc position terms postings).getD term #[]).toList
        = old term ++ postingFor doc (noted term ++ positionsOf term position terms) := by
  induction terms with
  | nil =>
      intro position noted postings h term
      rw [positionsOf, List.append_nil]
      exact h term
  | cons first rest ih =>
      intro position noted postings h term
      -- one position more is noted for the first term and none for the others
      have hstep := ih (position + 1)
        (fun t => noted t ++ if first = t then [position] else [])
        (postings.alter first fun held => some (noteOccurrence doc position (held.getD #[]))) ?_ term
      · rw [noteTerms, hstep]
        by_cases hfirst : first = term
        · simp [positionsOf, hfirst]
        · simp [positionsOf, hfirst]
      · intro t
        rw [Std.TreeMap.getD_alter]
        by_cases hfirst : first = t
        · rw [if_pos (by simp [hfirst]), if_pos hfirst, Option.getD_some,
            ← Std.TreeMap.getD_eq_getD_getElem?, hfirst]
          exact noteOccurrence_toList (hold t) (h t)
        · rw [if_neg (by simpa using hfirst), if_neg hfirst, List.append_nil]
          exact h t

/-- The segment of some documents, given by their terms. -/
def ofDocs (docs : List (List TermId)) : Segment :=
  docs.foldl (fun s terms => (s.add terms).1) .empty

@[simp] theorem ofDocs_nil : ofDocs [] = .empty := rfl

@[simp] theorem ofDocs_concat (docs : List (List TermId)) (terms : List TermId) :
    ofDocs (docs ++ [terms]) = ((ofDocs docs).add terms).1 := by
  simp [ofDocs]

theorem built_ofDocs (docs : List (List TermId)) : (ofDocs docs).Built := by
  induction docs using List.reverseRecOn with
  | nil => exact Built.empty
  | append_singleton docs terms ih =>
      rw [ofDocs_concat]
      exact ih.add terms

/-- A segment that documents built is the segment of some documents. -/
theorem Built.exists_docs {s : Segment} (h : s.Built) : ∃ docs, s = .ofDocs docs := by
  induction h with
  | empty => exact ⟨[], rfl⟩
  | add h terms ih =>
      obtain ⟨docs, rfl⟩ := ih
      exact ⟨docs ++ [terms], (ofDocs_concat docs terms).symm⟩

/-- A segment knows the length of each document. -/
theorem lengths_ofDocs (docs : List (List TermId)) :
    (ofDocs docs).lengths = (docs.map (·.length)).toArray := by
  induction docs using List.reverseRecOn with
  | nil => rfl
  | append_singleton docs terms ih =>
      rw [ofDocs_concat]
      show (ofDocs docs).lengths.push terms.length = _
      rw [ih, List.map_append, List.map_singleton]
      simp

@[simp] theorem maxDoc_ofDocs (docs : List (List TermId)) : (ofDocs docs).maxDoc = docs.length := by
  unfold maxDoc
  rw [lengths_ofDocs, List.size_toArray, List.length_map]

theorem length_ofDocs {docs : List (List TermId)} {index : Nat} {terms : List TermId}
    (h : docs[index]? = some terms) : (ofDocs docs).length (index + 1) = .ok terms.length := by
  simp [Segment.length, lengths_ofDocs, h]

theorem tokens_ofDocs (docs : List (List TermId)) :
    (ofDocs docs).tokens = (docs.map (·.length)).sum := by
  induction docs using List.reverseRecOn with
  | nil => rfl
  | append_singleton docs terms ih =>
      rw [ofDocs_concat]
      show (ofDocs docs).tokens + terms.length = _
      simp [ih]

/-- **The postings of a term** are where it stands in the documents. -/
theorem postingsOf_ofDocs (docs : List (List TermId)) (term : TermId) :
    (ofDocs docs).postingsOf term = postingsFrom term 1 docs := by
  induction docs using List.reverseRecOn generalizing term with
  | nil => rfl
  | append_singleton docs terms ih =>
      rw [ofDocs_concat, postingsFrom_append]
      have hold : ∀ t, ∀ p ∈ postingsFrom t 1 docs, p.doc ≠ docs.length + 1 := by
        intro t p hp
        have := (doc_postingsFrom hp).2
        omega
      have hnoted := noteTerms_toList hold terms 1 (fun _ => []) (ofDocs docs).postings
        (fun t => by
          rw [postingFor, List.append_nil]
          exact ih t) term
      rw [List.nil_append] at hnoted
      show ((noteTerms ((ofDocs docs).maxDoc + 1) 1 terms (ofDocs docs).postings).getD term
        #[]).toList = _
      rw [maxDoc_ofDocs, hnoted, Nat.add_comm 1 docs.length]
      simp [postingsFrom]

/-- Over documents one after the other, counts add up. -/
theorem docFrequency_ofDocs (docs : List (List TermId)) (term : TermId) :
    (ofDocs docs).docFrequency term = docs.countP (term ∈ ·) := by
  unfold docFrequency
  rw [postingsOf_ofDocs]
  generalize 1 = first
  induction docs generalizing first with
  | nil => rfl
  | cons terms rest ih =>
      rw [postingsFrom, List.length_append, ih, List.countP_cons, Nat.add_comm]
      refine congrArg _ ?_
      cases hpositions : positionsOf term 1 terms with
      | nil => simp [postingFor, positionsOf_eq_nil.mp hpositions]
      | cons p others =>
          have hmem : term ∈ terms := by
            by_contra hnot
            rw [positionsOf_eq_nil.mpr hnot] at hpositions
            exact nomatch hpositions
          simp [postingFor, hmem]

theorem termFrequency_ofDocs (docs : List (List TermId)) (term : TermId) :
    (ofDocs docs).termFrequency term = (docs.map (·.count term)).sum := by
  unfold termFrequency
  rw [postingsOf_ofDocs, ← List.foldl_map (g := fun (sum n : Nat) => sum + n)
    (f := Posting.frequency), ← List.sum_eq_foldl]
  generalize 1 = first
  induction docs generalizing first with
  | nil => rfl
  | cons terms rest ih =>
      rw [postingsFrom, List.map_append, List.sum_append, ih, List.map_cons, List.sum_cons,
        ← length_positionsOf term terms 1]
      refine congrArg (· + _) ?_
      cases positionsOf term 1 terms with
      | nil => rfl
      | cons p others => simp [postingFor]

end Segment

/-! ## Shards -/

namespace Shard

/-- A shard that holds some documents, each by its key and its terms, in whichever
    segments. -/
structure Holds (docs : List IndexedDocument) (s : Shard) : Prop where
  keys : s.keys.toList = docs.map (·.1)
  segments : ∃ chunks : List (List (List TermId)),
    s.segments.toList = chunks.map Segment.ofDocs ∧ chunks.flatten = docs.map (·.2)

variable {docs : List IndexedDocument} {s : Shard}

theorem Holds.empty : Holds [] .empty := ⟨rfl, [], rfl, rfl⟩

theorem Holds.docCount (h : Holds docs s) : s.docCount = docs.length := by
  show s.keys.size = _
  rw [← Array.length_toList, h.keys, List.length_map]

/-- The segment that takes the next document, and those before it. -/
theorem openSegment_chunks {chunks : List (List (List TermId))} (size : Nat)
    (h : s.segments.toList = chunks.map Segment.ofDocs) :
    ∃ (full : List (List (List TermId))) (last : List (List TermId)),
      (s.openSegment size).1.toList = full.map Segment.ofDocs ∧
      (s.openSegment size).2 = .ofDocs last ∧ full.flatten ++ last = chunks.flatten := by
  have hsegments : s.segments = (chunks.map Segment.ofDocs).toArray := by
    rw [← h, Array.toArray_toList]
  cases chunks using List.reverseRecOn with
  | nil =>
      refine ⟨[], [], ?_, ?_, rfl⟩
      · simp [openSegment, hsegments]
      · simp [openSegment, hsegments]
  | append_singleton front last =>
      by_cases hroom : size ≤ last.length
      · refine ⟨front ++ [last], [], ?_, ?_, ?_⟩
        · simp [openSegment, hsegments, hroom]
        · simp [openSegment, hsegments, hroom]
        · simp
      · refine ⟨front, last, ?_, ?_, ?_⟩
        · simp [openSegment, hsegments, hroom]
        · simp [openSegment, hsegments, hroom]
        · simp

/-- **A document that is added is the last one**, whatever the size of segments. -/
theorem Holds.add (h : Holds docs s) (key : String) (terms : List TermId) (size : Nat) :
    Holds (docs ++ [(key, terms)]) (s.add key terms size).1 ∧
      (s.add key terms size).2 = docs.length + 1 := by
  obtain ⟨chunks, hchunks, hflatten⟩ := h.segments
  obtain ⟨full, last, hfull, hlast, hsplit⟩ := openSegment_chunks size hchunks
  refine ⟨⟨?_, full ++ [last ++ [terms]], ?_, ?_⟩, ?_⟩
  · show (s.keys.push key).toList = _
    rw [Array.toList_push, h.keys, List.map_append, List.map_singleton]
  · show ((s.openSegment size).1.push ((s.openSegment size).2.add terms).1).toList = _
    rw [Array.toList_push, hfull, hlast, List.map_append, List.map_singleton,
      Segment.ofDocs_concat]
  · rw [List.map_append, ← hflatten, ← hsplit]
    simp
  · -- the documents before the segment are all but those that it holds
    have hcount : docs.length = full.flatten.length + last.length := by
      rw [← List.length_append, hsplit, hflatten, List.length_map]
    show s.docCount - (s.openSegment size).2.maxDoc + ((s.openSegment size).2.add terms).2 = _
    rw [h.docCount, hlast]
    show docs.length - (Segment.ofDocs last).maxDoc + ((Segment.ofDocs last).maxDoc + 1) = _
    rw [Segment.maxDoc_ofDocs]
    omega

/-- A shard that was built holds the documents that built it. -/
theorem Built.holds {s : Shard} (h : s.Built) : ∃ docs, Holds docs s := by
  induction h with
  | empty => exact ⟨[], .empty⟩
  | add h key terms size ih =>
      obtain ⟨docs, hdocs⟩ := ih
      exact ⟨_, (hdocs.add key terms size).1⟩

/-- Every segment of the shard is made of documents. -/
theorem Holds.segment_eq (h : Holds docs s) :
    ∀ r ∈ s.readers, ∃ docs, r.segment = .ofDocs docs := by
  intro r hr
  obtain ⟨chunks, hchunks, -⟩ := h.segments
  have hmem := mem_readersFrom hr
  rw [hchunks] at hmem
  obtain ⟨chunk, -, heq⟩ := List.mem_map.mp hmem
  exact ⟨chunk, heq.symm⟩

/-- No segment of a shard without documents has any. -/
theorem Holds.maxDoc_eq_zero (h : Holds docs s) (hempty : s.docCount = 0) :
    ∀ r ∈ s.readers, r.maxDoc = 0 := by
  intro r hr
  obtain ⟨chunks, hchunks, hflatten⟩ := h.segments
  have hnone : chunks.flatten = [] := by
    rw [hflatten, List.map_eq_nil_iff, ← List.length_eq_zero_iff, ← h.docCount, hempty]
  have hmem := mem_readersFrom hr
  rw [hchunks] at hmem
  obtain ⟨chunk, hchunk, heq⟩ := List.mem_map.mp hmem
  show r.segment.maxDoc = 0
  rw [← heq, Segment.maxDoc_ofDocs, List.flatten_eq_nil_iff.mp hnone chunk hchunk]
  rfl

/-! ### Statistics -/

/-- What adds up over documents adds up over segments. -/
theorem Holds.sumOver (h : Holds docs s) {count : Segment → Nat}
    {total : List (List TermId) → Nat} (hcount : ∀ chunk, count (.ofDocs chunk) = total chunk)
    (hnil : total [] = 0) (happend : ∀ a b, total (a ++ b) = total a + total b) :
    s.sumOver count = total (docs.map (·.2)) := by
  obtain ⟨chunks, hchunks, hflatten⟩ := h.segments
  have hsum : ∀ chunks : List (List (List TermId)),
      ((chunks.map Segment.ofDocs).map count).sum = total chunks.flatten := by
    intro chunks
    induction chunks with
    | nil => exact hnil.symm
    | cons chunk rest ih =>
        rw [List.map_cons, List.map_cons, List.sum_cons, ih, hcount, List.flatten_cons, happend]
  rw [← hflatten, ← hsum chunks, ← hchunks, List.sum_eq_foldl, List.foldl_map]
  rfl

theorem Holds.tokens (h : Holds docs s) : s.tokens = (docs.map (·.2.length)).sum := by
  refine (h.sumOver Segment.tokens_ofDocs rfl fun a b => ?_).trans ?_
  · rw [List.map_append, List.sum_append]
  · rw [List.map_map]
    rfl

theorem Holds.docFrequency (h : Holds docs s) (term : TermId) :
    s.docFrequency term = docs.countP (term ∈ ·.2) := by
  refine (h.sumOver (Segment.docFrequency_ofDocs · term) rfl fun a b => ?_).trans ?_
  · rw [List.countP_append]
  · rw [List.countP_map]
    rfl

theorem Holds.termFrequency (h : Holds docs s) (term : TermId) :
    s.termFrequency term = (docs.map (·.2.count term)).sum := by
  refine (h.sumOver (Segment.termFrequency_ofDocs · term) rfl fun a b => ?_).trans ?_
  · rw [List.map_append, List.sum_append]
  · rw [List.map_map]
    rfl

/-! ### Where a document is -/

/-- Among segments of chunks of documents, a document is found where it stands. -/
theorem find?_readersFrom {chunks : List (List (List TermId))} (ordinal docBase : Nat)
    {index : Nat} {terms : List TermId} (h : chunks.flatten[index]? = some terms) :
    ∃ r chunk inside, (readersFrom ordinal docBase (chunks.map .ofDocs)).find?
        (·.covers (docBase + index + 1)) = some r ∧
      r.segment = .ofDocs chunk ∧ chunk[inside]? = some terms ∧
      r.docBase + inside = docBase + index := by
  induction chunks generalizing ordinal docBase index with
  | nil => exact nomatch h
  | cons chunk rest ih =>
      rw [List.map_cons, readersFrom, List.flatten_cons] at *
      by_cases hin : index < chunk.length
      · rw [List.getElem?_append_left hin] at h
        refine ⟨_, chunk, index, List.find?_cons_of_pos ?_, rfl, h, rfl⟩
        simp only [SegmentReader.covers, SegmentReader.maxDoc, Segment.maxDoc_ofDocs]
        simp only [Bool.and_eq_true, decide_eq_true_eq]
        omega
      · rw [List.getElem?_append_right (Nat.le_of_not_lt hin)] at h
        obtain ⟨r, chunk', inside, hfind, hsegment, hinside, hbase⟩ :=
          ih (ordinal + 1) (docBase + chunk.length) h
        have hdoc : docBase + chunk.length + (index - chunk.length) = docBase + index := by omega
        rw [hdoc] at hfind hbase
        refine ⟨r, chunk', inside, ?_, hsegment, hinside, hbase⟩
        rw [List.find?_cons_of_neg, Segment.maxDoc_ofDocs]
        · exact hfind
        · simp only [SegmentReader.covers, SegmentReader.maxDoc, Segment.maxDoc_ofDocs]
          simp only [Bool.and_eq_true, decide_eq_true_eq]
          omega

/-- **A document is located** by its place among all documents of the shard. -/
theorem Holds.locate? (h : Holds docs s) {index : Nat} {d : IndexedDocument}
    (hdoc : docs[index]? = some d) :
    ∃ r chunk inside, s.locate? (index + 1) = some (r, inside + 1) ∧
      r.segment = .ofDocs chunk ∧ chunk[inside]? = some d.2 := by
  obtain ⟨chunks, hchunks, hflatten⟩ := h.segments
  have hterms : chunks.flatten[index]? = some d.2 := by
    rw [hflatten, List.getElem?_map, hdoc]
    rfl
  obtain ⟨r, chunk, inside, hfind, hsegment, hinside, hbase⟩ :=
    find?_readersFrom 0 0 hterms
  rw [Nat.zero_add] at hfind hbase
  refine ⟨r, chunk, inside, ?_, hsegment, hinside⟩
  unfold Shard.locate? readers
  rw [hchunks, hfind, Option.map_some]
  refine congrArg (fun n => some (r, n)) ?_
  omega

/-- Numbers that no document has are not located. -/
theorem Holds.locate?_eq_none (h : Holds docs s) {doc : Nat}
    (hdoc : doc = 0 ∨ docs.length < doc) : s.locate? doc = none := by
  obtain ⟨chunks, hchunks, hflatten⟩ := h.segments
  have hlength : docs.length = chunks.flatten.length := by rw [hflatten, List.length_map]
  have hfind : ∀ (chunks : List (List (List TermId))) (ordinal docBase : Nat),
      (doc ≤ docBase ∨ docBase + chunks.flatten.length < doc) →
      (readersFrom ordinal docBase (chunks.map .ofDocs)).find? (·.covers doc) = none := by
    intro chunks
    induction chunks with
    | nil => intro ordinal docBase _; rfl
    | cons chunk rest ih =>
        intro ordinal docBase hout
        rw [List.flatten_cons, List.length_append] at hout
        rw [List.map_cons, readersFrom, Segment.maxDoc_ofDocs, List.find?_cons_of_neg]
        · exact ih _ _ (by omega)
        · simp only [SegmentReader.covers, SegmentReader.maxDoc, Segment.maxDoc_ofDocs]
          simp only [Bool.and_eq_true, decide_eq_true_eq]
          omega
  unfold Shard.locate? readers
  rw [hchunks, hfind chunks 0 0 (by omega)]
  rfl

theorem Holds.key? (h : Holds docs s) (index : Nat) :
    s.key? (index + 1) = (docs[index]?).map (·.1) := by
  show s.keys[index]? = _
  rw [← Array.getElem?_toList, h.keys, List.getElem?_map]

end Shard

end FeatureRank
