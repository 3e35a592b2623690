import Mathlib.Algebra.BigOperators.Ring.List
import Mathlib.Algebra.Order.BigOperators.Group.List
import Mathlib.Algebra.Order.Ring.Nat
import FeatureRank.Proofs.Index.Addresses
import FeatureRank.Proofs.Index.Numbering
import FeatureRank.Proofs.Outcome

/-! # Packing — an index in numbers of fixed width

    The index of the model counts documents, positions and lengths by natural
    numbers.  Held in numbers of 32 bits, and with sums of tokens in 64 bits, it is
    the same index as long as fewer than 2³² documents come, each of fewer than 2³²
    tokens:

    * no number that `PackedSegment.add` counts up passes 2³², since a document has
      no more occurrences of a term than tokens (`PackedSegment.noteTerms_unpack`),
      and one more document keeps a packed segment the pack of the segment
      (`PackedSegment.Packs.add`);
    * no base and no number of a document passes 2³² either (`PackedShard.Packs.add`),
      so whatever documents come, the packed shard is the pack of the shard
      (`PackedShard.packs_ofDocs`);
    * a pack gives the answers of what it packs: the same statistics, whose sums stay
      below 2⁶⁴, the same places and the same keys (the lemmas of `PackedShard.Packs`).

    The numbers of the terms are of 32 bits too; they are those that a dictionary in
    two pieces gives (`PackedShard.Packs.addLearned`). -/

namespace FeatureRank

/-! ## Postings -/

/-- The occurrences of one term in one document, in numbers of 32 bits. -/
structure PackedPosting where
  doc : UInt32
  frequency : UInt32
  positions : Array UInt32

def PackedPosting.unpack (p : PackedPosting) : Posting :=
  ⟨p.doc.toNat, p.frequency.toNat, p.positions.map (·.toNat)⟩

@[simp] theorem PackedPosting.unpack_first (doc position : UInt32) :
    (⟨doc, 1, #[position]⟩ : PackedPosting).unpack = ⟨doc.toNat, 1, #[position.toNat]⟩ := by
  simp [unpack]

/-- Packed postings with one more occurrence, in the newest document. -/
def PackedPosting.noteOccurrence (doc position : UInt32) (postings : Array PackedPosting) :
    Array PackedPosting :=
  match postings.back? with
  | some newest =>
    if newest.doc = doc then
      postings.pop.push
        { newest with
          frequency := newest.frequency + 1
          positions := newest.positions.push position }
    else postings.push ⟨doc, 1, #[position]⟩
  | none => postings.push ⟨doc, 1, #[position]⟩

/-- A sum that stays below 2³² is the sum of the numbers. -/
theorem toNat_add_of_lt {a b : UInt32} (h : a.toNat + b.toNat < 2 ^ 32) :
    (a + b).toNat = a.toNat + b.toNat := by
  rw [UInt32.toNat_add, Nat.mod_eq_of_lt h]

/-- Of a document, a term was noted so many times at most. -/
def NotedAtMost (doc count : Nat) (postings : Array Posting) : Prop :=
  ∀ p ∈ postings, p.doc = doc → p.frequency ≤ count

/-- **Noting an occurrence** in packed postings notes it in the postings that they pack. -/
theorem PackedPosting.noteOccurrence_unpack {doc position : UInt32} {count : Nat}
    {postings : Array PackedPosting}
    (hnoted : NotedAtMost doc.toNat count (postings.map (·.unpack))) (hroom : count + 1 < 2 ^ 32) :
    (noteOccurrence doc position postings).map (·.unpack)
      = FeatureRank.noteOccurrence doc.toNat position.toNat (postings.map (·.unpack)) := by
  rw [noteOccurrence, FeatureRank.noteOccurrence, Array.back?_map]
  cases hback : postings.back? with
  | none =>
      rw [Array.back?_eq_none_iff.mp hback]
      simp
  | some newest =>
      have hmem : newest.unpack ∈ postings.map (·.unpack) :=
        Array.mem_map_of_mem (Array.mem_of_back? hback)
      by_cases hdoc : newest.doc = doc
      · have hsame : newest.unpack.doc = doc.toNat := congrArg UInt32.toNat hdoc
        have hle : newest.frequency.toNat ≤ count := hnoted newest.unpack hmem hsame
        have hcount : (newest.frequency + 1).toNat = newest.frequency.toNat + 1 :=
          toNat_add_of_lt ((Nat.succ_le_succ hle).trans_lt hroom)
        simp only [Option.map_some, if_pos hdoc, if_pos hsame, Array.map_push, Array.map_pop]
        simp only [unpack, hcount, Array.map_push]
      · have hother : newest.unpack.doc ≠ doc.toNat := fun h => hdoc (UInt32.toNat_inj.mp h)
        simp only [Option.map_some, if_neg hdoc, if_neg hother, Array.map_push, unpack_first]

/-- Another occurrence is one more at most. -/
theorem NotedAtMost.noteOccurrence {doc count : Nat} {postings : Array Posting}
    (h : NotedAtMost doc count postings) (position : Nat) :
    NotedAtMost doc (count + 1) (noteOccurrence doc position postings) := by
  have hnew : NotedAtMost doc (count + 1) (postings.push ⟨doc, 1, #[position]⟩) := by
    intro p hp hdoc
    rcases Array.mem_push.mp hp with hold | rfl
    · exact Nat.le_succ_of_le (h p hold hdoc)
    · exact Nat.le_add_left 1 count
  rw [FeatureRank.noteOccurrence]
  cases hback : postings.back? with
  | none =>
      have hempty : postings = #[] := Array.back?_eq_none_iff.mp hback
      rw [hempty] at hnew
      exact hnew
  | some newest =>
      by_cases hsame : newest.doc = doc
      · obtain ⟨front, rfl⟩ := Array.back?_eq_some_iff.mp hback
        simp only [if_pos hsame, Array.pop_push]
        intro p hp hdoc
        rcases Array.mem_push.mp hp with hold | rfl
        · exact Nat.le_succ_of_le (h p (Array.mem_push_of_mem newest hold) hdoc)
        · exact Nat.succ_le_succ (h newest Array.mem_push_self hsame)
      · simp only [if_neg hsame]
        exact hnew

/-! ## Segments -/

/-- A segment in numbers of 32 bits, with the sum of its tokens in 64 bits. -/
structure PackedSegment where
  postings : Std.HashMap UInt32 (Array PackedPosting) := {}
  lengths : Array UInt32 := #[]
  tokens : UInt64 := 0

namespace PackedSegment

def empty : PackedSegment := {}

def maxDoc (p : PackedSegment) : UInt32 := .ofNat p.lengths.size

/-- The occurrences of a document's terms, from an index in the document on. -/
def noteTerms (doc : UInt32) :
    Nat → List UInt32 → Std.HashMap UInt32 (Array PackedPosting) →
      Std.HashMap UInt32 (Array PackedPosting)
  | _, [], postings => postings
  | index, term :: rest, postings =>
    noteTerms doc (index + 1) rest
      (postings.alter term fun old =>
        some (PackedPosting.noteOccurrence doc (.ofNat index + 1) (old.getD #[])))

/-- A packed segment with one more document, and the number of that document. -/
def add (p : PackedSegment) (terms : List UInt32) : PackedSegment × UInt32 :=
  let length := UInt32.ofNat terms.length
  let lengths := p.lengths.push length
  let doc := UInt32.ofNat lengths.size
  ({ postings := noteTerms doc 0 terms p.postings
     lengths := lengths
     tokens := p.tokens + length.toUInt64 },
   doc)

def isValid (p : PackedSegment) (doc : UInt32) : Bool := 1 ≤ doc && doc ≤ p.maxDoc

def postingsOf (p : PackedSegment) (term : UInt32) : List PackedPosting :=
  (p.postings.getD term #[]).toList

def docFrequency (p : PackedSegment) (term : UInt32) : UInt64 := .ofNat (p.postingsOf term).length

def termFrequency (p : PackedSegment) (term : UInt32) : UInt64 :=
  (p.postingsOf term).foldl (fun sum posting => sum + posting.frequency.toUInt64) 0

/-- The number of tokens of a document of the packed segment. -/
def length (p : PackedSegment) (doc : UInt32) : Checked UInt32 :=
  match p.isValid doc, p.lengths[doc.toNat - 1]? with
  | true, some length => .ok length
  | _, _ => .error .noDocument

/-- Packed postings of each term, beside the postings that they pack. -/
def PacksPostings (packed : Std.HashMap UInt32 (Array PackedPosting))
    (postings : Std.TreeMap TermId (Array Posting)) : Prop :=
  ∀ term : UInt32, (packed.getD term #[]).map (·.unpack) = postings.getD term.toNat #[]

/-- **Noting the terms of a document** in packed postings notes them in the postings that
    they pack.  The invariant is that no term of the document was noted more often than
    terms were noted at all, and no document has 2³² terms. -/
theorem noteTerms_unpack {doc : UInt32} (terms : List UInt32) :
    ∀ (index : Nat) (packed : Std.HashMap UInt32 (Array PackedPosting))
      (postings : Std.TreeMap TermId (Array Posting)),
      index + terms.length < 2 ^ 32 → PacksPostings packed postings →
      (∀ term, NotedAtMost doc.toNat index (postings.getD term #[])) →
      PacksPostings (noteTerms doc index terms packed)
        (Segment.noteTerms doc.toNat (index + 1) (terms.map (·.toNat)) postings) := by
  induction terms with
  | nil => exact fun _ _ _ _ h _ => h
  | cons term rest ih =>
      intro index packed postings hshort hpacks hnoted
      rw [List.length_cons] at hshort
      have hindex : (UInt32.ofNat index).toNat = index :=
        UInt32.toNat_ofNat_of_lt' (show index < 2 ^ 32 by omega)
      have hposition : (UInt32.ofNat index + 1).toNat = index + 1 := by
        rw [toNat_add_of_lt, hindex]
        · rfl
        · rw [hindex]
          show index + 1 < 2 ^ 32
          omega
      refine ih (index + 1) _ _ (by omega) ?_ ?_
      · intro other
        rw [Std.HashMap.getD_alter, Std.TreeMap.getD_alter]
        by_cases hsame : term = other
        · have hkey : compare term.toNat other.toNat = .eq := by
            rw [hsame]
            exact compare_eq_iff_eq.mpr rfl
          have hbefore : NotedAtMost doc.toNat index ((packed.getD term #[]).map (·.unpack)) := by
            rw [hpacks]
            exact hnoted term.toNat
          rw [if_pos (beq_iff_eq.mpr hsame), if_pos hkey, Option.getD_some, Option.getD_some,
            ← Std.HashMap.getD_eq_getD_getElem?, ← Std.TreeMap.getD_eq_getD_getElem?,
            PackedPosting.noteOccurrence_unpack hbefore (by omega), hpacks, hposition]
        · have hnat : term.toNat ≠ other.toNat := fun h => hsame (UInt32.toNat_inj.mp h)
          rw [if_neg (by rwa [beq_iff_eq]), if_neg (by rwa [compare_eq_iff_eq])]
          exact hpacks other
      · intro other
        rw [Std.TreeMap.getD_alter]
        split
        · rw [Option.getD_some, ← Std.TreeMap.getD_eq_getD_getElem?]
          exact (hnoted term.toNat).noteOccurrence (index + 1)
        · exact fun p hp hdoc => Nat.le_succ_of_le (hnoted other p hp hdoc)

/-- A packed segment and the segment that it packs, which documents built and whose
    numbers fit. -/
structure Packs (p : PackedSegment) (s : Segment) : Prop where
  postings : PacksPostings p.postings s.postings
  lengths : p.lengths.map (·.toNat) = s.lengths
  tokens : p.tokens.toNat = s.tokens
  built : s.Built
  fits : s.maxDoc < 2 ^ 32

namespace Packs

variable {p : PackedSegment} {s : Segment}

theorem empty : PackedSegment.empty.Packs .empty where
  postings term := by
    rw [show PackedSegment.empty.postings = {} from rfl, Std.HashMap.getD_empty, Array.map_empty]
    rfl
  lengths := Array.map_empty
  tokens := rfl
  built := .empty
  fits := by decide

theorem maxDoc (h : p.Packs s) : p.maxDoc.toNat = s.maxDoc := by
  have hsize : p.lengths.size = s.maxDoc := by
    rw [Segment.maxDoc, ← h.lengths, Array.size_map]
  rw [PackedSegment.maxDoc, hsize]
  exact UInt32.toNat_ofNat_of_lt' h.fits

/-- Each document has at most 2³² − 1 tokens. -/
theorem tokens_le (h : p.Packs s) : s.tokens ≤ s.maxDoc * (2 ^ 32 - 1) := by
  obtain ⟨docs, rfl⟩ := h.built.exists_docs
  rw [Segment.tokens_ofDocs, Segment.maxDoc_ofDocs, ← List.length_map (f := (·.length)),
    ← Nat.nsmul_eq_mul]
  refine List.sum_le_card_nsmul _ _ fun length hlength => ?_
  have hmem : length ∈ (Segment.ofDocs docs).lengths := by
    rw [Segment.lengths_ofDocs]
    exact List.mem_toArray.mpr hlength
  rw [← h.lengths] at hmem
  obtain ⟨packed, -, rfl⟩ := Array.mem_map.mp hmem
  exact Nat.le_sub_one_of_lt packed.toNat_lt

theorem docFrequency_le (h : p.Packs s) (term : TermId) : s.docFrequency term ≤ s.maxDoc := by
  obtain ⟨docs, rfl⟩ := h.built.exists_docs
  rw [Segment.docFrequency_ofDocs, Segment.maxDoc_ofDocs]
  exact List.countP_le_length

theorem termFrequency_le (h : p.Packs s) (term : TermId) : s.termFrequency term ≤ s.tokens := by
  obtain ⟨docs, rfl⟩ := h.built.exists_docs
  rw [Segment.termFrequency_ofDocs, Segment.tokens_ofDocs]
  exact List.sum_le_sum fun terms _ => List.count_le_length

/-- **One more document** in a packed segment is one more in the segment that it packs,
    under the same number. -/
theorem add (h : p.Packs s) {terms : List UInt32} (hshort : terms.length < 2 ^ 32)
    (hroom : s.maxDoc + 1 < 2 ^ 32) :
    (p.add terms).1.Packs (s.add (terms.map (·.toNat))).1 ∧
      (p.add terms).2.toNat = (s.add (terms.map (·.toNat))).2 := by
  have hlength : (UInt32.ofNat terms.length).toNat = terms.length :=
    UInt32.toNat_ofNat_of_lt' hshort
  have hlengths : (p.lengths.push (.ofNat terms.length)).map (·.toNat)
      = s.lengths.push (terms.map (·.toNat)).length := by
    rw [Array.map_push, h.lengths, hlength, List.length_map]
  have hdoc : (UInt32.ofNat (p.lengths.push (.ofNat terms.length)).size).toNat = s.maxDoc + 1 := by
    rw [← Array.size_map, hlengths, Array.size_push]
    exact UInt32.toNat_ofNat_of_lt' hroom
  refine ⟨⟨?_, hlengths, ?_, h.built.add _, ?_⟩, hdoc⟩
  · -- no posting is of the new document yet
    have hfresh : ∀ term, NotedAtMost
        (UInt32.ofNat (p.lengths.push (.ofNat terms.length)).size).toNat 0
        (s.postings.getD term #[]) := by
      intro term q hq hsame
      have := ((h.built.inOrder term).inside q (Array.mem_toList_iff.mpr hq)).2
      omega
    have hnoted := noteTerms_unpack terms 0 p.postings s.postings (by omega) h.postings hfresh
    rw [hdoc] at hnoted
    exact hnoted
  · have hle := h.tokens_le
    have hlt : s.maxDoc * (2 ^ 32 - 1) ≤ (2 ^ 32 - 1) * (2 ^ 32 - 1) :=
      Nat.mul_le_mul_right _ (by omega)
    show (p.tokens + (UInt32.ofNat terms.length).toUInt64).toNat
      = s.tokens + (terms.map (·.toNat)).length
    rw [UInt64.toNat_add, UInt32.toNat_toUInt64, hlength, h.tokens, List.length_map]
    omega
  · rw [Segment.maxDoc_add]
    exact hroom

/-! ### What a packed segment answers -/

theorem postingsOf (h : p.Packs s) (term : UInt32) :
    (p.postingsOf term).map (·.unpack) = s.postingsOf term.toNat := by
  rw [Segment.postingsOf, ← h.postings term, Array.toList_map]
  rfl

theorem isValid (h : p.Packs s) (doc : UInt32) : p.isValid doc = s.isValid doc.toNat := by
  have hone : (1 : UInt32) ≤ doc ↔ 1 ≤ doc.toNat := UInt32.le_iff_toNat_le
  have hlast : doc ≤ p.maxDoc ↔ doc.toNat ≤ s.maxDoc := by
    rw [UInt32.le_iff_toNat_le, h.maxDoc]
  rw [PackedSegment.isValid, Segment.isValid, decide_eq_decide.mpr hone, decide_eq_decide.mpr hlast]

/-- The length of a document, which no number outside the segment has. -/
theorem length (h : p.Packs s) (doc : UInt32) :
    (p.length doc).map (·.toNat) = s.length doc.toNat := by
  rw [PackedSegment.length, h.isValid]
  have hat : ∀ index : Nat, s.lengths[index]? = p.lengths[index]?.map (·.toNat) := by
    intro index
    rw [← h.lengths, Array.getElem?_map]
  cases hdoc : doc.toNat with
  | zero => rfl
  | succ index =>
      rw [Segment.length, hat, Nat.add_sub_cancel]
      cases hfound : p.lengths[index]? with
      | none =>
          cases s.isValid (index + 1) with
          | false => rfl
          | true => rfl
      | some length =>
          have hlt : index < s.maxDoc := by
            rw [Segment.maxDoc, ← h.lengths, Array.size_map]
            exact (Array.getElem?_eq_some_iff.mp hfound).1
          have hvalid : s.isValid (index + 1) = true := by
            rw [Segment.isValid, Bool.and_eq_true, decide_eq_true_eq, decide_eq_true_eq]
            exact ⟨Nat.succ_pos index, hlt⟩
          rw [hvalid]
          rfl

theorem toNat_docFrequency (h : p.Packs s) (term : UInt32) :
    (p.docFrequency term).toNat = s.docFrequency term.toNat := by
  have hlength : (p.postingsOf term).length = s.docFrequency term.toNat := by
    rw [Segment.docFrequency, ← h.postingsOf, List.length_map]
  have hle := h.docFrequency_le term.toNat
  have hfits := h.fits
  rw [PackedSegment.docFrequency, hlength]
  exact UInt64.toNat_ofNat_of_lt' (show _ < 2 ^ 64 by omega)

/-- The tokens of a segment are fewer than 2⁶⁴. -/
theorem tokens_lt (h : p.Packs s) : s.tokens < 2 ^ 64 := by
  have hle := h.tokens_le
  have hfits := h.fits
  omega

end Packs

end PackedSegment

/-- A sum in 64 bits that stays below 2⁶⁴ is the sum of the numbers. -/
theorem toNat_foldl_add {α : Type} (f : α → UInt64) (items : List α) (sum : UInt64)
    (h : sum.toNat + (items.map fun item => (f item).toNat).sum < 2 ^ 64) :
    (items.foldl (fun sum item => sum + f item) sum).toNat
      = sum.toNat + (items.map fun item => (f item).toNat).sum := by
  induction items generalizing sum with
  | nil => rfl
  | cons item rest ih =>
      rw [List.map_cons, List.sum_cons] at h
      have hsum : (sum + f item).toNat = sum.toNat + (f item).toNat := by
        rw [UInt64.toNat_add, Nat.mod_eq_of_lt (by omega)]
      rw [List.foldl_cons, ih _ (by omega), hsum, List.map_cons, List.sum_cons, Nat.add_assoc]

theorem PackedSegment.Packs.toNat_termFrequency {p : PackedSegment} {s : Segment}
    (h : p.Packs s) (term : UInt32) :
    (p.termFrequency term).toNat = s.termFrequency term.toNat := by
  have hsum : s.termFrequency term.toNat
      = ((p.postingsOf term).map fun q => q.frequency.toUInt64.toNat).sum := by
    rw [Segment.termFrequency, ← h.postingsOf, List.foldl_map, List.sum_eq_foldl, List.foldl_map]
    simp only [UInt32.toNat_toUInt64]
    rfl
  have hlt := (h.termFrequency_le term.toNat).trans_lt h.tokens_lt
  rw [hsum] at hlt ⊢
  rw [PackedSegment.termFrequency, toNat_foldl_add _ _ _ (by simpa using hlt)]
  exact Nat.zero_add _

/-! ## Shards -/

/-- A shard of packed segments. -/
structure PackedShard where
  segments : Array PackedSegment := #[]
  keys : Array String := #[]

/-- A packed segment in its place. -/
structure PackedReader where
  segment : PackedSegment
  ordinal : Nat
  docBase : UInt32

/-- Whether the packed segment holds the document of an absolute number. -/
def PackedReader.covers (r : PackedReader) (doc : UInt32) : Bool :=
  r.docBase < doc && doc ≤ r.docBase + r.segment.maxDoc

namespace PackedShard

def empty : PackedShard := {}

def openSegment (p : PackedShard) (segmentSize : Nat) : Array PackedSegment × PackedSegment :=
  match p.segments.back? with
  | some last =>
    if segmentSize ≤ last.maxDoc.toNat then (p.segments, .empty) else (p.segments.pop, last)
  | none => (#[], .empty)

/-- A packed shard with one more document, and its absolute number. -/
def add (p : PackedShard) (key : String) (terms : List UInt32) (segmentSize : Nat) :
    PackedShard × UInt32 :=
  let (full, segment) := p.openSegment segmentSize
  let docBase := UInt32.ofNat p.keys.size - segment.maxDoc
  let (segment, doc) := segment.add terms
  (⟨full.push segment, p.keys.push key⟩, docBase + doc)

def readersFrom (ordinal : Nat) (docBase : UInt32) : List PackedSegment → List PackedReader
  | [] => []
  | segment :: rest =>
    ⟨segment, ordinal, docBase⟩ :: readersFrom (ordinal + 1) (docBase + segment.maxDoc) rest

def readers (p : PackedShard) : List PackedReader := readersFrom 0 0 p.segments.toList

/-- The packed segment that holds an absolute number, and the number inside it. -/
def locate? (p : PackedShard) (doc : UInt32) : Option (PackedReader × UInt32) :=
  (p.readers.find? (·.covers doc)).map fun r => (r, doc - r.docBase)

def key? (p : PackedShard) (doc : UInt32) : Option String :=
  if doc = 0 then none else p.keys[doc.toNat - 1]?

def docOf? (p : PackedShard) (key : String) : Option UInt32 :=
  (p.keys.idxOf? key).map fun index => .ofNat index + 1

def sumOver (p : PackedShard) (count : PackedSegment → UInt64) : UInt64 :=
  p.segments.toList.foldl (fun sum segment => sum + count segment) 0

def docFrequency (p : PackedShard) (term : UInt32) : UInt64 := p.sumOver (·.docFrequency term)

def termFrequency (p : PackedShard) (term : UInt32) : UInt64 := p.sumOver (·.termFrequency term)

def tokens (p : PackedShard) : UInt64 := p.sumOver (·.tokens)

/-- A packed shard and the shard that it packs, which documents built and whose numbers
    fit. -/
structure Packs (p : PackedShard) (s : Shard) : Prop where
  segments : List.Forall₂ PackedSegment.Packs p.segments.toList s.segments.toList
  keys : p.keys = s.keys
  built : s.Built
  fits : s.docCount < 2 ^ 32

end PackedShard

/-- A packed segment in its place and the segment in its place that it packs, whose
    greatest absolute number fits. -/
structure PackedReader.Packs (p : PackedReader) (r : SegmentReader) : Prop where
  segment : p.segment.Packs r.segment
  ordinal : p.ordinal = r.ordinal
  docBase : p.docBase.toNat = r.docBase
  fits : r.docBase + r.maxDoc < 2 ^ 32

/-- The segment that takes the next document has no more documents than the shard. -/
theorem Shard.Built.maxDoc_openSegment {s : Shard} (h : s.Built) (size : Nat) :
    (s.openSegment size).2.maxDoc ≤ s.docCount := by
  obtain ⟨docs, hdocs⟩ := h.holds
  obtain ⟨chunks, hchunks, hflatten⟩ := hdocs.segments
  obtain ⟨full, last, -, hlast, hsplit⟩ := s.openSegment_chunks size hchunks
  have hlength := congrArg List.length (hsplit.trans hflatten)
  rw [List.length_append, List.length_map] at hlength
  rw [hlast, Segment.maxDoc_ofDocs, hdocs.docCount]
  omega

namespace PackedShard.Packs

variable {p : PackedShard} {s : Shard}

theorem empty : PackedShard.empty.Packs .empty where
  segments := .nil
  keys := rfl
  built := .empty
  fits := by decide

/-- As many documents as the segments of a shard have, so they fit. -/
theorem sum_maxDoc_lt (h : p.Packs s) : (s.segments.toList.map (·.maxDoc)).sum < 2 ^ 32 := by
  obtain ⟨docs, hdocs⟩ := h.built.holds
  rw [← hdocs.docCount_eq_sum]
  exact h.fits

/-- The segment that takes the next document, and those before it. -/
theorem openSegment (h : p.Packs s) (size : Nat) :
    List.Forall₂ PackedSegment.Packs (p.openSegment size).1.toList
        (s.openSegment size).1.toList ∧
      (p.openSegment size).2.Packs (s.openSegment size).2 := by
  have hsegments := h.segments
  cases hback : p.segments.back? with
  | none =>
      rw [Array.back?_eq_none_iff.mp hback] at hsegments
      have hempty : s.segments = #[] :=
        Array.toList_eq_nil_iff.mp (List.forall₂_nil_left_iff.mp hsegments)
      rw [PackedShard.openSegment, hback, Shard.openSegment, hempty]
      exact ⟨.nil, .empty⟩
  | some last =>
      obtain ⟨front, hfront⟩ := Array.back?_eq_some_iff.mp hback
      cases hback' : s.segments.back? with
      | none =>
          rw [Array.back?_eq_none_iff.mp hback', hfront, Array.toList_push] at hsegments
          exact absurd (List.forall₂_nil_right_iff.mp hsegments) (by simp)
      | some last' =>
          obtain ⟨front', hfront'⟩ := Array.back?_eq_some_iff.mp hback'
          have hsplit := hsegments
          rw [hfront, hfront', Array.toList_push, Array.toList_push] at hsplit
          obtain ⟨hfirst, hlast⟩ := forall₂_concat.mp hsplit
          rw [PackedShard.openSegment, hback, Shard.openSegment, hback']
          simp only [hlast.maxDoc]
          by_cases hfull : size ≤ last'.maxDoc
          · rw [if_pos hfull, if_pos hfull]
            exact ⟨hsegments, .empty⟩
          · rw [if_neg hfull, if_neg hfull, hfront, hfront', Array.pop_push, Array.pop_push]
            exact ⟨hfirst, hlast⟩

/-- **One more document** in a packed shard is one more in the shard that it packs, under
    the same absolute number. -/
theorem add (h : p.Packs s) (key : String) {terms : List UInt32} (size : Nat)
    (hshort : terms.length < 2 ^ 32) (hroom : s.docCount + 1 < 2 ^ 32) :
    (p.add key terms size).1.Packs (s.add key (terms.map (·.toNat)) size).1 ∧
      (p.add key terms size).2.toNat = (s.add key (terms.map (·.toNat)) size).2 := by
  obtain ⟨hfull, hopen⟩ := h.openSegment size
  have hle := h.built.maxDoc_openSegment size
  obtain ⟨hadded, hdoc⟩ := hopen.add hshort (by omega)
  refine ⟨⟨?_, congrArg (Array.push · key) h.keys, h.built.add key _ size, ?_⟩, ?_⟩
  · show List.Forall₂ PackedSegment.Packs ((p.openSegment size).1.push _).toList
      ((s.openSegment size).1.push _).toList
    rw [Array.toList_push, Array.toList_push]
    exact forall₂_concat.mpr ⟨hfull, hadded⟩
  · show (s.keys.push key).size < 2 ^ 32
    rw [Array.size_push]
    exact hroom
  · have hcount : (UInt32.ofNat p.keys.size).toNat = s.docCount := by
      rw [h.keys]
      exact UInt32.toNat_ofNat_of_lt' h.fits
    have hbase : (UInt32.ofNat p.keys.size - (p.openSegment size).2.maxDoc).toNat
        = s.docCount - (s.openSegment size).2.maxDoc := by
      rw [UInt32.toNat_sub_of_le, hcount, hopen.maxDoc]
      rw [UInt32.le_iff_toNat_le, hcount, hopen.maxDoc]
      exact hle
    have hnumber : ((s.openSegment size).2.add (terms.map (·.toNat))).2
        = (s.openSegment size).2.maxDoc + 1 := rfl
    show (UInt32.ofNat p.keys.size - (p.openSegment size).2.maxDoc
        + ((p.openSegment size).2.add terms).2).toNat
      = s.docCount - (s.openSegment size).2.maxDoc
        + ((s.openSegment size).2.add (terms.map (·.toNat))).2
    rw [toNat_add_of_lt, hbase, hdoc]
    rw [hbase, hdoc, hnumber]
    omega

/-- A document whose words a dictionary in two pieces learns, with the numbers that it
    gives them. -/
theorem addLearned (h : p.Packs s) {t : WordTable} {d : Dictionary} (hstores : t.Stores d)
    (key : String) {words : List String} (size : Nat) (hwords : (d.learn words).1.size < 2 ^ 32)
    (hshort : words.length < 2 ^ 32) (hroom : s.docCount + 1 < 2 ^ 32) :
    (t.learn words).1.Stores (d.learn words).1 ∧
      (p.add key (t.learn words).2 size).1.Packs (s.add key (d.learn words).2 size).1 := by
  obtain ⟨hlearned, hnumbers⟩ := hstores.learn words hwords
  have hlength : (t.learn words).2.length = words.length := by
    rw [← List.length_map (f := (·.toNat)), hnumbers]
    exact (Dictionary.learn_knows words d).length_eq.symm
  rw [← hnumbers]
  exact ⟨hlearned, (h.add key size (hlength.trans_lt hshort) hroom).1⟩

/-! ### What a packed shard answers -/

/-- **A count that segments give is added up** over the shard, as long as none is above
    what 2³² − 1 tokens for each document come to. -/
theorem toNat_sumOver (h : p.Packs s) {packed : PackedSegment → UInt64} {count : Segment → Nat}
    (hcount : ∀ q r, q.Packs r → (packed q).toNat = count r)
    (hle : ∀ q r, PackedSegment.Packs q r → count r ≤ r.maxDoc * (2 ^ 32 - 1)) :
    (p.sumOver packed).toNat = s.sumOver count := by
  have hsame : (p.segments.toList.map fun q => (packed q).toNat) = s.segments.toList.map count :=
    map_eq_of_forall₂ (h.segments.imp hcount)
  have hbound : (s.segments.toList.map count).sum
      ≤ (s.segments.toList.map (·.maxDoc)).sum * (2 ^ 32 - 1) := by
    rw [← List.sum_map_mul_right]
    refine List.sum_le_sum fun r hr => ?_
    obtain ⟨q, -, hq⟩ := forall₂_mem (List.Forall₂.flip h.segments) hr
    exact hle q r hq
  have hdocs := h.sum_maxDoc_lt
  have hlt : (s.segments.toList.map count).sum < 2 ^ 64 := by omega
  rw [← hsame] at hlt
  rw [PackedShard.sumOver, toNat_foldl_add _ _ _ (by simpa using hlt), hsame, Shard.sumOver,
    List.sum_eq_foldl, List.foldl_map]
  exact Nat.zero_add _

theorem toNat_docFrequency (h : p.Packs s) (term : UInt32) :
    (p.docFrequency term).toNat = s.docFrequency term.toNat :=
  h.toNat_sumOver (fun _ _ hq => hq.toNat_docFrequency term) fun _ _ hq =>
    (hq.docFrequency_le term.toNat).trans (Nat.le_mul_of_pos_right _ (by decide))

theorem toNat_termFrequency (h : p.Packs s) (term : UInt32) :
    (p.termFrequency term).toNat = s.termFrequency term.toNat :=
  h.toNat_sumOver (fun _ _ hq => hq.toNat_termFrequency term) fun _ _ hq =>
    (hq.termFrequency_le term.toNat).trans hq.tokens_le

theorem toNat_tokens (h : p.Packs s) : p.tokens.toNat = s.tokens :=
  h.toNat_sumOver (fun _ _ hq => hq.tokens) fun _ _ hq => hq.tokens_le

theorem key? (h : p.Packs s) (doc : UInt32) : p.key? doc = s.key? doc.toNat := by
  rw [PackedShard.key?, h.keys]
  by_cases hzero : doc = 0
  · rw [if_pos hzero, hzero]
    rfl
  · rw [if_neg hzero]
    cases hdoc : doc.toNat with
    | zero => exact absurd (UInt32.toNat_inj.mp hdoc) hzero
    | succ index => rfl

theorem docOf? (h : p.Packs s) (key : String) : (p.docOf? key).map (·.toNat) = s.docOf? key := by
  rw [PackedShard.docOf?, h.keys, Shard.docOf?]
  cases hindex : s.keys.idxOf? key with
  | none => rfl
  | some index =>
      have hkey : s.key? (index + 1) = some key :=
        (s.docOf?_eq_some_iff.mp (by rw [Shard.docOf?, hindex]; rfl)).1
      have hlt : index < s.docCount := (Array.getElem?_eq_some_iff.mp hkey).1
      have hfits := h.fits
      have hnat : (UInt32.ofNat index).toNat = index :=
        UInt32.toNat_ofNat_of_lt' (show index < 2 ^ 32 by omega)
      rw [Option.map_some, Option.map_some, Option.map_some, toNat_add_of_lt, hnat]
      · rfl
      · rw [hnat]
        show index + 1 < 2 ^ 32
        omega

/-- Packed segments from a place on are the packs of the segments from there on. -/
theorem readersFrom {qs : List PackedSegment} {rs : List Segment}
    (h : List.Forall₂ PackedSegment.Packs qs rs) (ordinal : Nat) (docBase : UInt32)
    (hfits : docBase.toNat + (rs.map (·.maxDoc)).sum < 2 ^ 32) :
    List.Forall₂ PackedReader.Packs (PackedShard.readersFrom ordinal docBase qs)
      (Shard.readersFrom ordinal docBase.toNat rs) := by
  induction h generalizing ordinal docBase with
  | nil => exact .nil
  | @cons q r _ _ hhead _ ih =>
      rw [List.map_cons, List.sum_cons] at hfits
      have hbase : (docBase + q.maxDoc).toNat = docBase.toNat + r.maxDoc := by
        rw [toNat_add_of_lt, hhead.maxDoc]
        rw [hhead.maxDoc]
        omega
      have hrest := ih (ordinal + 1) (docBase + q.maxDoc) (by omega)
      rw [hbase] at hrest
      refine .cons ⟨hhead, rfl, rfl, ?_⟩ hrest
      show docBase.toNat + r.maxDoc < 2 ^ 32
      omega

theorem readers (h : p.Packs s) : List.Forall₂ PackedReader.Packs p.readers s.readers :=
  readersFrom h.segments 0 0 (by simpa using h.sum_maxDoc_lt)

end PackedShard.Packs

theorem PackedReader.Packs.covers {q : PackedReader} {r : SegmentReader} (h : q.Packs r)
    (doc : UInt32) : q.covers doc = r.covers doc.toNat := by
  have hlast : (q.docBase + q.segment.maxDoc).toNat = r.docBase + r.maxDoc := by
    rw [toNat_add_of_lt, h.docBase, h.segment.maxDoc]
    · rfl
    · rw [h.docBase, h.segment.maxDoc]
      exact h.fits
  rw [PackedReader.covers, SegmentReader.covers]
  refine congrArg₂ and (decide_eq_decide.mpr ?_) (decide_eq_decide.mpr ?_)
  · rw [UInt32.lt_iff_toNat_lt, h.docBase]
  · rw [UInt32.le_iff_toNat_le, hlast]

namespace PackedShard

variable {p : PackedShard} {s : Shard}

/-- **An absolute number is located** in the pack of the segment that holds it, under the
    same number there, or in neither shard. -/
theorem Packs.locate? (h : p.Packs s) (doc : UInt32) :
    Option.Rel (fun q r => q.1.Packs r.1 ∧ q.2.toNat = r.2) (p.locate? doc)
      (s.locate? doc.toNat) := by
  rw [PackedShard.locate?, Shard.locate?]
  have hreaders := h.readers
  generalize p.readers = qs at hreaders
  generalize s.readers = rs at hreaders
  induction hreaders with
  | nil => exact .none
  | @cons q r _ _ hhead _ ih =>
      rw [List.find?_cons, List.find?_cons, hhead.covers]
      cases hcovers : r.covers doc.toNat with
      | false => exact ih
      | true =>
          refine .some ⟨hhead, ?_⟩
          rw [SegmentReader.covers, Bool.and_eq_true, decide_eq_true_eq] at hcovers
          rw [UInt32.toNat_sub_of_le, hhead.docBase]
          rw [UInt32.le_iff_toNat_le, hhead.docBase]
          exact Nat.le_of_lt hcovers.1

/-- The packed shard of some documents, each with the size of segments that it was added
    under. -/
def ofDocs (added : List ((String × List UInt32) × Nat)) : PackedShard :=
  added.foldl (fun p d => (p.add d.1.1 d.1.2 d.2).1) .empty

/-- **Whatever documents come, the packed shard is the pack of the shard**, as long as
    they are fewer than 2³² and each has fewer than 2³² tokens. -/
theorem packs_ofDocs (added : List ((String × List UInt32) × Nat)) (hfew : added.length < 2 ^ 32)
    (hshort : ∀ d ∈ added, d.1.2.length < 2 ^ 32) :
    (ofDocs added).Packs
      (Shard.ofDocs (added.map fun d => ((d.1.1, d.1.2.map (·.toNat)), d.2))) := by
  induction added using List.reverseRecOn with
  | nil => exact .empty
  | append_singleton added d ih =>
      rw [List.length_append, List.length_singleton] at hfew
      have hpacks := ih (by omega) fun d hd => hshort d (List.mem_append_left _ hd)
      have hcount := (Shard.holds_ofDocs
        (added.map fun d => ((d.1.1, d.1.2.map (·.toNat)), d.2))).docCount
      rw [List.length_map, List.length_map] at hcount
      rw [ofDocs, Shard.ofDocs, List.map_append, List.foldl_append, List.foldl_append]
      refine (hpacks.add d.1.1 d.2 (hshort d (by simp)) ?_).1
      rw [hcount]
      exact hfew

end PackedShard

end FeatureRank
