import FeatureRank.Proofs.Feature.Walking
import FeatureRank.Proofs.Index.Dictionary
import FeatureRank.Proofs.Walk.Leapfrog

/-! # Phrase search — from the words of texts to the stops of a walk

    A phrase occurs in a text wherever its words stand there in a row
    (`startsOf`).  Texts are indexed under the numbers of their words, a phrase is
    looked up in the same dictionary later, and as long as all its words are known
    it starts where its numbers do (`Dictionary.Knows.startsOf_eq`); a phrase with a
    word that was never seen starts nowhere.

    The walk of a phrase follows its first term.  Leapfrogging its cursors instead
    leads to the same documents and counts the same there
    (`PhraseWalk.finds_of_moved`), so the search is exact either way
    (`Dictionary.phrase_search_exact`). -/

namespace FeatureRank

open DocWalk

/-! ## Where a phrase starts -/

section

variable {α : Type} [DecidableEq α]

/-- The indices of a text from which on it reads like a phrase. -/
def startsOf (phrase words : List α) : List Nat :=
  (List.range words.length).filter fun index => phrase.isPrefixOf (words.drop index)

theorem mem_startsOf {phrase words : List α} (hphrase : phrase ≠ []) {index : Nat} :
    index ∈ startsOf phrase words ↔ phrase <+: words.drop index := by
  rw [startsOf, List.mem_filter, List.isPrefixOf_iff_prefix, List.mem_range, and_iff_right_iff_imp]
  intro hstarts
  -- past the end only the phrase without words starts
  by_contra hpast
  rw [List.drop_eq_nil_of_le (by omega), List.prefix_nil] at hstarts
  exact hphrase hstarts

/-- **A text holds a phrase** just when that starts somewhere. -/
theorem infix_iff_startsOf {phrase words : List α} (hphrase : phrase ≠ []) :
    phrase <:+: words ↔ 0 < (startsOf phrase words).length := by
  constructor
  · rintro ⟨before, after, rfl⟩
    have hstarts : before.length ∈ startsOf phrase (before ++ phrase ++ after) := by
      rw [mem_startsOf hphrase, List.append_assoc, List.drop_left]
      exact List.prefix_append phrase after
    exact List.length_pos_of_mem hstarts
  · intro hpos
    obtain ⟨index, hindex⟩ := List.exists_mem_of_length_pos hpos
    exact ((mem_startsOf hphrase).mp hindex).isInfix.trans (List.drop_suffix _ _).isInfix

end

/-- Terms stand one after the other where the document reads like them. -/
theorem standsAt_eq (doc terms : List TermId) (index : Nat) :
    standsAt doc index terms = terms.isPrefixOf (doc.drop index) := by
  induction terms generalizing index with
  | nil => rfl
  | cons term rest ih =>
      rw [standsAt, ih]
      by_cases hlt : index < doc.length
      · rw [List.drop_eq_getElem_cons hlt, List.isPrefixOf, List.getElem?_eq_getElem hlt]
        congr 1
        rw [Bool.eq_iff_iff, beq_iff_eq, beq_iff_eq, Option.some_inj, eq_comm]
      · have hpast : doc.length ≤ index := Nat.le_of_not_lt hlt
        rw [List.drop_eq_nil_of_le hpast, List.getElem?_eq_none hpast]
        rfl

theorem phraseCount_eq (doc : List TermId) {terms : List TermId} (h : terms ≠ []) :
    phraseCount doc terms = (startsOf terms doc).length := by
  obtain ⟨term, rest, rfl⟩ := List.exists_cons_of_ne_nil h
  simp only [phraseCount, standsAt_eq, List.countP_eq_length_filter, startsOf]

/-! ## Words and their numbers -/

namespace Dictionary

variable {d : Dictionary}

theorem Knows.drop {words : List String} {ids : List TermId} (h : d.Knows words ids)
    (count : Nat) : d.Knows (words.drop count) (ids.drop count) :=
  List.forall₂_drop count h

theorem Knows.isPrefixOf_eq {phrase words : List String} {terms ids : List TermId}
    (hphrase : d.Knows phrase terms) (hwords : d.Knows words ids) :
    terms.isPrefixOf ids = phrase.isPrefixOf words := by
  induction hphrase generalizing words ids with
  | nil => rfl
  | @cons word term _ _ hword _ ih =>
      cases hwords with
      | nil => rfl
      | @cons other id _ _ hother hrest =>
          -- equal words have equal numbers, and no others have
          have hsame : term = id ↔ word = other := by
            constructor
            · rintro rfl
              exact id?_injective hword hother
            · rintro rfl
              exact Option.some.inj (hword.symm.trans hother)
          rw [List.isPrefixOf, List.isPrefixOf, ih hrest]
          congr 1
          rw [Bool.eq_iff_iff, beq_iff_eq, beq_iff_eq, hsame]

/-- **A phrase starts where its numbers do.** -/
theorem Knows.startsOf_eq {phrase words : List String} {terms ids : List TermId}
    (hphrase : d.Knows phrase terms) (hwords : d.Knows words ids) :
    startsOf terms ids = startsOf phrase words := by
  rw [startsOf, startsOf, ← List.Forall₂.length_eq hwords]
  exact List.filter_congr fun index _ => hphrase.isPrefixOf_eq (hwords.drop index)

/-- How often a phrase that is looked up occurs in a text that was learned. -/
theorem Knows.phraseCount_eq {words : List String} {ids : List TermId} (h : d.Knows words ids)
    (phrase : List String) :
    phraseCount ids (d.phrase phrase) = if phrase = [] then 0 else (startsOf phrase words).length := by
  by_cases hphrase : phrase = []
  · rw [if_pos hphrase, hphrase]
    rfl
  · rw [if_neg hphrase]
    -- either all words of the phrase have numbers, or one was never seen
    rcases d.phrase_cases phrase with hknown | ⟨hnone, word, hword, hunknown⟩
    · have hterms : d.phrase phrase ≠ [] := by
        intro hnil
        rw [hnil] at hknown
        cases hknown
        exact hphrase rfl
      rw [FeatureRank.phraseCount_eq ids hterms, hknown.startsOf_eq h]
    · -- a text has no word that was never seen
      have hnot : word ∉ words := by
        intro hmem
        obtain ⟨id, -, hid⟩ := forall₂_mem h hmem
        rw [hunknown] at hid
        exact nomatch hid
      rw [hnone, eq_comm, phraseCount]
      by_contra hsome
      have hpos := Nat.pos_of_ne_zero hsome
      exact hnot (((infix_iff_startsOf hphrase).mpr hpos).subset hword)

end Dictionary

/-! ## Leapfrogging a phrase -/

namespace PhraseWalk

/-- How often a phrase occurs in a document where its cursors stand. -/
def countOn (doc : Nat) : List Cursor → Nat
  | [] => 0
  | lead :: others =>
    match lead.ahead with
    | [] => 0
    | p :: _ => countAt doc p others

/-- The cursors of a phrase, that of the first term first. -/
def cursors (w : PhraseWalk) : List Cursor := w.lead :: w.others

/-- A walk that has run out counts nothing. -/
theorem occurrences_seek (total : Nat) (postings : List Posting) :
    ∀ others : List Cursor, (seek total postings others).stop = .exhausted →
      (seek total postings others).occurrences = 0 := by
  induction postings with
  | nil => exact fun _ _ => rfl
  | cons p rest ih =>
      intro others
      rw [seek]
      cases countAt p.doc p (others.map (reach p.doc)) with
      | succ n =>
          intro hstop
          cases hstop
      | zero =>
          by_cases hany : (others.map (reach p.doc)).any (·.stop == .exhausted) = true
          · simp only [if_pos hany]
            exact fun _ => rfl
          · simp only [if_neg hany]
            exact ih _

end PhraseWalk

namespace Weight

open Leapfrog PhraseWalk

section

variable {docs : List (List TermId)} {term : TermId} {rest : List TermId}

/-- The cursors of a phrase brought to a document are those of its terms. -/
theorem cursors_phraseWalk (docs : List (List TermId)) (term : TermId) (rest : List TermId)
    (n : Nat) :
    (phraseWalk docs term rest).cursors.map (reach n) = (term :: rest).map (movedTo docs n) := by
  show ((term :: rest).map fun t => Cursor.ofPostings ((Segment.ofDocs docs).postingsOf t)).map _ = _
  rw [List.map_map]
  rfl

/-- No cursor of a phrase stops beyond the last document. -/
theorem stop_cursors_le (docs : List (List TermId)) (term : TermId) (rest : List TermId) :
    ∀ f ∈ (phraseWalk docs term rest).cursors, ∀ n doc, (reach n f).stop = .doc doc →
      doc ≤ docs.length := by
  intro f hf n doc hstop
  have hmem : reach n f ∈ (term :: rest).map (movedTo docs n) := by
    rw [← cursors_phraseWalk]
    exact List.mem_map_of_mem hf
  obtain ⟨t, -, hreach⟩ := List.mem_map.mp hmem
  rw [← hreach] at hstop
  cases n with
  | zero =>
      have hdoc : 0 = doc := Stop.doc.inj hstop
      omega
  -- the postings ahead are of documents of the segment
  | succ index =>
      obtain ⟨hahead, hat⟩ := movedTo_succ docs index t
      rw [hat, hahead] at hstop
      cases hpostings : postingsFrom t (index + 1) (docs.drop index) with
      | nil =>
          rw [hpostings] at hstop
          exact nomatch hstop
      | cons p later =>
          have hwithin := doc_postingsFrom (hpostings ▸ List.mem_cons_self : p ∈ postingsFrom _ _ _)
          rw [hpostings] at hstop
          have hdoc : p.doc = doc := Stop.doc.inj hstop
          rw [List.length_drop] at hwithin
          omega

/-- The cursors of a phrase have a document in common when that holds all of its terms. -/
theorem common_iff {index : Nat} {doc : List TermId} (hdoc : docs[index]? = some doc) :
    Common (phraseWalk docs term rest).cursors (index + 1) ↔ ∀ t ∈ term :: rest, t ∈ doc := by
  have hmap : Common (phraseWalk docs term rest).cursors (index + 1)
      ↔ ∀ c ∈ (term :: rest).map (movedTo docs (index + 1)), c.stop = .doc (index + 1) := by
    rw [← cursors_phraseWalk, List.forall_mem_map]
    exact Iff.rfl
  rw [hmap, List.forall_mem_map]
  exact forall₂_congr fun t _ => stop_movedTo hdoc t

/-- What they count on such a document is how often the phrase occurs in it. -/
theorem countOn_cursors {index : Nat} {doc : List TermId} (hdoc : docs[index]? = some doc)
    (hterm : term ∈ doc) :
    countOn (index + 1) ((phraseWalk docs term rest).cursors.map (reach (index + 1)))
      = phraseCount doc (term :: rest) := by
  rw [cursors_phraseWalk, List.map_cons, countOn]
  rcases movedTo_cases hdoc term with ⟨hnot, -⟩ | ⟨-, hahead⟩
  · exact absurd hterm hnot
  · rw [hahead]
    exact countAt_movedTo hdoc term rest

/-- **The documents that count** for leapfrogging are those in which the phrase occurs. -/
theorem counts_iff {n : Nat} (hpos : 0 < n) :
    Counts countOn (phraseWalk docs term rest).cursors n
      ↔ Numbered docs (fun doc => (Weight.phrase (term :: rest)).matchesDoc doc = true) n := by
  obtain ⟨index, rfl⟩ : ∃ index, n = index + 1 := ⟨n - 1, by omega⟩
  constructor
  · rintro ⟨hcommon, hcount⟩
    have hle := stop_cursors_le docs term rest _ List.mem_cons_self (index + 1) (index + 1)
      (hcommon _ List.mem_cons_self)
    have hdoc : docs[index]? = some docs[index] := List.getElem?_eq_getElem hle
    rw [countOn_cursors hdoc ((common_iff hdoc).mp hcommon term List.mem_cons_self)] at hcount
    exact ⟨index, _, rfl, hdoc, decide_eq_true hcount⟩
  · rintro ⟨place, doc, hplace, hdoc, hmatch⟩
    obtain rfl : index = place := Nat.succ.inj hplace
    have hcount : 0 < phraseCount doc (term :: rest) := of_decide_eq_true hmatch
    have hall : ∀ t ∈ term :: rest, t ∈ doc := by
      intro t ht
      by_contra hnot
      rw [phraseCount_eq_zero ht hnot] at hcount
      exact Nat.lt_irrefl 0 hcount
    refine ⟨(common_iff hdoc).mpr hall, ?_⟩
    rw [countOn_cursors hdoc (hall term List.mem_cons_self)]
    exact hcount

/-- The scorer of a phrase walks its postings. -/
theorem scorer?_phrase {terms : List TermId} {s : FeatureScorer}
    (hs : (Weight.phrase terms).scorer? (Segment.ofDocs docs) = some s) :
    ∃ term rest, terms = term :: rest ∧ s = .phrase (phraseWalk docs term rest) := by
  obtain ⟨walk, hwalk, rfl⟩ := Option.map_eq_some_iff.mp hs
  cases terms with
  | nil => exact nomatch hwalk
  | cons term rest =>
      rcases ofPostings?_cases docs term rest with hsome | ⟨hnone, -⟩
      · exact ⟨term, rest, rfl, by rw [Option.some.inj (hwalk.symm.trans hsome)]⟩
      · rw [hnone] at hwalk
        exact nomatch hwalk

variable {v u : PhraseWalk} {target : Nat}
  (hs : (Weight.phrase (term :: rest)).scorer? (Segment.ofDocs docs)
    = some (.phrase (phraseWalk docs term rest)))

include hs in
/-- The walk of a phrase keeps the contract as its scorer does. -/
theorem phraseWalk_obeys :
    Obeys (Numbered docs fun doc => (Weight.phrase (term :: rest)).matchesDoc doc = true)
      (phraseWalk docs term rest) :=
  (scorer?_obeys hs).of_map (f := FeatureScorer.phrase) (fun _ => rfl) fun _ _ => rfl

include hs in
/-- Wherever calls lead the walk of a phrase, it has counted how often the phrase occurs in
    the document where it stands. -/
theorem occurrences_of_moved (hmoved : Moved (phraseWalk docs term rest) v) {index : Nat}
    (hstop : v.stop = .doc (index + 1)) {doc : List TermId} (hdoc : docs[index]? = some doc) :
    v.occurrences = phraseCount doc (term :: rest) := by
  have hsame : v = (phraseWalk docs term rest).advance (index + 1) :=
    FeatureScorer.phrase.inj (advance_of_moved hs
      (hmoved.map (f := FeatureScorer.phrase) (fun _ => rfl) fun _ _ => rfl) hstop)
  rw [hsame] at hstop ⊢
  rcases phraseWalk_cases hdoc term rest with ⟨-, hoff⟩ | ⟨-, -, hcount⟩
  · exact absurd hstop hoff
  · exact hcount

include hs in
/-- **Leapfrogging leads where the walk of a phrase leads.**  A search that stands where
    the walk does comes to an end when both are called, on the same document and with
    the same count. -/
theorem finds_of_moved (hmoved : Moved (phraseWalk docs term rest) v) {n : Nat}
    {cs : List Cursor} (hleapt : Leapt countOn (phraseWalk docs term rest).cursors v.stop n cs)
    (hcall : Call v target u) :
    ∃ found, Finds countOn target cs u.stop u.occurrences found := by
  obtain ⟨rfl, number, hstop, hlt⟩ := hcall.eq_advance
  -- both stop on the first document that counts, so they stop alike
  rw [show v.stop = .doc number from hstop] at hleapt
  have hpos : 0 < target := Nat.zero_lt_of_lt hlt
  obtain ⟨stop, m, found, hfinds, hfirst, hfound⟩ :=
    leapt_finds (stop_cursors_le docs term rest) (List.cons_ne_nil _ _) hleapt hlt
  have hsame : stop = (v.advance target).stop :=
    (hfirst.congr fun n hn => counts_iff (Nat.lt_of_lt_of_le hpos hn)).unique
      ((phraseWalk_obeys hs).first hmoved hcall)
  have hcount : m = (v.advance target).occurrences := by
    cases stop with
    | exhausted =>
        rw [hfinds.eq_zero, advance_eq_seek hpos, occurrences_seek]
        rw [← advance_eq_seek hpos]
        exact hsame.symm
    | doc doc =>
        obtain ⟨hle, hcounts, -⟩ := hfirst
        obtain ⟨index, d, rfl, hdoc, hmatch⟩ :=
          (counts_iff (Nat.lt_of_lt_of_le hpos hle)).mp hcounts
        have hwalk : (v.advance target).occurrences = phraseCount d (term :: rest) :=
          occurrences_of_moved hs (hmoved.call hcall) hsame.symm hdoc
        rw [(hfound _ rfl).2, hwalk]
        exact countOn_cursors hdoc ((common_iff hdoc).mp hcounts.1 term List.mem_cons_self)
  rw [hsame, hcount] at hfinds
  exact ⟨found, hfinds⟩

end

end Weight

/-! ## From texts to stops -/

section

variable {α β : Type} {related : α → β → Prop} {xs : List α} {ys : List β}

/-- Related documents match under the same numbers. -/
theorem Numbered.iff_of_forall₂ (h : List.Forall₂ related xs ys) {p : α → Prop} {q : β → Prop}
    (hsame : ∀ x y, related x y → (p x ↔ q y)) (n : Nat) : Numbered xs p n ↔ Numbered ys q n := by
  constructor
  · rintro ⟨index, x, rfl, hx, hp⟩
    obtain ⟨y, hy, hxy⟩ := forall₂_getElem? h hx
    exact ⟨index, y, rfl, hy, (hsame x y hxy).mp hp⟩
  · rintro ⟨index, y, rfl, hy, hq⟩
    obtain ⟨x, hx, hxy⟩ := forall₂_getElem? h.flip hy
    exact ⟨index, x, rfl, hx, (hsame x y hxy).mpr hq⟩

end

namespace Dictionary

open Leapfrog PhraseWalk

/-- A phrase that is looked up matches the texts that hold it, as long as it has words. -/
theorem Knows.matchesDoc_iff {d : Dictionary} {words : List String} {ids : List TermId}
    (h : d.Knows words ids) (phrase : List String) :
    (Weight.phrase (d.phrase phrase)).matchesDoc ids = true
      ↔ phrase ≠ [] ∧ phrase <:+: words := by
  rw [Weight.matchesDoc, h.phraseCount_eq, decide_eq_true_eq]
  by_cases hphrase : phrase = []
  · rw [if_pos hphrase]
    exact iff_of_false (Nat.lt_irrefl 0) fun hholds => hholds.1 hphrase
  · rw [if_neg hphrase, infix_iff_startsOf hphrase]
    exact (and_iff_right hphrase).symm

/-- **Phrase search is exact.**  Texts are learned, those of a segment among others, and a
    phrase is looked up afterwards.  Whatever the words of a text are taken to be: the scorer
    of the phrase keeps the contract of a walk over the texts of the segment that hold the
    words of the phrase in a row, and scores each by the number of places where they start;
    when there is no scorer there is no such text.  Leapfrogging its cursors comes to an end
    with each call, where the scorer's own walk does. -/
theorem phrase_search_exact (tokens : String → List String) (before texts after : List String)
    (phrase : String) :
    let indexed := (Dictionary.empty.learnAll (before.map tokens)).1.learnAll (texts.map tokens)
    let dictionary := (indexed.1.learnAll (after.map tokens)).1
    let holds := Numbered texts fun text =>
      tokens phrase ≠ [] ∧ tokens phrase <:+: tokens text
    match (Weight.phrase (dictionary.phrase (tokens phrase))).scorer?
      (Segment.ofDocs indexed.2) with
    | none => ∀ n, ¬holds n
    | some scorer =>
      Obeys holds scorer ∧
      (∀ reached, Moved scorer reached → ∀ index text, reached.stop = .doc (index + 1) →
        texts[index]? = some text → ∀ vector, reached.score vector
          = .ok (Float32.ofNat (startsOf (tokens phrase) (tokens text)).length)) ∧
      ∃ walk, scorer = .phrase walk ∧
        ∀ v n cs, Moved walk v → Leapt countOn walk.cursors v.stop n cs →
          ∀ target u, Call v target u →
            ∃ found, Finds countOn target cs u.stop u.occurrences found := by
  intro indexed dictionary holds
  -- what is learned after the texts leaves their numbers as they are
  have hknown : List.Forall₂ (fun text ids => dictionary.Knows (tokens text) ids) texts indexed.2 := by
    refine List.forall₂_map_left_iff.mp (List.Forall₂.imp ?_ (learnAll_knows _ _))
    exact fun _ _ h => h.mono (learnAll_extends _ _)
  have hsame : ∀ n, holds n ↔ Numbered indexed.2 (fun doc =>
      (Weight.phrase (dictionary.phrase (tokens phrase))).matchesDoc doc = true) n :=
    Numbered.iff_of_forall₂ hknown fun text ids h => (h.matchesDoc_iff (tokens phrase)).symm
  cases hs : (Weight.phrase (dictionary.phrase (tokens phrase))).scorer?
      (Segment.ofDocs indexed.2) with
  | none =>
      intro n hholds
      exact Weight.not_numbered_of_none hs n ((hsame n).mp hholds)
  | some scorer =>
      refine ⟨(Weight.scorer?_obeys hs).congr fun n => (hsame n).symm, ?_, ?_⟩
      · intro reached hmoved index text hstop htext vector
        obtain ⟨doc, hdoc, hmatch, hreads⟩ := Weight.says_of_moved hs hmoved hstop
        obtain ⟨ids, hids, hknows⟩ := forall₂_getElem? hknown htext
        obtain rfl := Option.some.inj (hdoc.symm.trans hids)
        have hphrase := ((hknows.matchesDoc_iff (tokens phrase)).mp hmatch).1
        rw [hreads.score vector, Weight.valueOn, hknows.phraseCount_eq, if_neg hphrase]
      · obtain ⟨term, rest, hterms, rfl⟩ := Weight.scorer?_phrase hs
        rw [hterms] at hs
        refine ⟨_, rfl, ?_⟩
        intro v n cs hmoved hleapt target u hcall
        exact Weight.finds_of_moved hs hmoved hleapt hcall

end Dictionary

end FeatureRank
