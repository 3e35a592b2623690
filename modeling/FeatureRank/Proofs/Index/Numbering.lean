import Mathlib.Algebra.GroupWithZero.Nat
import Mathlib.Data.Finset.Card
import Std.Data.HashMap.Lemmas
import FeatureRank.Proofs.Index.Dictionary

/-! # Numbering — words and numbers, one to one and for good

    The words of a dictionary are those of the texts that were learned, each once
    (`Dictionary.mem_words_learnAll`, `Dictionary.nodup_learnAll`), so the numbers from 1 to
    their count and the words tell each other (`Dictionary.id?_eq_some_iff`).

    A dictionary may be kept in two pieces that are extended together: the number of each
    word, of 32 bits, and the words by number (`WordTable`).  As long as there are fewer
    than 2³² words the pieces do what the dictionary does (`WordTable.Stores`), over every
    history of texts (`Dictionary.numbering_stable`). -/

namespace FeatureRank

namespace Dictionary

variable {d : Dictionary}

/-! ## Words, each once -/

theorem learnWord_of_id? {word : String} {id : TermId} (h : d.id? word = some id) :
    d.learnWord word = (d, id) := by
  rw [learnWord, h]

theorem learnWord_of_none {word : String} (h : d.id? word = none) :
    d.learnWord word = (⟨d.words.push word⟩, d.size + 1) := by
  rw [learnWord, h]

theorem id?_eq_none_iff {word : String} : d.id? word = none ↔ word ∉ d.words.toList := by
  rw [id?_eq, Option.map_eq_none_iff, List.findIdx?_eq_none_iff]
  constructor
  · intro h hmem
    exact absurd (h word hmem) (by simp)
  · intro h other hother
    exact beq_eq_false_iff_ne.mpr fun heq => h (heq ▸ hother)

theorem mem_words_learnWord {word other : String} :
    other ∈ (d.learnWord word).1.words.toList ↔ other ∈ d.words.toList ∨ other = word := by
  cases h : d.id? word with
  | some id =>
      rw [learnWord_of_id? h]
      have hmem : word ∈ d.words.toList :=
        not_not.mp fun hnot => nomatch h.symm.trans (id?_eq_none_iff.mpr hnot)
      exact ⟨.inl, fun h => h.elim (fun h => h) fun heq => heq ▸ hmem⟩
  | none =>
      rw [learnWord_of_none h, Array.toList_push, List.mem_append, List.mem_singleton]

/-- A word has its number whatever other word is learned. -/
theorem id?_learnWord_of_ne {word other : String} (h : other ≠ word) :
    (d.learnWord word).1.id? other = d.id? other := by
  cases hother : d.id? other with
  | some id => exact learnWord_extends d word other id hother
  | none =>
      rw [id?_eq_none_iff, mem_words_learnWord, not_or]
      exact ⟨id?_eq_none_iff.mp hother, h⟩

theorem size_le_learnWord (d : Dictionary) (word : String) :
    d.size ≤ (d.learnWord word).1.size := by
  cases h : d.id? word with
  | some id => rw [learnWord_of_id? h]
  | none =>
      rw [learnWord_of_none h, size, size, Array.size_push]
      exact Nat.le_succ _

theorem nodup_learnWord (hd : d.words.toList.Nodup) (word : String) :
    (d.learnWord word).1.words.toList.Nodup := by
  cases h : d.id? word with
  | some id => rwa [learnWord_of_id? h]
  | none =>
      rw [learnWord_of_none h, Array.toList_push, ← List.concat_eq_append]
      exact hd.concat (id?_eq_none_iff.mp h)

theorem mem_words_learn {other : String} (words : List String) : ∀ d : Dictionary,
    other ∈ (d.learn words).1.words.toList ↔ other ∈ d.words.toList ∨ other ∈ words := by
  induction words with
  | nil => exact fun d => (or_iff_left List.not_mem_nil).symm
  | cons word rest ih =>
      intro d
      rw [List.mem_cons, ← or_assoc, ← mem_words_learnWord]
      exact ih (d.learnWord word).1

theorem nodup_learn (words : List String) : ∀ d : Dictionary, d.words.toList.Nodup →
    (d.learn words).1.words.toList.Nodup := by
  induction words with
  | nil => exact fun _ hd => hd
  | cons word rest ih => exact fun d hd => ih _ (nodup_learnWord hd word)

theorem size_le_learn (words : List String) : ∀ d : Dictionary,
    d.size ≤ (d.learn words).1.size := by
  induction words with
  | nil => exact fun _ => le_rfl
  | cons word rest ih => exact fun d => (size_le_learnWord d word).trans (ih _)

/-- **The words of a dictionary are those of the texts that were learned.** -/
theorem mem_words_learnAll {other : String} (texts : List (List String)) : ∀ d : Dictionary,
    other ∈ (d.learnAll texts).1.words.toList ↔ other ∈ d.words.toList ∨ other ∈ texts.flatten := by
  induction texts with
  | nil => exact fun d => (or_iff_left List.not_mem_nil).symm
  | cons words rest ih =>
      intro d
      rw [List.flatten_cons, List.mem_append, ← or_assoc, ← mem_words_learn words d]
      exact ih (d.learn words).1

theorem nodup_learnAll (texts : List (List String)) : ∀ d : Dictionary, d.words.toList.Nodup →
    (d.learnAll texts).1.words.toList.Nodup := by
  induction texts with
  | nil => exact fun _ hd => hd
  | cons words rest ih => exact fun d hd => ih _ (nodup_learn words d hd)

theorem size_le_learnAll (texts : List (List String)) : ∀ d : Dictionary,
    d.size ≤ (d.learnAll texts).1.size := by
  induction texts with
  | nil => exact fun _ => le_rfl
  | cons words rest ih => exact fun d => (size_le_learn words d).trans (ih _)

theorem learnAll_append (more : List (List String)) (texts : List (List String)) :
    ∀ d : Dictionary, (d.learnAll (texts ++ more)).1 = ((d.learnAll texts).1.learnAll more).1 := by
  induction texts with
  | nil => exact fun _ => rfl
  | cons words rest ih => exact fun d => ih (d.learn words).1

/-! ## Words and numbers tell each other -/

/-- The words have the numbers from 1 to their count. -/
theorem word?_isSome_iff {id : TermId} : (d.word? id).isSome = true ↔ 1 ≤ id ∧ id ≤ d.size := by
  cases id with
  | zero => exact iff_of_false Bool.false_ne_true fun h => absurd h.1 (by decide)
  | succ index =>
      show (d.words[index]?).isSome = true ↔ _
      rw [isSome_getElem?]
      exact ⟨fun h => ⟨Nat.succ_pos index, h⟩, fun h => h.2⟩

/-- **A word has a number just when the number has the word**, when no word stands twice. -/
theorem id?_eq_some_iff (hd : d.words.toList.Nodup) {word : String} {id : TermId} :
    d.id? word = some id ↔ d.word? id = some word := by
  refine ⟨word?_of_id?, fun h => ?_⟩
  cases id with
  | zero => exact nomatch h
  | succ index =>
      have hat : d.words.toList[index]? = some word := by
        rw [Array.getElem?_toList]
        exact h
      obtain ⟨hlt, hword⟩ := List.getElem?_eq_some_iff.mp hat
      -- the first place of the word is the only one
      cases hid : d.id? word with
      | none => exact absurd (hword ▸ List.getElem_mem hlt) (id?_eq_none_iff.mp hid)
      | some id =>
          have hback := word?_of_id? hid
          cases id with
          | zero => exact nomatch hback
          | succ other =>
              have hother : d.words.toList[other]? = some word := by
                rw [Array.getElem?_toList]
                exact hback
              obtain ⟨hlt', hword'⟩ := List.getElem?_eq_some_iff.mp hother
              rw [(hd.getElem_inj_iff).mp (hword'.trans hword.symm)]

/-! ## Texts that are parsed -/

theorem isSome_id?_iff {word : String} : (d.id? word).isSome = true ↔ word ∈ d.words.toList := by
  rw [← not_iff_not, ← id?_eq_none_iff, Bool.not_eq_true, Option.isSome_eq_false_iff,
    Option.isNone_iff_eq_none]

/-- The words that were never learned, in order. -/
theorem unknown_eq (d : Dictionary) (words : List String) :
    d.unknown words = words.filter (· ∉ d.words.toList) := by
  refine List.filter_congr fun word _ => ?_
  rw [← Option.not_isSome, Bool.eq_iff_iff, Bool.not_eq_true', decide_eq_true_iff,
    ← isSome_id?_iff, Bool.not_eq_true]

/-- The words that were learned, in order, are known under their numbers. -/
theorem knows_known (d : Dictionary) (words : List String) :
    d.Knows (words.filter (· ∈ d.words.toList)) (d.known words) := by
  induction words with
  | nil => exact .nil
  | cons word rest ih =>
      cases h : d.id? word with
      | none =>
          have hnot := id?_eq_none_iff.mp h
          rw [known, List.filterMap_cons_none h, List.filter_cons_of_neg (by simpa using hnot)]
          exact ih
      | some id =>
          have hmem : word ∈ d.words.toList := isSome_id?_iff.mp (by rw [h]; rfl)
          rw [known, List.filterMap_cons_some h, List.filter_cons_of_pos (by simpa using hmem)]
          exact .cons h ih

/-- Words that are known under numbers are parsed into these, and none is unknown. -/
theorem Knows.parse {words : List String} {ids : List TermId} (h : d.Knows words ids) :
    d.known words = ids ∧ d.unknown words = [] := by
  induction h with
  | nil => exact ⟨rfl, rfl⟩
  | cons hword _ ih =>
      rw [known, unknown, List.filterMap_cons_some hword,
        List.filter_cons_of_neg (by rw [hword]; exact Bool.false_ne_true)]
      exact ⟨congrArg _ ih.1, ih.2⟩

/-- A word that was learned has the number of its place among the words, from 1 on. -/
theorem id?_of_mem {word : String} (h : word ∈ d.words.toList) :
    d.id? word = some (d.words.toList.idxOf word + 1) := by
  have hfind : d.words.toList.findIdx? (· == word) = some (d.words.toList.idxOf word) :=
    List.findIdx?_eq_some_of_exists ⟨word, h, beq_self_eq_true word⟩
  rw [id?_eq, hfind]
  rfl

/-- Words that are known were learned. -/
theorem Knows.mem {words : List String} {ids : List TermId} (h : d.Knows words ids) :
    ∀ word ∈ words, word ∈ d.words.toList := by
  have hnone := h.parse.2
  rw [unknown_eq, List.filter_eq_nil_iff] at hnone
  simpa using hnone

/-- The numbers of words that are known are those of their places. -/
theorem Knows.eq_places {words : List String} {ids : List TermId} (h : d.Knows words ids) :
    ids = words.map (d.words.toList.idxOf · + 1) := by
  induction h with
  | nil => rfl
  | cons hword _ ih =>
      have hmem := isSome_id?_iff.mp (Option.isSome_of_mem hword)
      rw [List.map_cons, ← ih, Option.some.inj (hword.symm.trans (id?_of_mem hmem))]

/-- **A phrase has the places of its words**, or none when one was never learned. -/
theorem phrase_eq_places (d : Dictionary) (words : List String) :
    d.phrase words = if ∀ word ∈ words, word ∈ d.words.toList then
      words.map (d.words.toList.idxOf · + 1) else [] := by
  rcases d.phrase_cases words with hknows | ⟨hnil, word, hword, hnone⟩
  · rw [if_pos hknows.mem]
    exact hknows.eq_places
  · rw [hnil, if_neg fun hall => id?_eq_none_iff.mp hnone (hall word hword)]

/-- **A phrase is empty** just when a word of it was never learned or it has none. -/
theorem phrase_eq_nil_iff {words : List String} :
    d.phrase words = [] ↔ words = [] ∨ ∃ word ∈ words, word ∉ d.words.toList := by
  rcases d.phrase_cases words with hknows | ⟨hnil, word, hword, hnone⟩
  · -- no word is missing, so the numbers are as many as the words
    have hall : ¬∃ word ∈ words, word ∉ d.words.toList := by
      rintro ⟨word, hword, hnot⟩
      exact hnot (hknows.mem word hword)
    rw [or_iff_left hall, ← List.length_eq_zero_iff, ← hknows.length_eq,
      List.length_eq_zero_iff]
  · exact iff_of_true hnil (.inr ⟨word, hword, id?_eq_none_iff.mp hnone⟩)

end Dictionary

/-! ## A dictionary in two pieces -/

/-- The pieces of a dictionary: the number of each word, of 32 bits, and the words in the
    order of their numbers. -/
structure WordTable where
  numbers : Std.HashMap String UInt32 := {}
  words : Array String := #[]

namespace WordTable

def empty : WordTable := {}

/-- The number of a word; one that was never seen goes into both pieces. -/
def learnWord (t : WordTable) (word : String) : WordTable × UInt32 :=
  match t.numbers[word]? with
  | some number => (t, number)
  | none =>
    let words := t.words.push word
    let number := UInt32.ofNat words.size
    (⟨t.numbers.insert word number, words⟩, number)

/-- The numbers of the words of a document that is indexed, noted word by word. -/
def learn (t : WordTable) (words : List String) : WordTable × List UInt32 :=
  words.foldl
    (fun (t, numbers) word =>
      let (t, number) := t.learnWord word
      (t, numbers ++ [number]))
    (t, [])

/-- The numbers of the words that were seen and the words that were not, noted word by word. -/
def parse (t : WordTable) (words : List String) : List UInt32 × List String :=
  words.foldl
    (fun (known, unknown) word =>
      match t.numbers[word]? with
      | some number => (known ++ [number], unknown)
      | none => (known, unknown ++ [word]))
    ([], [])

/-- The numbers of the words of a phrase, none if one was never seen. -/
def phrase (t : WordTable) (words : List String) : List UInt32 :=
  let (known, unknown) := t.parse words
  if unknown.isEmpty then known else []

def word? (t : WordTable) (number : UInt32) : Option String :=
  if number = 0 then none else t.words[number.toNat - 1]?

/-- Texts learned one after the other. -/
def learnAll (t : WordTable) : List (List String) → WordTable × List (List UInt32)
  | [] => (t, [])
  | words :: rest =>
    let (t, numbers) := t.learn words
    let (t, all) := t.learnAll rest
    (t, numbers :: all)

/-- The pieces of a dictionary whose numbers fit into 32 bits. -/
structure Stores (t : WordTable) (d : Dictionary) : Prop where
  words : t.words = d.words
  numbers : ∀ word, t.numbers[word]? = (d.id? word).map UInt32.ofNat
  fits : d.size < 2 ^ 32

namespace Stores

variable {t : WordTable} {d : Dictionary}

theorem empty : WordTable.empty.Stores .empty where
  words := rfl
  numbers word := by
    rw [Dictionary.id?_eq_none_iff.mpr List.not_mem_nil]
    exact Std.HashMap.getElem?_empty
  fits := by decide

/-- The number of a word is below the count of words, so 32 bits hold it. -/
theorem toNat_number (h : t.Stores d) {word : String} {id : TermId} (hid : d.id? word = some id) :
    (UInt32.ofNat id).toNat = id := by
  have hle := (Dictionary.word?_isSome_iff.mp (by rw [Dictionary.word?_of_id? hid]; rfl)).2
  exact UInt32.toNat_ofNat_of_lt' (hle.trans_lt h.fits)

/-- **One word that is learned** has the number that the dictionary gives it. -/
theorem learnWord (h : t.Stores d) {word : String}
    (hfits : (d.learnWord word).1.size < 2 ^ 32) :
    (t.learnWord word).1.Stores (d.learnWord word).1 ∧
      (t.learnWord word).2.toNat = (d.learnWord word).2 := by
  have hnumber := h.numbers word
  cases hid : d.id? word with
  | some id =>
      rw [hid] at hnumber
      rw [WordTable.learnWord, hnumber, Dictionary.learnWord_of_id? hid]
      exact ⟨h, h.toNat_number hid⟩
  | none =>
      rw [hid] at hnumber
      rw [Dictionary.learnWord_of_none hid] at hfits ⊢
      rw [WordTable.learnWord, hnumber]
      have hsize : (t.words.push word).size = d.size + 1 := by
        rw [Array.size_push, h.words]
        rfl
      have hbound : d.size + 1 < 2 ^ 32 := by
        rw [Dictionary.size, Array.size_push] at hfits
        exact hfits
      refine ⟨⟨congrArg (Array.push · word) h.words, fun other => ?_, hfits⟩, ?_⟩
      · have hlearned := Dictionary.id?_learnWord d word
        have hkept : other ≠ word → (d.learnWord word).1.id? other = d.id? other :=
          Dictionary.id?_learnWord_of_ne
        rw [Dictionary.learnWord_of_none hid] at hlearned hkept
        show (t.numbers.insert word (UInt32.ofNat (t.words.push word).size))[other]? = _
        rw [Std.HashMap.getElem?_insert, hsize]
        by_cases heq : word = other
        · rw [if_pos (beq_iff_eq.mpr heq), ← heq, hlearned]
          rfl
        · rw [if_neg (by rwa [beq_iff_eq]), h.numbers, hkept (Ne.symm heq)]
      · show (UInt32.ofNat (t.words.push word).size).toNat = d.size + 1
        rw [hsize]
        exact UInt32.toNat_ofNat_of_lt' hbound

/-- **A text that is learned** has the numbers that the dictionary gives it. -/
theorem learn (words : List String) : ∀ {t : WordTable} {d : Dictionary}, t.Stores d →
    (d.learn words).1.size < 2 ^ 32 →
    (t.learn words).1.Stores (d.learn words).1 ∧
      (t.learn words).2.map (·.toNat) = (d.learn words).2 := by
  -- the numbers noted so far are kept in front
  suffices hfrom : ∀ {t : WordTable} {d : Dictionary} (noted : List UInt32), t.Stores d →
      (d.learn words).1.size < 2 ^ 32 →
      let after := words.foldl
        (fun (t, numbers) word => ((WordTable.learnWord t word).1,
          numbers ++ [(WordTable.learnWord t word).2])) (t, noted)
      after.1.Stores (d.learn words).1 ∧
        after.2.map (·.toNat) = noted.map (·.toNat) ++ (d.learn words).2 from
    fun {_ _} h hfits => hfrom [] h hfits
  induction words with
  | nil => exact fun noted h _ => ⟨h, (List.append_nil _).symm⟩
  | cons word rest ih =>
      intro t d noted h hfits
      have hbound : (d.learnWord word).1.size < 2 ^ 32 :=
        (Dictionary.size_le_learn rest _).trans_lt hfits
      obtain ⟨hword, hnumber⟩ := h.learnWord hbound
      obtain ⟨hrest, hnumbers⟩ := ih (noted ++ [(WordTable.learnWord t word).2]) hword hfits
      refine ⟨hrest, hnumbers.trans ?_⟩
      rw [List.map_append, List.map_singleton, hnumber, List.append_assoc]
      rfl

/-- **Texts that are learned** have the numbers that the dictionary gives them. -/
theorem learnAll (texts : List (List String)) : ∀ {t : WordTable} {d : Dictionary}, t.Stores d →
    (d.learnAll texts).1.size < 2 ^ 32 →
    (t.learnAll texts).1.Stores (d.learnAll texts).1 ∧
      (t.learnAll texts).2.map (·.map (·.toNat)) = (d.learnAll texts).2 := by
  induction texts with
  | nil => exact fun h _ => ⟨h, rfl⟩
  | cons words rest ih =>
      intro t d h hfits
      have hbound : (d.learn words).1.size < 2 ^ 32 :=
        (Dictionary.size_le_learnAll rest _).trans_lt hfits
      obtain ⟨hwords, hnumbers⟩ := h.learn words hbound
      obtain ⟨hrest, hall⟩ := ih hwords hfits
      exact ⟨hrest, congrArg₂ List.cons hnumbers hall⟩

/-- **A text is parsed** into the numbers and the words that the dictionary parses it into. -/
theorem parse (h : t.Stores d) (words : List String) :
    (t.parse words).1.map (·.toNat) = d.known words ∧ (t.parse words).2 = d.unknown words := by
  suffices hfrom : ∀ (known : List UInt32) (unknown : List String),
      let parsed := words.foldl
        (fun (known, unknown) word =>
          match t.numbers[word]? with
          | some number => (known ++ [number], unknown)
          | none => (known, unknown ++ [word]))
        (known, unknown)
      parsed.1.map (·.toNat) = known.map (·.toNat) ++ d.known words ∧
        parsed.2 = unknown ++ d.unknown words from hfrom [] []
  induction words with
  | nil => exact fun known unknown => ⟨(List.append_nil _).symm, (List.append_nil _).symm⟩
  | cons word rest ih =>
      intro known unknown
      rw [List.foldl_cons, h.numbers word]
      cases hid : d.id? word with
      | some id =>
          obtain ⟨hknown, hunknown⟩ := ih (known ++ [UInt32.ofNat id]) unknown
          refine ⟨hknown.trans ?_, hunknown.trans ?_⟩
          · rw [List.map_append, List.map_singleton, h.toNat_number hid, List.append_assoc,
              Dictionary.known, Dictionary.known, List.filterMap_cons_some hid]
            rfl
          · rw [Dictionary.unknown, Dictionary.unknown,
              List.filter_cons_of_neg (by rw [hid]; exact Bool.false_ne_true)]
      | none =>
          obtain ⟨hknown, hunknown⟩ := ih known (unknown ++ [word])
          refine ⟨hknown.trans ?_, hunknown.trans ?_⟩
          · rw [Dictionary.known, Dictionary.known, List.filterMap_cons_none hid]
          · rw [List.append_assoc, Dictionary.unknown, Dictionary.unknown,
              List.filter_cons_of_pos (by rw [hid]; rfl)]
            rfl

theorem phrase (h : t.Stores d) (words : List String) :
    (t.phrase words).map (·.toNat) = d.phrase words := by
  obtain ⟨hknown, hunknown⟩ := h.parse words
  rw [WordTable.phrase, Dictionary.phrase, ← hunknown, ← hknown]
  show (if (t.parse words).2.isEmpty then (t.parse words).1 else []).map (·.toNat) = _
  exact apply_ite (List.map UInt32.toNat) _ _ _

theorem word? (h : t.Stores d) (number : UInt32) : t.word? number = d.word? number.toNat := by
  rw [WordTable.word?]
  by_cases hzero : number = 0
  · rw [if_pos hzero, hzero]
    rfl
  · rw [if_neg hzero, h.words]
    cases hnat : number.toNat with
    | zero => exact absurd (UInt32.toNat_inj.mp hnat) hzero
    | succ index => rfl

end Stores

end WordTable

/-! ## Histories of texts -/

namespace Dictionary

/-- The words of a dictionary are as many as the words of the texts that were learned. -/
theorem size_learnAll_empty (texts : List (List String)) :
    (empty.learnAll texts).1.size = texts.flatten.toFinset.card := by
  have hnodup : (empty.learnAll texts).1.words.toList.Nodup := nodup_learnAll texts empty .nil
  have hsame : (empty.learnAll texts).1.words.toList.toFinset = texts.flatten.toFinset := by
    ext word
    rw [List.mem_toFinset, List.mem_toFinset, mem_words_learnAll]
    exact or_iff_right List.not_mem_nil
  rw [← hsame, List.toFinset_card_of_nodup hnodup]
  exact Array.length_toList.symm

/-- **The numbering is a stable bijection.**  Texts fall into words in any way.  After any
    texts with fewer than 2³² words the pieces of a dictionary hold what the dictionary
    holds, gave each text the same numbers, and answer every question alike.  The words of
    the texts and the numbers from 1 to their count tell each other, and no other word and
    no other number tells anything.  Each text was given, word by word, the numbers that
    its words have from then on, so that it is parsed into these and no unknown word
    whatever was learned since.  Any text is parsed into the numbers of its words that
    were seen and its words that were not, both in order, and as a phrase has no numbers
    just when it has no words or one that was not seen. -/
theorem numbering_stable (tokens : String → List String) (texts : List String)
    (hfew : (texts.flatMap tokens).toFinset.card < 2 ^ 32) :
    let seen := texts.flatMap tokens
    let d := (empty.learnAll (texts.map tokens)).1
    let t := (WordTable.empty.learnAll (texts.map tokens)).1
    (t.Stores d ∧
      (WordTable.empty.learnAll (texts.map tokens)).2.map (·.map (·.toNat))
        = (empty.learnAll (texts.map tokens)).2 ∧
      (∀ text, (t.parse (tokens text)).1.map (·.toNat) = d.known (tokens text) ∧
        (t.parse (tokens text)).2 = d.unknown (tokens text) ∧
        (t.phrase (tokens text)).map (·.toNat) = d.phrase (tokens text)) ∧
      ∀ number, t.word? number = d.word? number.toNat) ∧
    (d.size = seen.toFinset.card ∧
      (∀ word id, d.id? word = some id ↔ d.word? id = some word) ∧
      (∀ word, (d.id? word).isSome = true ↔ word ∈ seen) ∧
      ∀ id, (d.word? id).isSome = true ↔ 1 ≤ id ∧ id ≤ d.size) ∧
    (∀ before text between, texts = before ++ text :: between →
      let ids := ((empty.learnAll (before.map tokens)).1.learn (tokens text)).2
      d.Knows (tokens text) ids ∧ d.known (tokens text) = ids ∧ d.unknown (tokens text) = []) ∧
    ∀ text,
      d.Knows ((tokens text).filter (· ∈ seen)) (d.known (tokens text)) ∧
      d.unknown (tokens text) = (tokens text).filter (· ∉ seen) ∧
      (d.phrase (tokens text) = [] ↔ tokens text = [] ∨ ∃ word ∈ tokens text, word ∉ seen) := by
  intro seen d t
  have hmem : ∀ word, word ∈ d.words.toList ↔ word ∈ seen := fun word =>
    (mem_words_learnAll (texts.map tokens) empty).trans (or_iff_right List.not_mem_nil)
  have hnodup : d.words.toList.Nodup := nodup_learnAll (texts.map tokens) empty .nil
  have hsize : d.size = seen.toFinset.card := size_learnAll_empty (texts.map tokens)
  obtain ⟨hstores, hanswers⟩ := WordTable.Stores.empty.learnAll (texts.map tokens)
    (hsize.trans_lt hfew)
  refine ⟨⟨hstores, hanswers, fun text => ?_, hstores.word?⟩,
    ⟨hsize, fun word id => id?_eq_some_iff hnodup, fun word => ?_, fun id => word?_isSome_iff⟩,
    ?_, fun text => ⟨?_, ?_, ?_⟩⟩
  · obtain ⟨hknown, hunknown⟩ := hstores.parse (tokens text)
    exact ⟨hknown, hunknown, hstores.phrase (tokens text)⟩
  · exact isSome_id?_iff.trans (hmem word)
  · rintro before text between rfl ids
    -- what was known when the text was learned is known after all texts
    have hlater : d.Extends ((empty.learnAll (before.map tokens)).1.learn (tokens text)).1 := by
      show (empty.learnAll ((before ++ text :: between).map tokens)).1.Extends _
      rw [List.map_append, learnAll_append]
      exact learnAll_extends (between.map tokens) _
    have hknows : d.Knows (tokens text) ids := (learn_knows (tokens text) _).mono hlater
    exact ⟨hknows, hknows.parse⟩
  · have hknows := knows_known d (tokens text)
    simp only [hmem] at hknows
    exact hknows
  · rw [unknown_eq]
    simp only [hmem]
  · rw [phrase_eq_nil_iff]
    simp only [hmem]

/-- A word that stands twice in a text and in another one. -/
theorem numbering_stable_repeated :
    let tokens : String → List String := fun text =>
      (List.lookup text [("Do you quarrel, sir?", ["do", "you", "quarrel", "sir"]),
        ("Quarrel sir! no, sir!", ["quarrel", "sir", "no", "sir"]),
        ("quarrel cool sir", ["quarrel", "cool", "sir"])]).getD []
    let texts := ["Do you quarrel, sir?", "Quarrel sir! no, sir!"]
    let d := (empty.learnAll (texts.map tokens)).1
    (texts.flatMap tokens).toFinset.card < 2 ^ 32 ∧ d.size = 5 ∧
      d.known (tokens "Quarrel sir! no, sir!") = [3, 4, 5, 4] ∧
      d.unknown (tokens "Quarrel sir! no, sir!") = [] ∧
      d.phrase (tokens "quarrel cool sir") = [] := by
  intro tokens texts d
  have hcard : (texts.flatMap tokens).toFinset.card = 5 := by decide
  have hfew : (texts.flatMap tokens).toFinset.card < 2 ^ 32 := by
    rw [hcard]
    decide
  obtain ⟨-, ⟨hsize, -⟩, hlearned, hany⟩ := numbering_stable tokens texts hfew
  obtain ⟨-, hknown, hunknown⟩ := hlearned ["Do you quarrel, sir?"] "Quarrel sir! no, sir!" [] rfl
  have hcool : "cool" ∈ tokens "quarrel cool sir" ∧ "cool" ∉ texts.flatMap tokens := by decide
  exact ⟨hfew, hsize.trans hcard, hknown.trans (by decide +kernel), hunknown,
    (hany "quarrel cool sir").2.2.mpr (.inr ⟨"cool", hcool⟩)⟩

end Dictionary

end FeatureRank
