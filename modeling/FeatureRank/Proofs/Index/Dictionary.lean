import Mathlib.Data.List.Forall2
import FeatureRank.Index.Dictionary

/-! # What a dictionary knows — texts told by numbers

    A word keeps its number when more words are learned (`Dictionary.Extends`), and no
    two words have the same (`Dictionary.id?_injective`).  So the numbers under which
    texts were learned say as much about them as their words do: the words of a text
    are known under its numbers, then and ever after (`Dictionary.learnAll_knows`), and
    a phrase has the numbers of its words unless one of them was never seen
    (`Dictionary.phrase_cases`). -/

namespace FeatureRank

namespace Dictionary

variable {d e : Dictionary}

/-! ## Words and numbers -/

theorem id?_eq (d : Dictionary) (word : String) :
    d.id? word = (d.words.toList.findIdx? (· == word)).map (· + 1) := by
  have hlist : d.words.idxOf? word = d.words.toList.idxOf? word :=
    List.idxOf?_toArray word d.words.toList
  rw [id?, hlist]
  rfl

/-- The number of a word leads back to it. -/
theorem word?_of_id? {word : String} {id : TermId} (h : d.id? word = some id) :
    d.word? id = some word := by
  rw [id?_eq] at h
  obtain ⟨index, hindex, rfl⟩ := Option.map_eq_some_iff.mp h
  obtain ⟨hlt, hword, -⟩ := List.findIdx?_eq_some_iff_getElem.mp hindex
  show d.words[index]? = some word
  rw [← Array.getElem?_toList, List.getElem?_eq_getElem hlt, beq_iff_eq.mp hword]

/-- **No two words have the same number.** -/
theorem id?_injective {word other : String} {id : TermId} (h : d.id? word = some id)
    (hother : d.id? other = some id) : word = other :=
  Option.some.inj ((word?_of_id? h).symm.trans (word?_of_id? hother))

/-! ## Learning -/

/-- A dictionary in which every word of another one has the number that it has there. -/
def Extends (e d : Dictionary) : Prop :=
  ∀ word id, d.id? word = some id → e.id? word = some id

theorem Extends.refl (d : Dictionary) : d.Extends d := fun _ _ h => h

theorem Extends.trans {f : Dictionary} (hf : f.Extends e) (he : e.Extends d) : f.Extends d :=
  fun word id h => hf word id (he word id h)

theorem learnWord_extends (d : Dictionary) (word : String) : (d.learnWord word).1.Extends d := by
  rw [learnWord]
  cases hword : d.id? word with
  | some id => exact Extends.refl d
  | none =>
      -- a new word goes to the end, where it is found after all others
      intro other id h
      rw [id?_eq] at h ⊢
      obtain ⟨index, hindex, rfl⟩ := Option.map_eq_some_iff.mp h
      rw [Array.toList_push, List.findIdx?_append, hindex]
      rfl

theorem id?_learnWord (d : Dictionary) (word : String) :
    (d.learnWord word).1.id? word = some (d.learnWord word).2 := by
  rw [learnWord]
  cases hword : d.id? word with
  | some id => exact hword
  | none =>
      have hnot : d.words.toList.findIdx? (· == word) = none := by
        rw [id?_eq] at hword
        exact Option.map_eq_none_iff.mp hword
      rw [id?_eq, Array.toList_push, List.findIdx?_append, hnot]
      simp [size]

/-- Words that a dictionary knows under numbers, in their order. -/
def Knows (d : Dictionary) (words : List String) (ids : List TermId) : Prop :=
  List.Forall₂ (fun word id => d.id? word = some id) words ids

theorem Knows.mono {words : List String} {ids : List TermId} (h : d.Knows words ids)
    (hextends : e.Extends d) : e.Knows words ids :=
  List.Forall₂.imp (fun word id => hextends word id) h

theorem learn_extends (words : List String) : ∀ d : Dictionary, (d.learn words).1.Extends d := by
  induction words with
  | nil => exact Extends.refl
  | cons word rest ih =>
      intro d
      exact (ih (d.learnWord word).1).trans (learnWord_extends d word)

/-- The words of a text that is learned are known under its numbers. -/
theorem learn_knows (words : List String) :
    ∀ d : Dictionary, (d.learn words).1.Knows words (d.learn words).2 := by
  induction words with
  | nil => exact fun _ => .nil
  | cons word rest ih =>
      intro d
      refine .cons ?_ (ih (d.learnWord word).1)
      exact learn_extends rest _ word _ (id?_learnWord d word)

/-- Texts learned one after the other. -/
def learnAll (d : Dictionary) : List (List String) → Dictionary × List (List TermId)
  | [] => (d, [])
  | words :: rest =>
    let (d, ids) := d.learn words
    let (d, all) := d.learnAll rest
    (d, ids :: all)

theorem learnAll_extends (texts : List (List String)) :
    ∀ d : Dictionary, (d.learnAll texts).1.Extends d := by
  induction texts with
  | nil => exact Extends.refl
  | cons words rest ih =>
      intro d
      exact (ih (d.learn words).1).trans (learn_extends words d)

/-- **The texts that were learned are known** under their numbers, however many more are
    learned later. -/
theorem learnAll_knows (texts : List (List String)) :
    ∀ d : Dictionary,
      List.Forall₂ (d.learnAll texts).1.Knows texts (d.learnAll texts).2 := by
  induction texts with
  | nil => exact fun _ => .nil
  | cons words rest ih =>
      intro d
      refine .cons ?_ (ih (d.learn words).1)
      exact (learn_knows words d).mono (learnAll_extends rest _)

/-! ## Asking -/

/-- The numbers of a phrase: those of its words, or none when one was never seen. -/
theorem phrase_cases (d : Dictionary) (words : List String) :
    d.Knows words (d.phrase words) ∨
      (d.phrase words = [] ∧ ∃ word ∈ words, d.id? word = none) := by
  by_cases hall : d.unknown words = []
  · have hphrase : d.phrase words = d.known words := by rw [phrase, hall]; rfl
    rw [hphrase]
    refine Or.inl ?_
    -- that no word is unknown carries over to the rest of the words, the phrase does not
    clear hphrase
    induction words with
    | nil => exact .nil
    | cons word rest ih =>
        have hnone : ∀ other ∈ word :: rest, ¬(d.id? other).isNone = true :=
          List.filter_eq_nil_iff.mp hall
        obtain ⟨hword, hrest⟩ := List.forall_mem_cons.mp hnone
        obtain ⟨id, hid⟩ : ∃ id, d.id? word = some id := by
          cases h : d.id? word with
          | none => exact absurd (by rw [h]; rfl) hword
          | some id => exact ⟨id, rfl⟩
        rw [known, List.filterMap_cons_some hid]
        exact .cons hid (ih (List.filter_eq_nil_iff.mpr hrest))
  · obtain ⟨word, hword⟩ := List.exists_mem_of_ne_nil _ hall
    obtain ⟨hmem, hnone⟩ := List.mem_filter.mp hword
    refine Or.inr ⟨?_, word, hmem, Option.isNone_iff_eq_none.mp hnone⟩
    rw [phrase, if_neg (by rw [List.isEmpty_iff]; exact hall)]

end Dictionary

end FeatureRank
