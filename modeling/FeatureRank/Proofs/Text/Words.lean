import Mathlib.Data.List.Chain
import FeatureRank.Text.Words

/-! # Plain texts — words between separators

    A character is looked up by a binary search in a table of ranges.  Where the ranges
    are in ascending order and apart, the search finds the one range that holds the
    character (`lookup_eq_some_iff`), and none only where there is none
    (`lookup_eq_none_iff`).  The tables are in that order, each checked once.

    So the classes of some characters are known for good, and the words of a text of
    small Latin letters, blanks and braces are its runs of letters (`words_plain`). -/

namespace FeatureRank.Text

/-! ## Looking up a character -/

section

variable {α : Type} {table : Array (CharRange α)}

/-- Whether a character is in a range. -/
def CharRange.Holds (range : CharRange α) (c : Nat) : Prop := range.first ≤ c ∧ c ≤ range.last

/-- Ranges that are not empty and stand one after the other. -/
structure Ascending (table : Array (CharRange α)) : Prop where
  nonempty : ∀ range ∈ table.toList, range.first ≤ range.last
  apart : table.toList.Pairwise fun range later => range.last < later.first

namespace Ascending

theorem first_le_last (h : Ascending table) {i : Nat} (hi : i < table.size) :
    table[i].first ≤ table[i].last :=
  h.nonempty _ (Array.getElem_mem_toList hi)

theorem last_lt_first (h : Ascending table) {i j : Nat} (hij : i < j) (hj : j < table.size) :
    table[i].last < table[j].first :=
  List.pairwise_iff_getElem.mp h.apart i j (by rw [Array.length_toList]; omega)
    (by rwa [Array.length_toList]) hij

end Ascending

/-- What is left of a search: the ranges before the window end before the character, and
    those after it begin after it. -/
structure Window (table : Array (CharRange α)) (c low high : Nat) : Prop where
  inside : high ≤ table.size
  below : ∀ i (hi : i < table.size), i < low → table[i].last < c
  above : ∀ i (hi : i < table.size), high ≤ i → c < table[i].first

/-- **The search goes on in a window**, and ends with the range that holds the character
    or when none is left. -/
theorem findRange_spec (h : Ascending table) {c low high : Nat}
    (hwindow : Window table c low high) :
    match findRange table c low high with
    | some range => range ∈ table ∧ range.Holds c
    | none => ∀ range ∈ table, ¬range.Holds c := by
  fun_induction findRange table c low high with
  | case1 low high hnonempty middle hmiddle range hbefore ih =>
      have hbefore : c < table[middle].first := hbefore
      refine ih ⟨by omega, hwindow.below, fun i hi hle => ?_⟩
      have hrange := h.first_le_last hmiddle
      rcases Nat.eq_or_lt_of_le hle with rfl | hlt
      · exact hbefore
      · have := h.last_lt_first hlt hi
        omega
  | case2 low high hnonempty middle hmiddle range hbefore hafter ih =>
      have hafter : table[middle].last < c := hafter
      refine ih ⟨hwindow.inside, fun i hi hlt => ?_, hwindow.above⟩
      have hrange := h.first_le_last hmiddle
      rcases Nat.eq_or_lt_of_le (Nat.le_of_lt_succ hlt) with rfl | hlt
      · exact hafter
      · have := h.last_lt_first hlt hmiddle
        omega
  | case3 low high hnonempty middle hmiddle range hbefore hafter =>
      exact ⟨Array.getElem_mem hmiddle, Nat.not_lt.mp hbefore, Nat.not_lt.mp hafter⟩
  | case4 low high hempty =>
      have hinside := hwindow.inside
      intro range hrange hholds
      obtain ⟨i, hi, rfl⟩ := Array.mem_iff_getElem.mp hrange
      by_cases hlow : i < low
      · exact absurd hholds.2 (Nat.not_le.mpr (hwindow.below i hi hlow))
      · exact absurd hholds.1 (Nat.not_le.mpr (hwindow.above i hi (by omega)))

theorem lookup_spec (h : Ascending table) (c : Char) :
    match lookup table c with
    | some range => range ∈ table ∧ range.Holds c.toNat
    | none => ∀ range ∈ table, ¬range.Holds c.toNat :=
  findRange_spec h ⟨le_rfl, fun _ _ hlt => absurd hlt (Nat.not_lt_zero _),
    fun _ hi hle => absurd hi (Nat.not_lt.mpr hle)⟩

/-- **No range is found only where none holds the character.** -/
theorem lookup_eq_none_iff (h : Ascending table) {c : Char} :
    lookup table c = none ↔ ∀ range ∈ table, ¬range.Holds c.toNat := by
  have hspec := lookup_spec h c
  cases hfound : lookup table c with
  | none => rw [hfound] at hspec; exact iff_of_true rfl hspec
  | some range =>
      rw [hfound] at hspec
      exact iff_of_false (Option.some_ne_none range) fun hnone => hnone range hspec.1 hspec.2

/-- Two ranges that hold a character are the same. -/
theorem Ascending.unique (h : Ascending table) {range other : CharRange α} {c : Nat}
    (hrange : range ∈ table) (hother : other ∈ table) (hholds : range.Holds c)
    (hholds' : other.Holds c) : range = other := by
  obtain ⟨i, hi, rfl⟩ := Array.mem_iff_getElem.mp hrange
  obtain ⟨j, hj, rfl⟩ := Array.mem_iff_getElem.mp hother
  obtain ⟨hfirst, hlast⟩ := hholds
  obtain ⟨hfirst', hlast'⟩ := hholds'
  rcases Nat.lt_trichotomy i j with hlt | rfl | hlt
  · have := h.last_lt_first hlt hj
    omega
  · rfl
  · have := h.last_lt_first hlt hi
    omega

/-- **The range that is found is the one that holds the character.** -/
theorem lookup_eq_some_iff (h : Ascending table) {c : Char} {range : CharRange α} :
    lookup table c = some range ↔ range ∈ table ∧ range.Holds c.toNat := by
  have hspec := lookup_spec h c
  cases hfound : lookup table c with
  | none =>
      rw [hfound] at hspec
      exact iff_of_false (Option.some_ne_none range).symm fun hmem => hspec range hmem.1 hmem.2
  | some other =>
      rw [hfound] at hspec
      refine ⟨fun heq => Option.some.inj heq ▸ hspec, fun hmem => ?_⟩
      rw [h.unique hspec.1 hmem.1 hspec.2 hmem.2]

end

/-! ## The tables -/

/-- The bounds of the ranges of a table. -/
def bounds {α : Type} (table : Array (CharRange α)) : List (Nat × Nat) :=
  table.toList.map fun range => (range.first, range.last)

/-- Bounds of ranges that are not empty and stand each before the next one. -/
def InOrder (bounds : List (Nat × Nat)) : Prop :=
  (∀ range ∈ bounds, range.1 ≤ range.2) ∧ bounds.IsChain fun range next => range.2 < next.1

instance (bounds : List (Nat × Nat)) : Decidable (InOrder bounds) :=
  inferInstanceAs (Decidable (_ ∧ _))

section

variable {α : Type} {table : Array (CharRange α)} {c : Char}

/-- Ranges that stand each before the next one are in ascending order. -/
theorem Ascending.of_inOrder (h : InOrder (bounds table)) : Ascending table := by
  obtain ⟨hnonempty, hchain⟩ := h
  have hnonempty : ∀ range ∈ table.toList, range.first ≤ range.last := fun range hrange =>
    hnonempty _ (List.mem_map_of_mem hrange)
  refine ⟨hnonempty, ?_⟩
  rw [bounds] at hchain
  generalize table.toList = ranges at hnonempty hchain
  induction ranges with
  | nil => exact .nil
  | cons range rest ih =>
      have hrest := ih (fun other hother => hnonempty other (List.mem_cons_of_mem _ hother))
        hchain.tail
      refine .cons (fun later hlater => ?_) hrest
      cases rest with
      | nil => exact nomatch hlater
      | cons next rest =>
          have hnext : range.last < next.first := hchain.rel
          rcases List.mem_cons.mp hlater with rfl | hlater
          · exact hnext
          · have hle := hnonempty next (List.mem_cons_of_mem _ List.mem_cons_self)
            have hlt := List.rel_of_pairwise_cons hrest hlater
            omega

/-- A character between two ranges is not found. -/
theorem lookup_eq_none_of_apart (h : Ascending table) {least most : Nat}
    (hapart : ∀ range ∈ bounds table, most < range.1 ∨ range.2 < least)
    (hleast : least ≤ c.toNat) (hmost : c.toNat ≤ most) : lookup table c = none := by
  refine (lookup_eq_none_iff h).mpr fun range hrange ⟨hfirst, hlast⟩ => ?_
  have := hapart _ (List.mem_map_of_mem (Array.mem_toList_iff.mpr hrange))
  omega

theorem bounds_ofPairs (pairs : Array (Nat × Nat)) : bounds (ofPairs pairs) = pairs.toList := by
  rw [bounds, ofPairs, Array.toList_map, List.map_map]
  exact List.map_id pairs.toList

theorem bounds_append (table rest : Array (CharRange α)) :
    bounds (table ++ rest) = bounds table ++ bounds rest := by
  rw [bounds, Array.toList_append, List.map_append]
  rfl

end

theorem ascending_wordClass : Ascending wordClassTable := by
  refine .of_inOrder ?_
  rw [wordClassTable, bounds_append]
  decide +kernel

theorem ascending_pictograph : Ascending pictographTable := by
  refine .of_inOrder ?_
  rw [pictographTable, bounds_ofPairs]
  decide +kernel

theorem ascending_alphanumeric : Ascending alphanumericTable := by
  refine .of_inOrder ?_
  rw [alphanumericTable, bounds_ofPairs]
  decide +kernel

theorem ascending_lowerCase : Ascending lowerCaseTable := .of_inOrder (by decide +kernel)

/-! ## Plain characters -/

/-- A small Latin letter. -/
def isSmall (c : Char) : Bool := 97 ≤ c.toNat && c.toNat ≤ 122

/-- A blank or a brace, which neither stands in a word nor joins two. -/
def isSeparator (c : Char) : Bool := c == ' ' || c == '\x7b' || c == '\x7d'

/-- A character that is a letter or a separator. -/
def Plain (c : Char) : Prop := isSmall c = true ∨ isSeparator c = true

instance (c : Char) : Decidable (Plain c) := inferInstanceAs (Decidable (_ ∨ _))

section

variable {c : Char}

theorem isSmall_iff : isSmall c = true ↔ 97 ≤ c.toNat ∧ c.toNat ≤ 122 := by
  rw [isSmall, Bool.and_eq_true, decide_eq_true_iff, decide_eq_true_iff]

theorem isSeparator_iff : isSeparator c = true ↔ c = ' ' ∨ c = '\x7b' ∨ c = '\x7d' := by
  rw [isSeparator, Bool.or_eq_true, Bool.or_eq_true, beq_iff_eq, beq_iff_eq, beq_iff_eq, or_assoc]

theorem toNat_separator (h : isSeparator c = true) :
    c.toNat = 32 ∨ 123 ≤ c.toNat ∧ c.toNat ≤ 125 := by
  rcases isSeparator_iff.mp h with rfl | rfl | rfl <;> decide

theorem isSmall_separator (h : isSeparator c = true) : isSmall c = false := by
  rcases isSeparator_iff.mp h with rfl | rfl | rfl <;> rfl

/-- Where plain characters are among all of them. -/
theorem Plain.toNat (h : Plain c) : c.toNat = 32 ∨ 97 ≤ c.toNat ∧ c.toNat ≤ 125 := by
  rcases h with hsmall | hseparator
  · have := isSmall_iff.mp hsmall
    omega
  · have := toNat_separator hseparator
    omega

theorem wordClass_small (h : isSmall c = true) : wordClass c = .letter := by
  have hmem : ⟨0x61, 0x7A, .letter⟩ ∈ wordClassTable.toList := by
    rw [wordClassTable, Array.toList_append]
    exact List.mem_append_left _ (List.mem_of_getElem? (i := 13) rfl)
  rw [wordClass, (lookup_eq_some_iff ascending_wordClass).mpr
    ⟨Array.mem_toList_iff.mp hmem, isSmall_iff.mp h⟩]
  rfl

theorem wordClass_separator (h : isSeparator c = true) :
    wordClass c = .space ∨ wordClass c = .other := by
  rcases toNat_separator h with hblank | ⟨hleast, hmost⟩
  · have hmem : ⟨0x20, 0x20, .space⟩ ∈ wordClassTable.toList := by
      rw [wordClassTable, Array.toList_append]
      exact List.mem_append_left _ (List.mem_of_getElem? (i := 3) rfl)
    rw [wordClass, (lookup_eq_some_iff ascending_wordClass).mpr
      ⟨Array.mem_toList_iff.mp hmem, hblank.ge, hblank.le⟩]
    exact .inl rfl
  · rw [wordClass, lookup_eq_none_of_apart ascending_wordClass (by
      rw [wordClassTable, bounds_append]
      decide +kernel) hleast hmost]
    exact .inr rfl

theorem isAlphanumeric_small (h : isSmall c = true) : isAlphanumeric c = true := by
  have hmem : (⟨0x61, 0x7A, ()⟩ : CharRange Unit) ∈ alphanumericTable.toList := by
    rw [alphanumericTable, ofPairs, Array.toList_map]
    exact List.mem_of_getElem? (i := 2) rfl
  rw [isAlphanumeric, holds, (lookup_eq_some_iff ascending_alphanumeric).mpr
    ⟨Array.mem_toList_iff.mp hmem, isSmall_iff.mp h⟩]
  rfl

theorem isAlphanumeric_separator (h : isSeparator c = true) : isAlphanumeric c = false := by
  have hbounds : bounds alphanumericTable = _ := bounds_ofPairs _
  have hnone : lookup alphanumericTable c = none := by
    rcases toNat_separator h with hblank | ⟨hleast, hmost⟩
    · exact lookup_eq_none_of_apart ascending_alphanumeric (by rw [hbounds]; decide +kernel)
        hblank.ge hblank.le
    · exact lookup_eq_none_of_apart ascending_alphanumeric (by rw [hbounds]; decide +kernel)
        hleast hmost
  rw [isAlphanumeric, holds, hnone]
  rfl

theorem isPictograph_plain (h : Plain c) : isPictograph c = false := by
  have hbounds : bounds pictographTable = _ := bounds_ofPairs _
  have hnone : lookup pictographTable c = none :=
    @lookup_eq_none_of_apart _ _ _ ascending_pictograph 0 125
      (by rw [hbounds]; decide +kernel) (Nat.zero_le _) (by have := h.toNat; omega)
  rw [isPictograph, holds, hnone]
  rfl

theorem lowerChar_plain (h : Plain c) : lowerChar c = c := by
  have hnone : lookup lowerCaseTable c = none := by
    rcases h.toNat with hblank | ⟨hleast, hmost⟩
    · exact lookup_eq_none_of_apart ascending_lowerCase (by decide +kernel) hblank.ge hblank.le
    · exact lookup_eq_none_of_apart ascending_lowerCase (by decide +kernel) hleast hmost
  rw [lowerChar, hnone]

end

/-! ## Plain texts -/

/-- A text of plain characters is in lower case. -/
theorem lowerFrom_plain {text : List Char} (h : ∀ c ∈ text, Plain c) :
    ∀ before, lowerFrom before text = text := by
  induction text with
  | nil => exact fun _ => rfl
  | cons c rest ih =>
      intro before
      obtain ⟨hc, hrest⟩ := List.forall_mem_cons.mp h
      have hsigma : c ≠ 'Σ' := by
        rintro rfl
        exact absurd hc (by decide)
      have hdotted : c ≠ '\u0130' := by
        rintro rfl
        exact absurd hc (by decide)
      rw [lowerFrom, if_neg hsigma, if_neg hdotted, lowerChar_plain hc, ih hrest]
      rfl

section

variable (seen : Seen) {cls : WordClass} (rest : List Char)

/-- A letter goes on with a run of letters, and nothing else does. -/
theorem joins_after_letter {seen : Seen} (hbase : seen.base = .letter)
    (hlast : seen.last = .letter) :
    seen.joins .letter false rest = true ∧ seen.joins .space false rest = false ∧
      seen.joins .other false rest = false := by
  simp [Seen.joins, hbase, hlast, WordClass.endsLine, WordClass.attaches, WordClass.isLetter,
    WordClass.joinsLetters, WordClass.joinsDigits, WordClass.connects]

/-- A letter does not belong to what stands between the runs. -/
theorem joins_letter {seen : Seen} (hbase : seen.base = .space ∨ seen.base = .other)
    (hlast : seen.last = seen.base) : seen.joins .letter false rest = false := by
  rcases hbase with hbase | hbase <;>
    simp [Seen.joins, hlast, hbase, WordClass.endsLine, WordClass.attaches, WordClass.isLetter,
      WordClass.joinsLetters, WordClass.joinsDigits, WordClass.connects]

theorem pass_plain (hcls : cls = .letter ∨ cls = .space ∨ cls = .other) :
    (seen.pass cls false).base = cls ∧ (seen.pass cls false).last = cls := by
  rcases hcls with rfl | rfl | rfl <;> simp [Seen.pass, WordClass.attaches]

end

/-- What is known in a plain text after a piece, and the letters of the piece: a run of
    letters is not over yet, or the piece has none. -/
inductive InRun (seen : Seen) (piece : List Char) : List Char → Prop where
  | letters (hbase : seen.base = .letter) (hlast : seen.last = .letter)
      (hany : piece.any isAlphanumeric = true) : InRun seen piece piece
  | none (hbase : seen.base = .space ∨ seen.base = .other) (hlast : seen.last = seen.base)
      (hnone : piece.any isAlphanumeric = false) : InRun seen piece []

/-- A piece that ends is kept just when a run of letters ends there, and is that run. -/
theorem InRun.filter_cons {seen : Seen} {piece run : List Char} (h : InRun seen piece run)
    {pieces runs : List (List Char)}
    (hrest : pieces.filter (·.any isAlphanumeric) = runs.filter (· ≠ [])) :
    (piece.reverse :: pieces).filter (·.any isAlphanumeric)
      = (run.reverse :: runs).filter (· ≠ []) := by
  cases h with
  | letters hbase hlast hany =>
      have hkept : piece.reverse.any isAlphanumeric = true := by simpa using hany
      have hne : piece ≠ [] := by
        rintro rfl
        exact Bool.false_ne_true hany
      rw [List.filter_cons, if_pos hkept, List.filter_cons, if_pos (by simpa using hne), hrest]
  | none hbase hlast hnone =>
      have hdropped : ¬piece.reverse.any isAlphanumeric = true := by simpa using hnone
      rw [List.filter_cons, if_neg hdropped, List.filter_cons, if_neg (by simp), hrest]

/-- **The pieces of a plain text** that have a letter are its runs of letters. -/
theorem piecesFrom_plain {rest : List Char} (h : ∀ c ∈ rest, Plain c) :
    ∀ {seen : Seen} {piece run : List Char}, InRun seen piece run →
      (piecesFrom seen piece rest).filter (·.any isAlphanumeric)
        = (rest.splitOnPPrepend (fun c => !isSmall c) run).filter (· ≠ []) := by
  induction rest with
  | nil => exact fun hrun => hrun.filter_cons rfl
  | cons c rest ih =>
      intro seen piece run hrun
      obtain ⟨hc, hrest⟩ := List.forall_mem_cons.mp h
      rw [piecesFrom, isPictograph_plain hc]
      rcases hc with hsmall | hseparator
      · -- a letter goes on with the run, or begins one
        have halnum := isAlphanumeric_small hsmall
        obtain ⟨hbase', hlast'⟩ := pass_plain seen (.inl rfl)
        rw [List.splitOnPPrepend_cons_neg (by rw [hsmall]; rfl), wordClass_small hsmall]
        have hafter : ∀ {piece : List Char}, InRun (seen.pass .letter false) (c :: piece)
            (c :: piece) := .letters hbase' hlast' (by simp [halnum])
        cases hrun with
        | letters hbase hlast hany =>
            rw [if_pos (joins_after_letter rest hbase hlast).1]
            exact ih hrest hafter
        | none hbase hlast hnone =>
            rw [if_neg (ne_true_of_eq_false (joins_letter rest hbase hlast))]
            refine ((InRun.none hbase hlast hnone).filter_cons (ih hrest hafter)).trans ?_
            exact List.filter_cons_of_neg (by simp)
      · -- a separator ends the run, and stays with what is not one
        have halnum := isAlphanumeric_separator hseparator
        have hclass := wordClass_separator hseparator
        obtain ⟨hbase', hlast'⟩ := pass_plain seen (.inr hclass)
        have hafter : ∀ {piece : List Char}, piece.any isAlphanumeric = false →
            InRun (seen.pass (wordClass c) false) piece [] := fun hnone =>
          .none (hbase'.symm ▸ hclass) (hlast'.trans hbase'.symm) hnone
        have hbroken : (piece.reverse :: piecesFrom (seen.pass (wordClass c) false) [c] rest).filter
              (·.any isAlphanumeric)
            = (run.reverse :: rest.splitOnP fun c => !isSmall c).filter (· ≠ []) :=
          hrun.filter_cons (ih hrest (hafter (by simp [halnum])))
        rw [List.splitOnPPrepend_cons_pos (by rw [isSmall_separator hseparator]; rfl)]
        cases hrun with
        | letters hbase hlast hany =>
            obtain ⟨-, hspace, hother⟩ := joins_after_letter rest hbase hlast
            have hjoins : seen.joins (wordClass c) false rest = false := by
              rcases hclass with hclass | hclass <;> rwa [hclass]
            rw [if_neg (ne_true_of_eq_false hjoins), hbroken]
        | none hbase hlast hnone =>
            split
            next =>
                rw [List.filter_cons_of_neg (by simp)]
                exact ih hrest (hafter (by simpa [halnum] using hnone))
            next => exact hbroken

/-- **The words of a plain text are its runs of letters.**  That a text is plain is a
    check that runs. -/
theorem words_plain {text : String} (hplain : text.toList.all (Plain ·) = true) :
    words text
      = ((text.toList.splitOnP fun c => !isSmall c).filter (· ≠ [])).map String.ofList := by
  have h : ∀ c ∈ text.toList, Plain c := fun c hc =>
    of_decide_eq_true (List.all_eq_true.mp hplain c hc)
  rw [words, toLower, lowerFrom_plain h, String.toList_ofList]
  refine congrArg (List.map String.ofList) ?_
  cases htext : text.toList with
  | nil => rfl
  | cons c rest =>
      rw [htext] at h
      obtain ⟨hc, hrest⟩ := List.forall_mem_cons.mp h
      rw [pieces]
      rcases hc with hsmall | hseparator
      · rw [List.splitOnP_cons_eq_if_splitOnPPrepend,
          if_neg (by rw [hsmall]; exact Bool.false_ne_true), wordClass_small hsmall]
        exact piecesFrom_plain hrest (.letters rfl rfl (by simp [isAlphanumeric_small hsmall]))
      · rw [List.splitOnP_cons_eq_if_splitOnPPrepend,
          if_pos (by rw [isSmall_separator hseparator]; rfl), List.filter_cons_of_neg (by simp)]
        exact piecesFrom_plain hrest (.none (wordClass_separator hseparator) rfl
          (by simp [isAlphanumeric_separator hseparator]))

example : words "see \x7b\x7br\x7d\x7d \x7d\x7d \x7b\x7b" = ["see", "r"] :=
  (words_plain (by decide +kernel)).trans (by decide +kernel)

end FeatureRank.Text
