import FeatureRank.Proofs.Index.Numbering
import FeatureRank.Proofs.Search.Compiled
import FeatureRank.Proofs.Text.Words

/-! # Rendering — placeholders are filled, once, and nothing else changes

    How a template text falls into pieces is said by a relation on its own
    (`Piece.Reads`): a placeholder runs from the next two opening braces to the first
    two closing ones after them, and all else is plain text.  The scanner finds the one
    reading that there is (`Piece.reads_iff`).

    Filling pieces either finds a key that no parameter has, the leftmost, or puts the
    pieces one after the other, each placeholder as the value of its key
    (`Piece.fill_eq`).  A value is never scanned: the pieces are those of the template.
    So the query of a text template is that of the filled text, or a refusal that says
    what is missing (`StoredFeature.query_of_text`). -/

namespace FeatureRank

namespace Piece

/-! ## Pairs of a character -/

section

variable {mark : Char} {text before after : List Char}

/-- A pair starts with the first character of a text, or lies in what follows it. -/
theorem pair_infix_cons {c : Char} :
    [mark, mark] <:+: c :: text ↔ (c = mark ∧ [mark] <+: text) ∨ [mark, mark] <:+: text := by
  rw [List.infix_cons_iff, List.cons_prefix_cons, eq_comm (a := mark)]

/-- One step of the search for a pair. -/
theorem splitAtPair_cons {c : Char} :
    splitAtPair mark (c :: text)
      = if c = mark ∧ [mark] <+: text then some ([], text.tail)
        else (splitAtPair mark text).map fun parts => (c :: parts.1, parts.2) := by
  cases text with
  | nil => simp [splitAtPair]
  | cons d rest => simp [splitAtPair, eq_comm (a := mark)]

/-- A text up to the first of a pair begins as the text with the pair does. -/
theorem mark_prefix_iff (after : List Char) :
    [mark] <+: before ++ [mark] ↔ [mark] <+: before ++ [mark, mark] ++ after := by
  cases before with
  | nil => simp
  | cons b before => simp

theorem splitAtPair_of_first (after : List Char) (hfirst : ¬[mark, mark] <:+: before ++ [mark]) :
    splitAtPair mark (before ++ [mark, mark] ++ after) = some (before, after) := by
  induction before with
  | nil => simp [splitAtPair_cons]
  | cons b before ih =>
      rw [List.cons_append, pair_infix_cons, not_or] at hfirst
      obtain ⟨hhere, hlater⟩ := hfirst
      rw [mark_prefix_iff after] at hhere
      rw [List.cons_append, List.cons_append, splitAtPair_cons, if_neg hhere, ih hlater]
      rfl

/-- A text has one first pair. -/
theorem first_unique {before' after' : List Char} (hfirst : ¬[mark, mark] <:+: before ++ [mark])
    (hfirst' : ¬[mark, mark] <:+: before' ++ [mark])
    (h : before ++ [mark, mark] ++ after = before' ++ [mark, mark] ++ after') :
    before = before' ∧ after = after' := by
  have hsplit := splitAtPair_of_first after hfirst
  rw [h, splitAtPair_of_first after' hfirst'] at hsplit
  obtain ⟨rfl, rfl⟩ := Prod.mk.inj (Option.some.inj hsplit)
  exact ⟨rfl, rfl⟩

end

/-! ## Reading a text -/

/-- What stands before a key, and what stands after it. -/
abbrev opening : List Char := ['\x7b', '\x7b']

abbrev closing : List Char := ['\x7d', '\x7d']

/-- How a text is read from left to right.  Up to the next opening braces it is plain;
    from there to the first closing braces stands a key, and the reading goes on after
    them.  Where no opening braces with closing ones after them are left, all is plain. -/
inductive Reads : List Char → List Piece → Prop where
  | plain {text : List Char}
      (hnone : ∀ before inside, text = before ++ opening ++ inside → ¬closing <:+: inside) :
      Reads text [.literal text]
  | placeholder {before key rest : List Char} {pieces : List Piece}
      (hnext : ¬opening <:+: before ++ ['\x7b']) (hfirst : ¬closing <:+: key ++ ['\x7d'])
      (hrest : Reads rest pieces) :
      Reads (before ++ opening ++ (key ++ closing ++ rest))
        (.literal before :: .placeholder (String.ofList (Text.trim key)) :: pieces)

theorem Reads.unique {text : List Char} {pieces others : List Piece} (h : Reads text pieces)
    (hother : Reads text others) : pieces = others := by
  induction h generalizing others with
  | plain hnone =>
      cases hother with
      | plain _ => rfl
      | @placeholder before key rest _ _ _ _ =>
          exact absurd ⟨key, rest, rfl⟩ (hnone before _ rfl)
  | @placeholder before key rest pieces hnext hfirst _ ih =>
      generalize htext : before ++ opening ++ (key ++ closing ++ rest) = text at hother
      cases hother with
      | plain hnone => exact absurd ⟨key, rest, rfl⟩ (hnone before _ htext.symm)
      | placeholder hnext' hfirst' hrest =>
          obtain ⟨rfl, hinside⟩ := first_unique hnext hnext' htext
          obtain ⟨rfl, rfl⟩ := first_unique hfirst hfirst' hinside
          rw [ih hrest]

/-- The text that a piece stands for, if its key is that of a parameter. -/
def textWith (params : Params) : Piece → List Char
  | .literal text => text
  | .placeholder key => ((params.lookup key).map (·.toList)).getD []

/-- **Filling stops at the leftmost key that no parameter has**, and else puts the
    pieces one after the other. -/
theorem fill_eq (params : Params) (pieces : List Piece) :
    fill params pieces
      = match (pieces.filterMap (·.key?)).find? fun key => (params.lookup key).isNone with
        | some key => .error key
        | none => .ok (pieces.flatMap (·.textWith params)) := by
  induction pieces with
  | nil => rfl
  | cons first rest ih =>
      cases first with
      | literal text =>
          have hkeys : (literal text :: rest).filterMap (·.key?) = rest.filterMap (·.key?) := rfl
          rw [fill, ih, hkeys]
          cases (rest.filterMap (·.key?)).find? fun key => (params.lookup key).isNone with
          | none => rfl
          | some key => rfl
      | placeholder key =>
          have hkeys : (placeholder key :: rest).filterMap (·.key?)
              = key :: rest.filterMap (·.key?) := rfl
          rw [fill, ih, hkeys, List.find?_cons]
          cases hkey : params.lookup key with
          | none => rfl
          | some value =>
              have htext : (placeholder key).textWith params = value.toList := by
                simp [textWith, hkey]
              rw [List.flatMap_cons, htext]
              cases (rest.filterMap (·.key?)).find? fun key => (params.lookup key).isNone with
              | none => rfl
              | some key => rfl

end Piece

/-! ## Queries of templates -/

namespace Template

/-- The numbers of words: their places among the words that were seen, from 1 on. -/
def places (seen words : List String) : List TermId := words.map (seen.idxOf · + 1)

/-- The query that a text template has when its text has come to some words.  Words that
    were never seen are left out, but a phrase with one of them has no numbers at all. -/
inductive Asks (seen words : List String) : Template → FeatureQuery → Prop where
  | anyTerm (text : String) :
      Asks seen words (.anyTerm text) (.anyTerm (places seen (words.filter (· ∈ seen))))
  | languageModel (text : String) :
      Asks seen words (.languageModel text) (.languageModel (places seen (words.filter (· ∈ seen))))
  | phrase (text : String) (hseen : ∀ word ∈ words, word ∈ seen) :
      Asks seen words (.phrase text) (.phrase (places seen words))
  | unseenPhrase (text : String) {word : String} (hword : word ∈ words) (hunseen : word ∉ seen) :
      Asks seen words (.phrase text) (.phrase [])

end Template

namespace QueryContext

/-- The words that a context has numbers for, in the order of these: none without a
    dictionary. -/
def seen (context : QueryContext) : List String :=
  (context.dictionary.map (·.words.toList)).getD []

variable (context : QueryContext) (text : String)

theorem terms_eq : context.terms text
    = Template.places context.seen ((Text.words text).filter (· ∈ context.seen)) := by
  obtain ⟨_ | dictionary⟩ := context
  · rw [show QueryContext.seen ⟨none⟩ = [] from rfl, List.filter_eq_nil_iff.mpr (by simp)]
    rfl
  · exact (dictionary.knows_known (Text.words text)).eq_places

theorem asks_anyTerm (template : String) :
    Template.Asks context.seen (Text.words text) (.anyTerm template)
      (.anyTerm (context.terms text)) := by
  rw [terms_eq]
  exact .anyTerm template

theorem asks_languageModel (template : String) :
    Template.Asks context.seen (Text.words text) (.languageModel template)
      (.languageModel (context.terms text)) := by
  rw [terms_eq]
  exact .languageModel template

theorem phrase_eq : context.phrase text
    = if ∀ word ∈ Text.words text, word ∈ context.seen then
        Template.places context.seen (Text.words text) else [] := by
  obtain ⟨_ | dictionary⟩ := context
  · show [] = _
    split
    next hall =>
        rw [List.eq_nil_iff_forall_not_mem.mpr fun word hword => List.not_mem_nil (hall word hword)]
        rfl
    next => rfl
  · exact dictionary.phrase_eq_places (Text.words text)

theorem asks_phrase (template : String) :
    Template.Asks context.seen (Text.words text) (.phrase template)
      (.phrase (context.phrase text)) := by
  rw [phrase_eq]
  split
  next hseen => exact .phrase template hseen
  next hunseen =>
      obtain ⟨word, hword, hword'⟩ : ∃ word ∈ Text.words text, word ∉ context.seen := by
        simpa using hunseen
      exact .unseenPhrase template hword hword'

end QueryContext

namespace StoredFeature

variable {f : StoredFeature} {context : QueryContext} {params : Params} {text : String}

/-- What a feature lacks among some parameters: all that it declares and is not given,
    else the leftmost of its placeholders that no parameter has. -/
def lacking (f : StoredFeature) (params : Params) : List String :=
  match f.missing params with
  | [] => (f.template.placeholders.find? fun key => (params.lookup key).isNone).toList
  | names => names

/-- **A feature is supplied when it lacks nothing.** -/
theorem lacking_eq_nil : f.lacking params = [] ↔ f.Supplied params := by
  rw [lacking, Supplied, List.forall_mem_append, ← missing_eq_nil]
  cases hmissing : f.missing params with
  | nil => simp
  | cons name rest => simp

/-- The query of a text template is made of its rendered text when no declared parameter is
    missing. -/
theorem exists_make (h : f.template.text? = some text) (context : QueryContext) :
    ∃ make : String → FeatureQuery,
      (∀ filled, f.template.Asks context.seen (Text.words filled) (make filled)) ∧
      ∀ params, f.missing params = [] →
        f.query context params = (f.render params text).map make := by
  obtain ⟨name, declared, template⟩ := f
  cases template with
  | anyTerm own =>
      obtain rfl := Option.some.inj h
      refine ⟨fun filled => .anyTerm (context.terms filled),
        fun filled => context.asks_anyTerm filled own, fun params hnone => ?_⟩
      rw [query, hnone]
      rfl
  | phrase own =>
      obtain rfl := Option.some.inj h
      refine ⟨fun filled => .phrase (context.phrase filled),
        fun filled => context.asks_phrase filled own, fun params hnone => ?_⟩
      rw [query, hnone]
      rfl
  | languageModel own =>
      obtain rfl := Option.some.inj h
      refine ⟨fun filled => .languageModel (context.terms filled),
        fun filled => context.asks_languageModel filled own, fun params hnone => ?_⟩
      rw [query, hnone]
      rfl
  | constant score => exact nomatch h
  | derived inputs constant logged => exact nomatch h

/-- The placeholders of a template with a text are those that its text is read into. -/
theorem placeholders_eq (h : f.template.text? = some text) :
    f.template.placeholders = (Piece.ofText text.toList).filterMap (·.key?) := by
  rw [Template.placeholders, h]
  rfl

/-- **The query of a text template**: that of the filled text, or a refusal that lists
    what is lacking. -/
theorem query_eq (h : f.template.text? = some text) (context : QueryContext) (params : Params) :
    ∃ q, f.template.Asks context.seen
        (Text.words (String.ofList ((Piece.ofText text.toList).flatMap (·.textWith params)))) q ∧
      f.query context params
        = if f.lacking params = [] then .ok q
          else .error (.missingParameters f.name (f.lacking params)) := by
  obtain ⟨make, hasks, hquery⟩ := exists_make h context
  refine ⟨_, hasks _, ?_⟩
  rw [lacking]
  cases hmissing : f.missing params with
  | cons name rest => simp [query, hmissing]
  | nil =>
      rw [hquery params hmissing, render, Piece.fill_eq, placeholders_eq h]
      cases ((Piece.ofText text.toList).filterMap (·.key?)).find? fun key =>
          (params.lookup key).isNone with
      | none => rfl
      | some key => rfl

/-- **A feature that is not supplied is refused**, by its name and with all that it lacks. -/
theorem query_of_lacking (hderived : ¬f.template.IsDerived) (context : QueryContext)
    (h : ¬f.Supplied params) :
    f.query context params = .error (.missingParameters f.name (f.lacking params)) := by
  rw [← lacking_eq_nil] at h
  cases htext : f.template.text? with
  | some text =>
      obtain ⟨q, -, hquery⟩ := query_eq htext context params
      rw [hquery, if_neg h]
  | none =>
      obtain ⟨name, declared, template⟩ := f
      cases template with
      | anyTerm | phrase | languageModel => exact nomatch htext
      | constant score =>
          rw [lacking] at h ⊢
          cases hmissing : missing ⟨name, declared, .constant score⟩ params with
          | nil => simp [hmissing, Template.placeholders, Template.text?] at h
          | cons first rest => simp [query, hmissing]
      | derived inputs constant logged => exact absurd trivial hderived

end StoredFeature

end FeatureRank
