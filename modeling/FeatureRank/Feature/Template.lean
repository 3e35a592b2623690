import FeatureRank.Feature.Query
import FeatureRank.Text.Blank
import FeatureRank.Text.Words

/-! # Feature templates

    A stored feature is a template of a query.  Its text may hold placeholders,
    each from two opening braces to the next two closing ones; the blanks at the
    ends of the text between them do not count.  A placeholder stands for the
    parameter of that name, and the text of a parameter is taken as it is. -/

namespace FeatureRank

/-- The parameters of a request, by name; of two of one name the first counts. -/
abbrev Params := List (String × String)

def Params.insert (p : Params) (name value : String) : Params := (name, value) :: p

/-- A part of a template text. -/
inductive Piece where
  | literal (text : List Char)
  | placeholder (key : String)
deriving DecidableEq, Repr

namespace Piece

/-- The text before two of a character in a row, and the text after them. -/
def splitAtPair (mark : Char) : List Char → Option (List Char × List Char)
  | c :: d :: rest =>
    if c = mark ∧ d = mark then some ([], rest)
    else (splitAtPair mark (d :: rest)).map fun (before, after) => (c :: before, after)
  | _ => none

/-- What follows a pair is shorter than the whole text. -/
theorem splitAtPair_length {mark : Char} {text before after : List Char}
    (h : splitAtPair mark text = some (before, after)) : after.length < text.length := by
  fun_induction splitAtPair mark text generalizing before after with
  | case1 c d rest hc =>
    simp only [Option.some.injEq, Prod.mk.injEq] at h
    obtain ⟨-, rfl⟩ := h
    simp only [List.length_cons]
    omega
  | case2 c d rest hc ih =>
    obtain ⟨⟨b, a⟩, hb, he⟩ := Option.map_eq_some_iff.1 h
    simp only [Prod.mk.injEq] at he
    obtain ⟨-, rfl⟩ := he
    have := ih hb
    simp only [List.length_cons] at this ⊢
    omega
  | case3 => simp at h

/-- The pieces of a text; opening braces that nothing closes are plain text. -/
def ofText (text : List Char) : List Piece :=
  match _hOpen : splitAtPair '\x7b' text with
  | none => [.literal text]
  | some (before, inside) =>
    match _hClose : splitAtPair '\x7d' inside with
    | none => [.literal text]
    | some (key, rest) =>
      .literal before :: .placeholder (String.ofList (Text.trim key)) :: ofText rest
termination_by text.length
decreasing_by
  have := splitAtPair_length _hOpen
  have := splitAtPair_length _hClose
  omega

/-- The text of pieces with the parameters in place, or the first name that no
    parameter has. -/
def fill (params : Params) : List Piece → Except String (List Char)
  | [] => .ok []
  | .literal text :: rest => return text ++ (← fill params rest)
  | .placeholder key :: rest =>
    match params.lookup key with
    | some value => return value.toList ++ (← fill params rest)
    | none => .error key

end Piece

/-- An input of a derived feature. -/
structure DerivedInput where
  feature : String
  weight : Float32
deriving DecidableEq

inductive Template where
  | anyTerm (text : String)
  | phrase (text : String)
  | languageModel (text : String)
  | constant (score : Float32)
  /-- a sum over features that stand before it in the set -/
  | derived (inputs : List DerivedInput) (constant : Float32) (logged : Bool)
deriving DecidableEq

structure StoredFeature where
  name : String
  /-- the parameters without which the feature has no query -/
  params : List String
  template : Template
deriving DecidableEq

/-- What the words of a text are in the index: nothing without a dictionary. -/
structure QueryContext where
  dictionary : Option Dictionary

namespace QueryContext

def empty : QueryContext := ⟨none⟩

def terms (c : QueryContext) (text : String) : List TermId :=
  (c.dictionary.map (·.known (Text.words text))).getD []

def phrase (c : QueryContext) (text : String) : List TermId :=
  (c.dictionary.map (·.phrase (Text.words text))).getD []

end QueryContext

namespace StoredFeature

/-- The declared parameters that are not given. -/
def missing (f : StoredFeature) (params : Params) : List String :=
  f.params.filter fun name => (params.lookup name).isNone

/-- The text of a template with the parameters in place. -/
def render (f : StoredFeature) (params : Params) (text : String) : Except Refusal String :=
  match Piece.fill params (Piece.ofText text.toList) with
  | .ok rendered => .ok (String.ofList rendered)
  | .error key => .error (.missingParameters f.name [key])

/-- The query of a stored feature by itself. -/
def query (f : StoredFeature) (context : QueryContext) (params : Params) :
    Except Refusal FeatureQuery :=
  match f.missing params with
  | [] =>
    match f.template with
    | .anyTerm text => return .anyTerm (context.terms (← f.render params text))
    | .phrase text => return .phrase (context.phrase (← f.render params text))
    | .languageModel text => return .languageModel (context.terms (← f.render params text))
    | .constant score => return .constant score
    | .derived .. => .error (.definition f.name .derivedAlone)
  | names => .error (.missingParameters f.name names)

end StoredFeature

end FeatureRank
