import FeatureRank.Feature.Formula
import FeatureRank.Feature.Query
import FeatureRank.Number.Text

/-! # Weights

    The executable form of a feature query.  A weight is made once for a request
    against one searcher and carries the statistics that were visible then. -/

namespace FeatureRank

inductive Weight where
  /-- the terms with what each weighs, and the average length of a document -/
  | anyTerm (terms : List (TermId × Float32)) (averageLength : Float32)
  | phrase (terms : List TermId)
  /-- the terms with their counts in the query and the documents for each of
      their occurrences, the length of the query and of an average document -/
  | languageModel (terms : List (TermId × Float32 × Float32))
      (queryLength averageLength : Float32)
  | constant (score : Float32) (cacheable : Bool)
  | boost (inner : Weight) (factor : Float32)
  | derived (sum : DerivedSum)
  | nothing
deriving DecidableEq

namespace Weight

/-- Weights of the terms of a query that some document holds. -/
def ofAnyTerm (searcher : Searcher) (terms : List TermId) : Weight :=
  let collection := searcher.collection
  let weighted := (queryFrequencies terms).filterMap fun (term, count) =>
    let docs := (searcher.term term).docs
    if docs = 0 then none else some (term, Bm25.termWeight count collection.docs docs)
  .anyTerm weighted collection.averageLength

def ofLanguageModel (searcher : Searcher) (terms : List TermId) : Weight :=
  let collection := searcher.collection
  let weighted := (queryFrequencies terms).filterMap fun (term, count) =>
    let occurrences := (searcher.term term).occurrences
    if occurrences = 0 then none
    else some
      (term, Float32.ofNat count, Float32.ofNat collection.docs / Float32.ofNat occurrences)
  .languageModel weighted (Float32.ofNat terms.length) collection.averageLength

end Weight

/-- The weight of a query.  A derived feature needs a ranking query around it. -/
def FeatureQuery.weight (searcher : Searcher) : FeatureQuery → Except Refusal Weight
  | .anyTerm terms => .ok (.ofAnyTerm searcher terms)
  | .phrase terms => .ok (.phrase terms)
  | .languageModel terms => .ok (.ofLanguageModel searcher terms)
  | .constant score => .ok (.constant score true)
  | .boost query factor =>
    match query.weight searcher with
    | .ok inner => .ok (.boost inner factor)
    | .error refusal => .error refusal
  | .derived _ => .error .unbound
  | .bound sum => .ok (.derived sum)
  | .nothing => .ok .nothing

namespace Weight

/-- Items between brackets, with commas. -/
def listed (items : List String) : String := "[" ++ ", ".intercalate items ++ "]"

def listedTerms (terms : List TermId) : String := listed (terms.map fun term => toString term)

def boostText (inner : String) (factor : Float32) : String :=
  "boost(" ++ inner ++ ", " ++ Number.plainStyle.text32 factor ++ ")"

def constantText (score : Float32) : String :=
  "constant(" ++ Number.plainStyle.text32 score ++ ")"

def sumText (sum : DerivedSum) : String :=
  let inputs := sum.inputs.map fun (ordinal, weight) =>
    "(" ++ toString ordinal ++ ", " ++ Number.listedStyle.text32 weight ++ ")"
  "derived(inputs=" ++ listed inputs ++ ", constant=" ++
    Number.plainStyle.text32 sum.constant ++ ")"

def description : Weight → String
  | .anyTerm terms _ => "bm25(terms=" ++ listedTerms (terms.map (·.1)) ++ ")"
  | .phrase terms => "phrase(terms=" ++ listedTerms terms ++ ")"
  | .languageModel terms _ _ => "lmd(terms=" ++ listedTerms (terms.map (·.1)) ++ ")"
  | .constant score _ => constantText score
  | .boost inner factor => boostText inner.description factor
  | .derived sum => sumText sum
  | .nothing => "match_none"

/-- Whether later phases of a request may use the weight again. -/
def cacheable : Weight → Bool
  | .constant _ cacheable => cacheable
  | .boost inner _ => inner.cacheable
  | _ => true

end Weight

end FeatureRank
