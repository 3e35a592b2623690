import FeatureRank.Index.Dictionary
import FeatureRank.Number.Binary
import FeatureRank.Refusal

/-! # Feature queries

    The query that one feature becomes.  Two steps lead to the form that is
    executed: `bind` ties derived features to the vector of a ranking query, and
    `canonical` brings queries that mean the same into one form, so that they
    share a weight.  Queries are equal when their numbers have the same bits. -/

namespace FeatureRank

/-- `constant + Σ weight · value of ordinal`, over other features of a set. -/
structure DerivedSum where
  inputs : List (Nat × Float32)
  constant : Float32
  /-- the key under which a log also records the value -/
  logKey : Option String := none
deriving DecidableEq

inductive FeatureQuery where
  /-- any of the terms, scored by BM25 -/
  | anyTerm (terms : List TermId)
  /-- the terms one after the other, scored by how often they occur so -/
  | phrase (terms : List TermId)
  /-- any of the terms, scored by a smoothed language model -/
  | languageModel (terms : List TermId)
  | constant (score : Float32)
  | boost (query : FeatureQuery) (factor : Float32)
  /-- a sum over features that is not tied to a vector yet -/
  | derived (sum : DerivedSum)
  /-- a sum over the vector of a ranking query -/
  | bound (sum : DerivedSum)
  | nothing
deriving DecidableEq, Inhabited

namespace FeatureQuery

/-- The name of the kind of query. -/
def kind : FeatureQuery → String
  | .anyTerm _ => "match"
  | .phrase _ => "match_phrase"
  | .languageModel _ => "lmd"
  | .constant _ => "constant"
  | .boost _ _ => "boost"
  | .derived _ => "derived"
  | .bound _ => "vector_derived"
  | .nothing => "match_none"

/-- The terms whose statistics a query needs. -/
def terms : FeatureQuery → List TermId
  | .anyTerm terms | .phrase terms | .languageModel terms => terms
  | .boost query _ => query.terms
  | _ => []

end FeatureQuery

/-- A sum with every zero unsigned. -/
def DerivedSum.canonical (s : DerivedSum) : DerivedSum :=
  { s with
    inputs := s.inputs.map fun (ordinal, weight) => (ordinal, Number.unsignedZero weight)
    constant := Number.unsignedZero s.constant }

namespace FeatureQuery

def sortTerms (terms : List TermId) : List TermId := terms.mergeSort (· ≤ ·)

/-- A boost around a query in canonical form. -/
def boosted (factor : Float32) : FeatureQuery → FeatureQuery
  | .nothing => .nothing
  | inner => if factor == 1.0 then inner else .boost inner (Number.unsignedZero factor)

/-- The canonical form on a shard that holds documents. -/
def normal : FeatureQuery → FeatureQuery
  | .anyTerm [] | .languageModel [] | .phrase [] => .nothing
  | .anyTerm terms => .anyTerm (sortTerms terms)
  | .languageModel terms => .languageModel (sortTerms terms)
  | .phrase terms => .phrase terms
  | .constant score => .constant (Number.unsignedZero score)
  | .boost inner factor => boosted factor inner.normal
  | .derived sum => .derived sum.canonical
  | .bound sum => .bound sum.canonical
  | .nothing => .nothing

/-- The form in which equal queries coincide.  It depends on the query and on
    whether the shard holds documents, never on statistics, so every phase of a
    request comes to the same one. -/
def canonical (emptyShard : Bool) (query : FeatureQuery) : FeatureQuery :=
  if emptyShard then .nothing else query.normal

/-- The query with its sum tied to a vector of `features` values; a sum over an
    ordinal beyond them is refused. -/
def bind (features : Nat) : FeatureQuery → Except Refusal FeatureQuery
  | .derived sum =>
    match sum.inputs.find? fun (ordinal, _) => features ≤ ordinal with
    | some (ordinal, _) =>
      .error (.definition "derived" (.ordinalOutOfRange ordinal features))
    | none => .ok (.bound sum)
  | .boost query factor =>
    match query.bind features with
    | .ok query => .ok (.boost query factor)
    | .error refusal => .error refusal
  | query => .ok query

end FeatureQuery

end FeatureRank
