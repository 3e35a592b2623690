import FeatureRank.Statistics

/-! # Scoring formulas

    The two formulas that score a document by the terms it holds, in binary32
    arithmetic and in the order in which they are written here.

    * BM25 adds, for each term of the query that the document holds,
      `qt · log2 (N / Nt) · ftd · (k1 + 1) / (k1 · (1 - b + b · ld / lavg) + ftd)`.
    * The language model with Dirichlet smoothing adds
      `log2 (1 + ftd · N / lt) · qt` and takes `log2 (1 + ld / lavg) · n` off at the end.

    Here `qt` and `ftd` count the term in the query and in the document, `N` the
    documents, `Nt` those with the term, `lt` the occurrences of the term, `ld`
    the tokens of the document, `lavg` those of an average one and `n` those of
    the query. -/

namespace FeatureRank

namespace Bm25

/-- Saturation of the term frequency. -/
def k1 : Float32 := 1.2

/-- How much the length of a document counts. -/
def b : Float32 := 0.75

/-- What a term weighs: its count in the query by its inverse document frequency. -/
def termWeight (queryCount docs docsWithTerm : Nat) : Float32 :=
  Float32.ofNat queryCount * (Float32.ofNat docs / Float32.ofNat docsWithTerm).log2

/-- The part of the denominator that the length of a document fixes. -/
def lengthFactor (length : Nat) (averageLength : Float32) : Float32 :=
  k1 * (1.0 - b + b * (Float32.ofNat length / averageLength))

/-- What a term adds to the score. -/
def termScore (weight : Float32) (frequency : Nat) (lengthFactor : Float32) : Float32 :=
  weight * Float32.ofNat frequency * (k1 + 1.0) / (lengthFactor + Float32.ofNat frequency)

/-- The score of a document from the weights and frequencies of its terms. -/
def score (terms : List (Float32 × Nat)) (length : Nat) (averageLength : Float32) : Float32 :=
  terms.foldl
    (fun sum (weight, frequency) => sum + termScore weight frequency (lengthFactor length averageLength))
    0.0

end Bm25

namespace LanguageModel

/-- What a term adds to the score. -/
def termScore (queryCount docsPerOccurrence : Float32) (frequency : Nat) : Float32 :=
  ((1.0 : Float32) + Float32.ofNat frequency * docsPerOccurrence).log2 * queryCount

/-- What the length of a document takes off. -/
def lengthPenalty (length : Nat) (averageLength queryLength : Float32) : Float32 :=
  ((1.0 : Float32) + Float32.ofNat length / averageLength).log2 * queryLength

/-- The score of a document from its terms, each with its count in the query,
    the documents for each of its occurrences, and its frequency. -/
def score (terms : List (Float32 × Float32 × Nat)) (length : Nat)
    (averageLength queryLength : Float32) : Float32 :=
  terms.foldl
    (fun sum (queryCount, docsPerOccurrence, frequency) =>
      sum + termScore queryCount docsPerOccurrence frequency)
    0.0 - lengthPenalty length averageLength queryLength

end LanguageModel

end FeatureRank
