import FeatureRank.Explanation
import FeatureRank.Feature.Vector
import FeatureRank.Feature.Weight
import FeatureRank.Walk.Phrase

/-! # Scorers

    A weight gives each segment a scorer, which walks the documents that match
    and scores the one it stands on.  A sum reads the values of other features
    from the vector that is being filled for the document. -/

namespace FeatureRank

inductive FeatureScorer where
  | anyTerm (segment : Segment) (walk : Union Float32) (averageLength : Float32)
  | phrase (walk : PhraseWalk)
  | languageModel (segment : Segment) (walk : Union (Float32 × Float32))
      (queryLength averageLength : Float32)
  | constant (walk : AllDocs) (score : Float32)
  | derived (walk : AllDocs) (sum : DerivedSum)
  | boost (inner : FeatureScorer) (factor : Float32)

namespace FeatureScorer

def stop : FeatureScorer → Stop
  | .anyTerm _ walk _ => walk.stop
  | .phrase walk => walk.stop
  | .languageModel _ walk _ _ => walk.stop
  | .constant walk _ => walk.stop
  | .derived walk _ => walk.stop
  | .boost inner _ => inner.stop

def advance (target : Nat) : FeatureScorer → FeatureScorer
  | .anyTerm segment walk average => .anyTerm segment (walk.advance target) average
  | .phrase walk => .phrase (walk.advance target)
  | .languageModel segment walk queryLength average =>
    .languageModel segment (walk.advance target) queryLength average
  | .constant walk score => .constant (walk.advance target) score
  | .derived walk sum => .derived (walk.advance target) sum
  | .boost inner factor => .boost (inner.advance target) factor

def cost : FeatureScorer → Nat
  | .anyTerm _ walk _ => walk.cost
  | .phrase walk => walk.cost
  | .languageModel _ walk _ _ => walk.cost
  | .constant walk _ => walk.maxDoc
  | .derived walk _ => walk.maxDoc
  | .boost inner _ => inner.cost

instance : DocWalk FeatureScorer where
  stop := FeatureScorer.stop
  advance := FeatureScorer.advance
  cost := FeatureScorer.cost

/-- The number of tokens of the document of a stop. -/
def lengthAt (segment : Segment) : Stop → Checked Nat
  | .doc doc => segment.length doc
  | .exhausted => .error .noDocument

/-- The labels of the cursors that stand on the current document, with the
    frequencies of their terms. -/
def frequencies {τ : Type} (walk : Union τ) : Checked (List (τ × Nat)) :=
  walk.matching.mapM fun (label, cursor) => return (label, ← cursor.frequency)

end FeatureScorer

/-- The value of a sum over a vector; without one every feature reads as zero. -/
def DerivedSum.value (s : DerivedSum) (vector : Option FeatureVector) : Float32 :=
  s.inputs.foldl
    (fun sum (ordinal, weight) =>
      sum + weight * (vector.map (·.get ordinal)).getD 0.0)
    s.constant

namespace FeatureScorer

/-- The score of the current document, given the vector filled so far. -/
def score (vector : Option FeatureVector) : FeatureScorer → Checked Float32
  | .anyTerm segment walk average => do
    let length ← lengthAt segment walk.stop
    return Bm25.score (← frequencies walk) length average
  | .phrase walk => return Float32.ofNat walk.occurrences
  | .languageModel segment walk queryLength average => do
    let length ← lengthAt segment walk.stop
    let terms := (← frequencies walk).map fun ((count, docs), frequency) => (count, docs, frequency)
    return LanguageModel.score terms length average queryLength
  | .constant _ score => return score
  | .derived _ sum => return sum.value vector
  | .boost inner factor => return (← inner.score vector) * factor

/-- What a log records beside the score: the value of a sum with a key. -/
def extra? (vector : Option FeatureVector) : FeatureScorer → Option (String × Float32)
  | .derived _ sum => sum.logKey.map fun key => (key, sum.value vector)
  | .boost inner _ => inner.extra? vector
  | _ => none

end FeatureScorer

namespace Weight

/-- Cursors for the terms that a segment holds, labelled with what is known of them. -/
def cursors {τ : Type} (segment : Segment) (terms : List (TermId × τ)) : List (τ × Cursor) :=
  terms.filterMap fun (term, label) =>
    match segment.postingsOf term with
    | [] => none
    | postings => some (label, .ofPostings postings)

/-- The scorer for a segment, none when nothing in it can match. -/
def scorer? (segment : Segment) : Weight → Option FeatureScorer
  | .anyTerm terms average =>
    match cursors segment terms with
    | [] => none
    | cs => some (.anyTerm segment (.ofCursors cs) average)
  | .phrase terms => (PhraseWalk.ofPostings? (terms.map segment.postingsOf)).map .phrase
  | .languageModel terms queryLength average =>
    match cursors segment terms with
    | [] => none
    | cs => some (.languageModel segment (.ofCursors cs) queryLength average)
  | .constant score _ => some (.constant { maxDoc := segment.maxDoc } score)
  | .boost inner factor => (inner.scorer? segment).map (.boost · factor)
  | .derived sum => some (.derived { maxDoc := segment.maxDoc } sum)
  | .nothing => none

/-- How a scorer of its own explains the score of a document. -/
def explainScorer (segment : Segment) (doc : Nat) (vector : Option FeatureVector) (w : Weight) :
    Checked Explanation :=
  match (w.scorer? segment).map (·.advance doc) with
  | some s =>
    if s.stop = .doc doc then return .matched (← s.score vector) w.description
    else return .noMatch w.description
  | none => return .noMatch w.description

/-- The explanation of a boosted score: what it would be without the boost, and
    the boost. -/
def explainBoost (inner : Explanation) (description : String) (factor : Float32) : Explanation :=
  if inner.isMatch then
    .matched (inner.value * factor) (description ++ ", product of:")
      [inner, .matched factor "boost"]
  else inner

/-- How the score of a document of a segment comes about. -/
def explain (segment : Segment) (doc : Nat) (vector : Option FeatureVector) :
    Weight → Checked Explanation
  | .boost inner factor => do
    let explanation ← inner.explain segment doc vector
    return explainBoost explanation (boostText inner.description factor) factor
  | w => w.explainScorer segment doc vector

end Weight

end FeatureRank
