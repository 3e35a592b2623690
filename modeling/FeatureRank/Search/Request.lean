import Std.Data.TreeMap
import FeatureRank.Explanation
import FeatureRank.Log.Entry
import FeatureRank.Log.Spec
import FeatureRank.Model.Basic

/-! # Search requests and responses -/

namespace FeatureRank

/-- A query as a request states it. -/
inductive QueryRequest where
  /-- by a model with parameters; without a choice on caching feature scores the
      settings decide -/
  | byModel (model : Model) (params : Params) (caching : Option Bool)
  /-- by a model whose features carry their queries -/
  | prebuilt (model : Model)
  | boost (query : QueryRequest) (factor : Float32)
  /-- any of the words of a text -/
  | anyTerm (text : String)
  /-- the words of a text one after the other -/
  | phrase (text : String)

/-- A rescore stage over queries of some form.  It touches the best `window` hits
    of a shard. -/
inductive Rescore (κ : Type) where
  /-- `score * queryWeight + rescored * rescoreWeight` -/
  | query (query : κ) (queryWeight rescoreWeight : Float32) (window : Nat)
  | scale (factor : Float32) (window : Nat)

namespace Rescore

variable {κ : Type}

/-- The name of the kind of stage. -/
def kind : Rescore κ → String
  | .query .. => "query"
  | .scale .. => "scale"

def query? : Rescore κ → Option κ
  | .query q _ _ _ => some q
  | .scale _ _ => none

def window : Rescore κ → Nat
  | .query _ _ _ window | .scale _ window => window

end Rescore

structure SearchRequest where
  /-- what a document has to match, if anything -/
  filter : Option QueryRequest := none
  /-- the scored queries with their names; a hit scores the sum of those it matches -/
  queries : List (Option String × QueryRequest) := []
  rescores : List (Rescore QueryRequest) := []
  size : Nat := 10
  /-- whether statistics are taken over all shards -/
  global : Bool := false
  logs : List LogSpec := []
  explain : Bool := false

structure SearchHit where
  key : String
  shard : Nat
  /-- the absolute number inside the shard -/
  doc : Nat
  score : Float32
  /-- which NaN the score is, if it is one -/
  nan : Number.NaN := .positive
  explanation : Option Explanation := none
  logs : Std.TreeMap String (List LogEntry) := {}

structure SearchResponse where
  /-- the number of hits before the list was cut to the size of the request -/
  total : Nat
  hits : List SearchHit

end FeatureRank
