import FeatureRank.Refusal

/-! # Counters

    How many ranking queries an engine was asked for, and how many failed. -/

namespace FeatureRank

inductive Counter where
  | total
  | errors
deriving DecidableEq, Repr

def Counter.name : Counter → String
  | .total => "request_total_count"
  | .errors => "request_error_count"

structure Counters where
  total : Nat := 0
  errors : Nat := 0
deriving DecidableEq, Repr, Inhabited

namespace Counters

def get (c : Counters) : Counter → Nat
  | .total => c.total
  | .errors => c.errors

def increment (c : Counters) : Counter → Counters
  | .total => { c with total := c.total + 1 }
  | .errors => { c with errors := c.errors + 1 }

/-- The counters after the weight of a ranking query was asked for: a refusal
    counts as an error, unless it is that ranking is switched off. -/
def noteWeight {α : Type} (c : Counters) : Except Refusal α → Counters
  | .ok _ | .error .disabled => c
  | .error _ => c.increment .errors

/-- All counters by name. -/
def snapshot (c : Counters) : List (String × Nat) :=
  [Counter.total, Counter.errors].map fun counter => (counter.name, c.get counter)

end Counters

end FeatureRank
