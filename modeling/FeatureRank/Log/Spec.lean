import FeatureRank.Document
import FeatureRank.Refusal

/-! # Log specs

    A request may ask for the feature values of its ranking queries beside the
    hits.  Each spec names one of them, either a named query of the request or a
    rescore stage by its place. -/

namespace FeatureRank

structure LogSpec where
  name : Option String := none
  namedQuery : Option String := none
  rescoreIndex : Option Nat := none
  /-- whether a feature that did not match is reported as zero -/
  missingAsZero : Bool := false
deriving DecidableEq, Repr, Inhabited

namespace LogSpec

/-- The name of the logs: the one given, else that of the query, else the place
    of the stage. -/
def loggerName (s : LogSpec) : String :=
  match s.name, s.namedQuery, s.rescoreIndex with
  | some name, _, _ => name
  | none, some query, _ => query
  | none, none, some index => "rescore[" ++ toString index ++ "]"
  | none, none, none => ""

/-- A spec points at a query or at a stage, not at both. -/
def isClear (s : LogSpec) : Bool := s.namedQuery.isSome != s.rescoreIndex.isSome

/-- Specs that are all clear. -/
def check (specs : List LogSpec) : Except Refusal (List LogSpec) :=
  match specs.find? fun s => !s.isClear with
  | some s => .error (.definition s.loggerName .unclearLog)
  | none => .ok specs

/-- A value that may be missing or `null`. -/
def nullable {α : Type} (read : Document → Option α) : Document → Option (Option α)
  | .json .null => some none
  | d => (read d).map some

def ofDocument? (d : Document) : Option LogSpec := do
  let fields ← d.fields? ["name", "named_query", "rescore_index", "missing_as_zero"]
  return ⟨← optional? fields "name" none (nullable Document.text?),
    ← optional? fields "named_query" none (nullable Document.text?),
    ← optional? fields "rescore_index" none (nullable Document.natural?),
    ← optional? fields "missing_as_zero" false Document.bool?⟩

/-- The specs of a list. -/
def ofJson (value : Json) : Except Refusal (List LogSpec) :=
  match (Document.json value).items?.bind fun items => items.mapM ofDocument? with
  | some specs => .ok specs
  | none => .error (.unreadable .json)

def toJson (s : LogSpec) : Json :=
  .object [("missing_as_zero", .bool s.missingAsZero),
    ("name", (s.name.map .string).getD .null),
    ("named_query", (s.namedQuery.map .string).getD .null),
    ("rescore_index", (s.rescoreIndex.map fun n => .number (.integer n)).getD .null)]

end LogSpec

end FeatureRank
