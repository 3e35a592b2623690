import FeatureRank.Json.Value

/-! # Log entries

    The log of a hit has an entry for each feature, with the value of the feature
    if there is one to report, and may end with what features leave beside their
    values. -/

namespace FeatureRank

inductive LogValue where
  | score (value : Float32)
  | extra (values : List (String × Json))

structure LogEntry where
  name : String
  value : Option LogValue

/-- The name of the entry for what features leave beside their values. -/
def LogEntry.extraName : String := "extra_logging"

def LogValue.toJson : LogValue → Json
  | .score value => .number (.single value)
  | .extra values => .object values

/-- An entry as a record, without a field for a value that is not there. -/
def LogEntry.toJson (e : LogEntry) : Json :=
  .object (("name", .string e.name) ::
    (e.value.map fun value => ("value", value.toJson)).toList)

end FeatureRank
