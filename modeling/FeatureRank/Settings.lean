import FeatureRank.Document
import FeatureRank.Number.Binary
import FeatureRank.Refusal

/-! # Settings

    What an engine is told once: whether ranking queries run at all, whether
    they keep feature scores unless they say otherwise, and how many documents a
    segment takes.

    No text says which NaN a score is: arithmetic leaves that to the machine, and
    hits are sorted by it.  The settings hold it for every score that a search
    computes, so that what holds for all settings holds on every machine.  The
    scores are told apart by paths, which `Settings.under` builds. -/

namespace FeatureRank

structure Settings where
  enabled : Bool := true
  cachesScores : Bool := true
  /-- as it was set; see `Settings.segmentSize` -/
  segmentLimit : Nat := 1000
  /-- which NaN the score of a path is, if it is one -/
  nan : List Nat → Number.NaN := fun _ => .negative
deriving Inhabited

namespace Settings

/-- The settings for a part of a search, whose scores have the number of the part
    before their paths. -/
def under (s : Settings) (part : Nat) : Settings :=
  { s with nan := fun path => s.nan (part :: path) }

/-- The number of documents that a segment takes, one at least. -/
def segmentSize (s : Settings) : Nat := max s.segmentLimit 1

def ofDocument? (d : Document) : Option Settings := do
  let fields ← d.fields? []
  return {
    enabled := ← optional? fields "plugin_enabled" true Document.bool?
    cachesScores := ← optional? fields "feature_score_cache" true Document.bool?
    segmentLimit := ← optional? fields "segment_size" 1000 Document.natural? }

/-- The settings that a YAML text holds. -/
def ofYaml (text : String) : Except Refusal Settings :=
  match (Document.ofYaml? text).bind ofDocument? with
  | some settings => .ok settings
  | none => .error (.unreadable .yaml)

/-- The same, with the defaults for a text that holds none. -/
def ofYamlOrDefault (text : String) : Settings :=
  match ofYaml text with
  | .ok settings => settings
  | .error _ => {}

end Settings

end FeatureRank
