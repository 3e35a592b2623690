import FeatureRank.Json.Value
import FeatureRank.Yaml.Node

/-! # Documents and their fields

    Records are read from JSON values and from YAML nodes.  A field that a record
    does not know is passed over.

    A plain YAML scalar has no type of its own: where a text is expected it is
    that text.  Inside a record that says its own type in a field `type` every
    scalar has a type first, and there a number is no text. -/

namespace FeatureRank

inductive Document where
  | json (value : Json)
  /-- a node in which at most `room` collections may stand one inside the other -/
  | yaml (room : Nat) (node : Yaml.Node)

namespace Document

/-- The document of a YAML text, in which at most 128 collections may stand one
    inside the other; nothing at all counts as an empty place. -/
def ofYaml? (text : String) : Option Document :=
  (Yaml.parse? text).map fun root => .yaml 128 (root.getD .empty)

/-- Whether a node is an empty place, which counts as an empty collection. -/
def isEmptyNode : Yaml.Node → Bool
  | .scalar true "" => true
  | _ => false

/-- The fields of a record that may have those of the given names. -/
def fields? (names : List String) : Document → Option (List (String × Document))
  | .json (.object members) => some (members.map fun (k, v) => (k, .json v))
  | .json (.array items) => positional names (items.map .json)
  | .json _ => none
  | .yaml (room + 1) (.mapping entries) =>
    entries.mapM fun (key, value) => key.text?.map fun k => (k, .yaml room value)
  | .yaml _ node => if isEmptyNode node then some [] else none

def items? : Document → Option (List Document)
  | .json (.array items) => some (items.map .json)
  | .json _ => none
  | .yaml (room + 1) (.sequence items) => some (items.map (.yaml room))
  | .yaml _ node => if isEmptyNode node then some [] else none

def text? : Document → Option String
  | .json value => value.text?
  | .yaml _ node => node.text?

def bool? : Document → Option Bool
  | .json value => value.bool?
  | .yaml _ (.scalar true text) => Yaml.bool? text
  | .yaml _ _ => none

/-- A number of at most 64 bits that is not negative. -/
def natural? : Document → Option Nat
  | .json value => value.natural?
  | .yaml _ (.scalar true text) =>
    (Yaml.natural? text.toList).bind fun n => if n < Number.twoTo 64 then some n else none
  | .yaml _ _ => none

/-- The type of a record that says it in a field `type`, with the content of the
    rest of the record: its other fields, or what follows the type in a list. -/
def tagged? : Document → Option (String × Content)
  | .json (.array (.string tag :: rest)) => some (tag, .list (Content.ofItems rest))
  | .json (.object members) =>
    (required? members "type" Json.text?).map fun tag =>
      (tag, .map (Content.ofMembers (members.filter (·.1 != "type"))))
  | .json _ => none
  | .yaml (room + 1) (.sequence (.scalar _ tag :: rest)) =>
    (Yaml.itemContents? room rest).map fun items => (tag, .list items)
  | .yaml (room + 1) (.mapping entries) =>
    let isType (key : Yaml.Node) : Bool := key.text? == some "type"
    match entries.filter (isType ·.1) with
    | [(_, value)] => do
      let tag ← value.text?
      let rest ← Yaml.entryContents? room (entries.filter (!isType ·.1))
      return (tag, .map rest)
    | _ => none
  | .yaml _ _ => none

end Document

end FeatureRank
