import FeatureRank.Json.Value
import FeatureRank.Record.Field

/-! # Contents

    A record that says its own type is read as a whole before its fields are, so
    every part of it, the keys too, has a type of its own first.  In a record a
    text names a field and a whole number stands for the field at that place;
    a key of another type belongs to no record. -/

namespace FeatureRank

inductive Content where
  | null
  | bool (value : Bool)
  | natural (n : Nat)
  /-- a whole number written with a minus sign -/
  | minus (n : Nat)
  | real (x : Float)
  | text (value : String)
  | list (items : List Content)
  | map (entries : List (Content × Content))

instance : Inhabited Content := ⟨.null⟩

namespace Content

def text? : Content → Option String
  | .text value => some value
  | _ => none

def bool? : Content → Option Bool
  | .bool value => some value
  | _ => none

/-- A whole number that is not negative; minus zero is zero. -/
def natural? : Content → Option Nat
  | .natural n => some n
  | .minus 0 => some 0
  | _ => none

/-- A number rounded to 32 bits. -/
def float32? : Content → Option Float32
  | .natural n => some (Float32.ofNat n)
  | .minus n => some (Float32.ofInt (-(n : Int)))
  | .real x => some (Number.narrow x)
  | _ => none

def items? : Content → Option (List Content)
  | .list items => some items
  | _ => none

/-- The field of a record that a key stands for: none inside where the record
    has no such field, none at all for a key that belongs to no record. -/
def fieldName? (names : List String) : Content → Option (Option String)
  | .text name => some (some name)
  | .natural n => some names[n]?
  | _ => none

/-- Keyed values as the fields of a record; those it has no field for go away. -/
def fieldsOf? {α : Type} (names : List String) : List (Content × α) → Option (List (String × α))
  | [] => some []
  | (key, value) :: rest =>
    match key.fieldName? names, fieldsOf? names rest with
    | some (some name), some fields => some ((name, value) :: fields)
    | some none, some fields => some fields
    | _, _ => none

/-- The fields of a record that has those of the given names. -/
def fields? (names : List String) : Content → Option (List (String × Content))
  | .map entries => fieldsOf? names entries
  | .list items => positional names items
  | _ => none

/-! ## Of JSON values -/

def ofNumber : Json.Number → Content
  | .integer (.ofNat n) => .natural n
  | .integer (.negSucc n) => .minus (n + 1)
  | .real x => .real x
  | .single x => .real (Number.widen x)

mutual

def ofJson : Json → Content
  | .null => .null
  | .bool value => .bool value
  | .number n => ofNumber n
  | .string value => .text value
  | .array items => .list (ofItems items)
  | .object members => .map (ofMembers members)

def ofItems : List Json → List Content
  | [] => []
  | item :: rest => ofJson item :: ofItems rest

def ofMembers : List (String × Json) → List (Content × Content)
  | [] => []
  | (key, value) :: rest => (.text key, ofJson value) :: ofMembers rest

end

end Content

end FeatureRank
