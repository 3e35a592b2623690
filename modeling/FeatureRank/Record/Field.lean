/-! # Fields of a record

    A record knows its fields by name.  A field that it knows may stand once, a
    field with a default may be left out, and a list counts as a record whose
    fields stand in order. -/

namespace FeatureRank

variable {α β : Type}

/-- Values in order, as the fields of the given names; the last may be left out. -/
def positional (names : List String) (items : List α) : Option (List (String × α)) :=
  if items.length ≤ names.length then some (names.zip items) else none

/-- The field of a name: none inside when it is left out, none at all when it
    stands twice. -/
def field? (fields : List (String × α)) (name : String) : Option (Option α) :=
  match fields.filter (·.1 == name) with
  | [] => some none
  | [(_, value)] => some (some value)
  | _ => none

/-- A field that must be there. -/
def required? (fields : List (String × α)) (name : String) (read : α → Option β) : Option β :=
  match field? fields name with
  | some (some value) => read value
  | _ => none

/-- A field with a default. -/
def optional? (fields : List (String × α)) (name : String) (default : β)
    (read : α → Option β) : Option β :=
  match field? fields name with
  | some (some value) => read value
  | some none => some default
  | none => none

end FeatureRank
