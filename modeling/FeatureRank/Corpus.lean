import FeatureRank.Json.Reader
import FeatureRank.Json.Writer
import FeatureRank.Text.Blank
import FeatureRank.Text.LowerCase

/-! # The corpus

    Documents come as one JSON object to a line.  The texts of some fields make
    the content; the identifier is a field of its own or else the place of the
    line, and a document may say which shard it goes to. -/

namespace FeatureRank

/-- A document to be indexed. -/
structure SourceDocument where
  id : String
  content : String
  shard : Option Nat := none
deriving DecidableEq, Repr

namespace SourceDocument

/-- The fields that make the content unless others are given. -/
def contentFields : List String := ["title", "body"]

/-- The texts of the fields that have one, in the order of the fields and with a
    space after what is there already. -/
def contentOf (value : Json) (fields : List String) : String :=
  fields.foldl
    (fun content field =>
      match value.member (Text.toLower field) with
      | .string text => if content.isEmpty then text else content ++ " " ++ text
      | _ => content)
    ""

/-- The document of a value that stands on a line of a file. -/
def ofJson (file : String) (line : Nat) (fields : List String) (value : Json) :
    SourceDocument where
  id :=
    match value.member "id" with
    | .string text => text
    | .number n => n.text
    | _ => file ++ ":" ++ toString line
  content := contentOf value fields
  shard := (value.member "shard").natural?

/-- The documents of the lines of a file; a blank line and one that is no JSON
    have none, but count. -/
def ofLines (file : String) (text : String) (fields : List String) : List SourceDocument :=
  ((Text.lines text.toList).zipIdx 1).filterMap fun (line, number) =>
    if line.all Text.isBlank then none
    else (Json.parse? (String.ofList line)).map (ofJson file number fields)

end SourceDocument

end FeatureRank
