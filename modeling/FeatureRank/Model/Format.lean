import FeatureRank.Document
import FeatureRank.Json.Reader
import FeatureRank.Model.Basic

/-! # Model files

    How a model is written as a document and read back.  A template and a ranker
    say their type in a field `type`; a node of a tree says none and is a split
    if it has all the fields of one, else a leaf.  Only a map is a node. -/

namespace FeatureRank

/-! ## Reading -/

def DerivedInput.ofContent? (content : Content) : Option DerivedInput := do
  let fields ← content.fields? ["feature", "weight"]
  return ⟨← required? fields "feature" Content.text?,
    ← optional? fields "weight" 1.0 Content.float32?⟩

namespace Template

/-- The template of a type with its fields. -/
def ofContent? (tag : String) (content : Content) : Option Template :=
  match tag with
  | "match" => do
    let fields ← content.fields? ["text"]
    return .anyTerm (← required? fields "text" Content.text?)
  | "phrase" => do
    let fields ← content.fields? ["text"]
    return .phrase (← required? fields "text" Content.text?)
  | "lmd" => do
    let fields ← content.fields? ["text"]
    return .languageModel (← required? fields "text" Content.text?)
  | "constant" => do
    let fields ← content.fields? ["score"]
    return .constant (← required? fields "score" Content.float32?)
  | "derived" => do
    let fields ← content.fields? ["inputs", "constant", "extra_logging"]
    let inputs ← required? fields "inputs" Content.items?
    return .derived (← inputs.mapM DerivedInput.ofContent?)
      (← optional? fields "constant" 0.0 Content.float32?)
      (← optional? fields "extra_logging" false Content.bool?)
  | _ => none

def ofDocument? (d : Document) : Option Template := do
  let (tag, content) ← d.tagged?
  ofContent? tag content

end Template

def StoredFeature.ofDocument? (d : Document) : Option StoredFeature := do
  let fields ← d.fields? ["name", "params", "template"]
  return ⟨← required? fields "name" Document.text?,
    ← optional? fields "params" [] fun params => do (← params.items?).mapM Document.text?,
    ← required? fields "template" Template.ofDocument?⟩

def StoredFeatureSet.ofDocument? (d : Document) : Option StoredFeatureSet := do
  let fields ← d.fields? ["name", "features"]
  return ⟨← required? fields "name" Document.text?,
    ← required? fields "features" fun features => do
      (← features.items?).mapM StoredFeature.ofDocument?⟩

namespace Tree

/-- A content beside the tree that it stands for, if it stands for one. -/
abbrev Branch := Content × Option Tree

/-- The node of keyed contents whose trees are known. -/
def ofBranches? (branches : List (Content × Branch)) : Option Tree :=
  let asSplit : Option Tree := do
    let fields ← Content.fieldsOf? ["feature", "threshold", "left", "right"] branches
    return .split (← required? fields "feature" (·.1.natural?))
      (← required? fields "threshold" (·.1.float32?))
      (← required? fields "left" (·.2)) (← required? fields "right" (·.2))
  let asLeaf : Option Tree := do
    let fields ← Content.fieldsOf? ["output"] branches
    return .leaf (← required? fields "output" (·.1.float32?))
  asSplit <|> asLeaf

mutual

def ofContent? : Content → Option Tree
  | .map entries => ofBranches? (branchesOf entries)
  | _ => none

def branchesOf : List (Content × Content) → List (Content × Branch)
  | [] => []
  | (key, value) :: rest => (key, value, ofContent? value) :: branchesOf rest

end

end Tree

namespace RankerDefinition

/-- The ranker of a type with its fields; one that has none takes any key. -/
def ofContent? (tag : String) (content : Content) : Option RankerDefinition :=
  match tag with
  | "linear" => do
    let fields ← content.fields? ["weights", "default_score"]
    let weights ← required? fields "weights" Content.items?
    return .linear (← weights.mapM Content.float32?)
      (← optional? fields "default_score" 0.0 Content.float32?)
  | "tree_ensemble" => do
    let fields ← content.fields? ["trees", "default_score"]
    let trees ← required? fields "trees" Content.items?
    return .ensemble (← trees.mapM Tree.ofContent?)
      (← optional? fields "default_score" 0.0 Content.float32?)
  | "null" =>
    match content with
    | .map _ | .list [] => some .null
    | _ => none
  | _ => none

def ofDocument? (d : Document) : Option RankerDefinition := do
  let (tag, content) ← d.tagged?
  ofContent? tag content

end RankerDefinition

namespace ModelFile

def ofDocument? (d : Document) : Option ModelFile := do
  let fields ← d.fields? ["name", "feature_set", "model"]
  return ⟨← required? fields "name" Document.text?,
    ← required? fields "feature_set" StoredFeatureSet.ofDocument?,
    ← required? fields "model" RankerDefinition.ofDocument?⟩

def ofJson (value : Json) : Except Refusal ModelFile :=
  match ofDocument? (.json value) with
  | some file => .ok file
  | none => .error (.unreadable .json)

def ofYaml (text : String) : Except Refusal ModelFile :=
  match (Document.ofYaml? text).bind ofDocument? with
  | some file => .ok file
  | none => .error (.unreadable .yaml)

end ModelFile

/-! ## Writing -/

def DerivedInput.toJson (i : DerivedInput) : Json :=
  .object [("feature", .string i.feature), ("weight", .ofFloat32 i.weight)]

def Template.toJson : Template → Json
  | .anyTerm text => .object [("text", .string text), ("type", .string "match")]
  | .phrase text => .object [("text", .string text), ("type", .string "phrase")]
  | .languageModel text => .object [("text", .string text), ("type", .string "lmd")]
  | .constant score => .object [("score", .ofFloat32 score), ("type", .string "constant")]
  | .derived inputs offset logged =>
    .object [("constant", .ofFloat32 offset), ("extra_logging", .bool logged),
      ("inputs", .array (inputs.map DerivedInput.toJson)), ("type", .string "derived")]

def StoredFeature.toJson (f : StoredFeature) : Json :=
  .object [("name", .string f.name), ("params", .array (f.params.map .string)),
    ("template", f.template.toJson)]

def StoredFeatureSet.toJson (s : StoredFeatureSet) : Json :=
  .object [("features", .array (s.features.map StoredFeature.toJson)), ("name", .string s.name)]

def Tree.toJson : Tree → Json
  | .split feature threshold left right =>
    .object [("feature", .number (.integer feature)), ("left", left.toJson),
      ("right", right.toJson), ("threshold", .ofFloat32 threshold)]
  | .leaf output => .object [("output", .ofFloat32 output)]

def RankerDefinition.toJson : RankerDefinition → Json
  | .linear weights default =>
    .object [("default_score", .ofFloat32 default), ("type", .string "linear"),
      ("weights", .array (weights.map .ofFloat32))]
  | .ensemble trees default =>
    .object [("default_score", .ofFloat32 default), ("trees", .array (trees.map Tree.toJson)),
      ("type", .string "tree_ensemble")]
  | .null => .object [("type", .string "null")]

def ModelFile.toJson (file : ModelFile) : Json :=
  .object [("feature_set", file.features.toJson), ("model", file.definition.toJson),
    ("name", .string file.name)]

end FeatureRank
