import FeatureRank.CommandLine.Arguments
import FeatureRank.CommandLine.Files
import FeatureRank.Model.Format
import FeatureRank.Search.Archive

/-! # Commands

    The commands of the command line as functions on files: build an index of a
    corpus, search it by a model, log the values of features for documents, and
    say what an index holds.  Arguments that are not understood end with code 2,
    a refusal with code 1 and its text. -/

namespace FeatureRank

/-! ## Hits as JSON -/

/-- An explanation as a record, without a field for details where there are none. -/
def Explanation.toJson : Explanation → Json
  | ⟨isMatch, value, description, details⟩ =>
    .object ([("matched", .bool isMatch), ("value", .number (.single value)),
        ("description", .string description)] ++
      (if details.isEmpty then []
        else [("details", .array (details.attach.map fun ⟨e, _⟩ => e.toJson))]))

def SearchHit.toJson (h : SearchHit) : Json :=
  .object ([("id", .string h.key), ("shard", .number (.integer h.shard)),
      ("doc", .number (.integer h.doc)), ("score", .number (.single h.score))] ++
    (h.explanation.map fun e => ("explanation", e.toJson)).toList ++
    (if h.logs.isEmpty then []
      else [("_ltrlog", .object (h.logs.toList.map fun (name, log) =>
        (name, .array (log.map LogEntry.toJson))))]))

/-! ## Running a command -/

/-- How a command ended. -/
structure Outcome where
  code : Nat
  output : String := ""
  errors : String := ""

namespace Invocation

/-- The file of settings that is used where none is named. -/
def defaultConfig : String := ".rirltr.yaml"

/-- The settings: of the named file, else of the default one where it can be read. -/
def settings (files : Files) : Option String → Except Refusal Settings
  | some path => do
    let text ← (files.readText path).mapError .file
    Settings.ofYaml text
  | none =>
    match files.readText defaultConfig with
    | .ok text => .ok (Settings.ofYamlOrDefault text)
    | .error _ => .ok {}

def loadModel (files : Files) (path : String) : Except Refusal Model := do
  let text ← (files.readText path).mapError .file
  (← ModelFile.ofYaml text).compile

def loadEngine (files : Files) (path : String) (settings : Settings) : Except Refusal Engine := do
  let bytes ← (files.read path).mapError .file
  return { ← Engine.ofArchive bytes with settings }

/-- The result of a computation that may be refused or run into a fault. -/
def refuse {α : Type} : Except Refusal α → Except Failure α := Except.mapError .refused

/-- An engine with the documents of a corpus in it. -/
def indexed (files : Files) (corpus : String) (engine : Engine) : Except Failure Engine := do
  let text ← refuse ((files.readText corpus).mapError .file)
  (engine.addAll (SourceDocument.ofLines corpus text SourceDocument.contentFields)).mapError .fault

def build (files : Files) (path corpus : String) (engine : Engine) :
    Files × Except Failure String :=
  match indexed files corpus engine with
  | .error failure => (files, .error failure)
  | .ok engine =>
    match files.write path engine.archive with
    | (files, some error) => (files, .error (.refused (.file error)))
    | (files, none) => (files, .ok (toString engine.docCount ++ " documents indexed\n"))

/-- The request of the options of a search. -/
def request (model : Model) (o : SearchOptions) : SearchRequest where
  filter := o.filter.map .anyTerm
  queries := [(some "sltr", .byModel model o.params o.caching)]
  size := o.size
  global := o.global
  logs := o.log.toList.map fun name =>
    { name := some name, namedQuery := some "sltr", missingAsZero := o.missingAsZero }
  explain := o.explain

def search (files : Files) (index : String) (settings : Settings) (o : SearchOptions) :
    Except Failure String := do
  let model ← refuse (loadModel files o.model)
  let engine ← refuse (loadEngine files index settings)
  let response ← (engine.search (request model o)).2
  let hits := response.hits.zipIdx.map fun (hit, place) =>
    toString (place + 1) ++ ":" ++ hit.toJson.pretty ++ "\n"
  return toString response.total ++ " results\n" ++ String.join hits

def features (files : Files) (index : String) (settings : Settings) (model : String)
    (params : Params) (missingAsZero : Bool) (docs : List String) : Except Failure String := do
  let engine ← refuse (loadEngine files index settings)
  let model ← refuse (loadModel files model)
  let hits ← (engine.logFeatures model.features params docs missingAsZero).2
  return String.join (hits.map fun hit => hit.toJson.compact ++ "\n")

def summary (files : Files) (index : String) : Except Failure String := do
  let engine ← refuse (loadEngine files index {})
  return "index of " ++ toString engine.docCount ++ " documents in " ++
    toString engine.shardCount ++ " shards loaded\n"

/-- The files after a command, and what it printed. -/
def result (i : Invocation) (files : Files) : Files × Except Failure String :=
  match settings files i.config with
  | .error refusal => (files, .error (.refused refusal))
  | .ok settings =>
    match i.command with
    | .summary => (files, summary files i.index)
    | .build corpus shards => build files i.index corpus (.ofShards shards settings)
    | .search options => (files, search files i.index settings options)
    | .features model params missingAsZero docs =>
      (files, features files i.index settings model params missingAsZero docs)

/-- How a command with a result ended. -/
def ended : Except Failure String → Outcome
  | .ok output => { code := 0, output }
  | .error (.refused refusal) =>
    { code := 1, errors := "error: " ++ refusal.message?.getD "" ++ "\n" }
  | .error (.fault fault) => { code := 101, errors := fault.message?.getD "" ++ "\n" }

def run (i : Invocation) (files : Files) : Files × Outcome :=
  let (files, result) := i.result files
  (files, ended result)

end Invocation

/-- A call of the command line: the files after it, and how it ended. -/
def runCommandLine (arguments : List String) (files : Files) : Files × Outcome :=
  match Invocation.ofArguments? arguments with
  | some i => i.run files
  | none => (files, { code := 2 })

end FeatureRank
