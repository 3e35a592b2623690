/-! # Refusals

    Why a request, a model or a document is not accepted.  A refusal names its
    cause; the wording of all of them is in one place, `Refusal.message?`. -/

namespace FeatureRank

/-- What is wrong with a definition. -/
inductive DefinitionError where
  /-- two features of a set share a name -/
  | repeatedFeature (feature : String)
  /-- a derived feature reads an ordinal that the model does not have -/
  | ordinalOutOfRange (ordinal features : Nat)
  /-- a tree splits on a feature that the model does not have -/
  | splitOutOfRange (feature features : Nat)
  /-- a derived feature without a set to derive from -/
  | derivedAlone
  /-- a log that names neither or both of a query and a rescore stage -/
  | unclearLog
deriving DecidableEq, Repr

/-- A text or an archive that does not hold what was asked for. -/
inductive Unreadable where
  | json
  | yaml
  | archive
deriving DecidableEq, Repr

/-- Why a file can be neither read nor written. -/
inductive FileError where
  | missing
  | directory
  /-- something in the place of a directory is none -/
  | notDirectory
  /-- a file stands where a directory would go -/
  | inTheWay
  | nameTooLong
  /-- the bytes are no text -/
  | notText
deriving DecidableEq, Repr

inductive Refusal where
  | disabled
  | featureCount (model : String) (expected got : Nat)
  | definition (name : String) (error : DefinitionError)
  | missingParameters (feature : String) (parameters : List String)
  | unknownFeature (feature reference : String)
  /-- a derived feature that no ranking query has bound -/
  | unbound
  | unknownQuery (name : String)
  | notRanking (name found : String)
  | noRescore (index available : Nat)
  | wrongRescore (index : Nat) (found : String)
  | rescoreNotRanking (index : Nat) (found : String)
  | unreadable (cause : Unreadable)
  | file (error : FileError)
deriving DecidableEq, Repr

def DefinitionError.message : DefinitionError → String
  | .repeatedFeature feature => "feature [" ++ feature ++ "] defined twice"
  | .ordinalOutOfRange ordinal features =>
    "feature ordinal " ++ toString ordinal ++ " out of " ++ toString features ++ " features"
  | .splitOutOfRange feature features =>
    "split on feature " ++ toString feature ++ " but only " ++ toString features ++ " features"
  | .derivedAlone => "derived feature used outside of its feature set"
  | .unclearLog => "a log spec needs exactly one of [named_query] or [rescore_index]"

/-- The text of what could not be read; readers of documents give none. -/
def Unreadable.message? : Unreadable → Option String
  | .json | .yaml => none
  | .archive => some "io error: "

def FileError.message : FileError → String
  | .missing => "No such file or directory (os error 2)"
  | .directory => "Is a directory (os error 21)"
  | .notDirectory => "Not a directory (os error 20)"
  | .inTheWay => "File exists (os error 17)"
  | .nameTooLong => "File name too long (os error 36)"
  | .notText => "stream did not contain valid UTF-8"

/-- The text of a refusal. -/
def Refusal.message? : Refusal → Option String
  | .disabled => some "LTR plugin is disabled. To enable, update ltr.plugin.enabled to true"
  | .featureCount model expected got =>
    some ("Feature count mismatch: model [" ++ model ++ "] expects " ++ toString expected ++
      " features, got " ++ toString got)
  | .definition name error => some ("Invalid definition [" ++ name ++ "]: " ++ error.message)
  | .missingParameters feature parameters =>
    some ("Missing required parameter(s) [" ++ ", ".intercalate parameters ++ "] for feature [" ++
      feature ++ "]")
  | .unknownFeature feature reference =>
    some ("Feature [" ++ feature ++ "] references unknown feature [" ++ reference ++ "]")
  | .unbound => some "Derived feature must be evaluated inside a ranking query"
  | .unknownQuery name => some ("No query named [" ++ name ++ "] found")
  | .notRanking name found =>
    some ("Query named [" ++ name ++ "] must be a [sltr] query [" ++ found ++ "] found")
  | .noRescore index available =>
    some ("rescore index [" ++ toString index ++ "] is out of bounds, only [" ++
      toString available ++ "] rescore context(s) are available")
  | .wrongRescore index found =>
    some ("Expected a [query] rescorer but found a [" ++ found ++ "] at index [" ++
      toString index ++ "]")
  | .rescoreNotRanking index found =>
    some ("Expected a [sltr] query but found a [" ++ found ++ "] at index [" ++
      toString index ++ "]")
  | .unreadable cause => cause.message?
  | .file error => some error.message

end FeatureRank
