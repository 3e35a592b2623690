import FeatureRank.Feature.Template

/-! # Arguments

    What the arguments of the command line ask for.  Options stand before or
    after other arguments; one that takes a value has it behind an equals sign,
    behind its letter, or as the next argument, and after two dashes nothing is an
    option.  Of an option that takes a value and is given again the last counts,
    unless it collects values; an option without a value is given once. -/

namespace FeatureRank

/-- An option of a command. -/
structure Flag where
  name : String
  letter : Option Char := none
  takesValue : Bool := true
  collects : Bool := false

/-- The options that were given, by name and in order, each with its value if it
    has one, and the other arguments. -/
structure Given where
  options : List (String × Option String) := []
  others : List String := []

namespace Given

/-- The arguments with one more option before them. -/
def add (g : Given) (flag : Flag) (value : Option String) : Given :=
  { g with options := (flag.name, value) :: g.options }

/-- What stands with each occurrence of an option. -/
def occurrences (g : Given) (name : String) : List (Option String) :=
  g.options.filterMap fun (n, value) => if n = name then some value else none

def has (g : Given) (name : String) : Bool := !(g.occurrences name).isEmpty

def values (g : Given) (name : String) : List String := (g.occurrences name).filterMap id

/-- The value of an option, the last one that was given. -/
def value? (g : Given) (name : String) : Option String := (g.values name).getLast?

/-- Whether an option is given as it may be: with a value the last time, or once
    at least where it collects values. -/
def allows (g : Given) (flag : Flag) : Bool :=
  let seen := g.occurrences flag.name
  if !flag.takesValue then seen.length ≤ 1
  else if flag.collects then seen.isEmpty || seen.any Option.isSome
  else seen.getLast?.all Option.isSome

end Given

namespace Arguments

/-- Whether an argument looks like an option and so is no value of one. -/
def isOption (argument : String) : Bool := argument.startsWith "-" && argument != "-"

/-- What one argument says. -/
inductive Item where
  /-- an option, with the value that is attached to it -/
  | option (flag : Flag) (value : Option String)
  | endOfOptions
  | other

/-- The text before the first of a character, and the text after it if there is one. -/
def splitAt (mark : Char) : List Char → String × Option String
  | [] => ("", none)
  | c :: rest =>
    if c = mark then ("", some (String.ofList rest))
    else
      let (before, after) := splitAt mark rest
      (String.singleton c ++ before, after)

/-- What an argument says, none for an option that is not known. -/
def item? (flags : List Flag) (argument : String) : Option Item :=
  match argument.toList with
  | ['-', '-'] => some .endOfOptions
  | '-' :: '-' :: rest =>
    let (name, value) := splitAt '=' rest
    (flags.find? (·.name == name)).map (.option · value)
  | '-' :: letter :: rest =>
    (flags.find? (·.letter == some letter)).map fun flag =>
      .option flag (match rest with
        | [] => none
        | '=' :: value => some (String.ofList value)
        | value => some (String.ofList value))
  | _ => some .other

/-- The options and other arguments of a list.  The argument after an option is
    its value unless it looks like an option too.  With `stopAtOther` everything
    from the first other argument on is left as it is. -/
def scan (flags : List Flag) (stopAtOther : Bool) : List String → Option Given
  | [] => some {}
  | argument :: rest =>
    match item? flags argument with
    | none => none
    | some .endOfOptions =>
      if stopAtOther && !rest.isEmpty then none else some { others := rest }
    | some .other =>
      if stopAtOther then some { others := argument :: rest }
      else (scan flags stopAtOther rest).map fun g => { g with others := argument :: g.others }
    | some (.option flag attached) =>
      match flag.takesValue, attached, rest with
      | false, none, rest => (scan flags stopAtOther rest).map (·.add flag none)
      | false, some _, _ => none
      | true, some value, rest => (scan flags stopAtOther rest).map (·.add flag (some value))
      | true, none, [] => some (Given.add {} flag none)
      | true, none, value :: more =>
        if isOption value then (scan flags stopAtOther (value :: more)).map (·.add flag none)
        else (scan flags stopAtOther more).map (·.add flag (some value))
termination_by arguments => arguments.length

/-- The options and other arguments of a list, each option given as it may be. -/
def read (flags : List Flag) (stopAtOther : Bool) (arguments : List String) : Option Given := do
  let g ← scan flags stopAtOther arguments
  if flags.all g.allows then some g else none

/-- A whole number of at most 64 bits; a plus sign may stand before it. -/
def natural? (text : String) : Option Nat :=
  let digits := match text.toList with
    | '+' :: rest => rest
    | digits => digits
  if digits.isEmpty || !digits.all Char.isDigit then none
  else
    let n := digits.foldl (fun n c => 10 * n + (c.toNat - '0'.toNat)) 0
    if n < Number.twoTo 64 then some n else none

/-- The value of an option that is a number and has a default; each value that
    was given is to be a number. -/
def numberOr (default : Nat) (g : Given) (name : String) : Option Nat := do
  let numbers ← (g.values name).mapM natural?
  return numbers.getLast?.getD default

/-- Parameters, each a name and a value around the first equals sign; of two of
    one name the later counts. -/
def params? (texts : List String) : Option Params :=
  texts.foldlM
    (fun params text =>
      match splitAt '=' text.toList with
      | (name, some value) => some (params.insert name value)
      | (_, none) => none)
    []

end Arguments

structure SearchOptions where
  model : String
  params : Params
  /-- what the ranked documents have to match -/
  filter : Option String
  size : Nat
  global : Bool
  /-- the name of the logs, if hits are logged -/
  log : Option String
  missingAsZero : Bool
  caching : Option Bool
  explain : Bool

inductive Command where
  /-- say what the index holds -/
  | summary
  | build (corpus : String) (shards : Nat)
  | search (options : SearchOptions)
  | features (model : String) (params : Params) (missingAsZero : Bool) (docs : List String)

/-- A command with the files that all commands use. -/
structure Invocation where
  index : String
  config : Option String
  command : Command

namespace Invocation

open Arguments

def mainFlags : List Flag :=
  [{ name := "index-dir", letter := 'i' }, { name := "config", letter := 'c' }]

def buildFlags : List Flag :=
  [{ name := "corpus", letter := 'c' }, { name := "shards", letter := 's' }]

def modelFlags : List Flag :=
  [{ name := "model", letter := 'm' }, { name := "param", letter := 'p', collects := true },
    { name := "missing-as-zero", takesValue := false }]

def searchFlags : List Flag :=
  modelFlags ++ [{ name := "filter", letter := 'f' }, { name := "size" }, { name := "log" },
    { name := "dfs", takesValue := false }, { name := "no-feature-cache", takesValue := false },
    { name := "explain", takesValue := false }]

def build? (arguments : List String) : Option Command := do
  let g ← read buildFlags false arguments
  if g.others.isEmpty then
    return .build (← g.value? "corpus") (← numberOr 1 g "shards")
  else none

def search? (arguments : List String) : Option Command := do
  let g ← read searchFlags false arguments
  if g.others.isEmpty then
    return .search {
      model := ← g.value? "model"
      params := ← params? (g.values "param")
      filter := g.value? "filter"
      size := ← numberOr 10 g "size"
      global := g.has "dfs"
      log := g.value? "log"
      missingAsZero := g.has "missing-as-zero"
      caching := if g.has "no-feature-cache" then some false else none
      explain := g.has "explain" }
  else none

def features? (arguments : List String) : Option Command := do
  let g ← read modelFlags false arguments
  return .features (← g.value? "model") (← params? (g.values "param")) (g.has "missing-as-zero")
    g.others

def command? : List String → Option Command
  | [] => some .summary
  | name :: arguments =>
    match name with
    | "build" => build? arguments
    | "search" => search? arguments
    | "features" => features? arguments
    | _ => none

/-- What the arguments ask for, none where they are not understood. -/
def ofArguments? (arguments : List String) : Option Invocation := do
  let g ← read mainFlags true arguments
  return ⟨(g.value? "index-dir").getD ".rir/rirltr.idx", g.value? "config", ← command? g.others⟩

end Invocation

end FeatureRank
