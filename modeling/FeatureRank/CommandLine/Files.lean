import FeatureRank.Refusal

/-! # Files

    The files that a command works on, by their place.  A path is walked step by
    step, and each step needs a directory to start from.  A file is written along
    with the directories above it, and those that were made stay even where the
    file cannot be written. -/

namespace FeatureRank

/-- A place: the names on the way to it from the working directory, `..` first for
    what lies above, or from the root, which is then the first name. -/
abbrev Path := List String

namespace Path

/-- Where the walk along a path begins. -/
def origin (text : String) : Path := if text.startsWith "/" then ["/"] else []

/-- The steps of a path. -/
def steps (text : String) : List String := (text.splitOn "/").filter (· != "")

/-- The place one step on. -/
def step (p : Path) (name : String) : Path :=
  if name = "." then p
  else if name = ".." then
    match p.getLast? with
    | none | some ".." => p ++ [".."]
    | some "/" => p
    | some _ => p.dropLast
  else p ++ [name]

/-- The place that a path leads to where all its steps are possible. -/
def ofText (text : String) : Path := (steps text).foldl step (origin text)

/-- The shortest path to a place. -/
def text : Path → String
  | [] => "."
  | "/" :: names => "/" ++ "/".intercalate names
  | names => "/".intercalate names

end Path

/-- What may be at a place. -/
inductive Entry where
  | directory
  | file (bytes : List UInt8)

structure Files where
  files : List (Path × List UInt8) := []
  /-- directories that may hold no file -/
  directories : List Path := []

namespace Files

def file? (f : Files) (p : Path) : Option (List UInt8) := f.files.lookup p

/-- Whether a place is a directory: one on the way up, one that is known, or one
    with a file in it. -/
def isDirectory (f : Files) (p : Path) : Bool :=
  p.all (· == "..") || p == ["/"] || f.directories.contains p ||
    f.files.any fun (q, _) => p.length < q.length && p.isPrefixOf q

def entry? (f : Files) (p : Path) : Option Entry :=
  match f.file? p with
  | some bytes => some (.file bytes)
  | none => if f.isDirectory p then some .directory else none

/-- The files with a file put at a place, instead of one that is there. -/
def put (f : Files) (p : Path) (bytes : List UInt8) : Files :=
  { f with files := (p, bytes) :: f.files.filter (·.1 != p) }

/-- The files of some texts, each at a path. -/
def ofTexts (texts : List (String × String)) : Files :=
  texts.foldl (fun f (path, content) => f.put (Path.ofText path) content.toUTF8.toList) {}

/-! ## Walking -/

/-- The bytes that a name may have at most. -/
def longestName : Nat := 255

/-- The bytes that a path may have at most. -/
def longestPath : Nat := 4095

/-- The place that steps from a place lead to. -/
def walk (f : Files) (p : Path) : List String → Except FileError Path
  | [] => .ok p
  | name :: rest =>
    match f.entry? p with
    | none => .error .missing
    | some (.file _) => .error .notDirectory
    | some .directory =>
      if longestName < name.utf8ByteSize then .error .nameTooLong else f.walk (p.step name) rest

/-- The place that some steps of a path lead to, where there may be nothing. -/
def locate (f : Files) (path : String) (steps : List String) : Except FileError Path :=
  if path.isEmpty then .error .missing
  else if longestPath < path.utf8ByteSize then .error .nameTooLong
  else f.walk (Path.origin path) steps

/-! ## Reading -/

/-- The bytes of the file at a path. -/
def read (f : Files) (path : String) : Except FileError (List UInt8) := do
  match f.entry? (← f.locate path (Path.steps path)) with
  | none => throw .missing
  | some .directory => throw .directory
  | some (.file bytes) => if path.endsWith "/" then throw .notDirectory else return bytes

/-- The text of the file at a path. -/
def readText (f : Files) (path : String) : Except FileError String := do
  match String.fromUTF8? ⟨(← f.read path).toArray⟩ with
  | some content => return content
  | none => throw .notText

/-! ## Writing -/

/-- The files with a directory where steps lead, and what stands against it. -/
def ensureDirectory (f : Files) (origin : Path) (steps : List String) : Files × Option FileError :=
  match f.walk origin steps with
  | .error e => (f, some e)
  | .ok p =>
    match f.entry? p with
    | some .directory => (f, none)
    | some (.file _) => (f, some .inTheWay)
    | none => ({ f with directories := p :: f.directories }, none)

/-- The same with the directories above it; the steps are given in reverse. -/
def ensureDirectories (f : Files) (origin : Path) : List String → Files × Option FileError
  | [] => (f, none)
  | name :: above =>
    let steps := (name :: above).reverse
    match f.ensureDirectory origin steps with
    | (_, some .missing) =>
      match f.ensureDirectories origin above with
      | (f, none) => f.ensureDirectory origin steps
      | refused => refused
    | done => done

/-- The place for a file at a path.  A slash at the end makes a path one of a
    directory, whatever its last step is. -/
def placeFor (f : Files) (path : String) : Except FileError Path := do
  let steps := Path.steps path
  let asDirectory := path.endsWith "/"
  let p ← f.locate path (if asDirectory then steps.dropLast ++ ["."] else steps)
  if asDirectory || f.isDirectory p then throw .directory else return p

/-- The files with one written along with the directories above it, and what
    stands against it. -/
def write (f : Files) (path : String) (bytes : List UInt8) : Files × Option FileError :=
  let above := ((Path.steps path).filter (· != ".")).dropLast.reverse
  match f.ensureDirectories (Path.origin path) above with
  | (f, some e) => (f, some e)
  | (f, none) =>
    match f.placeFor path with
    | .error e => (f, some e)
    | .ok p => (f.put p bytes, none)

end Files

end FeatureRank
