import FeatureRank.CommandLine.Run

/-! # The program

    Looks up the files that a command names, runs it on them, and writes what it
    made. -/

namespace FeatureRank

/-- The paths that a command may read. -/
def Invocation.paths (i : Invocation) : List String :=
  [i.index, i.config.getD defaultConfig] ++
    match i.command with
    | .summary => []
    | .build corpus _ => [corpus]
    | .search options => [options.model]
    | .features model _ _ _ => [model]

/-- The files with what is at a place. -/
def look (files : Files) (place : Path) : IO Files := do
  try
    if ← (← IO.FS.realPath place.text).isDir then
      return { files with directories := place :: files.directories }
    else
      return files.put place (← IO.FS.readBinFile place.text).toList
  catch _ => return files

/-- The files with what is along a path. -/
def lookAlong (files : Files) (path : String) : IO Files :=
  let steps := Path.steps path
  (List.range steps.length).foldlM
    (fun files n => look files ((steps.take (n + 1)).foldl Path.step (Path.origin path))) files

/-- Writes the directories and files that are new. -/
def writeChanges (before after : Files) : IO Unit := do
  for place in after.directories.reverse do
    if !before.isDirectory place then IO.FS.createDirAll place.text
  for (place, bytes) in after.files do
    if before.file? place != some bytes then IO.FS.writeBinFile place.text ⟨bytes.toArray⟩

end FeatureRank

open FeatureRank in
def main (arguments : List String) : IO UInt32 := do
  match Invocation.ofArguments? arguments with
  | none =>
    IO.eprintln "error: the arguments are not understood"
    return 2
  | some invocation =>
    let before ← invocation.paths.foldlM lookAlong {}
    let (after, outcome) := invocation.run before
    writeChanges before after
    IO.print outcome.output
    IO.eprint outcome.errors
    return UInt32.ofNat outcome.code
