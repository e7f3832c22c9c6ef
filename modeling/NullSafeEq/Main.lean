import NullSafeEq.CommandLine.Run

/-!
# The program

Takes a snapshot of the files that a command line may be about, runs it, and carries out what it
came to.
-/
namespace NullSafeEq

/-- What stands at a path, if anything that can be read. -/
def nodeAt (path : String) : IO (Option Node) := do
  try
    let content ← IO.FS.readBinFile path
    return some (.file content.toList)
  catch e =>
    match e with
    | .noFileOrDirectory .. => return none
    | .inappropriateType .. => return some .directory
    | _ => return none

/-- A snapshot of what stands at some paths and on the way to them. -/
def snapshot (paths : List String) : IO Files := do
  let mut files : Files := ⟨[]⟩
  for path in (paths.flatMap Files.ways).eraseDups do
    if let .ok _ := files.find path then
      if let some node ← nodeAt path then files := files.set path node
  return files

/-- The variables that are set, of those that the settings know. -/
def environment : IO (List (String × String)) := do
  let mut found := []
  for x in Settings.knownVariables do
    match ← IO.getEnv x.name with
    | some value => found := found ++ [(x.name, value)]
    | none => pure ()
  return found

/-- Write the files that a run left behind and that differ from those before. -/
def store (old new : Files) : IO Unit := do
  for (path, node) in new.nodes do
    match node with
    | .file content =>
      if old.node? path ≠ some node then IO.FS.writeBinFile path ⟨content.toArray⟩
    | .directory => pure ()

/-- The width of the terminal. -/
def terminalWidth : IO Nat := do
  return ((← IO.getEnv "COLUMNS").bind String.toNat?).getD 80

end NullSafeEq

open NullSafeEq in
def main (words : List String) : IO UInt32 := do
  let home ← IO.getEnv "HOME"
  let named := match CommandLine.Invocation.ofWords words with
    | .ok i => i.paths
    | .error _ => []
  let files ← snapshot (named ++ Settings.defaultPaths home)
  let surroundings : Settings.Surroundings := { files, environment := ← environment, home }
  match CommandLine.run words (← terminalWidth) surroundings with
  | .error message =>
    (← IO.getStderr).putStrLn message
    return 2
  | .ok outcome =>
    store files outcome.files
    for warning in outcome.warnings do
      (← IO.getStderr).putStrLn s!"WARNING - {warning}"
    (← IO.getStdout).putStr outcome.output
    (← IO.getStderr).putStr outcome.errors
    return outcome.status.toUInt32
