import CommandTree.Console.Run

/-!
# The program

Reads the arguments, the settings file and the input, and prints what `CommandTree.Console`
answers.
-/
namespace CommandTree.Program

/-- What stands at a path of the file system. -/
def placeAt (path : String) : IO Settings.Place := do
  try
    return .file (some (← IO.FS.readBinFile path))
  catch
  | .noFileOrDirectory .. => return .file none
  | _ => return .directory

/-- Loads the settings at a path, and writes the file if loading changed it. -/
def loadAt (path : String) : IO (Option Settings) := do
  let place ← placeAt path
  let (loaded, after) := Settings.load Settings.toml place
  match after with
  | .file (some bytes) =>
    if place.read ≠ after.read then
      try IO.FS.writeBinFile path bytes catch _ => return none
  | _ => pure ()
  return loaded.toOption

partial def serve (r : Registry Portal.Session) (s : Portal.Session) : IO Unit := do
  let line ← (← IO.getStdin).getLine
  if line.isEmpty then return
  let mut s := s
  for text in Console.linesOf line do
    let (printed, next) := Console.answer r s text
    printed.forM IO.println
    s := next
  serve r s

end CommandTree.Program

open CommandTree CommandTree.Program in
def main (args : List String) : IO UInt32 := do
  match Console.parse args with
  | .version => IO.println Console.version; return 0
  | .help => IO.println Console.usage; return 0
  | .misuse => IO.eprintln Console.usage; return 2
  | .run options =>
    let loaded ← match options.config with
      | none => pure (some {})
      | some path => loadAt path
    match loaded with
    | none => IO.eprintln "failed to load config"; return 1
    | some settings =>
      serve (Console.registry settings) (Console.session options)
      return 0
