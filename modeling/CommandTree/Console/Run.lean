import CommandTree.Console.Options
import CommandTree.Portal.Commands
import CommandTree.Settings.File

/-!
# The console

The console runs the portal commands, line by line.  A line that begins with `?` is completed
instead, a blank line is passed over, and a line whose first word is no label is refused.

Results:
* `answer_blank`: a blank line changes nothing and prints nothing.
-/
namespace CommandTree.Console

open Portal

def version : String := "bcf 0.3.0-dev"

def usage : String := "Usage: bcf [--config <CONFIG>] [--player <PLAYER>] [--online <ONLINE>]"

def registry (settings : Settings) : Registry Session := Portal.register { settings }

/-- The session that the options ask for: a player is online, unless it is the console. -/
def session (o : Options) : Session :=
  let name := o.playerName
  let online := o.onlineNames
  { name
    online :=
      if Text.sameUpToAsciiCase name "console" || online.contains name then online
      else online ++ [name] }

/-- The lines printed for a line of input, and the session behind it. -/
def answer (r : Registry Session) (s : Session) (line : String) : List String × Session :=
  match line.toList with
  | '?' :: rest => ([" ".intercalate (r.complete s (.ofList rest))], s)
  | cs =>
    if cs.all Text.isBlank then ([], s)
    else
      let label := Text.firstWord line
      match r.get? label with
      | none => (["Unknown command: " ++ label], s)
      | some _ =>
        let (_, _, s) := r.execute s line
        (s.replies, s.shown)

/-- The lines printed for several lines of input. -/
def answers (r : Registry Session) (s : Session) : List String → List String
  | [] => []
  | line :: rest =>
    let (printed, s) := answer r s line
    printed ++ answers r s rest

/-- A line that was ended, without the carriage return before its end. -/
def endedLine (cs : List Char) : String :=
  .ofList (if cs.getLast? = some '\r' then cs.dropLast else cs)

/-- The lines of a text; behind the last line end only what is not empty is one. -/
def linesOf (text : String) : List String :=
  let pieces := Text.partsChars '\n' text.toList
  pieces.dropLast.map endedLine ++
    match pieces.getLast? with
    | some (c :: cs) => [.ofList (c :: cs)]
    | _ => []

/-- How a run ends: the exit code, what was printed, and what then stands at the place of the
settings file. -/
structure Ended where
  code : Nat
  printed : List String := []
  place : Option Settings.Place := none

/-- The settings that the options ask for, and the place of their file afterwards. -/
def settings (o : Options) (placeOf : String → Settings.Place) :
    Except Settings.LoadError Settings × Option Settings.Place :=
  match o.config with
  | none => (.ok {}, none)
  | some path =>
    let (loaded, place) := Settings.load Settings.toml (placeOf path)
    (loaded, some place)

def run (args : List String) (placeOf : String → Settings.Place) (input : String) : Ended :=
  match parse args with
  | .version => { code := 0, printed := [version] }
  | .help => { code := 0, printed := [usage] }
  | .misuse => { code := 2 }
  | .run o =>
    match settings o placeOf with
    | (.error _, place) => { code := 1, place }
    | (.ok settings, place) =>
      { code := 0, printed := answers (registry settings) (session o) (linesOf input), place }

theorem answer_blank (r : Registry Session) (s : Session) {line : String}
    (h : line.toList.all Text.isBlank = true) : answer r s line = ([], s) := by
  unfold answer
  split
  · rename_i rest he
    rw [he] at h
    simp [show Text.isBlank '?' = false by decide] at h
  · simp [h]

end CommandTree.Console
