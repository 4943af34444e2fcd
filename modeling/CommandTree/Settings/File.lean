import CommandTree.Settings
import CommandTree.Toml.Document

/-!
# Settings files

Settings are kept in a file that users edit.  Loading adds the keys that are missing, with their
defaults, and writes the file back if that changed it; everything else in the file stays as it
is.  How the file is written is left open (`FileFormat`); the engine's is TOML.  The document is
read by a library that keeps all that is written, the values by another one.

Results:
* `load_unreadable`, `load_unparsed`: a file that cannot be read is not touched.
-/
namespace CommandTree

namespace Settings

/-- Why settings could not be loaded. -/
inductive LoadError
  /-- The file could not be read or written. -/
  | access
  /-- The file is not in the format. -/
  | format
  /-- A value is not of the type of its key. -/
  | value
deriving DecidableEq, Repr

def LoadError.message : LoadError → String
  | .access => "could not access config file"
  | .format => "config file is not valid TOML"
  | .value => "invalid config value"

/-- What stands at a path. -/
inductive Place
  /-- A file with this content, or none yet. -/
  | file (content : Option ByteArray)
  /-- Something that is no file. -/
  | directory
  /-- Nothing, and nothing can be put there. -/
  | unreachable

namespace Place

def read : Place → Option String
  | .file (some bytes) => String.fromUTF8? bytes
  | .file none => some ""
  | .directory => none
  | .unreachable => some ""

def write (text : String) : Place → Option Place
  | .file _ => some (.file (some text.toUTF8))
  | .directory => none
  | .unreachable => none

end Place

/-- A way to write documents with named values.  A text has two readers: one for the document, with
all that is written in it, and one for no more than the values under the names. -/
structure FileFormat (δ : Type) where
  parse : String → Option δ
  print : δ → String
  addMissing : δ → String → Toml.Scalar → δ
  values : String → Option (String → Option Toml.Scalar)

def toml : FileFormat Toml.Document where
  parse := Toml.Document.parse
  print := Toml.Document.print
  addMissing := Toml.Document.addMissing
  values text := (Toml.Document.parse text).map Toml.Document.lookup

def limitKey : String := "completion_limit"

def reportKey : String := "report_unhandled_errors"

variable {δ : Type}

/-- The document with the missing settings added. -/
def FileFormat.complete (f : FileFormat δ) (doc : δ) : δ :=
  let defaults : Settings := {}
  f.addMissing (f.addMissing doc limitKey (.integer defaults.completionLimit)) reportKey
    (.boolean defaults.reportUnhandledErrors)

/-- The settings that the values of a text come to, if both are there and of their types. -/
def ofValues? (values : String → Option Toml.Scalar) : Option Settings :=
  match values limitKey, values reportKey with
  | some (.integer (.ofNat limit)), some (.boolean report) => some ⟨limit, report⟩
  | _, _ => none

/-- Loads settings; gives the place as it is afterwards.  The values are those of the text with all
keys, read after it has been written. -/
def load (f : FileFormat δ) (place : Place) : Except LoadError Settings × Place :=
  match place.read with
  | none => (.error .access, place)
  | some text =>
    match f.parse text with
    | none => (.error .format, place)
    | some doc =>
      let patched := f.print (f.complete doc)
      match if patched = text then some place else place.write patched with
      | none => (.error .access, place)
      | some place =>
        match (f.values patched).bind ofValues? with
        | some settings => (.ok settings, place)
        | none => (.error .value, place)

theorem load_unreadable (f : FileFormat δ) {place : Place} (h : place.read = none) :
    load f place = (.error .access, place) := by
  simp [load, h]

theorem load_unparsed (f : FileFormat δ) {place : Place} {text : String}
    (h : place.read = some text) (hp : f.parse text = none) :
    load f place = (.error .format, place) := by
  simp [load, h, hp]

end Settings

end CommandTree
