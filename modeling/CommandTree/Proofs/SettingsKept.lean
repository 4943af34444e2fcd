import CommandTree.Proofs.SettingsLoad
import Mathlib.Logic.Function.Iterate

/-!
# What loading settings keeps

A load adds the keys that are missing and keeps everything else that the user wrote.  What it
returns are the values of the file, with the defaults for the missing keys, and from then on
loading changes nothing: every further load finds all keys, returns the same settings and leaves
the file byte for byte as it is.

The format is a parameter with its laws (`FileFormat.Laws`).  Of the document that is written it is
relied on that its text can be read again (`Laws.Rereads`).

Results:
* `load_of_settled`: a file with all keys is left as it is.
* `load_keeps`: what a load keeps, and that it need not be repeated.
-/
namespace CommandTree.Settings

open Toml

/-! ## Loads that succeed -/

variable {δ ι : Type} {f : FileFormat δ}

theorem verdict_eq_ok_iff {text : String} {settings : Settings} :
    verdict f text = .ok settings ↔ (f.values text).bind ofValues? = some settings := by
  unfold verdict
  cases (f.values text).bind ofValues? <;> simp

theorem fromUTF8?_toUTF8 (text : String) : String.fromUTF8? text.toUTF8 = some text := by
  rw [String.fromUTF8?, String.toUTF8_eq_toByteArray, dif_pos text.isValidUTF8]
  rfl

theorem Place.read_of_write {place after : Place} {text : String}
    (written : place.write text = some after) : after.read = some text := by
  cases place with
  | file content =>
    obtain rfl := Option.some.inj written
    exact fromUTF8?_toUTF8 text
  | directory => cases written
  | unreachable => cases written

/-- Behind a load that succeeds stands the text of the document with all keys. -/
theorem Loads.of_ok {place after : Place} {settings : Settings}
    {outcome : Except LoadError Settings} (went : Loads f place outcome after)
    (succeeded : outcome = .ok settings) :
    ∃ text doc, place.read = some text ∧ f.parse text = some doc ∧
      after.read = some (f.print (f.complete doc)) ∧
      (f.values (f.print (f.complete doc))).bind ofValues? = some settings := by
  cases went with
  | unreadable _ | unparsed _ _ | unwritten _ _ _ _ => cases succeeded
  | kept read parsed unchanged =>
    exact ⟨_, _, read, parsed, unchanged ▸ read, verdict_eq_ok_iff.1 succeeded⟩
  | rewritten read parsed _ written =>
    exact ⟨_, _, read, parsed, Place.read_of_write written, verdict_eq_ok_iff.1 succeeded⟩

/-- A file with all keys is left as it is, when its document is read from its own text. -/
theorem load_of_settled {place : Place} {doc : δ} {settings : Settings}
    (read : place.read = some (f.print doc)) (parsed : f.parse (f.print doc) = some doc)
    (settled : f.complete doc = doc) (judged : verdict f (f.print doc) = .ok settings) :
    load f place = (.ok settings, place) := by
  rw [load_parsed f read parsed, settled, if_pos rfl]
  simp only [judged]

/-- **A load keeps what the file holds, and need not be repeated.**  When a load succeeds, the
settings are the values of the file, and the defaults for the keys that it does not have.  The file
then holds the text of a document that has every item of the file's own document, and the missing
keys besides.  Every further load returns the same settings and leaves the file as it is. -/
theorem load_keeps (laws : f.Laws ι) {place after : Place} {settings : Settings}
    (rereads : ∀ text doc, place.read = some text → f.parse text = some doc →
      laws.Rereads (f.complete doc))
    (loaded : load f place = (.ok settings, after)) :
    ∃ text doc again,
      (place.read = some text ∧ f.parse text = some doc) ∧
      (after.read = some (f.print again) ∧ f.parse (f.print again) = some again) ∧
      laws.Completes doc again ∧
      (laws.lookup doc limitKey).or (default? limitKey) =
        some (.integer settings.completionLimit) ∧
      (laws.lookup doc reportKey).or (default? reportKey) =
        some (.boolean settings.reportUnhandledErrors) ∧
      ∀ loads, load f ((fun place => (load f place).2)^[loads] after) = (.ok settings, after) := by
  have went : Loads f place (.ok settings) after := by simpa only [loaded] using loads f place
  obtain ⟨text, doc, read, parsed, held, judged⟩ := went.of_ok rfl
  obtain ⟨again, reparsed, printed, same⟩ := rereads text doc read parsed
  rw [← printed] at held reparsed judged
  have completes := (laws.complete_completes doc).congr laws same
  obtain ⟨limit, report⟩ :=
    ofValues?_eq_some_iff.1 ((laws.settings_of_parse reparsed).symm.trans judged)
  have settled : f.complete again = again :=
    laws.complete_eq_self (laws.under_ne_nil limit) (laws.under_ne_nil report)
  have once : load f after = (.ok settings, after) :=
    load_of_settled held reparsed settled (verdict_eq_ok_iff.2 judged)
  refine ⟨text, doc, again, ⟨read, parsed⟩, ⟨held, reparsed⟩, completes,
    (completes.lookup_eq laws limitKey).symm.trans limit,
    (completes.lookup_eq laws reportKey).symm.trans report, fun loads => ?_⟩
  have stays : (fun place => (load f place).2) after = after := congrArg Prod.snd once
  rw [Function.iterate_fixed stays, once]

/-! ## A file with a comment, a table and one of the keys -/

def tunedText : String := "# tuned\ncompletion_limit = 5 # few\n\n[colors]\nred = true\n"

def completedText : String :=
  "# tuned\ncompletion_limit = 5 # few\nreport_unhandled_errors = false\n\n[colors]\nred = true\n"

def limitItem : Item :=
  .value
    { name := limitKey, spelling := limitKey.toList, lead := "# tuned\n".toList, trail := [' '] }
    " 5 # few".toList (.integer 5)

def reportItem : Item :=
  .value { name := reportKey, spelling := reportKey.toList, trail := [' '] } " false".toList
    (.boolean false)

def colorsItem : Item :=
  .table { name := "colors", spelling := "colors".toList }
    (.header { number := 1, isElement := false, before := ['\n'], behind := [] })
    [.value { name := "red", spelling := "red".toList, trail := [' '] } " true".toList
      (.boolean true)]

/-- The missing key is added behind the table and printed in front of it, where it is read again. -/
theorem tuned_texts :
    toml.parse tunedText = some { items := [limitItem, colorsItem] } ∧
      toml.complete { items := [limitItem, colorsItem] } =
        { items := [limitItem, colorsItem, reportItem] } ∧
      toml.print { items := [limitItem, colorsItem, reportItem] } = completedText ∧
      toml.parse completedText = some { items := [limitItem, reportItem, colorsItem] } ∧
      toml.print { items := [limitItem, reportItem, colorsItem] } = completedText := by
  decide +kernel

theorem tuned_rereads : tomlLaws.Rereads (toml.complete { items := [limitItem, colorsItem] }) := by
  obtain ⟨-, complete, print, parse, again⟩ := tuned_texts
  rw [complete]
  refine ⟨{ items := [limitItem, reportItem, colorsItem] }, ?_, ?_, fun name => ?_⟩
  · rw [print, parse]
  · rw [print, again]
  · show Document.under _ name = Document.under _ name
    unfold Document.under
    by_cases report : reportItem.key.name = name
    · subst report
      rfl
    · simp [List.filter_cons, report]

/-- The limit is that of the file, and further loads change nothing. -/
theorem load_keeps_tuned :
    load toml (.file (some tunedText.toUTF8)) =
        (.ok ⟨5, false⟩, .file (some completedText.toUTF8)) ∧
      ∀ loads, load toml ((fun place => (load toml place).2)^[loads]
        (.file (some completedText.toUTF8))) =
          (.ok ⟨5, false⟩, .file (some completedText.toUTF8)) := by
  obtain ⟨parse, complete, print, again, -⟩ := tuned_texts
  have read : (Place.file (some tunedText.toUTF8)).read = some tunedText := fromUTF8?_toUTF8 _
  have changed : completedText ≠ tunedText := by decide
  have judged : verdict toml completedText = .ok ⟨5, false⟩ := by
    rw [verdict_eq_ok_iff, tomlLaws.settings_of_parse again]
    rfl
  have loaded : load toml (.file (some tunedText.toUTF8)) =
      (.ok ⟨5, false⟩, .file (some completedText.toUTF8)) := by
    rw [load_parsed toml read parse, complete, print, if_neg changed]
    simp only [Place.write, judged]
  have rereads : ∀ text doc, (Place.file (some tunedText.toUTF8)).read = some text →
      toml.parse text = some doc → tomlLaws.Rereads (toml.complete doc) := by
    intro text doc held parsed
    obtain rfl := Option.some.inj (read.symm.trans held)
    obtain rfl := Option.some.inj (parse.symm.trans parsed)
    exact tuned_rereads
  obtain ⟨-, -, -, -, -, -, -, -, stays⟩ := load_keeps tomlLaws rereads loaded
  exact ⟨loaded, stays⟩

end CommandTree.Settings
