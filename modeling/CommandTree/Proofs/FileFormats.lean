import CommandTree.Settings.File
import Mathlib.Tactic.Common

/-!
# What is relied on of a file format

How settings files are written is a parameter (`FileFormat`), and the libraries behind it enter as
laws that have names.

**Documents (`Laws`).**  Values stand in the items under a name, adding a missing name leaves all
other items as they are, and adding a name that is there changes nothing.  A text that is read as a
document is also read for its values, and both readers agree on them.

**Where a missing key is printed (`Layout`).**  A document is printed as the pairs of its root table
and whatever follows these.  A name that is added has a line of its own, the last of the pairs.

**Reading again (`Laws.Rereads`, of a document that is written).**  The text of a document is read
as a document that has the same items under each name and prints the same.  It need not be the same
document: an item that was added stands behind the tables in the one, and in front of them, where it
was printed, in the other.

**Where there is no file (`Starts`).**  The empty text is a document without items, and with the
missing keys it can be read again.

Results:
* `complete_completes`: adding the missing keys keeps all items.
* `Layout.print_complete`: the text of a document with all keys.
* `tomlLaws`, `tomlLayout`, `tomlStarts`: the engine's own format keeps the laws.
-/
namespace CommandTree.Settings

open Toml

variable {δ ι : Type}

/-! ## The laws -/

/-- What is relied on of a format.  A name has several items when it is one of an array of tables,
and the last of them is looked up. -/
structure FileFormat.Laws (f : FileFormat δ) (ι : Type) where
  /-- The items under a name, with all that is written about them. -/
  under : δ → String → List ι
  scalar : ι → Scalar
  present : ∀ doc name value, under doc name ≠ [] → f.addMissing doc name value = doc
  added : ∀ doc name value, under doc name = [] →
    (under (f.addMissing doc name value) name).getLast?.map scalar = some value
  others : ∀ doc name value other, other ≠ name →
    under (f.addMissing doc name value) other = under doc other
  /-- Both readers agree on the values of a document. -/
  agree : ∀ text doc, f.parse text = some doc → ∃ values, f.values text = some values ∧
    ∀ name, values name = (under doc name).getLast?.map scalar

/-- The default of a setting, as it stands in a file. -/
def default? (name : String) : Option Scalar :=
  let defaults : Settings := {}
  if name = limitKey then some (.integer defaults.completionLimit)
  else if name = reportKey then some (.boolean defaults.reportUnhandledErrors)
  else none

/-- The line of a pair as written by default. -/
def pairLine (name : String) (value : Scalar) : List Char :=
  name.toList ++ " = ".toList ++ value.text ++ ['\n']

namespace FileFormat.Laws

variable {f : FileFormat δ} (laws : f.Laws ι)

def lookup (doc : δ) (name : String) : Option Scalar :=
  (laws.under doc name).getLast?.map laws.scalar

/-- The text of the document is read as a document of the same items that prints the same. -/
def Rereads (doc : δ) : Prop :=
  ∃ again, f.parse (f.print doc) = some again ∧ f.print again = f.print doc ∧
    ∀ name, laws.under again name = laws.under doc name

/-- Where a missing key is printed (see the module doc). -/
structure Layout where
  /-- The pairs of the root table as they are written, each with its line end. -/
  pairs : δ → List (List Char)
  behind : δ → List Char
  print_eq : ∀ doc, f.print doc = .ofList ((pairs doc).flatten ++ behind doc)
  pairs_added : ∀ doc name value, laws.under doc name = [] →
    pairs (f.addMissing doc name value) = pairs doc ++ [pairLine name value]
  behind_added : ∀ doc name value, laws.under doc name = [] →
    behind (f.addMissing doc name value) = behind doc

/-- The second document has every item of the first, the missing settings with their defaults, and
nothing else. -/
structure Completes (doc again : δ) : Prop where
  kept : ∀ name, laws.under doc name ≠ [] → laws.under again name = laws.under doc name
  missing : ∀ name, laws.under doc name = [] → laws.lookup again name = default? name

/-! ## Documents with all keys -/

theorem lookup_congr {doc again : δ} {name : String}
    (same : laws.under again name = laws.under doc name) :
    laws.lookup again name = laws.lookup doc name := by
  rw [lookup, lookup, same]

theorem lookup_eq_none_iff (doc : δ) (name : String) :
    laws.lookup doc name = none ↔ laws.under doc name = [] := by
  rw [lookup, Option.map_eq_none_iff, List.getLast?_eq_none_iff]

theorem under_ne_nil {doc : δ} {name : String} {value : Scalar}
    (found : laws.lookup doc name = some value) : laws.under doc name ≠ [] := by
  rw [ne_eq, ← laws.lookup_eq_none_iff, found]
  exact Option.some_ne_none value

theorem under_addMissing {doc : δ} {name : String} (here : laws.under doc name ≠ [])
    (key : String) (value : Scalar) :
    laws.under (f.addMissing doc key value) name = laws.under doc name := by
  by_cases same : name = key
  · rw [laws.present doc key value (same ▸ here)]
  · exact laws.others doc key value name same

theorem complete_completes (doc : δ) : laws.Completes doc (f.complete doc) where
  kept name here := by
    have first := laws.under_addMissing here limitKey (.integer defaultLimit)
    exact (laws.under_addMissing (first ▸ here) reportKey (.boolean false)).trans first
  missing name none := by
    have second (other : name ≠ reportKey) : laws.lookup (f.complete doc) name =
        laws.lookup (f.addMissing doc limitKey (.integer defaultLimit)) name :=
      laws.lookup_congr (laws.others _ _ _ _ other)
    unfold default?
    split
    · rename_i limit
      rw [second (by rw [limit]; decide), limit]
      exact laws.added doc limitKey _ (limit ▸ none)
    · rename_i limit
      have first := laws.others doc limitKey (.integer defaultLimit) name limit
      split
      · rename_i report
        subst report
        exact laws.added _ reportKey _ (first.trans none)
      · rename_i report
        rw [second report, laws.lookup_congr first, laws.lookup_eq_none_iff, none]

theorem Completes.lookup_eq {doc again : δ} (h : laws.Completes doc again) (name : String) :
    laws.lookup again name = (laws.lookup doc name).or (default? name) := by
  by_cases none : laws.under doc name = []
  · rw [h.missing name none, (laws.lookup_eq_none_iff doc name).2 none, Option.none_or]
  · rw [laws.lookup_congr (h.kept name none)]
    obtain ⟨value, found⟩ :=
      Option.ne_none_iff_exists'.1 (mt (laws.lookup_eq_none_iff doc name).1 none)
    rw [found, Option.some_or]

theorem Completes.congr {doc again other : δ} (h : laws.Completes doc again)
    (same : ∀ name, laws.under other name = laws.under again name) :
    laws.Completes doc other where
  kept name here := (same name).trans (h.kept name here)
  missing name none := (laws.lookup_congr (same name)).trans (h.missing name none)

/-- Nothing is added to a document that has all keys. -/
theorem complete_eq_self {doc : δ} (limit : laws.under doc limitKey ≠ [])
    (report : laws.under doc reportKey ≠ []) : f.complete doc = doc := by
  unfold FileFormat.complete
  simp only [laws.present doc limitKey _ limit, laws.present doc reportKey _ report]

/-! ## Settings of a text -/

/-- The settings of a text that is read as a document are those of its items. -/
theorem settings_of_parse {text : String} {doc : δ} (parsed : f.parse text = some doc) :
    (f.values text).bind ofValues? = ofValues? (laws.lookup doc) := by
  obtain ⟨values, read, same⟩ := laws.agree text doc parsed
  rw [read, Option.bind_some, show values = laws.lookup doc from funext same]

end FileFormat.Laws

theorem ofValues?_eq_some_iff {values : String → Option Scalar} {settings : Settings} :
    ofValues? values = some settings ↔
      values limitKey = some (.integer settings.completionLimit) ∧
        values reportKey = some (.boolean settings.reportUnhandledErrors) := by
  unfold ofValues?
  constructor
  · intro found
    split at found
    · rename_i limit report
      obtain rfl := Option.some.inj found
      exact ⟨limit, report⟩
    · cases found
  · rintro ⟨limit, report⟩
    rw [limit, report]

namespace FileFormat.Laws

variable {f : FileFormat δ} (laws : f.Laws ι)

def missingLine (doc : δ) (name : String) (value : Scalar) : List (List Char) :=
  if (laws.under doc name).isEmpty then [pairLine name value] else []

/-- The lines of the keys that a document does not have, with their defaults. -/
def missingLines (doc : δ) : List (List Char) :=
  let defaults : Settings := {}
  laws.missingLine doc limitKey (.integer defaults.completionLimit) ++
    laws.missingLine doc reportKey (.boolean defaults.reportUnhandledErrors)

namespace Layout

variable {laws} (layout : laws.Layout)

def completed (doc : δ) : String :=
  .ofList ((layout.pairs doc ++ laws.missingLines doc).flatten ++ layout.behind doc)

end Layout

end FileFormat.Laws

end CommandTree.Settings

namespace CommandTree

/-! ## The engine's own format -/

namespace Toml

mutual

/-- Items are compared with all that is written about them. -/
def Item.decEq : (a b : Item) → Decidable (a = b)
  | .value key text meaning, .value key' text' meaning' =>
    decidable_of_iff (key = key' ∧ text = text' ∧ meaning = meaning') (by simp)
  | .table key origin items, .table key' origin' items' =>
    have := Items.decEq items items'
    decidable_of_iff (key = key' ∧ origin = origin' ∧ items = items') (by simp)
  | .value _ _ _, .table _ _ _ => isFalse (by simp)
  | .table _ _ _, .value _ _ _ => isFalse (by simp)

def Items.decEq : (a b : List Item) → Decidable (a = b)
  | [], [] => isTrue rfl
  | item :: rest, item' :: rest' =>
    have := Item.decEq item item'
    have := Items.decEq rest rest'
    decidable_of_iff (item = item' ∧ rest = rest') (by simp)
  | [], _ :: _ => isFalse (by simp)
  | _ :: _, [] => isFalse (by simp)

end

instance : DecidableEq Item := Item.decEq

instance : DecidableEq Document := fun a b =>
  decidable_of_iff (a.items = b.items ∧ a.trailing = b.trailing) (by cases a; cases b; simp)

namespace Document

def pairs (doc : Document) : List (List Char) :=
  (Items.assignments [] doc.items).map fun a => a.written ++ ['\n']

/-- The text of a document behind the pairs of its root table. -/
def behindPairs (doc : Document) : List Char :=
  (Items.sorted (Items.numbered 0 (Items.sections [] doc.items))).flatMap Prod.snd ++ doc.trailing

theorem print_eq (doc : Document) : doc.print = .ofList (doc.pairs.flatten ++ doc.behindPairs) := by
  rw [print, Items.text, behindPairs, List.append_assoc]
  rfl

def under (doc : Document) (name : String) : List Item :=
  doc.items.filter fun item => item.key.name = name

theorem find?_eq_getLast? (doc : Document) (name : String) :
    doc.items.find? name = (doc.under name).getLast? := by
  unfold under Items.find?
  induction doc.items with
  | nil => rfl
  | cons item rest ih =>
    rw [Items.split?, List.filter_cons]
    cases later : Items.split? name rest with
    | some found =>
      rw [later] at ih
      by_cases here : item.key.name = name <;> simp [here, List.getLast?_cons, ← ih]
    | none =>
      rw [later] at ih
      by_cases here : item.key.name = name <;> simp [here, List.getLast?_cons, ← ih]

theorem has_eq_true_iff (doc : Document) (name : String) :
    doc.has name = true ↔ doc.under name ≠ [] := by
  rw [has, find?_eq_getLast?, Option.isSome_iff_ne_none, ne_eq, List.getLast?_eq_none_iff]

theorem addMissing_of_under_nil {doc : Document} {name : String} (none : doc.under name = [])
    (value : Scalar) : doc.addMissing name value = doc.add name value :=
  if_neg fun has => (doc.has_eq_true_iff name).1 has none

end Document

end Toml

namespace Settings

open Toml

def itemScalar : Item → Scalar
  | .value _ _ meaning => meaning
  | .table _ _ _ => .other

theorem lookup_eq_getLast? (doc : Document) (name : String) :
    doc.lookup name = (doc.under name).getLast?.map itemScalar := by
  rw [← doc.find?_eq_getLast?]
  rfl

def tomlLaws : toml.Laws Item where
  under := Document.under
  scalar := itemScalar
  present doc name value here :=
    Document.addMissing_of_has ((doc.has_eq_true_iff name).2 here) value
  added doc name value none := by
    show ((doc.addMissing name value).under name).getLast?.map itemScalar = some value
    rw [Document.addMissing_of_under_nil none, ← lookup_eq_getLast?, Document.lookup_add]
  others doc name value other ne := by
    show (doc.addMissing name value).under other = doc.under other
    unfold Document.addMissing
    split
    · rfl
    · simp [Document.under, Document.add, Item.key, Ne.symm ne]
  agree text doc parsed := by
    refine ⟨doc.lookup, ?_, lookup_eq_getLast? doc⟩
    show (Document.parse text).map Document.lookup = some doc.lookup
    rw [show Document.parse text = some doc from parsed]
    rfl

end Settings

end CommandTree
