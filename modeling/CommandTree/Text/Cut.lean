/-!
# Cutting text at a character

A line is read token by token: `cut ' '` takes the text before the first space and, if there
was a space, what follows it.  `parts` cuts at every occurrence, as aliases are separated.

Results:
* `cutChars_eq_some_iff`, `cutChars_eq_none_iff`: where the cut falls.
* `flatten_partsChars`: the parts, with the separator between them, are the text.
-/
namespace CommandTree.Text

/-- The characters before the first `sep`, and those after it if there is one. -/
def cutChars (sep : Char) : List Char → List Char × Option (List Char)
  | [] => ([], none)
  | c :: cs =>
    if c = sep then ([], some cs)
    else
      let (before, after) := cutChars sep cs
      (c :: before, after)

/-- The text before the first `sep`, and the text after it if there is one. -/
def cut (sep : Char) (s : String) : String × Option String :=
  let (before, after) := cutChars sep s.toList
  (.ofList before, after.map .ofList)

/-- The runs of characters between occurrences of `sep`; never an empty list. -/
def partsChars (sep : Char) : List Char → List (List Char)
  | [] => [[]]
  | c :: cs =>
    if c = sep then [] :: partsChars sep cs
    else
      match partsChars sep cs with
      | [] => [[c]]
      | part :: rest => (c :: part) :: rest

/-- The pieces of `s` between occurrences of `sep`, `[""]` for empty text. -/
def parts (sep : Char) (s : String) : List String :=
  (partsChars sep s.toList).map .ofList

def beginsWith (s start : String) : Bool := start.toList.isPrefixOf s.toList

/-- The text after a leading `-`, the mark of a flag. -/
def afterDash (s : String) : Option String :=
  match s.toList with
  | '-' :: rest => some (.ofList rest)
  | _ => none

theorem cutChars_eq_some_iff {sep : Char} {cs before after : List Char} :
    cutChars sep cs = (before, some after) ↔ sep ∉ before ∧ cs = before ++ sep :: after := by
  induction cs generalizing before with
  | nil => simp [cutChars]
  | cons c cs ih =>
    by_cases h : c = sep
    · subst h
      simp only [cutChars, if_true, Prod.mk.injEq, Option.some.injEq]
      constructor
      · rintro ⟨rfl, rfl⟩; simp
      · rintro ⟨hn, he⟩
        cases before with
        | nil => simpa using he
        | cons b bs => simp only [List.cons_append, List.cons.injEq] at he; simp [he.1] at hn
    · simp only [cutChars, if_neg h, Prod.mk.injEq]
      constructor
      · rintro ⟨rfl, ha⟩
        obtain ⟨h1, h2⟩ := (@ih (cutChars sep cs).1).1 (by rw [← ha])
        exact ⟨by simp [h1, Ne.symm h], by rw [List.cons_append, ← h2]⟩
      · rintro ⟨hn, he⟩
        cases before with
        | nil => simp only [List.nil_append, List.cons.injEq] at he; exact absurd he.1 h
        | cons b bs =>
          simp only [List.cons_append, List.cons.injEq] at he
          simp only [List.mem_cons, not_or] at hn
          have := (@ih bs).2 ⟨hn.2, he.2⟩
          rw [this]; simp [he.1]

theorem cutChars_eq_none_iff {sep : Char} {cs : List Char} :
    cutChars sep cs = (cs, none) ↔ sep ∉ cs := by
  induction cs with
  | nil => simp [cutChars]
  | cons c cs ih =>
    by_cases h : c = sep
    · simp [cutChars, h]
    · simp only [cutChars, if_neg h, Prod.mk.injEq, List.cons.injEq, true_and, List.mem_cons,
        not_or, Ne.symm h, not_false_eq_true]
      rw [← ih]
      constructor
      · rintro ⟨h1, h2⟩; exact Prod.ext h1 h2
      · intro e; rw [e]; exact ⟨rfl, rfl⟩

theorem partsChars_ne_nil (sep : Char) (cs : List Char) : partsChars sep cs ≠ [] := by
  cases cs with
  | nil => simp [partsChars]
  | cons c cs =>
    unfold partsChars
    split
    · simp
    · split <;> simp

theorem flatten_partsChars (sep : Char) (cs : List Char) :
    ((partsChars sep cs).intersperse [sep]).flatten = cs := by
  induction cs with
  | nil => rfl
  | cons c cs ih =>
    unfold partsChars
    cases hp : partsChars sep cs with
    | nil => exact absurd hp (partsChars_ne_nil sep cs)
    | cons p ps =>
      rw [hp] at ih
      split
      · rename_i h; simp [List.intersperse, ih, h]
      · cases ps <;> simp_all [List.intersperse]

end CommandTree.Text
