import CommandTree.Text.Cut

/-!
# Descriptors

What is declared of one node of a command tree: a name and named parameters.  A name lists
spellings separated by `|`, or begins with `@` and names an argument type.  A `switch` parameter
makes the node a switch and lists the flags that it answers to.

Two descriptors count as equal when their names are: siblings of one name are one node, with the
parameters it was first given.

Results:
* `Params.get?_set`: what is found under a key after setting one.
* `Params.keys_set`: a repeated key keeps its place, a new one comes last.
-/
namespace CommandTree

/-- Parameters in the order in which their keys were first given. -/
structure Params where
  entries : List (String × String) := []
deriving DecidableEq, Repr, Inhabited

namespace Params

/-- Replaces the value of `key` where it stands, or adds the pair at the end. -/
def setIn (key value : String) : List (String × String) → List (String × String)
  | [] => [(key, value)]
  | (k, v) :: rest => if k = key then (key, value) :: rest else (k, v) :: setIn key value rest

def set (ps : Params) (key value : String) : Params := ⟨setIn key value ps.entries⟩

def get? (ps : Params) (key : String) : Option String := ps.entries.lookup key

def ofList (pairs : List (String × String)) : Params :=
  pairs.foldl (fun ps (key, value) => ps.set key value) {}

theorem lookup_setIn (key value other : String) (es : List (String × String)) :
    (setIn key value es).lookup other = if other = key then some value else es.lookup other := by
  induction es with
  | nil =>
    by_cases h : other = key
    · simp [setIn, h]
    · simp [setIn, List.lookup_cons, h, beq_false_of_ne h]
  | cons e es ih =>
    obtain ⟨k, v⟩ := e
    unfold setIn
    by_cases hk : k = key
    · subst hk
      by_cases h : other = k
      · simp [h]
      · simp [List.lookup_cons, h, beq_false_of_ne h]
    · rw [if_neg hk, List.lookup_cons, List.lookup_cons, ih]
      by_cases h : other = k
      · subst h; simp [hk]
      · simp [beq_false_of_ne h]

/-- Setting one key changes what is found under it and nothing else. -/
theorem get?_set (ps : Params) (key value other : String) :
    (ps.set key value).get? other = if other = key then some value else ps.get? other :=
  lookup_setIn key value other ps.entries

theorem keys_setIn (key value : String) (es : List (String × String)) :
    (setIn key value es).map Prod.fst =
      if key ∈ es.map Prod.fst then es.map Prod.fst else es.map Prod.fst ++ [key] := by
  induction es with
  | nil => simp [setIn]
  | cons e es ih =>
    obtain ⟨k, v⟩ := e
    unfold setIn
    split
    · rename_i hk; simp [hk]
    · rename_i hk
      rw [List.map_cons, ih]
      by_cases h : key ∈ es.map Prod.fst
      · simp [h]
      · simp [h, Ne.symm hk]

/-- A repeated key keeps its place and a new one comes last. -/
theorem keys_set (ps : Params) (key value : String) :
    (ps.set key value).entries.map Prod.fst =
      if key ∈ ps.entries.map Prod.fst then ps.entries.map Prod.fst
      else ps.entries.map Prod.fst ++ [key] :=
  keys_setIn key value ps.entries

end Params

structure Descriptor where
  name : String
  params : Params := {}
deriving Repr, Inhabited

namespace Descriptor

def parameter (d : Descriptor) (key : String) : Option String := d.params.get? key

/-- The spellings listed by the name. -/
def aliases (d : Descriptor) : List String := Text.parts '|' d.name

/-- Whether the node is a switch, found on the line by its flag. -/
def isSwitch (d : Descriptor) : Bool := (d.parameter "switch").isSome

def flags (d : Descriptor) : List String :=
  match d.parameter "switch" with
  | some listed => Text.parts '|' listed
  | none => []

/-- The descriptor as `name(key=value, key=value)`. -/
def text (d : Descriptor) : String :=
  d.name ++ "(" ++ ", ".intercalate (d.params.entries.map fun (k, v) => k ++ "=" ++ v) ++ ")"

/-- Descriptors are compared by name alone. -/
instance : BEq Descriptor := ⟨fun a b => a.name == b.name⟩

theorem beq_iff (a b : Descriptor) : (a == b) = true ↔ a.name = b.name := by
  show (a.name == b.name) = true ↔ _
  exact beq_iff_eq

end Descriptor

end CommandTree
