import CommandTree.Proofs.Derivation
import Mathlib.Tactic.SplitIfs

/-!
# Spelling a path

A line spells a path by a token for each node that is no switch, and by a `-flag value` pair for
each switch that is not left out.  A `Station` is a node of the path with what the line has for it,
and `Fits` says that the node accepts that.  The pieces may stand on the line in more than one
order (`Arranges`): no token stands behind what follows its node on the path.

The types here are the engine's own (`Basic`), which take one token each and look at nothing but
that token and their descriptor.

Results:
* `lineOf_eq`: the line that a dispatch reads is the pieces with a space between.
* `consume_behind`: a node takes its token and leaves the pieces behind it.
-/
namespace CommandTree

variable {ε : Type}

/-! ## Types that read one token -/

/-- The types of texts, integers, doubles and literals. -/
def ArgumentType.Basic (type : ArgumentType ε) : Prop :=
  type = .text ∨ type = .integer ∨ type = .double ∨ type = .literal

theorem ArgumentType.Basic.consume_eq {type : ArgumentType ε} (h : type.Basic) :
    type.consume = consumeToken := by
  rcases h with rfl | rfl | rfl | rfl <;> rfl

theorem ArgumentType.Basic.result_eq {type : ArgumentType ε} (h : type.Basic) (token : String)
    (d : Descriptor) (around around' : Surroundings ε) :
    type.result token d around = type.result token d around' := by
  rcases h with rfl | rfl | rfl | rfl <;> rfl

theorem TypeTable.lookup_standard (node : String) :
    (standard : TypeTable ε).lookup node =
      if node = "@double" then .double
      else if node = "@int" then .integer
      else if node = "@string" then .text
      else .literal := by
  have none : (⟨[]⟩ : TypeTable ε).lookup node = .literal := rfl
  simp only [standard, lookup_register, nodeName, none]
  rfl

theorem TypeTable.standard_basic (node : String) :
    ((standard : TypeTable ε).lookup node).Basic := by
  rw [lookup_standard, ArgumentType.Basic]
  split_ifs <;> simp

/-- With the engine's own table every node is read by one of these types. -/
theorem Grammar.basic_of_standard {g : Grammar ε} (standard : g.types = .standard) (node : Nat)
    (slot : Slot ε) (here : g.slot? node = some slot) : slot.type.Basic := by
  obtain ⟨d, -, rfl⟩ := Option.map_eq_some_iff.1 here
  rw [standard]
  exact TypeTable.standard_basic d.name

/-- Every node takes its token in the standard way. -/
def Grammar.Wordwise (g : Grammar ε) : Prop :=
  ∀ node slot, g.slot? node = some slot → slot.type.consume = consumeToken

/-- Behind an absent token there is no line again. -/
theorem Grammar.Wordwise.rest_eq_none {g : Grammar ε} (wordwise : g.Wordwise) {node : Nat}
    {s : Slot ε} (here : g.slot? node = some s) {taken : Consumed}
    (consumed : s.type.consume s.descriptor none = .ok taken) : taken.rest = none := by
  rw [wordwise node s here] at consumed
  exact (consumeAbsent_eq_ok_iff.1 consumed).1

/-! ## Stations -/

/-- What a line has for a node: a token, the flag and the value of a switch, or nothing. -/
inductive Spelling
  | word (token : String)
  | pair (flag value : String)
  | absent

/-- A node of a path, what a line has for it, and the value that it has then. -/
structure Station (ε : Type) where
  slot : Slot ε
  spelling : Spelling
  value : Value

namespace Station

/-- The token in the node's own place. -/
def token? (s : Station ε) : Option String :=
  match s.spelling with
  | .word token => some token
  | .pair _ _ | .absent => none

/-- The slot that has taken the value behind its flag. -/
def taken? (s : Station ε) : Option (Slot ε) :=
  match s.spelling with
  | .pair _ value => some (s.slot.holding ⟨some value, none⟩)
  | .word _ | .absent => none

def isSpelled (s : Station ε) : Bool :=
  match s.spelling with
  | .word _ | .pair _ _ => true
  | .absent => false

def text (s : Station ε) : String :=
  match s.spelling with
  | .word token => token
  | .pair flag value => "-" ++ (flag ++ " " ++ value)
  | .absent => ""

theorem isSpelled_of_token? {s : Station ε} (h : s.token?.isSome = true) : s.isSpelled = true := by
  obtain ⟨_, spelling, _⟩ := s
  cases spelling with
  | word _ => rfl
  | pair _ _ => cases h
  | absent => cases h

theorem taken?_of_absent {s : Station ε} (h : s.isSpelled = false) : s.taken? = none := by
  obtain ⟨_, spelling, _⟩ := s
  cases spelling with
  | word _ => rfl
  | pair _ _ => cases h
  | absent => rfl

/-- The node accepts what the line has for it, and has the value. -/
inductive Fits (around : Surroundings ε) : Station ε → Prop
  | word {slot : Slot ε} {token : String} {v : Value} (plain : slot.isSwitch = false)
      (word : Text.IsWord token) (undashed : ¬ Dashed (some token))
      (accepted : slot.type.result token slot.descriptor around = .ok v) :
      Fits around ⟨slot, .word token, v⟩
  | pair {slot : Slot ε} {flag value : String} {v : Value} (switch : slot.isSwitch = true)
      (known : flag ∈ slot.descriptor.flags)
      (solid : ∀ c ∈ flag.toList, Text.isBlank c = false) (word : Text.IsWord value)
      (accepted : slot.type.result value slot.descriptor around = .ok v) :
      Fits around ⟨slot, .pair flag value, v⟩
  | default {slot : Slot ε} {token : String} {v : Value} (switch : slot.isSwitch = true)
      (default : slot.descriptor.parameter "default" = some token)
      (accepted : slot.type.result token slot.descriptor around = .ok v) :
      Fits around ⟨slot, .absent, v⟩
  | omitted {slot : Slot ε} (switch : slot.isSwitch = true)
      (default : slot.descriptor.parameter "default" = none)
      (optional : (slot.descriptor.parameter "required").getD "true" ≠ "true") :
      Fits around ⟨slot, .absent, .null⟩

end Station

/-- The first token that a path is spelled by. -/
def firstToken (route : List (Station ε)) : Option String := route.findSome? Station.token?

/-- The values that a handler is given for a path. -/
def valuesOf (route : List (Station ε)) : List Value :=
  route.filterMap fun s => if s.slot.isSuppressed then none else some s.value

theorem valuesOf_cons (s : Station ε) (route : List (Station ε)) :
    valuesOf (s :: route) =
      if s.slot.isSuppressed then valuesOf route else s.value :: valuesOf route := by
  simp only [valuesOf, List.filterMap_cons]
  cases s.slot.isSuppressed <;> rfl

/-! ## Paths and lines -/

/-- A child beside a path: a literal that is required and that the token read there does not
spell. -/
structure Aside (token : Option String) (slot : Slot ε) : Prop where
  literal : slot.type = .literal
  plain : slot.isSwitch = false
  closed : "*" ∉ slot.descriptor.aliases
  no_default : slot.descriptor.parameter "default" = none
  required : (slot.descriptor.parameter "required").getD "true" = "true"
  other : ∀ t ∈ token, t ∉ slot.descriptor.aliases

/-- A path from a node down to a leaf, spelled so that each of its nodes accepts what the line has
for it, and no child beside the path does. -/
inductive Grammar.Route (g : Grammar ε) (around : Surroundings ε) :
    Nat → List (Station ε) → Prop
  | leaf {node : Nat} (leaf : g.tree.isLeaf node = true) : Route g around node []
  | down {node : Nat} {s : Station ε} {route : List (Station ε)}
      (below : s.slot.node ∈ g.tree.children node) (here : g.slot? s.slot.node = some s.slot)
      (fits : s.Fits around)
      (aside : ∀ c ∈ g.tree.children node, c ≠ s.slot.node → ∀ slot, g.slot? c = some slot →
        Aside (firstToken (s :: route)) slot)
      (rest : Route g around s.slot.node route) : Route g around node (s :: route)

/-- The pieces of a line that spells a path: all that is not left out, in an order in which no token
stands behind what follows its node on the path. -/
structure Arranges (route pieces : List (Station ε)) : Prop where
  perm : pieces.Perm (route.filter Station.isSpelled)
  order : pieces.Pairwise fun s w => w.token?.isSome = true → ¬ [w, s].Sublist route

def written (pieces : List (Station ε)) : String := " ".intercalate (pieces.map Station.text)

/-! ## Reading the text -/

/-- A text with what follows it on the line. -/
def behind (text : String) : Option String → String
  | none => text
  | some rest => text ++ " " ++ rest

def lineOf : List (Station ε) → Option String
  | [] => none
  | s :: pieces => some (behind s.text (lineOf pieces))

theorem consumeToken_behind (d : Descriptor) {word : String} (solid : ' ' ∉ word.toList)
    (rest : Option String) :
    consumeToken d (some (behind word rest)) = .ok ⟨some word, rest⟩ := by
  have cut : Text.cut ' ' (behind word rest) = (word, rest) := by
    cases rest with
    | none => exact Text.cut_eq_none_iff.2 ⟨solid, rfl⟩
    | some rest => exact Text.cut_eq_some_iff.2 ⟨solid, rfl⟩
  rw [consumeToken_some, cut]

theorem consume_behind {type : ArgumentType ε} (basic : type.Basic) (d : Descriptor)
    {token : String} (word : Text.IsWord token) (rest : Option String) :
    type.consume d (some (behind token rest)) = .ok ⟨some token, rest⟩ := by
  rw [basic.consume_eq]
  exact consumeToken_behind d (Text.not_mem_space word.solid) rest

theorem behind_pair (flag value : String) (rest : Option String) :
    behind ("-" ++ (flag ++ " " ++ value)) rest = "-" ++ (flag ++ " " ++ behind value rest) := by
  cases rest <;> simp [behind, String.append_assoc]

theorem dashed_behind_iff (word : String) (rest : Option String) :
    Dashed (some (behind word rest)) ↔ Dashed (some word) := by
  rw [dashed_some_iff, dashed_some_iff]
  cases rest with
  | none => rfl
  | some rest =>
    rw [behind, String.toList_append, String.toList_append]
    cases word.toList <;> simp

/-! ## The line that is read -/

/-- The line of some words, absent when there is none. -/
def wordLine : List String → Option String
  | [] => none
  | word :: words => some (behind word (wordLine words))

/-- Words with a space between. -/
def spaced (words : List String) : String := " ".intercalate words

/-- Words that make up a line without blanks at its ends. -/
structure Worded (words : List String) : Prop where
  opens : ∀ word ∈ words.head?, Text.Opens word
  closes : ∀ word ∈ words.getLast?, Text.Closes word

theorem wordLine_eq {words : List String} (h : words ≠ []) :
    wordLine words = some (spaced words) := by
  induction words with
  | nil => exact absurd rfl h
  | cons word words ih =>
    cases words with
    | nil => simp [wordLine, behind, spaced]
    | cons next words =>
      rw [wordLine, ih (List.cons_ne_nil _ _)]
      simp [behind, spaced, String.intercalate_cons_cons]

theorem spaced_append {words words' : List String} (h : words ≠ []) (h' : words' ≠ []) :
    spaced (words ++ words') = spaced words ++ " " ++ spaced words' := by
  rw [spaced, String.intercalate_append_of_ne_nil h h']
  rfl

theorem Worded.spaced_opens {words : List String} (h : Worded words) (some : words ≠ []) :
    Text.Opens (spaced words) := by
  cases words with
  | nil => exact absurd rfl some
  | cons word words =>
    have first := h.opens word rfl
    cases words with
    | nil => simpa [spaced] using first
    | cons next words =>
      rw [spaced, String.intercalate_cons_cons]
      exact (first.append _).append _

theorem Worded.spaced_closes {words : List String} (h : Worded words) (some : words ≠ []) :
    Text.Closes (spaced words) := by
  obtain ⟨front, word, rfl⟩ := (List.eq_nil_or_concat words).resolve_left some
  rw [List.concat_eq_append] at h ⊢
  have last := h.closes word List.getLast?_concat
  cases front with
  | nil => simpa [spaced] using last
  | cons first front =>
    rw [spaced_append (List.cons_ne_nil _ _) (List.cons_ne_nil _ _)]
    have only : spaced [word] = word := by simp [spaced]
    rw [only]
    exact last.append _

theorem Worded.line_eq {words : List String} (h : Worded words) :
    (if Text.trim (spaced words) = "" then none else some (Text.trim (spaced words))) =
      wordLine words := by
  by_cases none : words = []
  · subst none
    rfl
  · have opens := h.spaced_opens none
    rw [Text.trim_eq_self opens (h.spaced_closes none), if_neg opens.ne_empty, wordLine_eq none]

theorem Station.Fits.opens {around : Surroundings ε} {s : Station ε} (h : s.Fits around)
    (spelled : s.isSpelled = true) : Text.Opens s.text := by
  cases h with
  | word _ word _ _ => exact word.opens
  | pair _ _ _ _ _ =>
    have dash : Text.Opens "-" := ⟨'-', rfl, by decide⟩
    exact dash.append _
  | default _ _ _ => cases spelled
  | omitted _ _ _ => cases spelled

theorem Station.Fits.closes {around : Surroundings ε} {s : Station ε} (h : s.Fits around)
    (spelled : s.isSpelled = true) : Text.Closes s.text := by
  cases h with
  | word _ word _ _ => exact word.closes
  | pair _ _ _ word _ => exact (word.closes.append _).append _
  | default _ _ _ => cases spelled
  | omitted _ _ _ => cases spelled

theorem lineOf_eq_wordLine (pieces : List (Station ε)) :
    lineOf pieces = wordLine (pieces.map Station.text) := by
  induction pieces with
  | nil => rfl
  | cons s pieces ih => rw [lineOf, ih, List.map_cons, wordLine]

theorem lineOf_eq {around : Surroundings ε} {pieces : List (Station ε)}
    (fits : ∀ s ∈ pieces, s.Fits around) (spelled : ∀ s ∈ pieces, s.isSpelled = true) :
    (if Text.trim (written pieces) = "" then none else some (Text.trim (written pieces))) =
      lineOf pieces := by
  have worded : Worded (pieces.map Station.text) := by
    constructor
    · intro word first
      obtain ⟨s, hs, rfl⟩ := List.mem_map.1 (List.mem_of_mem_head? first)
      exact (fits s hs).opens (spelled s hs)
    · intro word last
      obtain ⟨s, hs, rfl⟩ := List.mem_map.1 (List.mem_of_mem_getLast? last)
      exact (fits s hs).closes (spelled s hs)
  rw [lineOf_eq_wordLine]
  exact worded.line_eq

end CommandTree
