import CommandTree.ArgumentType.Literal
import CommandTree.Slot
import Mathlib.Data.List.Forall2

/-!
# What slots remember cannot be seen

A slot remembers what its type has answered about the token that it holds: the value, and the
completions.  The token, the mark that a parse was tried and the two answers change at different
moments; a parse that fails sets the mark and leaves all else.  A copy of a slot takes along what
has been remembered.

Here several slots are used in any order (`Use`), each use naming one of them; copies are added at
the end.  Next to the slots stands a list of records (`Record`), which remember nothing but the
lines that a slot has been given, its own or those of the slot it was copied from.  The token of a
record is that of the last line that its type has taken, and every question is put to the type
again.

Results:
* `Simulates.run`: uses that cannot be told apart one by one cannot be told apart in a run.
* `Faithful`: what holds between a slot and its record.
* `remembering_simulates`: one use of a slot and of its record.
* `Reader.run_apart`: uses of other slots leave a slot as it is.
* `remembered_unseen`: any uses of slots that began empty.
-/
namespace CommandTree

/-! ## Uses -/

/-- What may be done with one of several slots. -/
inductive Use
  | parse (slot : Nat) (line : Option String)
  | value (slot : Nat)
  | completions (slot : Nat)
  /-- Adds a copy behind the last slot. -/
  | copy (slot : Nat)

def Use.slot : Use → Nat
  | .parse slot _ | .value slot | .completions slot | .copy slot => slot

/-- What a use tells. -/
inductive Told
  | rest (outcome : Except ParseError (Option String))
  | value (outcome : Except ParseError Value)
  | completions (texts : List String)
  | copied
  /-- There is no such slot. -/
  | nothing

/-- How slots, or what stands for them, are used. -/
structure Reader (σ : Type) where
  parse : σ → Option String → σ × Except ParseError (Option String)
  value : σ → σ × Except ParseError Value
  completions : σ → σ × List String

namespace Reader

variable {σ : Type}

def step (m : Reader σ) (slots : List σ) (use : Use) : List σ × Told :=
  match slots[use.slot]? with
  | none => (slots, .nothing)
  | some s =>
    match use with
    | .parse i line => (slots.set i (m.parse s line).1, .rest (m.parse s line).2)
    | .value i => (slots.set i (m.value s).1, .value (m.value s).2)
    | .completions i => (slots.set i (m.completions s).1, .completions (m.completions s).2)
    | .copy _ => (slots ++ [s], .copied)

def run (m : Reader σ) (slots : List σ) : List Use → List σ × List Told
  | [] => (slots, [])
  | use :: uses =>
    ((m.run (m.step slots use).1 uses).1,
      (m.step slots use).2 :: (m.run (m.step slots use).1 uses).2)

/-! ## Uses of others -/

theorem length_step_le (m : Reader σ) (slots : List σ) (use : Use) :
    slots.length ≤ (m.step slots use).1.length := by
  unfold step
  split
  · exact Nat.le_refl _
  · cases use <;> simp

theorem step_apart (m : Reader σ) {slots : List σ} {use : Use} {i : Nat} (other : use.slot ≠ i)
    (inside : i < slots.length) : (m.step slots use).1[i]? = slots[i]? := by
  unfold step
  split
  · rfl
  · cases use with
    | parse j line => exact List.getElem?_set_ne other
    | value j => exact List.getElem?_set_ne other
    | completions j => exact List.getElem?_set_ne other
    | copy j => exact List.getElem?_append_left inside

/-- Uses of other slots leave a slot as it is. -/
theorem run_apart (m : Reader σ) {slots : List σ} {uses : List Use} {i : Nat}
    (others : ∀ use ∈ uses, use.slot ≠ i) (inside : i < slots.length) :
    (m.run slots uses).1[i]? = slots[i]? := by
  induction uses generalizing slots with
  | nil => rfl
  | cons use uses ih =>
    obtain ⟨other, others⟩ := List.forall_mem_cons.1 others
    have longer := m.length_step_le slots use
    rw [run, ih others (by omega), m.step_apart other inside]

theorem run_append (m : Reader σ) (slots : List σ) (uses more : List Use) :
    (m.run slots (uses ++ more)).1 = (m.run (m.run slots uses).1 more).1 := by
  induction uses generalizing slots with
  | nil => rfl
  | cons use uses ih => exact ih _

end Reader

/-! ## Two readers side by side -/

section Simulates

variable {σ τ : Type} {R : σ → τ → Prop}

/-- Each use keeps a relation between what is used, and tells the same. -/
structure Simulates (m : Reader σ) (m' : Reader τ) (R : σ → τ → Prop) : Prop where
  parse : ∀ {s t}, R s t → ∀ line,
    R (m.parse s line).1 (m'.parse t line).1 ∧ (m.parse s line).2 = (m'.parse t line).2
  value : ∀ {s t}, R s t → R (m.value s).1 (m'.value t).1 ∧ (m.value s).2 = (m'.value t).2
  completions : ∀ {s t}, R s t →
    R (m.completions s).1 (m'.completions t).1 ∧ (m.completions s).2 = (m'.completions t).2

theorem forall₂_getElem? {slots : List σ} {others : List τ} (h : List.Forall₂ R slots others)
    (i : Nat) : slots[i]? = none ∧ others[i]? = none ∨
      ∃ s t, slots[i]? = some s ∧ others[i]? = some t ∧ R s t := by
  induction h generalizing i with
  | nil => exact .inl ⟨rfl, rfl⟩
  | @cons s t _ _ r _ ih =>
    cases i with
    | zero => exact .inr ⟨s, t, rfl, rfl, r⟩
    | succ i => exact ih i

theorem forall₂_set {slots : List σ} {others : List τ} (h : List.Forall₂ R slots others) {s : σ}
    {t : τ} (r : R s t) (i : Nat) : List.Forall₂ R (slots.set i s) (others.set i t) := by
  induction h generalizing i with
  | nil => exact .nil
  | cons first rest ih =>
    cases i with
    | zero => exact .cons r rest
    | succ i => exact .cons first (ih i)

variable {m : Reader σ} {m' : Reader τ}

theorem Simulates.step (h : Simulates m m' R) {slots : List σ} {others : List τ}
    (all : List.Forall₂ R slots others) (use : Use) :
    List.Forall₂ R (m.step slots use).1 (m'.step others use).1 ∧
      (m.step slots use).2 = (m'.step others use).2 := by
  rcases forall₂_getElem? all use.slot with ⟨here, there⟩ | ⟨s, t, here, there, r⟩
  · simp only [Reader.step, here, there]
    exact ⟨all, trivial⟩
  · simp only [Reader.step, here, there]
    cases use with
    | parse i line => exact ⟨forall₂_set all (h.parse r line).1 i, congrArg _ (h.parse r line).2⟩
    | value i => exact ⟨forall₂_set all (h.value r).1 i, congrArg _ (h.value r).2⟩
    | completions i =>
      exact ⟨forall₂_set all (h.completions r).1 i, congrArg _ (h.completions r).2⟩
    | copy i => exact ⟨List.rel_append all (.cons r .nil), rfl⟩

/-- What cannot be told apart use by use cannot be told apart in a run. -/
theorem Simulates.run (h : Simulates m m' R) {slots : List σ} {others : List τ}
    (all : List.Forall₂ R slots others) (uses : List Use) :
    List.Forall₂ R (m.run slots uses).1 (m'.run others uses).1 ∧
      (m.run slots uses).2 = (m'.run others uses).2 := by
  induction uses generalizing slots others with
  | nil => exact ⟨all, rfl⟩
  | cons use uses ih =>
    obtain ⟨after, told⟩ := h.step all use
    obtain ⟨last, rest⟩ := ih after
    exact ⟨last, by rw [Reader.run, Reader.run, told, rest]⟩

end Simulates

/-! ## Slots and records -/

variable {ε : Type}

/-- A node with its argument type, and the lines that it has been given. -/
structure Record (ε : Type) where
  node : Nat
  descriptor : Descriptor
  type : ArgumentType ε
  lines : List (Option String) := []

namespace Record

/-- The token of the last line that the type has taken. -/
def token (r : Record ε) : Option String :=
  r.lines.foldl
    (fun token line =>
      match r.type.consume r.descriptor line with
      | .ok taken => taken.token
      | .error _ => token)
    none

/-- What the type says of the token, null without one. -/
def value (r : Record ε) (around : Surroundings ε) : Except ParseError Value :=
  match r.token with
  | some token => r.type.result token r.descriptor around
  | none => .ok .null

def completions (r : Record ε) (around : Surroundings ε) : List String :=
  match r.token with
  | some token => r.type.complete token r.descriptor around
  | none => []

/-- The record once a line has been given. -/
def given (r : Record ε) (line : Option String) : Record ε := { r with lines := r.lines ++ [line] }

theorem token_given_ok {r : Record ε} {line : Option String} {taken : Consumed}
    (h : r.type.consume r.descriptor line = .ok taken) : (r.given line).token = taken.token := by
  rw [token, given, List.foldl_append]
  simp only [List.foldl_cons, List.foldl_nil, h]

theorem token_given_error {r : Record ε} {line : Option String} {e : ParseError}
    (h : r.type.consume r.descriptor line = .error e) : (r.given line).token = r.token := by
  rw [token, given, List.foldl_append]
  simp only [List.foldl_cons, List.foldl_nil, h]
  rfl

end Record

/-- Slots, which remember what has been answered. -/
def remembering (around : Surroundings ε) : Reader (Slot ε) where
  parse s line := s.parse line
  value s := (s.valued around, s.value around)
  completions s := (s.completed around, s.completions around)

/-- Records, which put every question to the type. -/
def recording (around : Surroundings ε) : Reader (Record ε) where
  parse r line := (r.given line, (r.type.consume r.descriptor line).map Consumed.rest)
  value r := (r, r.value around)
  completions r := (r, r.completions around)

structure Slot.Fresh (s : Slot ε) : Prop where
  token : s.token = none
  parsed : s.parsed = false
  answer : s.answer = none
  offers : s.offers = none

/-- The record of a slot with which nothing has been done. -/
def Slot.record (s : Slot ε) : Record ε := ⟨s.node, s.descriptor, s.type, []⟩

/-- The slot holds the token of its record, and remembers nothing but what its type says of it. -/
structure Faithful (around : Surroundings ε) (s : Slot ε) (r : Record ε) : Prop where
  node : s.node = r.node
  descriptor : s.descriptor = r.descriptor
  type : s.type = r.type
  token : s.token = r.token
  parsed : s.parsed = !r.lines.isEmpty
  answer : ∀ v, s.answer = some v → v = r.value around
  offers : ∀ texts, s.offers = some texts → texts = r.completions around

namespace Faithful

variable {around : Surroundings ε} {s : Slot ε} {r : Record ε}

theorem of_fresh (fresh : s.Fresh) : Faithful around s s.record where
  node := rfl
  descriptor := rfl
  type := rfl
  token := fresh.token
  parsed := fresh.parsed
  answer v h := by simp [fresh.answer] at h
  offers texts h := by simp [fresh.offers] at h

theorem value_eq (h : Faithful around s r) : s.value around = r.value around := by
  unfold Slot.value
  split
  · rename_i v told
    exact h.answer v told
  · rw [h.token, h.type, h.descriptor]
    rfl

theorem completions_eq (h : Faithful around s r) : s.completions around = r.completions around := by
  unfold Slot.completions
  split
  · rename_i texts told
    exact h.offers texts told
  · rw [h.token, h.type, h.descriptor]
    rfl

theorem parse (h : Faithful around s r) (line : Option String) :
    Faithful around (s.parse line).1 (r.given line) ∧
      (s.parse line).2 = (r.type.consume r.descriptor line).map Consumed.rest := by
  have same : s.type.consume s.descriptor line = r.type.consume r.descriptor line := by
    rw [h.type, h.descriptor]
  have given : (!(r.given line).lines.isEmpty) = true := by simp [Record.given]
  cases consumed : r.type.consume r.descriptor line with
  | ok taken =>
    -- the answers about the last token are forgotten
    rw [Slot.parse, same, consumed]
    have token := Record.token_given_ok consumed
    exact ⟨⟨h.node, h.descriptor, h.type, token.symm, given.symm, by simp, by simp⟩, rfl⟩
  | error e =>
    -- token and answers stay, and so does the last line that was taken
    rw [Slot.parse_error (same.trans consumed)]
    have token := Record.token_given_error consumed
    have value : (r.given line).value around = r.value around := by
      rw [Record.value, token]
      rfl
    have completions : (r.given line).completions around = r.completions around := by
      rw [Record.completions, token]
      rfl
    exact ⟨⟨h.node, h.descriptor, h.type, h.token.trans token.symm, given.symm,
      fun v told => (h.answer v told).trans value.symm,
      fun texts told => (h.offers texts told).trans completions.symm⟩, rfl⟩

theorem valued (h : Faithful around s r) : Faithful around (s.valued around) r :=
  { h with answer := fun _ told => Option.some.inj told ▸ h.value_eq }

theorem completed (h : Faithful around s r) : Faithful around (s.completed around) r :=
  { h with offers := fun _ told => Option.some.inj told ▸ h.completions_eq }

end Faithful

theorem remembering_simulates (around : Surroundings ε) :
    Simulates (remembering around) (recording around) (Faithful around) where
  parse h line := h.parse line
  value h := ⟨h.valued, h.value_eq⟩
  completions h := ⟨h.completed, h.completions_eq⟩

/-- **What slots remember cannot be seen.**  Whatever is done with slots that began empty, and with
copies of them, each use tells what it would tell if nothing were remembered and every question were
put to the type, about the token of the last line that the type has taken.  Behind the uses, each
slot holds that token, and its value and its completions are what the type says of it.  A parse that
fails sets the mark that one was tried and changes nothing else.  Uses of other slots, copies among
them, leave a slot as it is. -/
theorem remembered_unseen (around : Surroundings ε) {slots : List (Slot ε)}
    (fresh : ∀ s ∈ slots, s.Fresh) (uses : List Use) :
    ((remembering around).run slots uses).2 =
      ((recording around).run (slots.map Slot.record) uses).2 ∧
    List.Forall₂
      (fun s r => Faithful around s r ∧ s.value around = r.value around ∧
        s.completions around = r.completions around)
      ((remembering around).run slots uses).1
      ((recording around).run (slots.map Slot.record) uses).1 ∧
    (∀ s ∈ ((remembering around).run slots uses).1, ∀ line e,
      s.type.consume s.descriptor line = .error e →
        s.parse line = ({ s with parsed := true }, .error e)) ∧
    ∀ i more, i < ((remembering around).run slots uses).1.length → (∀ use ∈ more, use.slot ≠ i) →
      ((remembering around).run slots (uses ++ more)).1[i]? =
        ((remembering around).run slots uses).1[i]? := by
  have start : List.Forall₂ (Faithful around) slots (slots.map Slot.record) := by
    rw [List.forall₂_map_right_iff, List.forall₂_same]
    exact fun s hs => .of_fresh (fresh s hs)
  obtain ⟨after, told⟩ := (remembering_simulates around).run start uses
  refine ⟨told, after.imp fun s r h => ⟨h, h.value_eq, h.completions_eq⟩,
    fun s _ line e => Slot.parse_error, fun i more inside others => ?_⟩
  rw [Reader.run_append, Reader.run_apart _ others inside]

def wordSlot : Slot Unit := { node := 1, descriptor := ⟨"string", ⟨[]⟩⟩, type := .text }

theorem wordSlot_fresh : wordSlot.Fresh := ⟨rfl, rfl, rfl, rfl⟩

/-- A copy keeps the token while its own parse fails, takes another one, and the first slot does not
hear of it. -/
theorem remembered_unseen_word :
    ((remembering ⟨(), 20, [], [], []⟩).run [wordSlot]
      [.parse 0 (some "one two"), .value 0, .copy 0, .parse 1 none, .value 1,
        .parse 1 (some "three"), .value 1, .value 0]).2 =
      [.rest (.ok (some "two")), .value (.ok (.text "one")), .copied,
        .rest (.error .requiredArgument), .value (.ok (.text "one")), .rest (.ok none),
        .value (.ok (.text "three")), .value (.ok (.text "one"))] := by
  obtain ⟨told, -⟩ := remembered_unseen ⟨(), 20, [], [], []⟩
    (List.forall_mem_singleton.2 wordSlot_fresh)
    [.parse 0 (some "one two"), .value 0, .copy 0, .parse 1 none, .value 1,
      .parse 1 (some "three"), .value 1, .value 0]
  rw [told]
  rfl

end CommandTree
