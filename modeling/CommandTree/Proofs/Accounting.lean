import CommandTree.Portal.Commands
import CommandTree.Proofs.Ledger
import CommandTree.Proofs.Resolution
import CommandTree.Proofs.Spelling

/-!
# Every part of a line is accounted for

A line falls into parts at its spaces, an empty part between two spaces that follow each other.
Where each node takes its token in the standard way, a match reads the parts one by one from the
start of the line: a token takes one part, a `-flag value` pair takes two, and no part is passed
over or read twice.  Once the line has ended, a node takes its default, or nothing.

Results:
* `parts_eq_cons`: the first part of a text, and the parts behind it.
* `Laid.parts_eq`: the parts of a line are those of its pieces, followed by the parts of the rest.
* `Laid.split`: the nodes that find the line ended come last.
* `resolve_accounts`: the parts that a match has read.
-/
namespace CommandTree

namespace Text

theorem partsChars_eq_cons (sep : Char) (cs : List Char) :
    partsChars sep cs =
      (cutChars sep cs).1 :: ((cutChars sep cs).2.map (partsChars sep)).getD [] := by
  induction cs with
  | nil => rfl
  | cons c cs ih =>
    by_cases h : c = sep
    · simp [partsChars, cutChars, h]
    · simp only [partsChars, cutChars, if_neg h]
      rw [ih]

/-- The parts of a line, none where it has ended. -/
def partsOf : Option String → List String
  | none => []
  | some text => parts ' ' text

/-- The first part of a text reaches to the first space; behind it come the parts of the rest. -/
theorem parts_eq_cons (text : String) :
    parts ' ' text = (cut ' ' text).1 :: partsOf (cut ' ' text).2 := by
  rw [parts, partsChars_eq_cons, List.map_cons, cut]
  rcases cutChars ' ' text.toList with ⟨before, _ | after⟩
  · rfl
  · simp [partsOf, parts]

theorem parts_append {token : String} (word : ' ' ∉ token.toList) (rest : String) :
    parts ' ' (token ++ " " ++ rest) = token :: parts ' ' rest := by
  rw [parts_eq_cons, cut_eq_some_iff.2 ⟨word, rfl⟩]
  rfl

end Text

/-- Two lists in one, each in its own order. -/
inductive Shuffled {α : Type} : List α → List α → List α → Prop
  | nil : Shuffled [] [] []
  | left {xs ys zs : List α} (x : α) (rest : Shuffled xs ys zs) : Shuffled (x :: xs) ys (x :: zs)
  | right {xs ys zs : List α} (y : α) (rest : Shuffled xs ys zs) : Shuffled xs (y :: ys) (y :: zs)

variable {ε : Type}

/-! ## The parts that a piece takes -/

namespace Piece

def slot : Piece ε → Slot ε
  | .token slot _ _ _ => slot
  | .pair slot _ _ _ => slot

/-- The parts of the line that a piece takes. -/
def parts : Piece ε → List String
  | .token _ none _ _ => []
  | .token _ (some _) taken _ => taken.token.toList
  | .pair _ flag _ taken => ("-" ++ flag) :: taken.token.toList

/-- The flag of a pair, and its switch with the value. -/
def flagged? : Piece ε → Option (String × Slot ε)
  | .token _ _ _ _ => none
  | .pair slot flag _ taken => some (flag, slot.holding taken)

/-- The piece stands on the line. -/
inductive Reading : Piece ε → Prop
  | token {slot : Slot ε} {text token : String} {rest : Option String} {around : Surroundings ε} :
      Reading (.token slot (some text) ⟨some token, rest⟩ around)
  | pair {slot : Slot ε} {flag value token : String} {rest : Option String}
      (known : flag ∈ slot.descriptor.flags) : Reading (.pair slot flag value ⟨some token, rest⟩)

/-- The piece is what an absent token becomes. -/
inductive Idle : Piece ε → Prop
  | token {slot : Slot ε} {around : Surroundings ε} :
      Idle (.token slot none ⟨slot.descriptor.parameter "default", none⟩ around)

theorem Reading.isSome_token {p : Piece ε} (h : p.Reading) {s : Slot ε}
    (left : p.placed? = some s ∨ p.used? = some s) : s.token.isSome = true := by
  cases h with
  | token =>
    rcases left with left | left
    · cases left
      rfl
    · cases left
  | pair _ =>
    rcases left with left | left
    · cases left
    · cases left
      rfl

theorem Reading.known {p : Piece ε} (h : p.Reading) {flag : String} {s : Slot ε}
    (flagged : p.flagged? = some (flag, s)) : flag ∈ s.descriptor.flags := by
  cases h with
  | token => cases flagged
  | pair known =>
    cases flagged
    exact known

theorem map_flagged (pieces : List (Piece ε)) :
    (pieces.filterMap flagged?).map Prod.snd = pieces.filterMap used? := by
  rw [List.map_filterMap]
  congr 1
  funext p
  cases p <;> rfl

/-- On the line the tokens and the pairs are shuffled. -/
theorem shuffled {pieces : List (Piece ε)} (reading : ∀ p ∈ pieces, p.Reading) :
    Shuffled ((pieces.filterMap placed?).map fun s => s.token.toList)
      ((pieces.filterMap flagged?).map fun p => ("-" ++ p.1) :: p.2.token.toList)
      (pieces.map parts) := by
  induction pieces with
  | nil => exact .nil
  | cons p pieces ih =>
    rw [List.forall_mem_cons] at reading
    cases reading.1 with
    | token => exact .left _ (ih reading.2)
    | pair _ => exact .right _ (ih reading.2)

end Piece

namespace Laid

variable {line rest : Option String} {pieces : List (Piece ε)}

/-- Where a line has ended, nodes take what an absent token becomes, and no line begins again. -/
theorem idle (h : Laid line pieces rest)
    (standard : ∀ p ∈ pieces, p.slot.type.consume = consumeToken) (ended : line = none) :
    (∀ p ∈ pieces, p.Idle) ∧ rest = none := by
  induction h with
  | nil => exact ⟨by simp, ended⟩
  | pair _ _ _ _ _ => cases ended
  | @token slot line rest taken around pieces _ consumed _ ih =>
    rw [List.forall_mem_cons] at standard
    have takes : slot.type.consume = consumeToken := standard.1
    subst ended
    rw [takes] at consumed
    obtain ⟨token, behind⟩ := taken
    obtain ⟨rfl, rfl, -⟩ := consumeAbsent_eq_ok_iff.1 consumed
    obtain ⟨later, rest_eq⟩ := ih standard.2 rfl
    exact ⟨List.forall_mem_cons.2 ⟨.token, later⟩, rest_eq⟩

/-- The nodes that find the line ended come last. -/
theorem split (h : Laid line pieces rest)
    (standard : ∀ p ∈ pieces, p.slot.type.consume = consumeToken) :
    ∃ reading idle, pieces = reading ++ idle ∧ (∀ p ∈ reading, p.Reading) ∧
      (∀ p ∈ idle, p.Idle) ∧ (idle ≠ [] → rest = none) := by
  induction h with
  | nil => exact ⟨[], [], rfl, by simp, by simp, by simp⟩
  | @token slot line rest taken around pieces undashed consumed behind ih =>
    cases line with
    | none =>
      obtain ⟨idle, rest_eq⟩ := (Laid.token undashed consumed behind).idle standard rfl
      exact ⟨[], _, rfl, by simp, idle, fun _ => rest_eq⟩
    | some text =>
      rw [List.forall_mem_cons] at standard
      obtain ⟨reading, idle, rfl, reads, idles, rest_eq⟩ := ih standard.2
      have takes : slot.type.consume = consumeToken := standard.1
      rw [takes, consumeToken_some] at consumed
      cases consumed
      exact ⟨_ :: reading, idle, rfl, List.forall_mem_cons.2 ⟨.token, reads⟩, idles, rest_eq⟩
  | @pair slot flag value rest taken pieces word known consumed behind ih =>
    rw [List.forall_mem_cons] at standard
    obtain ⟨reading, idle, rfl, reads, idles, rest_eq⟩ := ih standard.2
    have takes : slot.type.consume = consumeToken := standard.1
    rw [takes, consumeToken_some] at consumed
    cases consumed
    exact ⟨_ :: reading, idle, rfl, List.forall_mem_cons.2 ⟨.pair known, reads⟩, idles, rest_eq⟩

/-- The parts of a line are those of its pieces, followed by the parts of the rest. -/
theorem parts_eq (h : Laid line pieces rest)
    (standard : ∀ p ∈ pieces, p.slot.type.consume = consumeToken) :
    Text.partsOf line = pieces.flatMap Piece.parts ++ Text.partsOf rest := by
  induction h with
  | nil => rfl
  | @token slot line rest taken around pieces _ consumed _ ih =>
    rw [List.forall_mem_cons] at standard
    have takes : slot.type.consume = consumeToken := standard.1
    rw [takes] at consumed
    rw [List.flatMap_cons, List.append_assoc, ← ih standard.2]
    cases line with
    | none =>
      obtain ⟨behind, -, -⟩ := consumeAbsent_eq_ok_iff.1 consumed
      rw [behind]
      rfl
    | some text =>
      rw [consumeToken_some] at consumed
      cases consumed
      exact Text.parts_eq_cons text
  | @pair slot flag value rest taken pieces word _ consumed _ ih =>
    rw [List.forall_mem_cons] at standard
    have takes : slot.type.consume = consumeToken := standard.1
    rw [takes, consumeToken_some] at consumed
    cases consumed
    rw [List.flatMap_cons, List.append_assoc, ← ih standard.2]
    have flag_word : ' ' ∉ ("-" ++ flag).toList := by simpa using word
    have line_eq : "-" ++ (flag ++ " " ++ value) = ("-" ++ flag) ++ " " ++ value := by
      simp [String.append_assoc]
    rw [line_eq]
    exact (Text.parts_append flag_word value).trans (congrArg _ (Text.parts_eq_cons value))

end Laid

/-! ## The parts that a match has read -/

/-- The first `count` parts of a text are those that a match has read: the tokens of its slots that
are no switches, in their order, shuffled with a flag and a value for each used switch.  The slots
that found the line ended come last; there are some only if all parts have been read, and they hold
their defaults. -/
structure Accounted (text : String) (found : Match ε) (reading idle : List (Slot ε))
    (pairs : List (String × Slot ε)) (blocks : List (List String)) (count : Nat) : Prop where
  chain_eq : plainOf found.chain = reading ++ idle
  used : (pairs.map Prod.snd).Perm found.context.consumed
  known : ∀ p ∈ pairs, p.1 ∈ p.2.descriptor.flags
  tokens : ∀ s ∈ reading ++ pairs.map Prod.snd, s.token.isSome = true
  shuffled : Shuffled (reading.map fun s => s.token.toList)
    (pairs.map fun p => ("-" ++ p.1) :: p.2.token.toList) blocks
  parts_eq : (Text.parts ' ' text).take count = blocks.flatten
  count_le : count ≤ (Text.parts ' ' text).length
  idle_eq : ∀ s ∈ idle, count = (Text.parts ' ' text).length ∧
    s.token = s.descriptor.parameter "default"

theorem Laid.accounted {text : String} {rest : Option String} {pieces : List (Piece ε)}
    (h : Laid (some text) pieces rest)
    (standard : ∀ p ∈ pieces, p.slot.type.consume = consumeToken) {found : Match ε}
    (placed : pieces.filterMap Piece.placed? = plainOf found.chain)
    (used : found.context.consumed.Perm (pieces.filterMap Piece.used?)) :
    ∃ reading idle pairs blocks count, Accounted text found reading idle pairs blocks count := by
  have parts := h.parts_eq standard
  obtain ⟨reading, idle, rfl, reads, idles, rest_eq⟩ := h.split standard
  have no_parts : idle.flatMap Piece.parts = [] := by
    rw [List.flatMap_eq_nil_iff]
    intro p hp
    cases idles p hp
    rfl
  have no_pair : idle.filterMap Piece.used? = [] := by
    rw [List.filterMap_eq_nil_iff]
    intro p hp
    cases idles p hp
    rfl
  have blocks : (reading.map Piece.parts).flatten = reading.flatMap Piece.parts := rfl
  rw [List.flatMap_append, no_parts, List.append_nil, ← blocks] at parts
  rw [List.filterMap_append, no_pair, List.append_nil, ← Piece.map_flagged] at used
  refine ⟨reading.filterMap Piece.placed?, idle.filterMap Piece.placed?,
    reading.filterMap Piece.flagged?, reading.map Piece.parts,
    (reading.map Piece.parts).flatten.length, ?_⟩
  exact
    { chain_eq := by rw [← placed, List.filterMap_append]
      used := used.symm
      known := by
        intro p hp
        obtain ⟨piece, hpiece, flagged⟩ := List.mem_filterMap.1 hp
        exact (reads piece hpiece).known flagged
      tokens := by
        rw [Piece.map_flagged]
        intro s hs
        rcases List.mem_append.1 hs with hs | hs
        · obtain ⟨p, hp, he⟩ := List.mem_filterMap.1 hs
          exact (reads p hp).isSome_token (.inl he)
        · obtain ⟨p, hp, he⟩ := List.mem_filterMap.1 hs
          exact (reads p hp).isSome_token (.inr he)
      shuffled := Piece.shuffled reads
      parts_eq := by
        rw [show Text.parts ' ' text = _ from parts, List.take_left]
      count_le := by
        rw [show Text.parts ' ' text = _ from parts, List.length_append]
        exact Nat.le_add_right _ _
      idle_eq := by
        intro s hs
        obtain ⟨piece, hpiece, he⟩ := List.mem_filterMap.1 hs
        rw [rest_eq (List.ne_nil_of_mem hpiece)] at parts
        rw [show Text.parts ' ' text = _ from parts, Text.partsOf, List.append_nil]
        cases idles piece hpiece
        cases he
        exact ⟨rfl, rfl⟩ }

namespace Grammar

/-- **Every part of a line is accounted for.**  Let every node take its token in the standard way.
Then the match of a line has read its parts one by one from the start, up to some count: each was
taken by one slot, in its place or behind its flag. -/
theorem resolve_accounts (g : Grammar ε) (built : g.tree.Built) (wordwise : g.Wordwise) (env : ε)
    (limit : Nat) (text : String) :
    ∃ reading idle pairs blocks count, Accounted text
      (g.resolve Tree.root (some text) { env, limit }) reading idle pairs blocks count := by
  have derives := resolve_derives built.arena (some text) { env, limit }
  generalize g.resolve Tree.root (some text) { env, limit } = found at derives ⊢
  obtain ⟨pieces, dropped, rest, h, -⟩ := derives.ledger
  have standard : ∀ p ∈ pieces, p.slot.type.consume = consumeToken := by
    intro p hp
    cases p with
    | token slot line taken around => exact wordwise _ _ (h.read _ _ _ _ hp).1
    | pair slot flag value taken =>
      have asked : slot ∈ pieces.filterMap Piece.asked? := List.mem_filterMap.2 ⟨_, hp, rfl⟩
      exact wordwise _ _ (derives.standing (h.mem_waitsOf_iff.2 (.inr (.inl asked))))
  exact h.laid.accounted standard h.placed (h.perm_consumed (derives.nodup built.arena))

def giveGrammar : Grammar Portal.Session :=
  ⟨(Tree.empty.insert Tree.root Portal.givePath).2,
    (TypeTable.standard.register "player" Portal.playerType).register "portaltype" Portal.kindType,
    {}⟩

theorem giveGrammar_wordwise : giveGrammar.Wordwise := by
  intro node slot here
  obtain ⟨d, -, rfl⟩ := Option.map_eq_some_iff.1 here
  show (giveGrammar.types.lookup d.name).consume = consumeToken
  rw [giveGrammar, TypeTable.lookup_register, TypeTable.lookup_register]
  split_ifs
  · rfl
  · rfl
  · exact (TypeTable.standard_basic d.name).consume_eq

/-- On `give -t end` the player is left to the default. -/
theorem resolve_accounts_give :
    giveGrammar.tree.Built ∧ giveGrammar.Wordwise ∧
      (giveGrammar.resolve Tree.root (some "give -t end")
        (giveGrammar.context ⟨"Ann", ["Ann"], [], []⟩)).chain.map (fun s => (s.node, s.token)) =
          [(1, some "give"), (2, none), (3, some "%self")] ∧
      ∃ reading idle pairs blocks count, Accounted "give -t end"
        (giveGrammar.resolve Tree.root (some "give -t end")
          (giveGrammar.context ⟨"Ann", ["Ann"], [], []⟩)) reading idle pairs blocks count := by
  have built : giveGrammar.tree.Built := .insert .empty (by decide) _
  exact ⟨built, giveGrammar_wordwise, by decide +kernel,
    giveGrammar.resolve_accounts built giveGrammar_wordwise ⟨"Ann", ["Ann"], [], []⟩ defaultLimit
      "give -t end"⟩

end Grammar

end CommandTree
