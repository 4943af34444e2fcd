import CommandTree.Proofs.Lowering
import CommandTree.Registry
import Mathlib.Data.List.Nodup

/-!
# Labels of a registry

A registry says twice which command has a label: in the table that lines are looked up in, and in
the list that each command has of its own.  Both are written label by label, after one look at the
first label only, so a label text may overlap several commands, repeat itself or hold no label at
all.  `Labelled` is what the two keep; a change of the registry is a `Change`, and a run of changes
keeps what each of them keeps.

Results:
* `Labelled.claim`, `Labelled.apply`: claiming labels, and every change, keeps table and lists in
  step.
* `command_of_known`, `command_of_unknown`: the command that a label text leads to.
* `Labelled.line_eq`: what a line does depends on what follows the label, and on the command.
* `applyAll_labelled`: the labels of every registry that changes lead to.
-/
namespace CommandTree

/-! ## The labels of a text -/

/-- A label as the registry keeps it. -/
structure ProperLabel (label : String) : Prop where
  nonempty : label ≠ ""
  trimmed : Text.trim label = label
  low : Text.lower label = label

theorem Text.ends_trim {s : String} (h : trim s ≠ "") : Opens (trim s) ∧ Closes (trim s) := by
  have words : trimRight (trimLeft s.toList) ≠ [] := by
    intro he
    rw [trim, trimChars, he] at h
    exact h rfl
  have solid : ∀ {cs : List Char} (hn : cs.dropWhile isBlank ≠ []),
      isBlank ((cs.dropWhile isBlank).head hn) = false := List.head_dropWhile_not isBlank
  unfold Opens Closes
  rw [trim, String.toList_ofList, trimChars]
  constructor
  · have start : trimRight (trimLeft s.toList) <+: trimLeft s.toList := by
      rw [← List.reverse_suffix, trimRight, List.reverse_reverse]
      exact List.dropWhile_suffix isBlank
    refine ⟨_, List.head?_eq_some_head words, ?_⟩
    rw [start.head words]
    exact solid _
  · have right : (trimLeft s.toList).reverse.dropWhile isBlank ≠ [] := by
      simpa [trimRight] using words
    refine ⟨_, List.getLast?_eq_some_getLast words, ?_⟩
    simp only [trimRight, List.getLast_reverse]
    exact solid right

theorem properLabel_of_mem {text label : String} (h : label ∈ labelsOf text) :
    ProperLabel label := by
  obtain ⟨hm, nonempty⟩ := List.mem_filter.1 h
  obtain ⟨part, -, rfl⟩ := List.mem_map.1 hm
  have nonempty : Text.lower (Text.trim part) ≠ "" := by simpa using nonempty
  have words : Text.trim part ≠ "" := by
    intro he
    rw [he] at nonempty
    exact nonempty rfl
  obtain ⟨opens, closes⟩ := Text.ends_trim words
  exact ⟨nonempty, Text.trim_eq_self ((Text.opens_lower_iff _).2 opens)
    ((Text.closes_lower_iff _).2 closes), Text.lower_lower _⟩

namespace Registry

variable {ε : Type} {r : Registry ε}

/-! ## Table and lists in step -/

/-- The labels of the command at a position, none where no command is. -/
def aliasesAt (r : Registry ε) (i : Nat) : List String :=
  (r.commands[i]?.map Command.aliases).getD []

/-- The table leads to a position exactly for the labels there, each of which is there once. -/
structure Labelled (r : Registry ε) : Prop where
  table_iff : ∀ label i, r.labels.lookup label = some i ↔ label ∈ r.aliasesAt i
  nodup : ∀ i, (r.aliasesAt i).Nodup
  proper : ∀ i, ∀ label ∈ r.aliasesAt i, ProperLabel label

def trees (r : Registry ε) : List (Tree ε) := r.commands.toList.map Command.tree

theorem getElem?_trees (r : Registry ε) (i : Nat) :
    r.trees[i]? = r.commands[i]?.map Command.tree := by
  rw [trees, List.getElem?_map, Array.getElem?_toList]

theorem mem_aliasesAt {label : String} {i : Nat} :
    label ∈ r.aliasesAt i ↔ ∃ c, r.commands[i]? = some c ∧ label ∈ c.aliases := by
  unfold aliasesAt
  cases r.commands[i]? <;> simp

theorem aliasesAt_of_getElem? {i : Nat} {c : Command ε} (h : r.commands[i]? = some c) :
    r.aliasesAt i = c.aliases := by
  rw [aliasesAt, h]
  rfl

theorem exists_aliasesAt {c : Command ε} (h : c ∈ r.commands) :
    ∃ i, r.commands[i]? = some c ∧ r.aliasesAt i = c.aliases := by
  obtain ⟨i, hi⟩ := Array.getElem?_of_mem h
  exact ⟨i, hi, aliasesAt_of_getElem? hi⟩

theorem Labelled.disjoint (h : r.Labelled) {i j : Nat} (ne : i ≠ j) :
    (r.aliasesAt i).Disjoint (r.aliasesAt j) := by
  intro label atI atJ
  rw [← h.table_iff] at atI atJ
  exact ne (Option.some.inj (atI.symm.trans atJ))

theorem Labelled.lt_size (h : r.Labelled) {label : String} {i : Nat}
    (known : r.labels.lookup label = some i) : i < r.commands.size := by
  obtain ⟨c, hc, -⟩ := mem_aliasesAt.1 ((h.table_iff label i).1 known)
  exact (Array.getElem?_eq_some_iff.1 hc).1

/-- Only the table and the labels at each position count. -/
theorem Labelled.of_aliasesAt (h : r.Labelled) {s : Registry ε} (labels : s.labels = r.labels)
    (same : ∀ i, s.aliasesAt i = r.aliasesAt i) : s.Labelled where
  table_iff label i := by rw [labels, same, h.table_iff]
  nodup i := by
    rw [same]
    exact h.nodup i
  proper i := by
    rw [same]
    exact h.proper i

/-! ## Claiming labels -/

/-- Gives a command a label that no command has. -/
def assign (r : Registry ε) (index : Nat) (label : String) : Registry ε :=
  { r with
    labels := r.labels ++ [(label, index)]
    commands := r.commands.modify index fun c => { c with aliases := c.aliases ++ [label] } }

theorem claim_cons (r : Registry ε) (index : Nat) (label : String) (rest : List String) :
    r.claim index (label :: rest) =
      if (r.labels.lookup label).isSome then r.claim index rest
      else (r.assign index label).claim index rest := rfl

/-- What assigning one free label keeps, claiming a list of labels keeps. -/
theorem claim_keeps {P : Registry ε → Prop} {index : Nat} {labels : List String}
    (step : ∀ r : Registry ε, ∀ label ∈ labels, r.labels.lookup label = none → P r →
      P (r.assign index label)) {r : Registry ε} (h : P r) : P (r.claim index labels) := by
  induction labels generalizing r with
  | nil => exact h
  | cons label rest ih =>
    have later : ∀ {r : Registry ε}, P r → P (r.claim index rest) :=
      ih fun r other hm => step r other (List.mem_cons_of_mem label hm)
    rw [claim_cons]
    split
    · exact later h
    · rename_i free
      exact later (step r label List.mem_cons_self (Option.not_isSome_iff_eq_none.1 free) h)

theorem lookup_assign (r : Registry ε) (index : Nat) (label other : String) :
    (r.assign index label).labels.lookup other =
      (r.labels.lookup other).or (if other = label then some index else none) := by
  rw [assign, List.lookup_append, List.lookup_cons, List.lookup_nil]
  by_cases he : other = label
  · simp [he]
  · simp [he, beq_false_of_ne he]

theorem getElem?_commands_assign (r : Registry ε) (index : Nat) (label : String) (j : Nat) :
    (r.assign index label).commands[j]? =
      if index = j then
        r.commands[j]?.map fun c => { c with aliases := c.aliases ++ [label] }
      else r.commands[j]? :=
  Array.getElem?_modify

theorem aliasesAt_assign {index : Nat} (inside : index < r.commands.size) (label : String)
    (j : Nat) :
    (r.assign index label).aliasesAt j =
      if index = j then r.aliasesAt j ++ [label] else r.aliasesAt j := by
  rw [aliasesAt, getElem?_commands_assign]
  split
  · subst j
    simp [aliasesAt, Array.getElem?_eq_getElem inside]
  · rfl

/-- A label that no command has leads to the command that it is given to, and to no other. -/
theorem Labelled.assign (h : r.Labelled) {index : Nat} {label : String}
    (inside : index < r.commands.size) (proper : ProperLabel label)
    (free : r.labels.lookup label = none) : (r.assign index label).Labelled := by
  have unheld : ∀ j, label ∉ r.aliasesAt j := by
    intro j hm
    rw [← h.table_iff, free] at hm
    cases hm
  refine ⟨?_, ?_, ?_⟩
  · -- the table has the label behind all others, which does not hide one that was there
    intro other j
    rw [lookup_assign, aliasesAt_assign inside]
    by_cases new : other = label
    · subst new
      rw [free, Option.none_or, if_pos rfl, Option.some.injEq]
      by_cases here : index = j <;> simp [here, unheld]
    · rw [if_neg new, Option.or_none, h.table_iff]
      by_cases here : index = j <;> simp [here, new]
  · intro j
    rw [aliasesAt_assign inside]
    split
    · exact List.concat_eq_append ▸ (h.nodup j).concat (unheld j)
    · exact h.nodup j
  · intro j other hm
    rw [aliasesAt_assign inside] at hm
    split at hm
    · rcases List.mem_append.1 hm with held | new
      · exact h.proper j other held
      · exact List.mem_singleton.1 new ▸ proper
    · exact h.proper j other hm

theorem trees_assign (r : Registry ε) (index : Nat) (label : String) :
    (r.assign index label).trees = r.trees := by
  apply List.ext_getElem?
  intro j
  rw [getElem?_trees, getElem?_trees, getElem?_commands_assign]
  split <;> cases r.commands[j]? <;> rfl

theorem size_claim (r : Registry ε) (index : Nat) (labels : List String) :
    (r.claim index labels).commands.size = r.commands.size :=
  claim_keeps (P := fun s => s.commands.size = r.commands.size)
    (fun s label _ _ same => by rw [Registry.assign, Array.size_modify, same]) rfl

theorem trees_claim (r : Registry ε) (index : Nat) (labels : List String) :
    (r.claim index labels).trees = r.trees :=
  claim_keeps (P := fun s => s.trees = r.trees)
    (fun s label _ _ same => by rw [trees_assign, same]) rfl

theorem lookup_claim_of_some {r : Registry ε} {label : String} {i : Nat}
    (known : r.labels.lookup label = some i) (index : Nat) (labels : List String) :
    (r.claim index labels).labels.lookup label = some i :=
  claim_keeps (P := fun s => s.labels.lookup label = some i)
    (fun s _ _ _ known => by rw [lookup_assign, known, Option.some_or]) known

theorem Labelled.claim (h : r.Labelled) {index : Nat} {labels : List String}
    (inside : index < r.commands.size) (proper : ∀ label ∈ labels, ProperLabel label) :
    (r.claim index labels).Labelled :=
  (claim_keeps (P := fun s => s.Labelled ∧ index < s.commands.size)
    (fun s label hm free h => ⟨h.1.assign h.2 (proper label hm) free, by
      rw [Registry.assign, Array.size_modify]
      exact h.2⟩) ⟨h, inside⟩).1

/-! ## The command of a label text -/

/-- The registry with one more command, which has no label and an empty tree. -/
def extend (r : Registry ε) : Registry ε := { r with commands := r.commands.push {} }

theorem aliasesAt_extend (r : Registry ε) (i : Nat) : r.extend.aliasesAt i = r.aliasesAt i := by
  unfold aliasesAt extend
  rw [Array.getElem?_push]
  split
  · subst i
    simp
  · rfl

/-- The command that has the first label of the text. -/
def known? (r : Registry ε) (text : String) : Option Nat :=
  (labelsOf text).head?.bind (r.labels.lookup ·)

theorem place_of_known {text : String} {i : Nat} (known : r.known? text = some i) :
    r.place text = (i, r.claim i (labelsOf text)) := by
  unfold known? at known
  simp only [place, locate, known]

theorem place_of_unknown {text : String} (unknown : r.known? text = none) :
    r.place text = (r.commands.size, r.extend.claim r.commands.size (labelsOf text)) := by
  unfold known? at unknown
  simp only [place, locate, unknown, extend]

theorem Labelled.place (h : r.Labelled) (text : String) :
    (r.place text).2.Labelled ∧ (r.place text).1 < (r.place text).2.commands.size := by
  cases hk : r.known? text with
  | some i =>
    have inside : i < r.commands.size := by
      obtain ⟨label, -, known⟩ := Option.bind_eq_some_iff.1 hk
      exact h.lt_size known
    rw [place_of_known hk]
    exact ⟨h.claim inside fun label => properLabel_of_mem, by rwa [size_claim]⟩
  | none =>
    rw [place_of_unknown hk]
    have inside : r.commands.size < r.extend.commands.size := by simp [extend]
    have extended : r.extend.Labelled := h.of_aliasesAt rfl r.aliasesAt_extend
    exact ⟨extended.claim inside fun label => properLabel_of_mem, by rwa [size_claim]⟩

/-- The registry with the tree at one position changed. -/
def rebuild (r : Registry ε) (index : Nat) (build : Tree ε → Tree ε) : Registry ε :=
  { r with commands := r.commands.modify index fun c => { c with tree := build c.tree } }

theorem command_eq (r : Registry ε) (text : String) (build : Tree ε → Tree ε) :
    r.command text build = (r.place text).2.rebuild (r.place text).1 build := rfl

theorem aliasesAt_rebuild (r : Registry ε) (index : Nat) (build : Tree ε → Tree ε) (i : Nat) :
    (r.rebuild index build).aliasesAt i = r.aliasesAt i := by
  unfold aliasesAt rebuild
  rw [Array.getElem?_modify]
  split <;> cases r.commands[i]? <;> rfl

theorem trees_rebuild (r : Registry ε) (index : Nat) (build : Tree ε → Tree ε) :
    (r.rebuild index build).trees = r.trees.modify index build := by
  apply List.ext_getElem?
  intro j
  rw [List.getElem?_modify, getElem?_trees, getElem?_trees, rebuild, Array.getElem?_modify]
  split <;> cases r.commands[j]? <;> simp_all

/-- A label text whose first label a command has leads to that command. -/
theorem command_of_known {text : String} {i : Nat} (known : r.known? text = some i)
    (build : Tree ε → Tree ε) :
    (r.place text).1 = i ∧ (r.place text).2.trees = r.trees ∧
      (r.command text build).trees = r.trees.modify i build := by
  rw [command_eq, trees_rebuild, place_of_known known, trees_claim]
  exact ⟨rfl, rfl, rfl⟩

theorem command_of_unknown {text : String} (unknown : r.known? text = none)
    (build : Tree ε → Tree ε) :
    (r.place text).1 = r.commands.size ∧ (r.place text).2.trees = r.trees ++ [.empty] ∧
      (r.command text build).trees = r.trees ++ [build .empty] := by
  have longer : r.extend.trees = r.trees ++ [.empty] := by simp [trees, extend]
  have last : (r.trees ++ [Tree.empty]).modify r.commands.size build =
      r.trees ++ [build .empty] := by
    have len : r.commands.size = r.trees.length := by simp [trees]
    rw [len, List.modify_eq_set_getElem?]
    simp
  rw [command_eq, trees_rebuild, place_of_unknown unknown, trees_claim, longer]
  exact ⟨rfl, rfl, last⟩

/-! ## Changes -/

/-- A change of a registry. -/
inductive Change (ε : Type) where
  | command (text : String) (build : Tree ε → Tree ε)
  | registerType (name : String) (type : ArgumentType ε)
  | unregisterType (name : String)

def apply (r : Registry ε) : Change ε → Registry ε
  | .command text build => r.command text build
  | .registerType name type => r.registerType name type
  | .unregisterType name => r.unregisterType name

def applyAll (r : Registry ε) (changes : List (Change ε)) : Registry ε :=
  changes.foldl apply r

/-- Every change keeps table and lists in step. -/
theorem Labelled.apply (h : r.Labelled) : ∀ change, (r.apply change).Labelled
  | .command text build => by
    rw [Registry.apply, command_eq]
    exact (h.place text).1.of_aliasesAt rfl (aliasesAt_rebuild _ _ build)
  | .registerType _ _ => h.of_aliasesAt rfl fun _ => rfl
  | .unregisterType _ => h.of_aliasesAt rfl fun _ => rfl

/-- A label that leads to a command leads to it after every change. -/
theorem lookup_apply_of_some {label : String} {i : Nat}
    (known : r.labels.lookup label = some i) : ∀ change,
      (r.apply change).labels.lookup label = some i
  | .command text build => by
    rw [Registry.apply, command_eq]
    show (r.place text).2.labels.lookup label = some i
    cases hk : r.known? text with
    | some j =>
      rw [place_of_known hk]
      exact lookup_claim_of_some known j _
    | none =>
      rw [place_of_unknown hk]
      exact lookup_claim_of_some (r := r.extend) known _ _
  | .registerType _ _ => known
  | .unregisterType _ => known

theorem Labelled.applyAll (h : r.Labelled) (changes : List (Change ε)) :
    (r.applyAll changes).Labelled := by
  induction changes generalizing r with
  | nil => exact h
  | cons change rest ih => exact ih (h.apply change)

theorem lookup_applyAll_of_some {label : String} {i : Nat}
    (known : r.labels.lookup label = some i) (changes : List (Change ε)) :
    (r.applyAll changes).labels.lookup label = some i := by
  induction changes generalizing r with
  | nil => exact known
  | cons change rest ih => exact ih (lookup_apply_of_some known change)

/-! ## Lines under several labels of one command -/

/-- A line under a label, however its letters are written, is cut behind the label. -/
theorem splitLabel_of_lower {x : String} (proper : ProperLabel (Text.lower x))
    (solid : ' ' ∉ (Text.lower x).toList) (rest : String) :
    splitLabel (x ++ " " ++ rest) = (x, some rest) := by
  have opens : Text.Opens x := by
    rw [← Text.opens_lower_iff, ← proper.trimmed]
    exact (Text.ends_trim (proper.trimmed.symm ▸ proper.nonempty)).1
  have whole : Text.trimStart (x ++ " " ++ rest) = x ++ " " ++ rest := by
    obtain ⟨c, hc, word⟩ := (opens.append " ").append rest
    rw [Text.trimStart, Text.trimLeft, Text.dropWhile_eq_self hc word, String.ofList_toList]
  rw [splitLabel, whole]
  exact Text.cut_eq_some_iff.2 ⟨fun hm => solid (Text.mem_lower_of_isBlank (by decide) hm), rfl⟩

theorem Labelled.get?_eq (h : r.Labelled) {i : Nat} {c : Command ε}
    (hc : r.commands[i]? = some c) {x : String} (label : Text.lower x ∈ r.aliasesAt i) :
    r.get? x = some c := by
  rw [get?, (h.table_iff _ i).2 label]
  exact hc

/-- A line under a label of a command goes to the command, and only what follows the label
matters. -/
theorem Labelled.line_eq (h : r.Labelled) {i : Nat} {c : Command ε}
    (hc : r.commands[i]? = some c) {x : String} (label : Text.lower x ∈ r.aliasesAt i)
    (solid : ' ' ∉ (Text.lower x).toList) (rest : String) :
    (∀ env base, r.dispatch env (x ++ " " ++ rest) base =
      some ((r.grammar c).dispatch rest ((r.grammar c).context env) base)) ∧
    ∀ env, r.complete env (x ++ " " ++ rest) =
      ((r.grammar c).complete Tree.root (some rest) ((r.grammar c).context env)).texts := by
  have cut := splitLabel_of_lower (h.proper i _ label) solid rest
  have get := h.get?_eq hc label
  constructor
  · intro env base
    rw [dispatch, cut]
    simp only [get, Option.map_some, Option.getD_some]
  · intro env
    rw [complete, cut]
    simp only [get]

/-! ## Registries that changes lead to -/

theorem labelled_empty (types : TypeTable ε) (settings : Settings) :
    ({ types, settings } : Registry ε).Labelled := by
  constructor <;> simp [aliasesAt]

theorem Labelled.aliases_of_get? (h : r.Labelled) {label : String} {c : Command ε}
    (found : r.get? label = some c) : c.aliases ≠ [] := by
  obtain ⟨i, known, hc⟩ := Option.bind_eq_some_iff.1 found
  have held := (h.table_iff _ i).1 known
  rw [aliasesAt_of_getElem? hc] at held
  exact List.ne_nil_of_mem held

/-- **The labels of every registry that changes lead to.**  Table and lists agree; no label stands
twice in a list or in two of them; each is a trimmed text in lower case; a label stays with its
command through all later changes; a label text leads to the command of its first label, or to
one new command if that label is free or missing; and no command without a name is found or
listed.  So all labels of a command that hold no space lead to the same outcomes and offers, in
any letter case. -/
theorem labels_applyAll (types : TypeTable ε) (settings : Settings) (changes : List (Change ε)) :
    let r := ({ types, settings } : Registry ε).applyAll changes
    (∀ label i, r.labels.lookup label = some i ↔
      ∃ c, r.commands[i]? = some c ∧ label ∈ c.aliases) ∧
    (∀ c ∈ r.commands, c.aliases.Nodup) ∧
    (∀ (i j : Nat) (c d : Command ε), r.commands[i]? = some c → r.commands[j]? = some d → i ≠ j →
      c.aliases.Disjoint d.aliases) ∧
    (∀ c ∈ r.commands, ∀ label ∈ c.aliases,
      label ≠ "" ∧ Text.trim label = label ∧ Text.lower label = label) ∧
    (∀ later label i, r.labels.lookup label = some i →
      (r.applyAll later).labels.lookup label = some i) ∧
    (∀ text build i, (labelsOf text).head?.bind (r.labels.lookup ·) = some i →
      (r.place text).1 = i ∧ (r.place text).2.trees = r.trees ∧
        (r.command text build).trees = r.trees.modify i build) ∧
    (∀ text build, (labelsOf text).head?.bind (r.labels.lookup ·) = none →
      (r.place text).1 = r.commands.size ∧ (r.place text).2.trees = r.trees ++ [.empty] ∧
        (r.command text build).trees = r.trees ++ [build .empty]) ∧
    (∀ label c, r.get? label = some c → c.aliases.head? = some c.name) ∧
    (∀ c ∈ r.listed, c.aliases.head? = some c.name) ∧
    (∀ c ∈ r.commands, ∀ a ∈ c.aliases, ∀ b ∈ c.aliases, ' ' ∉ a.toList → ' ' ∉ b.toList →
      ∀ x y rest, Text.lower x = a → Text.lower y = b →
        (∀ env base, r.dispatch env (x ++ " " ++ rest) base =
          r.dispatch env (y ++ " " ++ rest) base) ∧
        ∀ env, r.complete env (x ++ " " ++ rest) = r.complete env (y ++ " " ++ rest)) := by
  intro r
  have h : r.Labelled := (labelled_empty types settings).applyAll changes
  have named : ∀ c : Command ε, c.aliases ≠ [] → c.aliases.head? = some c.name := by
    intro c hn
    obtain ⟨first, rest, he⟩ := List.exists_cons_of_ne_nil hn
    rw [Command.name, he]
    rfl
  refine ⟨?_, ?_, ?_, ?_, ?_, ?_, ?_, ?_, ?_, ?_⟩
  · intro label i
    rw [h.table_iff, mem_aliasesAt]
  · intro c hc
    obtain ⟨i, -, same⟩ := exists_aliasesAt hc
    exact same ▸ h.nodup i
  · intro i j c d hc hd ne
    rw [← aliasesAt_of_getElem? hc, ← aliasesAt_of_getElem? hd]
    exact h.disjoint ne
  · intro c hc label hm
    obtain ⟨i, -, same⟩ := exists_aliasesAt hc
    obtain ⟨nonempty, trimmed, low⟩ := h.proper i label (same ▸ hm)
    exact ⟨nonempty, trimmed, low⟩
  · exact fun later label i known => lookup_applyAll_of_some known later
  · exact fun text build i known => command_of_known known build
  · exact fun text build unknown => command_of_unknown unknown build
  · exact fun label c found => named c (h.aliases_of_get? found)
  · intro c hc
    exact named c (by simpa using (List.mem_filter.1 hc).2)
  · rintro c hc a ha b hb solidA solidB x y rest rfl rfl
    obtain ⟨i, hi, same⟩ := exists_aliasesAt hc
    obtain ⟨outcome, offers⟩ := h.line_eq hi (same ▸ ha) solidA rest
    obtain ⟨outcome', offers'⟩ := h.line_eq hi (same ▸ hb) solidB rest
    exact ⟨fun env base => (outcome env base).trans (outcome' env base).symm,
      fun env => (offers env).trans (offers' env).symm⟩

/-- Label texts that repeat themselves, are all blank, and overlap two commands. -/
def overlapping : List (Change Unit) :=
  [.command " Give | |g|GIVE" id, .command "take|G|t" id, .command " | " id,
    .command "T|grab|give" id]

theorem labels_applyAll_overlapping :
    let r := ({ types := .standard, settings := {} } : Registry Unit).applyAll overlapping
    r.labels.lookup "g" = some 0 ∧ r.labels.lookup "grab" = some 1 ∧
      (r.command "grab|g|new" id).trees = r.trees.modify 1 id ∧
      r.dispatch () ("GRAB" ++ " " ++ "7 x") [] = r.dispatch () ("Take" ++ " " ++ "7 x") [] := by
  intro r
  obtain ⟨table, -, -, -, -, known, -, -, -, same⟩ :=
    labels_applyAll (ε := Unit) .standard {} overlapping
  have grab : r.labels.lookup "grab" = some 1 := by decide +kernel
  have take : r.labels.lookup "take" = some 1 := by decide +kernel
  obtain ⟨c, hc, hg⟩ := (table "grab" 1).1 grab
  obtain ⟨d, hd, ht⟩ := (table "take" 1).1 take
  obtain rfl : c = d := Option.some.inj (hc.symm.trans hd)
  refine ⟨by decide +kernel, grab, (known "grab|g|new" id 1 (by decide +kernel)).2.2, ?_⟩
  exact (same c (Array.mem_of_getElem? hc) "grab" hg "take" ht (by decide) (by decide) "GRAB" "Take"
    "7 x" (by decide) (by decide)).1 () []

end Registry

end CommandTree
