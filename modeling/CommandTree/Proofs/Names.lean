import CommandTree.Proofs.Arena
import CommandTree.Proofs.Drafts
import CommandTree.Proofs.Tokens

/-!
# The names of nodes

A space, a comma or an opening parenthesis ends a name, so no name in a spec holds one.  The nodes
of a tree get their names from specs.  A spelling that a name lists is therefore a word.

Results:
* `Segment.parse_named`: the names that a spec gives.
* `Tree.Built.named`: the names in a built tree.
* `Tree.Built.word_of_alias`: no spelling of a node holds a space.
-/
namespace CommandTree

namespace Text

theorem mem_of_mem_dropWhile {α : Type} {p : α → Bool} {x : α} {xs : List α}
    (h : x ∈ xs.dropWhile p) : x ∈ xs :=
  (List.dropWhile_sublist p).mem h

theorem mem_of_mem_trimChars {c : Char} {cs : List Char} (h : c ∈ trimChars cs) : c ∈ cs := by
  rw [trimChars, trimRight, List.mem_reverse] at h
  exact mem_of_mem_dropWhile (List.mem_reverse.1 (mem_of_mem_dropWhile h))

theorem mem_of_mem_partsChars {sep c : Char} {cs part : List Char} (h : part ∈ partsChars sep cs)
    (hc : c ∈ part) : c ∈ cs := by
  obtain ⟨i, hi⟩ := List.mem_iff_getElem?.1 h
  have spread : part ∈ (partsChars sep cs).intersperse [sep] :=
    List.mem_of_getElem? (List.getElem?_intersperse_two_mul.trans hi)
  rw [← flatten_partsChars sep cs]
  exact List.mem_flatten.2 ⟨part, spread, hc⟩

end Text

namespace Segment

/-- A character that may stand in a name. -/
def InName (c : Char) : Prop := c ≠ ' ' ∧ c ≠ '(' ∧ c ≠ ','

instance : DecidablePred InName := fun _ => inferInstanceAs (Decidable (_ ∧ _ ∧ _))

/-- The name of a descriptor holds nothing that ends a name. -/
def Named (d : Descriptor) : Prop := ∀ c ∈ d.name.toList, InName c

/-- What has been read of a segment so far holds names only where names belong. -/
structure Draft.Clean (d : Draft) : Prop where
  named : ∀ x ∈ d.segment, Named x
  name : ∀ c ∈ d.name, InName c

inductive Step.Clean : Step → Prop
  | more {d : Draft} (clean : d.Clean) : Step.Clean (.more d)
  | done {segment : Segment} (named : ∀ x ∈ segment, Named x) : Step.Clean (.done segment)

namespace Draft.Clean

variable {d : Draft}

theorem trimmed_named (h : d.Clean) (params : Params) : Named ⟨trimmed d.name, params⟩ := by
  intro c hc
  rw [trimmed, String.toList_ofList] at hc
  exact h.name c (Text.mem_of_mem_trimChars hc)

/-- Only the name and the nodes read so far count. -/
theorem of_eq (h : d.Clean) {d' : Draft} (segment : d'.segment = d.segment)
    (name : d'.name = d.name) : d'.Clean :=
  ⟨segment ▸ h.named, name ▸ h.name⟩

theorem snoc (h : d.Clean) (params : Params) :
    ∀ x ∈ d.segment ++ [⟨trimmed d.name, params⟩], Named x := by
  intro x hx
  rcases List.mem_append.1 hx with hx | hx
  · exact h.named x hx
  · rw [List.mem_singleton.1 hx]
    exact h.trimmed_named params

theorem addBare (h : d.Clean) : d.addBare.Clean := by
  unfold Draft.addBare
  split
  · exact h
  · exact ⟨h.snoc {}, h.name⟩

theorem setBareKey (h : d.Clean) : d.setBareKey.Clean := by
  unfold Draft.setBareKey
  split
  · exact h.of_eq rfl rfl
  · exact h.of_eq rfl rfl

theorem close (h : d.Clean) : d.close.Clean := ⟨h.snoc d.params, h.name⟩

theorem feed (h : d.Clean) (c : Char) : (d.feed c).Clean := by
  have step := d.feeds c
  generalize d.feed c = s at step ⊢
  cases step with
  | lead | stray | behindQuotes | behindList => exact .more h
  | word => exact .done h.addBare.named
  | list => exact .done h.named
  | sibling => exact .more ⟨h.addBare.named, by simp⟩
  | inName phase other =>
    refine .more ⟨h.named, fun x hx => ?_⟩
    rcases List.mem_append.1 hx with hx | hx
    · exact h.name x hx
    · exact List.mem_singleton.1 hx ▸ other
  | bareKey => exact .more h.setBareKey
  | bareKeyCloses => exact .more h.setBareKey.close
  | paramCloses => exact .more (h.of_eq rfl rfl : d.setParam.Clean).close
  | closes => exact .more h.close
  -- The other characters change neither the name nor the nodes read so far.
  | opens | equals | inKey | param | quote | inValue | escape | unquote | inQuotes | escaped
  | nextKey => exact .more (h.of_eq rfl rfl)

end Draft.Clean

theorem readFrom_named {d : Draft} (h : d.Clean) (cs : List Char) :
    ∀ x ∈ (readFrom d cs).1, Named x := by
  induction cs generalizing d with
  | nil =>
    rw [readFrom, Draft.finish]
    split
    · exact h.addBare.named
    · exact h.named
  | cons c cs ih =>
    have step := h.feed c
    rw [readFrom]
    cases hd : d.feed c with
    | more d' =>
      rw [hd] at step
      obtain ⟨clean⟩ | - := step
      exact ih clean
    | done segment =>
      rw [hd] at step
      cases step with
      | done named => exact named

theorem read_named (cs : List Char) : ∀ x ∈ (read cs).1, Named x :=
  readFrom_named ⟨by simp, by simp⟩ cs

theorem all_cons (c : Char) (cs : List Char) :
    all (c :: cs) =
      if (read (c :: cs)).1 = [] then [] else (read (c :: cs)).1 :: all (read (c :: cs)).2 := by
  rw [all]
  split
  · rename_i h
    rw [h, if_pos rfl]
  · rename_i segment rest nonempty h
    rw [h, if_neg nonempty]

theorem all_named (cs : List Char) : ∀ segment ∈ all cs, ∀ x ∈ segment, Named x := by
  induction hn : cs.length using Nat.strongRecOn generalizing cs with
  | ind n ih =>
    cases cs with
    | nil => simp [all]
    | cons c cs =>
      rw [all_cons]
      split
      · simp
      · exact List.forall_mem_cons.2
          ⟨read_named _, ih _ (hn ▸ length_read_lt c cs) _ rfl⟩

/-- The names that a spec gives hold nothing that ends a name. -/
theorem parse_named (spec : String) : ∀ segment ∈ parse spec, ∀ x ∈ segment, Named x :=
  all_named spec.toList

end Segment

namespace Tree

variable {ε : Type}

/-- Every node of a tree but the root has a name as specs give them. -/
def Named (t : Tree ε) : Prop := ∀ node d, t.descriptor node = some d → Segment.Named d

variable {t : Tree ε}

theorem Named.child (h : t.Named) (node : Nat) {d : Descriptor} (named : Segment.Named d) :
    (t.child node d).2.Named := by
  unfold Tree.child
  split
  · exact h
  · intro n d' found
    rw [descriptor_addChild] at found
    split at found
    · exact Option.some.inj found ▸ named
    · exact h n d' found

theorem Named.grow (h : t.Named) (node : Nat) {segment : Segment}
    (named : ∀ d ∈ segment, Segment.Named d) : (t.grow node segment).2.Named := by
  induction segment generalizing t with
  | nil => exact h
  | cons d ds ih =>
    rw [List.forall_mem_cons] at named
    exact ih (h.child node named.1) named.2

theorem Named.growAll (h : t.Named) {segment : Segment} (named : ∀ d ∈ segment, Segment.Named d)
    (nodes : List Nat) : (t.growAll segment nodes).2.Named := by
  induction nodes generalizing t with
  | nil => exact h
  | cons node nodes ih => exact ih (h.grow node named)

theorem Named.growPath (h : t.Named) {segments : List Segment}
    (named : ∀ segment ∈ segments, ∀ d ∈ segment, Segment.Named d) (nodes : List Nat) :
    (t.growPath nodes segments).2.Named := by
  induction segments generalizing t nodes with
  | nil => exact h
  | cons segment rest ih =>
    rw [List.forall_mem_cons] at named
    exact ih (h.growAll named.1 nodes) named.2 _

theorem named_empty : (empty : Tree ε).Named := by
  intro node d found
  rcases node with _ | node <;> simp [descriptor, empty] at found

/-- The nodes of a built tree have their names from specs. -/
theorem Built.named (h : t.Built) : t.Named := by
  induction h with
  | empty => exact named_empty
  | insert _ _ path ih => exact ih.growPath (Segment.parse_named path) _
  | bind _ _ _ _ ih => exact ih

/-- No spelling that a node lists holds a space. -/
theorem Built.word_of_alias (h : t.Built) {node : Nat} {d : Descriptor}
    (here : t.descriptor node = some d) {spelling : String} (listed : spelling ∈ d.aliases) :
    ' ' ∉ spelling.toList := by
  intro space
  obtain ⟨part, hpart, rfl⟩ := List.mem_map.1 listed
  rw [String.toList_ofList] at space
  exact (h.named node d here ' ' (Text.mem_of_mem_partsChars hpart space)).1 rfl

end Tree

end CommandTree
