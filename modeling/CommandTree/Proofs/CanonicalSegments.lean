import CommandTree.Proofs.Drafts
import CommandTree.Proofs.Labels
import CommandTree.Proofs.SpecText

/-!
# What reading gives

No text is refused, and still only segments that can be written are read (`Canonical`): whatever
stands in the text, each segment has an alternative, names, keys and values are trimmed and hold
nothing that ends them, and only the last alternative of a segment can be without a name or have
parameters.

While a segment is read, the draft holds the alternatives read so far, all of them names without
parameters (`Draft.Gathering`).  A list of parameters that is closed adds the last one, and from
there on the segment is as it will be.  So each character leaves the draft in one of two states
(`Draft.Sound`), and a segment that ends has an alternative.  Only the end of the text leaves a
draft without any.

The reader is called again and again on the text that the calls before left (`behind`).

Results:
* `Draft.Sound.feed`: one character leaves a sound draft sound, or ends a canonical segment.
* `read_canonical`: a call gives a canonical segment, or it has found the end of the text.
* `parse_canonical`: the segments of any text, and what each call of its reader gives.
-/
namespace CommandTree.Segment

/-! ## Canonical segments -/

structure CanonicalSegment (segment : Segment) : Prop where
  nonempty : segment ≠ []
  descriptor : ∀ d ∈ segment, CanonicalDescriptor d
  sibling : ∀ d ∈ segment.dropLast, d.name ≠ "" ∧ d.params = {}

theorem Canonical.of_forall {segments : List Segment}
    (h : ∀ segment ∈ segments, CanonicalSegment segment) : Canonical segments where
  nonempty segment hs := (h segment hs).nonempty
  descriptor segment hs := (h segment hs).descriptor
  sibling segment hs := (h segment hs).sibling

/-- A name without parameters. -/
structure Bare (d : Descriptor) : Prop where
  canonical : CanonicalDescriptor d
  nonempty : d.name ≠ ""
  plain : d.params = {}

theorem CanonicalSegment.snoc {segment : Segment} (before : ∀ x ∈ segment, Bare x)
    {d : Descriptor} (last : CanonicalDescriptor d) : CanonicalSegment (segment ++ [d]) where
  nonempty := List.append_ne_nil_of_right_ne_nil _ (List.cons_ne_nil d [])
  descriptor x hx := by
    rcases List.mem_append.1 hx with hx | hx
    · exact (before x hx).canonical
    · exact List.mem_singleton.1 hx ▸ last
  sibling x hx := by
    rw [List.dropLast_concat] at hx
    exact ⟨(before x hx).nonempty, (before x hx).plain⟩

theorem CanonicalSegment.of_bare {segment : Segment} (nonempty : segment ≠ [])
    (bare : ∀ x ∈ segment, Bare x) : CanonicalSegment segment where
  nonempty := nonempty
  descriptor x hx := (bare x hx).canonical
  sibling x hx :=
    have here := bare x (List.dropLast_sublist segment |>.mem hx)
    ⟨here.nonempty, here.plain⟩

/-! ## Trimmed names, keys and values -/

theorem trim_trimmed (cs : List Char) : Text.trim (trimmed cs) = trimmed cs := by
  by_cases blank : trimmed cs = ""
  · rw [blank]
    rfl
  · have ends := Text.ends_trim (s := .ofList cs) (by rwa [Text.trim, String.toList_ofList])
    rw [Text.trim, String.toList_ofList] at ends
    exact Text.trim_eq_self ends.1 ends.2

theorem forall_mem_trimmed {p : Char → Prop} {cs : List Char} (h : ∀ c ∈ cs, p c) :
    ∀ c ∈ (trimmed cs).toList, p c := by
  intro c hc
  rw [trimmed, String.toList_ofList] at hc
  exact h c (Text.mem_of_mem_trimChars hc)

theorem canonicalParams_empty : CanonicalParams {} where
  distinct := List.nodup_nil
  key := by simp
  value := by simp

theorem mem_setIn {key value : String} {e : String × String} {es : List (String × String)}
    (h : e ∈ Params.setIn key value es) : e = (key, value) ∨ e ∈ es := by
  induction es with
  | nil => exact .inl (List.mem_singleton.1 h)
  | cons e' es ih =>
    rw [Params.setIn] at h
    split at h
    · exact (List.mem_cons.1 h).imp id (List.mem_cons_of_mem _)
    · rcases List.mem_cons.1 h with rfl | h
      · exact .inr List.mem_cons_self
      · exact (ih h).imp id (List.mem_cons_of_mem _)

theorem CanonicalParams.set {params : Params} (h : CanonicalParams params) {key value : String}
    (trimmedKey : Text.trim key = key) (good : ∀ c ∈ key.toList, InKey c)
    (trimmedValue : Text.trim value = value) : CanonicalParams (params.set key value) where
  distinct := by
    rw [Params.keys_set]
    split
    · exact h.distinct
    · rename_i new
      rw [← List.concat_eq_append]
      exact h.distinct.concat new
  key e he := by
    rcases mem_setIn he with rfl | he
    · exact ⟨trimmedKey, good⟩
    · exact h.key e he
  value e he := by
    rcases mem_setIn he with rfl | he
    · exact trimmedValue
    · exact h.value e he

/-! ## One character -/

@[simp] theorem Draft.addBare_phase (d : Draft) : d.addBare.phase = d.phase := by
  unfold Draft.addBare
  split <;> rfl

@[simp] theorem Draft.setBareKey_phase (d : Draft) : d.setBareKey.phase = d.phase := by
  unfold Draft.setBareKey
  split <;> rfl

/-- A draft to which alternatives can still be added: those read so far are names without
parameters. -/
structure Draft.Gathering (d : Draft) : Prop where
  name : ∀ c ∈ d.name, InName c
  key : ∀ c ∈ d.key, InKey c
  params : CanonicalParams d.params
  before : ∀ x ∈ d.segment, Bare x

namespace Draft.Gathering

variable {d : Draft}

theorem canonical_name (h : d.Gathering) {params : Params} (good : CanonicalParams params) :
    CanonicalDescriptor ⟨trimmed d.name, params⟩ where
  trimmed := trim_trimmed d.name
  named := forall_mem_trimmed h.name
  params := good

theorem bare_name (h : d.Gathering) (name : isBlankRun d.name = false) :
    Bare ⟨trimmed d.name, {}⟩ where
  canonical := h.canonical_name canonicalParams_empty
  nonempty blank := by simp [isBlankRun_iff.2 blank] at name
  plain := rfl

theorem addBare (h : d.Gathering) : d.addBare.Gathering := by
  unfold Draft.addBare
  split
  · exact h
  · rename_i name
    refine ⟨h.name, h.key, h.params, fun x hx => ?_⟩
    rcases List.mem_append.1 hx with hx | hx
    · exact h.before x hx
    · exact List.mem_singleton.1 hx ▸ h.bare_name (by simpa using name)

theorem setParam (h : d.Gathering) : d.setParam.Gathering where
  name := h.name
  key := by simp [Draft.setParam]
  params := h.params.set (trim_trimmed _) (forall_mem_trimmed h.key) (trim_trimmed _)
  before := h.before

theorem setBareKey (h : d.Gathering) : d.setBareKey.Gathering := by
  unfold Draft.setBareKey
  split
  · exact ⟨h.name, by simp, h.params, h.before⟩
  · exact ⟨h.name, by simp, h.params.set (trim_trimmed _) (forall_mem_trimmed h.key) rfl, h.before⟩

theorem close (h : d.Gathering) : CanonicalSegment d.close.segment :=
  .snoc h.before (h.canonical_name h.params)

theorem addBare_segment (h : d.Gathering) (name : isBlankRun d.name = false) :
    CanonicalSegment d.addBare.segment := by
  rw [Draft.addBare, name, if_neg Bool.false_ne_true]
  exact .snoc h.before (h.bare_name name).canonical

end Draft.Gathering

/-- A draft is open for more, or it has its whole segment. -/
inductive Draft.Sound (d : Draft) : Prop
  | gathering (phase : d.phase ≠ .closed) (gathering : d.Gathering)
  | closed (phase : d.phase = .closed) (segment : CanonicalSegment d.segment)

/-- The outcome of a character is a sound draft or a canonical segment. -/
inductive Step.Sound : Step → Prop
  | more {d : Draft} (sound : d.Sound) : Step.Sound (.more d)
  | done {segment : Segment} (canonical : CanonicalSegment segment) : Step.Sound (.done segment)

namespace Draft.Sound

variable {d : Draft}

theorem initial : Draft.Sound {} :=
  .gathering (by decide) ⟨by simp, by simp, canonicalParams_empty, by simp⟩

theorem of_gathering (h : d.Gathering) (phase : d.phase ≠ .closed) : (Step.more d).Sound :=
  .more (.gathering phase h)

theorem of_close (h : d.Gathering) : (Step.more d.close).Sound := .more (.closed rfl h.close)

/-- One character leaves a draft sound, or ends a canonical segment. -/
theorem feed (h : d.Sound) (c : Char) : (d.feed c).Sound := by
  have step := d.feeds c
  generalize d.feed c = s at step ⊢
  rcases h with ⟨phase, h⟩ | ⟨phase, segment⟩
  · cases step with
    | lead | stray | behindQuotes => exact of_gathering h phase
    | word _ _ name => exact .done (h.addBare_segment name)
    | opens => exact of_gathering ⟨h.name, by simp, canonicalParams_empty, h.before⟩ (by simp)
    | sibling =>
      have added := h.addBare
      exact of_gathering ⟨by simp, added.key, added.params, added.before⟩ (by simp [phase])
    | inName _ other =>
      refine of_gathering ⟨fun x hx => ?_, h.key, h.params, h.before⟩ (by simp)
      rcases List.mem_append.1 hx with hx | hx
      · exact h.name x hx
      · exact List.mem_singleton.1 hx ▸ other
    | bareKey => exact of_gathering h.setBareKey (by simp [phase])
    | bareKeyCloses => exact of_close h.setBareKey
    | inKey _ other =>
      refine of_gathering ⟨h.name, fun x hx => ?_, h.params, h.before⟩ (by simp)
      rcases List.mem_append.1 hx with hx | hx
      · exact h.key x hx
      · exact List.mem_singleton.1 hx ▸ other
    | param | unquote =>
      have given := h.setParam
      exact of_gathering ⟨given.name, given.key, given.params, given.before⟩ (by simp)
    | paramCloses => exact of_close h.setParam
    | closes => exact of_close h
    -- The other characters change the phase and the value only.
    | equals | quote | inValue | escape | inQuotes | escaped | nextKey =>
      exact of_gathering ⟨h.name, h.key, h.params, h.before⟩ (by simp)
    | list here | behindList here => exact absurd here phase
  · cases step with
    | list => exact .done segment
    | behindList => exact .more (.closed phase segment)
    | _ => simp_all

/-- Where the text ends, a canonical segment has been read, or nothing of one. -/
theorem finish (h : d.Sound) : CanonicalSegment d.finish ∨ d.finish = [] := by
  by_cases none : d.finish = []
  · exact .inr none
  · left
    unfold Draft.finish at none ⊢
    rcases h with ⟨-, h⟩ | ⟨phase, segment⟩
    · split at none
      · rw [if_pos ‹_›]
        exact .of_bare none h.addBare.before
      · rw [if_neg ‹_›]
        exact .of_bare none h.before
    · rw [phase, if_neg (by decide)]
      exact segment

end Draft.Sound

/-! ## Calls of the reader -/

/-- A sound draft is read on to a canonical segment, or to the end of the text. -/
theorem readFrom_canonical {d : Draft} (h : d.Sound) (cs : List Char) :
    CanonicalSegment (readFrom d cs).1 ∨ readFrom d cs = ([], []) := by
  induction cs generalizing d with
  | nil => exact h.finish.imp id (fun none => by rw [readFrom, none])
  | cons c cs ih =>
    have step := h.feed c
    rw [readFrom]
    cases hd : d.feed c with
    | more d' =>
      rw [hd] at step
      obtain ⟨sound⟩ | - := step
      exact ih sound
    | done segment =>
      rw [hd] at step
      cases step with
      | done canonical => exact .inl canonical

/-- A call gives a canonical segment, or it has found the end of the text. -/
theorem read_canonical (cs : List Char) : CanonicalSegment (read cs).1 ∨ read cs = ([], []) :=
  readFrom_canonical .initial cs

theorem read_of_empty {cs : List Char} (none : (read cs).1 = []) : read cs = ([], []) :=
  (read_canonical cs).resolve_left fun canonical => canonical.nonempty none

theorem all_eq_read (cs : List Char) :
    all cs = if (read cs).1 = [] then [] else (read cs).1 :: all (read cs).2 := by
  cases cs with
  | nil => rw [show read [] = ([], []) from rfl, if_pos rfl, all]
  | cons c cs => exact all_cons c cs

theorem all_canonical (cs : List Char) : ∀ segment ∈ all cs, CanonicalSegment segment := by
  induction hn : cs.length using Nat.strongRecOn generalizing cs with
  | ind n ih =>
    cases cs with
    | nil => simp [all]
    | cons c cs =>
      rw [all_cons]
      split
      · simp
      · rename_i nonempty
        have here := (read_canonical (c :: cs)).resolve_right
          fun none => nonempty (congrArg Prod.fst none)
        exact List.forall_mem_cons.2 ⟨here, ih _ (hn ▸ length_read_lt c cs) _ rfl⟩

/-- Each segment takes at least one character of the text. -/
theorem length_all_le (cs : List Char) : (all cs).length ≤ cs.length := by
  induction hn : cs.length using Nat.strongRecOn generalizing cs with
  | ind n ih =>
    cases cs with
    | nil => simp [all]
    | cons c cs =>
      rw [all_cons]
      split
      · exact Nat.zero_le _
      · have shorter := length_read_lt c cs
        have rest := ih _ (hn ▸ shorter) _ rfl
        rw [List.length_cons]
        omega

/-- The text behind the first `calls` calls of the reader. -/
def behind : Nat → List Char → List Char
  | 0, cs => cs
  | calls + 1, cs => behind calls (read cs).2

theorem behind_succ (calls : Nat) (cs : List Char) :
    behind (calls + 1) cs = (read (behind calls cs)).2 := by
  induction calls generalizing cs with
  | zero => rfl
  | succ calls ih => exact ih (read cs).2

/-- The calls give the segments of the text in order, and nothing behind the last. -/
theorem read_behind (calls : Nat) (cs : List Char) :
    (read (behind calls cs)).1 = (all cs)[calls]?.getD [] := by
  induction calls generalizing cs with
  | zero =>
    rw [all_eq_read, behind]
    split
    · assumption
    · rfl
  | succ calls ih =>
    rw [behind, ih, all_eq_read cs]
    split
    · rename_i none
      rw [read_of_empty none, all]
      rfl
    · rw [List.getElem?_cons_succ]

/-- Once a call has given nothing, the text is at its end, and all later calls find it there. -/
theorem read_behind_of_empty {calls : Nat} {cs : List Char}
    (none : (read (behind calls cs)).1 = []) {later : Nat} (after : calls ≤ later) :
    read (behind later cs) = ([], []) := by
  induction after with
  | refl => exact read_of_empty none
  | step _ ih =>
    rw [behind_succ, ih]
    rfl

/-- **The segments of any text can be written**, and its reader leaves nothing behind: the calls
give the segments in order, a call that gives nothing has read the text to its end, where all later
calls stay, and there are no more segments than characters. -/
theorem parse_canonical (spec : String) :
    Canonical (parse spec) ∧
      (∀ calls, (read (behind calls spec.toList)).1 = (parse spec)[calls]?.getD []) ∧
      (∀ calls, (read (behind calls spec.toList)).1 = [] → ∀ later, calls ≤ later →
        read (behind later spec.toList) = ([], [])) ∧
      (parse spec).length ≤ spec.length :=
  ⟨.of_forall (all_canonical _), fun calls => read_behind calls _,
    fun _ none _ after => read_behind_of_empty none after, length_all_le _⟩

/-- Stray commas, a blank that is no space, text behind quotes and behind a list, and a list that
stays open. -/
def untidySpec : String := ",give|g,\u00a0take (k = 'a, b' junk, flag)xyz d,e(x=it's, \t x = 2"

theorem untidySpec_canonical :
    Canonical (parse untidySpec) ∧
      (parse untidySpec)[1]?.getD [] = [⟨"", ⟨[("k", "a, b"), ("flag", "")]⟩⟩] ∧
      (read (behind 3 untidySpec.toList)).1 = [] ∧
      read (behind 7 untidySpec.toList) = ([], []) := by
  obtain ⟨canonical, calls, stays, -⟩ := parse_canonical untidySpec
  have none : (read (behind 3 untidySpec.toList)).1 = [] := by rfl
  exact ⟨canonical, (calls 1).symm.trans (by rfl), none, stays 3 none 7 (by decide)⟩

end CommandTree.Segment
