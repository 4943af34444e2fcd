import CommandTree.Text.Blank
import CommandTree.Text.Cut

/-!
# Tokens of a line

What the ways to cut a line mean on strings: a flag stands behind a dash, a token ends at the first
space.  Text that neither opens nor closes with a blank is left by trimming as it is.

Results:
* `afterDash_eq_some_iff`: which lines begin with a flag.
* `cut_eq_some_iff`, `cut_eq_none_iff`: where a token ends.
* `trim_eq_self`: which text trimming leaves as it is.
-/
namespace CommandTree.Text

theorem afterDash_eq_some_iff {s rest : String} : afterDash s = some rest ↔ s = "-" ++ rest := by
  unfold afterDash
  rw [← String.toList_inj, String.toList_append]
  split
  · rename_i cs h
    rw [h, Option.some.injEq, ← String.toList_inj]
    simp
  · rename_i h
    refine ⟨fun h => absurd h (by simp), fun he => ?_⟩
    exact absurd (by simpa using he) (h rest.toList)

theorem cut_eq_some_iff {s token rest : String} :
    cut ' ' s = (token, some rest) ↔ ' ' ∉ token.toList ∧ s = token ++ " " ++ rest := by
  have chars : cut ' ' s = (token, some rest) ↔
      cutChars ' ' s.toList = (token.toList, some rest.toList) := by
    unfold cut
    cases cutChars ' ' s.toList with
    | mk before after =>
      cases after with
      | none => simp
      | some after => simp [← String.toList_inj]
  rw [chars, cutChars_eq_some_iff, ← String.toList_inj]
  simp

theorem cut_eq_none_iff {s token : String} :
    cut ' ' s = (token, none) ↔ ' ' ∉ token.toList ∧ s = token := by
  by_cases hs : ' ' ∈ s.toList
  · obtain ⟨before, after, he, hb⟩ := List.eq_append_cons_of_mem hs
    have hc : cutChars ' ' s.toList = (before, some after) := cutChars_eq_some_iff.2 ⟨hb, he⟩
    unfold cut
    rw [hc]
    refine ⟨fun h => absurd (congrArg Prod.snd h) (by simp), ?_⟩
    rintro ⟨hn, rfl⟩
    exact absurd hs hn
  · unfold cut
    rw [cutChars_eq_none_iff.2 hs]
    simp only [String.ofList_toList, Option.map_none, Prod.mk.injEq, and_true]
    constructor
    · rintro rfl
      exact ⟨hs, rfl⟩
    · exact fun h => h.2

/-! ## Blanks at the ends -/

/-- Text without blanks, and not empty. -/
structure IsWord (text : String) : Prop where
  nonempty : text ≠ ""
  solid : ∀ c ∈ text.toList, isBlank c = false

theorem solid_of_all {text : String} (h : (text.toList.all fun c => !isBlank c) = true) :
    ∀ c ∈ text.toList, isBlank c = false := by
  intro c hc
  simpa using List.all_eq_true.1 h c hc

/-- Text that begins with a character that is no blank. -/
def Opens (text : String) : Prop := ∃ c ∈ text.toList.head?, isBlank c = false

/-- Text that ends with a character that is no blank. -/
def Closes (text : String) : Prop := ∃ c ∈ text.toList.getLast?, isBlank c = false

theorem IsWord.toList_ne_nil {text : String} (h : IsWord text) : text.toList ≠ [] :=
  fun he => h.nonempty (String.toList_eq_nil_iff.1 he)

theorem IsWord.opens {text : String} (h : IsWord text) : Opens text :=
  ⟨_, List.head?_eq_some_head h.toList_ne_nil, h.solid _ (List.head_mem _)⟩

theorem IsWord.closes {text : String} (h : IsWord text) : Closes text :=
  ⟨_, List.getLast?_eq_some_getLast h.toList_ne_nil, h.solid _ (List.getLast_mem _)⟩

theorem not_mem_space {text : String} (solid : ∀ c ∈ text.toList, isBlank c = false) :
    ' ' ∉ text.toList := fun h => absurd (solid _ h) (by decide)

theorem Opens.append {text : String} (h : Opens text) (rest : String) : Opens (text ++ rest) := by
  obtain ⟨c, hc, solid⟩ := h
  refine ⟨c, ?_, solid⟩
  rw [String.toList_append, List.head?_append, hc]
  rfl

theorem Closes.append {text : String} (h : Closes text) (before : String) :
    Closes (before ++ text) := by
  obtain ⟨c, hc, solid⟩ := h
  refine ⟨c, ?_, solid⟩
  rw [String.toList_append, List.getLast?_append, hc]
  rfl

theorem Opens.ne_empty {text : String} (h : Opens text) : text ≠ "" := by
  rintro rfl
  obtain ⟨c, hc, -⟩ := h
  exact absurd hc (by simp)

theorem dropWhile_eq_self {cs : List Char} {c : Char} (head : c ∈ cs.head?)
    (solid : isBlank c = false) : cs.dropWhile isBlank = cs := by
  cases cs with
  | nil => rfl
  | cons d ds =>
    obtain rfl : d = c := Option.some.inj head
    rw [List.dropWhile_cons_of_neg (by simp [solid])]

theorem trim_eq_self {text : String} (opens : Opens text) (closes : Closes text) :
    trim text = text := by
  obtain ⟨c, hc, solid⟩ := opens
  obtain ⟨d, hd, solid'⟩ := closes
  have left : trimLeft text.toList = text.toList := dropWhile_eq_self hc solid
  have right : text.toList.reverse.dropWhile isBlank = text.toList.reverse :=
    dropWhile_eq_self (by rwa [List.head?_reverse]) solid'
  rw [trim, trimChars, left, trimRight, right, List.reverse_reverse, String.ofList_toList]

theorem trimChars_append {blanks : List Char} (blank : ∀ c ∈ blanks, isBlank c = true)
    (cs : List Char) : trimChars (blanks ++ cs) = trimChars cs := by
  rw [trimChars, trimChars, trimLeft, trimLeft, List.dropWhile_append_of_pos blank]

theorem trim_append {lead : String} (blank : ∀ c ∈ lead.toList, isBlank c = true)
    (text : String) : trim (lead ++ text) = trim text := by
  rw [trim, trim, String.toList_append, trimChars_append blank]

theorem blank_space : ∀ c ∈ " ".toList, isBlank c = true := by
  intro c hc
  obtain rfl : c = ' ' := by simpa using hc
  decide

end CommandTree.Text
