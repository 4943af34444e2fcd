import CommandTree.ArgumentType

/-!
# Literals and texts

A literal stands for itself: its token must be one of the spellings that its name lists, of which
`*` admits any token.  It routes the line and gives the handler no argument.  A text takes any
token as it is.

Results:
* `literal_result_eq_ok_iff`: what a literal accepts.
* `length_literalOffer_le`: a literal offers at most one completion.
-/
namespace CommandTree.ArgumentType

/-- The completion of a literal: the first spelling that begins with the token, or the token
itself where `*` comes first. -/
def literalOffer (token : String) : List String → List String
  | [] => []
  | spelling :: rest =>
    if spelling = "*" then [token]
    else if Text.beginsWith spelling token then [spelling]
    else literalOffer token rest

/-- A node that is matched by the spellings of its name. -/
def literal {ε : Type} : ArgumentType ε where
  result token d _ :=
    if d.aliases.any fun spelling => spelling == "*" || spelling == token then .ok (.text token)
    else .error .noResult
  complete token d _ := literalOffer token d.aliases
  defaultParameter key := if key = "suppress" then some "true" else none

/-- Any token, as it is. -/
def text {ε : Type} : ArgumentType ε where
  result token _ _ := .ok (.text token)

theorem literal_result_eq_ok_iff {ε : Type} (token : String) (d : Descriptor)
    (around : Surroundings ε) (v : Value) :
    literal.result token d around = .ok v ↔
      ("*" ∈ d.aliases ∨ token ∈ d.aliases) ∧ v = .text token := by
  have h : (d.aliases.any fun spelling => spelling == "*" || spelling == token) = true ↔
      "*" ∈ d.aliases ∨ token ∈ d.aliases := by
    simp only [List.any_eq_true, Bool.or_eq_true, beq_iff_eq]
    constructor
    · rintro ⟨a, ha, rfl | rfl⟩
      · exact .inl ha
      · exact .inr ha
    · rintro (ha | ha)
      · exact ⟨_, ha, .inl rfl⟩
      · exact ⟨_, ha, .inr rfl⟩
  show (if _ then _ else _) = _ ↔ _
  rw [← h]
  split <;> rename_i hc <;> simp [hc, eq_comm]

theorem length_literalOffer_le (token : String) (aliases : List String) :
    (literalOffer token aliases).length ≤ 1 := by
  induction aliases with
  | nil => simp [literalOffer]
  | cons a as ih =>
    unfold literalOffer
    split
    · simp
    · split
      · simp
      · exact ih

end CommandTree.ArgumentType
