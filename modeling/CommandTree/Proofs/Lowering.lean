import CommandTree.Proofs.Tokens
import CommandTree.Text.Lowercase

/-!
# What lowering leaves behind

Lower case is a fixed point: the table sends no code point to one that it moves, nor to one of the
two letters that are lowered without it.  Blanks are moved by nothing and nothing is moved to a
blank, so lowering and trimming do not disturb each other.

Results:
* `lower_lower`: a text in lower case is left as it is.
* `opens_lower_iff`, `closes_lower_iff`, `mem_lower_of_isBlank`: the blanks of a text stay where
  they are.
-/
namespace CommandTree.Text

/-! ## The table as a set of moves -/

/-- The code points that the table moves, each with the one that it is moved to. -/
def moves : List (Nat × Nat) :=
  lowerRows.toList.flatMap fun (first, last, step, shift) =>
    (List.range ((last - first) / step + 1)).map fun i =>
      (first + i * step, ((first + i * step : Nat) + shift).toNat)

/-- The number whose bits are set at the members of the list.  Whether a code point is among those
that are moved is asked for every move of the table, and a bit is looked up at once. -/
def mask (ns : List Nat) : Nat := ns.foldr (fun n bits => bits ||| 1 <<< n) 0

def blankPoints : List Nat :=
  [0x9, 0xA, 0xB, 0xC, 0xD, 0x20, 0x85, 0xA0, 0x1680, 0x2000, 0x2001, 0x2002, 0x2003, 0x2004,
    0x2005, 0x2006, 0x2007, 0x2008, 0x2009, 0x200A, 0x2028, 0x2029, 0x202F, 0x205F, 0x3000]

/-- The code points that nothing is moved to: blanks, and `İ` and `Σ`, which are lowered without
the table. -/
def spared : List Nat := 0x130 :: 0x3A3 :: blankPoints

theorem testBit_mask (ns : List Nat) (n : Nat) : (mask ns).testBit n = true ↔ n ∈ ns := by
  induction ns with
  | nil => simp [mask]
  | cons m ns ih =>
    have bit : (1 <<< m).testBit n = true ↔ n = m := by
      rw [Nat.one_shiftLeft, Nat.testBit_two_pow, decide_eq_true_eq, eq_comm]
    show (mask ns ||| 1 <<< m).testBit n = true ↔ _
    rw [Nat.testBit_or, Bool.or_eq_true, ih, bit, List.mem_cons, or_comm]

theorem mem_blankPoints_iff (c : Char) : c.toNat ∈ blankPoints ↔ isBlank c = true := by
  simp only [blankPoints, List.mem_cons, List.not_mem_nil, or_false, isBlank, Bool.or_eq_true,
    Bool.and_eq_true, decide_eq_true_eq, beq_iff_eq]
  omega

/-- A move as it is checked over the whole table: it begins beyond ASCII and at no blank, and ends
at a scalar value that is not spared and not moved on. -/
def settles (move : Nat × Nat) : Bool :=
  0x80 ≤ move.1 && !(mask blankPoints).testBit move.1 &&
    !(mask spared).testBit move.2 && !(mask (moves.map Prod.fst)).testBit move.2 &&
    (0x61 ≤ move.2 && move.2 ≤ 0x7A || 0x80 ≤ move.2) &&
    (move.2 < 0xD800 || 0xE000 ≤ move.2 && move.2 < 0x110000)

/-- What the two letters that are lowered without the table become, each as a move. -/
def letterMoves : List (Nat × Nat) :=
  [('İ'.toNat, 'i'.toNat), ('İ'.toNat, '\u0307'.toNat), ('Σ'.toNat, 'ς'.toNat),
    ('Σ'.toNat, 'σ'.toNat)]

theorem settles_moves : (letterMoves ++ moves).all settles = true := by decide +kernel

/-- Where a move ends, as far as lowering and trimming can tell. -/
structure Settled (m : Nat) : Prop where
  scalar : m.isValidChar
  unspared : m ∉ spared
  unmoved : m ∉ moves.map Prod.fst
  small : 0x61 ≤ m ∧ m ≤ 0x7A ∨ 0x80 ≤ m

theorem settled_of_mem_moves {n m : Nat} (h : (n, m) ∈ letterMoves ++ moves) :
    0x80 ≤ n ∧ n ∉ blankPoints ∧ Settled m := by
  have check := List.all_eq_true.1 settles_moves _ h
  simp only [settles, Bool.and_eq_true, Bool.not_eq_true', Bool.or_eq_true, decide_eq_true_eq,
    ← Bool.not_eq_true, testBit_mask] at check
  obtain ⟨⟨⟨⟨⟨beyond, blank⟩, unspared⟩, unmoved⟩, small⟩, scalar⟩ := check
  refine ⟨beyond, blank, ?_, unspared, unmoved, small⟩
  unfold Nat.isValidChar
  omega

/-! ## Single characters -/

theorem mem_moves {n first last step : Nat} {shift : Int}
    (row : (first, last, step, shift) ∈ lowerRows.toList) (lower : first ≤ n) (upper : n ≤ last)
    (whole : (n - first) % step = 0) : (n, (n + shift).toNat) ∈ moves := by
  have back : first + (n - first) / step * step = n := by
    rw [Nat.div_mul_cancel (Nat.dvd_of_mod_eq_zero whole)]
    omega
  refine List.mem_flatMap.2 ⟨_, row, List.mem_map.2 ⟨(n - first) / step, ?_, ?_⟩⟩
  · rw [List.mem_range, Nat.lt_succ_iff]
    exact Nat.div_le_div_right (by omega)
  · simp [back]

/-- Beyond ASCII a character is moved as the table says, or stays. -/
theorem lowerChar_cases {c : Char} (h : 0x80 ≤ c.toNat) :
    (∃ m, (c.toNat, m) ∈ moves ∧ lowerChar c = .ofNat m) ∨ lowerChar c = c := by
  simp only [lowerChar, if_neg (Nat.not_lt.2 h)]
  split
  · rename_i first last step shift found
    have row := Array.mem_of_find?_eq_some found
    have inside := Array.find?_some found
    simp only [Bool.and_eq_true, decide_eq_true_eq, beq_iff_eq] at inside
    exact .inl ⟨_, mem_moves row.val inside.1.1 inside.1.2 inside.2, rfl⟩
  · exact .inr rfl

theorem toLower_ascii : ∀ n < 0x80,
    (Char.ofNat n).toLower = Char.ofNat n ∨
      (isBlank (.ofNat n) = false ∧ 0x61 ≤ (Char.ofNat n).toLower.toNat ∧
        (Char.ofNat n).toLower.toNat ≤ 0x7A) := by
  decide

theorem toLower_small : ∀ n, 0x61 ≤ n ∧ n ≤ 0x7A → (Char.ofNat n).toLower = Char.ofNat n := by
  have small : ∀ n ≤ 0x7A, 0x61 ≤ n → (Char.ofNat n).toLower = Char.ofNat n := by decide
  exact fun n h => small n h.2 h.1

theorem settled_of_small {n : Nat} (h : 0x61 ≤ n ∧ n ≤ 0x7A) : Settled n where
  scalar := .inl (by omega)
  unspared := by
    simp only [spared, blankPoints, List.mem_cons, List.not_mem_nil, or_false]
    omega
  unmoved := by
    rintro moved
    obtain ⟨move, hm, rfl⟩ := List.mem_map.1 moved
    have := (settled_of_mem_moves (List.mem_append_right _ hm)).1
    omega
  small := .inl h

theorem lowerChar_of_settled {c : Char} (h : Settled c.toNat) : lowerChar c = c := by
  by_cases ascii : c.toNat < 0x80
  · rw [lowerChar, if_pos ascii, ← Char.ofNat_toNat c]
    exact toLower_small _ (h.small.resolve_right (Nat.not_le.2 ascii))
  · rcases lowerChar_cases (Nat.not_lt.1 ascii) with ⟨m, moved, -⟩ | same
    · exact absurd (List.mem_map_of_mem (f := Prod.fst) moved) h.unmoved
    · exact same

/-- A character is left as it is, or is no blank and ends where lowering leaves it. -/
theorem lowerChar_eq_or_settled (c : Char) :
    lowerChar c = c ∨ (isBlank c = false ∧ Settled (lowerChar c).toNat) := by
  by_cases ascii : c.toNat < 0x80
  · rw [lowerChar, if_pos ascii, ← Char.ofNat_toNat c]
    exact (toLower_ascii _ ascii).imp_right fun h => ⟨h.1, settled_of_small h.2⟩
  · rcases lowerChar_cases (Nat.not_lt.1 ascii) with ⟨m, moved, lands⟩ | same
    · obtain ⟨-, solid, settled⟩ := settled_of_mem_moves (List.mem_append_right _ moved)
      rw [mem_blankPoints_iff, Bool.not_eq_true] at solid
      have point : (lowerChar c).toNat = m := by
        rw [lands, Char.ofNat, dif_pos settled.scalar]
        rfl
      exact .inr ⟨solid, point ▸ settled⟩
    · exact .inl same

theorem Settled.solid {c : Char} (h : Settled c.toNat) : isBlank c = false := by
  rw [← Bool.not_eq_true, ← mem_blankPoints_iff]
  exact fun blank => h.unspared (by simp [spared, blank])

theorem isBlank_lowerChar (c : Char) : isBlank (lowerChar c) = isBlank c := by
  rcases lowerChar_eq_or_settled c with same | ⟨solid, settled⟩
  · rw [same]
  · rw [solid, settled.solid]

/-! ## Text -/

/-- Lowering leaves the character as it is wherever it stands. -/
def Low (c : Char) : Prop := lowerChar c = c ∧ c ≠ 'İ' ∧ c ≠ 'Σ'

instance (c : Char) : Decidable (Low c) := inferInstanceAs (Decidable (_ ∧ _))

theorem Low.lowerAt {c : Char} (h : Low c) (before after : List Char) :
    lowerAt before c after = [c] := by
  rw [Text.lowerAt, if_neg h.2.1, if_neg h.2.2, h.1]

theorem Settled.low {c : Char} (h : Settled c.toNat) : Low c := by
  have unspared := h.unspared
  refine ⟨lowerChar_of_settled h, ?_, ?_⟩ <;> rintro rfl <;> exact unspared (by decide)

theorem low_lowerChar {c : Char} (dotted : c ≠ 'İ') (sigma : c ≠ 'Σ') : Low (lowerChar c) := by
  rcases lowerChar_eq_or_settled c with same | ⟨-, settled⟩
  · rw [Low, same]
    exact ⟨same, dotted, sigma⟩
  · exact settled.low

theorem low_of_mem_letterMoves {c d : Char} (h : (c.toNat, d.toNat) ∈ letterMoves) :
    Low d ∧ isBlank d = isBlank c := by
  obtain ⟨-, solid, settled⟩ := settled_of_mem_moves (List.mem_append_left _ h)
  rw [mem_blankPoints_iff, Bool.not_eq_true] at solid
  exact ⟨settled.low, settled.solid.trans solid.symm⟩

/-- What a character is lowered to stays, and is blank if the character is. -/
theorem low_of_mem_lowerAt {before after : List Char} {c d : Char}
    (h : d ∈ lowerAt before c after) : Low d ∧ isBlank d = isBlank c := by
  unfold lowerAt at h
  split at h
  · subst c
    simp only [List.mem_cons, List.not_mem_nil, or_false] at h
    rcases h with rfl | rfl <;> exact low_of_mem_letterMoves (by simp [letterMoves])
  split at h
  · subst c
    obtain rfl : d = _ := List.mem_singleton.1 h
    split <;> exact low_of_mem_letterMoves (by simp [letterMoves])
  · rename_i dotted sigma
    obtain rfl : d = _ := List.mem_singleton.1 h
    exact ⟨low_lowerChar dotted sigma, isBlank_lowerChar c⟩

theorem lowerAt_ne_nil (before after : List Char) (c : Char) : lowerAt before c after ≠ [] := by
  unfold lowerAt
  split
  · simp
  · split <;> simp

theorem low_of_mem_lowerFrom {cs before : List Char} {d : Char} (h : d ∈ lowerFrom before cs) :
    Low d := by
  induction cs generalizing before with
  | nil => exact absurd h List.not_mem_nil
  | cons c cs ih =>
    rcases List.mem_append.1 h with here | later
    · exact (low_of_mem_lowerAt here).1
    · exact ih later

theorem lowerFrom_of_low {cs : List Char} (h : ∀ c ∈ cs, Low c) (before : List Char) :
    lowerFrom before cs = cs := by
  induction cs generalizing before with
  | nil => rfl
  | cons c cs ih =>
    rw [lowerFrom, (h c List.mem_cons_self).lowerAt,
      ih fun d hd => h d (List.mem_cons_of_mem c hd)]
    rfl

/-- Text in lower case is left as it is. -/
theorem lower_lower (s : String) : lower (lower s) = lower s := by
  rw [lower, lower, String.toList_ofList, lowerFrom_of_low fun c hc => low_of_mem_lowerFrom hc]

theorem opens_lower_iff (s : String) : Opens (lower s) ↔ Opens s := by
  unfold Opens lower
  rw [String.toList_ofList]
  cases s.toList with
  | nil => rfl
  | cons c cs =>
    obtain ⟨d, ds, at_eq⟩ := List.exists_cons_of_ne_nil (lowerAt_ne_nil [] cs c)
    have same : isBlank d = isBlank c :=
      (low_of_mem_lowerAt (by rw [at_eq]; exact List.mem_cons_self)).2
    simp [lowerFrom, at_eq, same]

theorem blank_getLast_lowerFrom (cs before : List Char) :
    (lowerFrom before cs).getLast?.map isBlank = cs.getLast?.map isBlank := by
  induction cs generalizing before with
  | nil => rfl
  | cons c cs ih =>
    cases cs with
    | nil =>
      have last := List.getLast?_eq_some_getLast (lowerAt_ne_nil before [] c)
      rw [lowerFrom, lowerFrom, List.append_nil, last]
      exact congrArg some (low_of_mem_lowerAt (List.getLast_mem _)).2
    | cons c' cs =>
      have last := List.getLast?_eq_some_getLast (List.cons_ne_nil c' cs)
      rw [lowerFrom, List.getLast?_append, Option.map_or, ih, List.getLast?_cons_cons, last]
      rfl

theorem closes_lower_iff (s : String) : Closes (lower s) ↔ Closes s := by
  have := blank_getLast_lowerFrom s.toList []
  unfold Closes lower
  rw [String.toList_ofList]
  generalize lowerFrom [] s.toList = ds at *
  cases hd : ds.getLast? <;> cases hs : s.toList.getLast? <;> simp_all

theorem mem_lower_of_isBlank {s : String} {c : Char} (blank : isBlank c = true)
    (h : c ∈ s.toList) : c ∈ (lower s).toList := by
  have low : Low c := by
    refine ⟨(lowerChar_eq_or_settled c).resolve_right fun h => by simp [blank] at h, ?_, ?_⟩ <;>
      rintro rfl <;> revert blank <;> decide
  have stays : ∀ cs before, c ∈ cs → c ∈ lowerFrom before cs := by
    intro cs
    induction cs with
    | nil => exact fun _ h => h
    | cons d ds ih =>
      intro before h
      rcases List.mem_cons.1 h with rfl | later
      · exact List.mem_append_left _ (by simp [low.lowerAt])
      · exact List.mem_append_right _ (ih _ later)
  rw [lower, String.toList_ofList]
  exact stays _ _ h

end CommandTree.Text
