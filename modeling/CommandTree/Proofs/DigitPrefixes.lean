import CommandTree.Proofs.IntegerOffers
import Mathlib.Data.List.Induction
import Mathlib.Data.Nat.Log
import Mathlib.Tactic.IntervalCases

/-!
# Digits and what begins with them

The digits of a number begin with those of another one exactly where the other one is what is left
when some of the last digits are dropped, that is, after division by a power of ten.  The numbers
that continue given digits by as many further ones are therefore those of an interval.  Zero is
continued by itself alone.

Results:
* `toDigits_natOfDigits`: digits without a leading zero are those of their number.
* `isPrefix_toDigits_iff`, `isPrefix_toDigits_zero_iff`: which numbers begin with the digits of one.
* `length_toString_le`: a number nearer to zero on the same side is not longer.
-/
namespace CommandTree.Decimal

/-! ## Digits of one number -/

/-- Digits that are those of a number, or none yet. -/
def Plain (cs : List Char) : Prop :=
  cs.all Char.isDigit = true ∧ (1 < cs.length → cs.head? ≠ some '0')

instance (cs : List Char) : Decidable (Plain cs) := inferInstanceAs (Decidable (_ ∧ _))

theorem toDigits_injective {m n : Nat} (h : Nat.toDigits 10 m = Nat.toDigits 10 n) : m = n := by
  have value := congrArg (fun cs => Nat.ofDigitChars 10 cs 0) h
  simpa [Nat.ofDigitChars_toDigits] using value

theorem toDigits_eq (n : Nat) :
    Nat.toDigits 10 n =
      if n < 10 then [n.digitChar] else Nat.toDigits 10 (n / 10) ++ [(n % 10).digitChar] :=
  Nat.toDigits_eq_if (by decide)

/-- A prefix of the digits of a number is all of them, or one of the digits but the last. -/
theorem isPrefix_toDigits_step {cs : List Char} (nonempty : cs ≠ []) (n : Nat) :
    cs <+: Nat.toDigits 10 n ↔
      cs = Nat.toDigits 10 n ∨ 10 ≤ n ∧ cs <+: Nat.toDigits 10 (n / 10) := by
  rw [toDigits_eq]
  split
  · rename_i small
    have alone : cs <+: [n.digitChar] ↔ cs = [n.digitChar] :=
      ⟨fun h => h.eq_of_length_le (List.length_pos_iff.2 nonempty), fun h => h ▸ List.prefix_rfl⟩
    rw [alone]
    exact ⟨.inl, fun h => h.resolve_right fun h => absurd small (by omega)⟩
  · rename_i large
    rw [List.prefix_concat_iff]
    exact or_congr_right ⟨fun h => ⟨by omega, h⟩, fun h => h.2⟩

/-- The numbers whose digits begin with those of a number are what it is the front of. -/
theorem isPrefix_toDigits_iff {m : Nat} (positive : 0 < m) (n : Nat) :
    Nat.toDigits 10 m <+: Nat.toDigits 10 n ↔ ∃ k, n / 10 ^ k = m := by
  induction n using Nat.strongRecOn with
  | ind n ih =>
    rw [isPrefix_toDigits_step Nat.toDigits_ne_nil]
    constructor
    · rintro (same | ⟨large, front⟩)
      · exact ⟨0, by rw [Nat.pow_zero, Nat.div_one, toDigits_injective same]⟩
      · obtain ⟨k, hk⟩ := (ih (n / 10) (by omega)).1 front
        exact ⟨k + 1, by rw [Nat.pow_succ', ← Nat.div_div_eq_div_mul, hk]⟩
    · rintro ⟨k, hk⟩
      cases k with
      | zero => exact .inl (by rw [← hk, Nat.pow_zero, Nat.div_one])
      | succ k =>
        rw [Nat.pow_succ', ← Nat.div_div_eq_div_mul] at hk
        have large : 10 ≤ n := by
          by_contra small
          rw [Nat.div_eq_of_lt (by omega : n < 10), Nat.zero_div] at hk
          omega
        exact .inr ⟨large, (ih (n / 10) (by omega)).2 ⟨k, hk⟩⟩

theorem isPrefix_toDigits_zero_iff (n : Nat) : Nat.toDigits 10 0 <+: Nat.toDigits 10 n ↔ n = 0 := by
  induction n using Nat.strongRecOn with
  | ind n ih =>
    rw [isPrefix_toDigits_step Nat.toDigits_ne_nil]
    constructor
    · rintro (same | ⟨large, front⟩)
      · exact (toDigits_injective same).symm
      · have := (ih (n / 10) (by omega)).1 front
        omega
    · rintro rfl
      exact .inl rfl

theorem plain_of_isPrefix {cs : List Char} {n : Nat} (front : cs <+: Nat.toDigits 10 n) :
    Plain cs := by
  refine ⟨List.all_eq_true.2 fun c hc =>
    Nat.isDigit_of_mem_toDigits (by decide) (by decide) (front.mem hc), fun long zero => ?_⟩
  obtain ⟨rest, rfl⟩ := List.head?_eq_some_iff.1 zero
  -- a number that begins with a zero is zero, and has no further digit
  have lone : Nat.toDigits 10 0 <+: Nat.toDigits 10 n :=
    (List.prefix_append ['0'] rest).trans front
  obtain rfl := (isPrefix_toDigits_zero_iff n).1 lone
  have short := front.length_le
  rw [Nat.toDigits_zero, List.length_singleton] at short
  omega

theorem exists_digit {c : Char} (digit : c.isDigit = true) :
    c.toNat - '0'.toNat < 10 ∧ (c.toNat - '0'.toNat).digitChar = c := by
  obtain ⟨low, high⟩ : 48 ≤ c.toNat ∧ c.toNat ≤ 57 := by
    simpa [Char.isDigit, UInt32.le_iff_toNat_le] using digit
  have point : c = Char.ofNat c.toNat := (Char.ofNat_toNat c).symm
  generalize c.toNat = n at *
  subst point
  interval_cases n <;> exact ⟨by decide, rfl⟩

theorem natOfDigits_append (cs : List Char) (c : Char) :
    natOfDigits (cs ++ [c]) = 10 * natOfDigits cs + (c.toNat - '0'.toNat) := by
  rw [natOfDigits, List.foldl_append]
  rfl

/-- Digits without a leading zero are those of their number. -/
theorem toDigits_natOfDigits {cs : List Char} (nonempty : cs ≠ []) (plain : Plain cs) :
    Nat.toDigits 10 (natOfDigits cs) = cs := by
  induction cs using List.reverseRecOn with
  | nil => exact absurd rfl nonempty
  | append_singleton front last ih =>
    obtain ⟨digits, leading⟩ := plain
    simp only [List.all_append, Bool.and_eq_true, List.all_cons, List.all_nil, and_true] at digits
    obtain ⟨small, digit⟩ := exists_digit digits.2
    have single : Nat.toDigits 10 (last.toNat - '0'.toNat) = [last] := by
      rw [Nat.toDigits_of_lt_base small, digit]
    rw [natOfDigits_append]
    by_cases alone : front = []
    · subst alone
      simpa [natOfDigits] using single
    · have shorter : Plain front := by
        refine ⟨digits.1, fun long zero => leading ?_ ?_⟩
        · rw [List.length_append]
          omega
        · rw [List.head?_append, zero]
          rfl
      have front_eq := ih alone shorter
      have positive : 0 < natOfDigits front := by
        by_contra none
        rw [Nat.eq_zero_of_not_pos none] at front_eq
        rw [Nat.toDigits_zero] at front_eq
        exact leading (by simp [← front_eq]) (by simp [← front_eq])
      rw [← Nat.toDigits_append_toDigits (by decide) positive small, front_eq, single]

/-! ## Lengths -/

theorem length_toDigits_le {m n : Nat} (h : m ≤ n) :
    (Nat.toDigits 10 m).length ≤ (Nat.toDigits 10 n).length := by
  have fits := (Nat.length_toDigits_le_iff (by decide) Nat.length_toDigits_pos).1
    (Nat.le_refl (Nat.toDigits 10 n).length)
  exact (Nat.length_toDigits_le_iff (by decide) Nat.length_toDigits_pos).2 (h.trans_lt fits)

/-- A number nearer to zero on the same side is not longer. -/
theorem length_toString_le {m n : Int} (side : 0 ≤ m ↔ 0 ≤ n) (nearer : m.natAbs ≤ n.natAbs) :
    (toString m).length ≤ (toString n).length := by
  rw [← String.length_toList, ← String.length_toList, toList_toString, toList_toString]
  by_cases positive : 0 ≤ n
  · rw [if_pos positive, if_pos (side.2 positive)]
    exact length_toDigits_le (by omega)
  · rw [if_neg positive, if_neg (mt side.1 positive)]
    exact Nat.succ_le_succ (length_toDigits_le (by omega))

end CommandTree.Decimal
