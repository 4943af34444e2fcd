import CommandTree.ArgumentType.Integer

/-!
# What an integer node offers

The numbers that an integer node offers are written in the way that it reads them, and they lie
between its bounds.  Each of them is therefore a value of the node.  Negative ones are offered only
where nothing has been typed or a dash has.

Results:
* `Decimal.readInt_toString`: a number is read back as it was written.
* `ArgumentType.mem_candidates`: the numbers offered lie between the bounds.
* `ArgumentType.integer_complete_accepted`: a number offered is a value of the node.
-/
namespace CommandTree

namespace Decimal

/-! ## Numbers as they are written -/

theorem readNat_toDigits (n : Nat) : readNat (Nat.toDigits 10 n) = some n := by
  have digits : (Nat.toDigits 10 n).all Char.isDigit = true :=
    List.all_eq_true.2 fun _ hc => Nat.isDigit_of_mem_toDigits (by decide) (by decide) hc
  rw [readNat, if_pos ⟨Nat.toDigits_ne_nil, digits⟩]
  exact congrArg some (Nat.ofDigitChars_toDigits (by decide) (by decide))

theorem takeSign_of_digits {cs : List Char} (digits : ∀ c ∈ cs, c.isDigit = true) :
    takeSign cs = (false, cs) := by
  unfold takeSign
  split
  · exact absurd (digits _ List.mem_cons_self) (by decide)
  · exact absurd (digits _ List.mem_cons_self) (by decide)
  · rfl

theorem toList_toString (n : Int) :
    (toString n).toList =
      if 0 ≤ n then Nat.toDigits 10 n.toNat else '-' :: Nat.toDigits 10 (-n).toNat := by
  rw [Int.toString_eq_repr, Int.repr_eq_if]
  split
  · exact Nat.toList_repr
  · rw [String.toList_append, Nat.toList_repr]
    rfl

theorem readInt_toString (n : Int) : readInt (toString n).toList = some n := by
  rw [toList_toString]
  split
  · rename_i h
    have digits : ∀ c ∈ Nat.toDigits 10 n.toNat, c.isDigit = true := fun _ hc =>
      Nat.isDigit_of_mem_toDigits (by decide) (by decide) hc
    simp only [readInt, takeSign_of_digits digits, readNat_toDigits]
    exact congrArg some (Int.toNat_of_nonneg h)
  · rename_i h
    have opposite : -((-n).toNat : Int) = n := by omega
    simp only [readInt, takeSign, readNat_toDigits]
    exact congrArg some opposite

theorem readInt32_toString {n : Int} (low : -0x80000000 ≤ n) (high : n < 0x80000000) :
    readInt32 (toString n) = some (.ofInt n) := by
  rw [readInt32, readInt_toString]
  exact if_pos ⟨low, high⟩

/-- A dash leads where the number is negative. -/
theorem head?_toString_iff (n : Int) : (toString n).toList.head? = some '-' ↔ n < 0 := by
  rw [toList_toString]
  split
  · rename_i h
    refine ⟨fun head => ?_, fun hn => absurd h (by omega)⟩
    have dash := Nat.isDigit_of_mem_toDigits (by decide) (by decide) (List.mem_of_head? head)
    exact absurd dash (by decide)
  · rename_i h
    exact ⟨fun _ => by omega, fun _ => rfl⟩

theorem space_not_mem_toString (n : Int) : ' ' ∉ (toString n).toList := by
  have digits (m : Nat) : ' ' ∉ Nat.toDigits 10 m := fun hc =>
    absurd (Nat.isDigit_of_mem_toDigits (by decide) (by decide) hc) (by decide)
  rw [toList_toString]
  split
  · exact digits _
  · exact List.not_mem_cons_of_ne_of_not_mem (by decide) (digits _)

end Decimal

namespace ArgumentType

/-! ## Numbers between bounds -/

theorem mem_firstOf {limit : Nat} {low high n : Int} (h : n ∈ firstOf limit low high) :
    low ≤ n ∧ n ≤ high := by
  obtain ⟨i, hi, rfl⟩ := List.mem_map.1 h
  have lt := List.mem_range.1 hi
  omega

theorem mem_magnitudes {limit : Nat} {low high start stop n : Int}
    (h : n ∈ magnitudes limit low high start stop) : low ≤ n ∧ n ≤ high := by
  have of_run {limit : Nat} {start stop : Int}
      (h : n ∈ firstOf limit (max start low) (min stop high)) : low ≤ n ∧ n ≤ high := by
    have bounds := mem_firstOf h
    omega
  induction limit, start, stop using magnitudes.induct low high with
  | case1 limit stop inside =>
    rw [magnitudes, dif_pos inside, dif_pos rfl] at h
    exact of_run h
  | case2 limit start stop inside run positive ih =>
    rw [magnitudes, dif_pos inside, dif_neg positive] at h
    rcases List.mem_append.1 h with h | h
    · exact of_run h
    · exact ih h
  | case3 limit start stop outside =>
    rw [magnitudes, dif_neg outside] at h
    cases h

/-- The texts offered are those of numbers between the bounds.  Once something has been typed, a
number offered is negative exactly where that begins with a dash. -/
theorem mem_candidates {token c : String} {low high : Int} {limit : Nat}
    (h : c ∈ candidates token low high limit) :
    ∃ n : Int, c = toString n ∧ low ≤ n ∧ n ≤ high ∧
      (token ≠ "" → (n < 0 ↔ token.toList.head? = some '-')) := by
  by_cases empty : token = ""
  · subst empty
    obtain ⟨n, hn, rfl⟩ := List.mem_map.1 (show c ∈ (firstOf limit low high).map toString from h)
    exact ⟨n, rfl, (mem_firstOf hn).1, (mem_firstOf hn).2, fun typed => absurd rfl typed⟩
  · unfold candidates at h
    split at h
    · -- behind a dash the digits are those of the opposite number
      rename_i cs typed
      simp only [if_neg empty, if_true] at h
      split at h
      · cases h
      · obtain ⟨m, hm, rfl⟩ := List.mem_map.1 h
        have bounds := mem_magnitudes hm
        have text : "-" ++ toString m = toString (-m) := by
          rw [← String.toList_inj, String.toList_append, Decimal.toList_toString,
            Decimal.toList_toString, if_pos (by omega), if_neg (by omega), Int.neg_neg]
          rfl
        refine ⟨-m, text, by omega, by omega, fun _ => ?_⟩
        rw [typed]
        exact ⟨fun _ => rfl, fun _ => by omega⟩
    · rename_i cs undashed
      simp only [if_neg empty, Bool.false_eq_true, if_false] at h
      split at h
      · cases h
      · obtain ⟨m, hm, rfl⟩ := List.mem_map.1 h
        have bounds := mem_magnitudes hm
        refine ⟨m, rfl, by omega, by omega, fun _ => ⟨fun _ => by omega, fun head => ?_⟩⟩
        obtain ⟨rest, typed⟩ := List.head?_eq_some_iff.1 head
        exact absurd typed (undashed rest)

theorem integer_result_toString {ε : Type} {d : Descriptor} {low high : Int32} {n : Int}
    (min : integerKind.bound d "min" = some low ∨ integerKind.bound d "min" = none)
    (max : integerKind.bound d "max" = some high) (low_le : low.toInt ≤ n)
    (le_high : n ≤ high.toInt) (around : Surroundings ε) :
    integer.result (toString n) d around = .ok (.integer (.ofInt n)) := by
  have least := low.le_toInt
  have most := high.toInt_lt
  have fits : (Int32.ofInt n).toInt = n := Int32.toInt_ofInt_of_le (by omega) (by omega)
  have inside : checkBounds integerKind d (.ofInt n) = .ok (.ofInt n) := by
    rw [checkBounds_eq_ok_iff]
    refine ⟨rfl, fun low' found => ?_, fun high' found => ?_⟩
    · rcases min with min | min
      · obtain rfl : low = low' := Option.some.inj (min.symm.trans found)
        exact decide_eq_false (by rw [Int32.lt_iff_toInt_lt, fits]; omega)
      · cases min.symm.trans found
    · obtain rfl : high = high' := Option.some.inj (max.symm.trans found)
      exact decide_eq_false (by rw [Int32.lt_iff_toInt_lt, fits]; omega)
  simp only [integer, Decimal.readInt32_toString (by omega : -0x80000000 ≤ n) (by omega), inside]
  rfl

/-- A number offered is a value of the node. -/
theorem integer_complete_accepted {ε : Type} {token c : String} {d : Descriptor}
    {around : Surroundings ε} (h : c ∈ integer.complete token d around) :
    ∃ n : Int, c = toString n ∧ (token ≠ "" → (n < 0 ↔ token.toList.head? = some '-')) ∧
      ∀ around' : Surroundings ε, integer.result c d around' = .ok (.integer (.ofInt n)) := by
  cases max : integerKind.bound d "max" with
  | none =>
    simp only [integer, max] at h
    cases h
  | some high =>
    simp only [integer, max] at h
    obtain ⟨n, rfl, low_le, le_high, sign⟩ := mem_candidates h
    refine ⟨n, rfl, sign, integer_result_toString ?_ max low_le le_high⟩
    cases integerKind.bound d "min" with
    | none => exact .inr rfl
    | some low => exact .inl rfl

end ArgumentType

end CommandTree
