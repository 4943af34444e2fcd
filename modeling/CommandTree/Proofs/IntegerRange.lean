import CommandTree.Proofs.DigitPrefixes
import Mathlib.Tactic.Ring

/-!
# The range that an integer node offers

The numbers that begin with what has been typed come in runs, one for each count of further digits.
Each run is an interval and lies above the one before, so the runs together list all such numbers
of the range by their distance from zero.

The same loop is told once more in words of 64 bits and for a bounded number of rounds, with no
answer where either is not enough; between bounds of 32 bits it always answers.

Results:
* `firstOf_eq_take`, `magnitudes_eq_take`: a limit keeps the beginning of a list.
* `mem_runs_iff`, `pairwise_runs`: what the runs hold, and in which order.
* `exists_lists`: the candidates are the first ones of the numbers that match.
* `candidatesWithin_eq`: how long the loop runs, and how large its numbers become.
* `integer_offers`: what an integer node offers, misses and takes.
-/
namespace CommandTree

theorem Text.beginsWith_iff {s start : String} :
    Text.beginsWith s start = true ↔ start.toList <+: s.toList :=
  List.isPrefixOf_iff_prefix

namespace ArgumentType

/-! ## Intervals -/

/-- The numbers from `low` to `high`. -/
def interval (low high : Int) : List Int :=
  (List.range (high + 1 - low).toNat).map fun (i : Nat) => low + i

theorem firstOf_eq_take (limit : Nat) (low high : Int) :
    firstOf limit low high = (interval low high).take limit := by
  rw [firstOf, interval, ← List.map_take, List.take_range]

theorem mem_interval_iff {low high n : Int} : n ∈ interval low high ↔ low ≤ n ∧ n ≤ high := by
  rw [interval, List.mem_map]
  constructor
  · rintro ⟨i, hi, rfl⟩
    have := List.mem_range.1 hi
    omega
  · rintro ⟨hl, hh⟩
    exact ⟨(n - low).toNat, List.mem_range.2 (by omega), by omega⟩

theorem pairwise_interval (low high : Int) : (interval low high).Pairwise (· < ·) := by
  rw [interval, List.pairwise_map]
  exact List.pairwise_lt_range.imp fun h => by omega

/-! ## Runs -/

/-- The numbers of all runs between `low` and `high`, of which the first is from `start` to
`stop`. -/
def runs (low high start stop : Int) : List Int :=
  if _h : 0 ≤ start ∧ start ≤ high then
    let run := interval (max start low) (min stop high)
    if _h0 : start = 0 then run else run ++ runs low high (10 * start) (10 * stop + 9)
  else []
termination_by (high + 1 - start).toNat
decreasing_by omega

theorem take_append_take {α : Type} (n : Nat) (xs ys : List α) :
    xs.take n ++ ys.take (n - (xs.take n).length) = (xs ++ ys).take n := by
  rw [List.take_append, List.length_take]
  congr 2
  omega

/-- A limit keeps the beginning of the runs. -/
theorem magnitudes_eq_take (limit : Nat) (low high start stop : Int) :
    magnitudes limit low high start stop = (runs low high start stop).take limit := by
  induction limit, start, stop using magnitudes.induct low high with
  | case1 limit stop inside =>
    rw [magnitudes, dif_pos inside, dif_pos rfl, runs, dif_pos ⟨inside.1, inside.2.1⟩, dif_pos rfl]
    exact firstOf_eq_take limit _ _
  | case2 limit start stop inside run positive ih =>
    rw [magnitudes, dif_pos inside, dif_neg positive, runs, dif_pos ⟨inside.1, inside.2.1⟩,
      dif_neg positive]
    have run_eq : run = (interval (max start low) (min stop high)).take limit :=
      firstOf_eq_take limit _ _
    show run ++ _ = _
    rw [ih, run_eq, take_append_take]
  | case3 limit start stop outside =>
    rw [magnitudes, dif_neg outside]
    by_cases none : limit = 0
    · rw [none, List.take_zero]
    · rw [runs, dif_neg (fun h => outside ⟨h.1, h.2, by omega⟩), List.take_nil]

/-- A number of a run has the digits of the first run in front, and some further ones. -/
theorem mem_runs_iff {low high start stop : Int} (positive : 0 < start) {n : Int} :
    n ∈ runs low high start stop ↔
      low ≤ n ∧ n ≤ high ∧ ∃ k : Nat, start * 10 ^ k ≤ n ∧ n < (stop + 1) * 10 ^ k := by
  induction start, stop using runs.induct low high with
  | case1 stop inside => exact absurd positive (Int.lt_irrefl 0)
  | case2 start stop inside nonzero ih =>
    have next : ∀ k : Nat, 10 * start * 10 ^ k = start * 10 ^ (k + 1) ∧
        (10 * stop + 9 + 1) * 10 ^ k = (stop + 1) * 10 ^ (k + 1) := by
      intro k
      constructor <;> ring
    rw [runs, dif_pos inside, dif_neg nonzero, List.mem_append, mem_interval_iff,
      ih (by omega)]
    simp only [next]
    constructor
    · rintro (⟨above, below⟩ | ⟨above, below, k, hk⟩)
      · exact ⟨by omega, by omega, 0, by omega, by omega⟩
      · exact ⟨above, below, k + 1, hk⟩
    · rintro ⟨above, below, k, hk⟩
      cases k with
      | zero => exact .inl ⟨by omega, by omega⟩
      | succ k => exact .inr ⟨above, below, k, hk⟩
  | case3 start stop outside =>
    rw [runs, dif_neg outside]
    refine iff_of_false List.not_mem_nil ?_
    rintro ⟨-, below, k, hk, -⟩
    have grows : start ≤ start * 10 ^ k :=
      le_mul_of_one_le_right (by omega) (one_le_pow₀ (by decide))
    omega

/-- Each run lies above the one before, if the first one ends before ten times its start. -/
theorem pairwise_runs {low high start stop : Int} (narrow : start ≠ 0 → stop < 10 * start) :
    (runs low high start stop).Pairwise (· < ·) := by
  induction start, stop using runs.induct low high with
  | case1 stop inside =>
    rw [runs, dif_pos inside, dif_pos rfl]
    exact pairwise_interval _ _
  | case2 start stop inside nonzero ih =>
    rw [runs, dif_pos inside, dif_neg nonzero, List.pairwise_append]
    have narrow := narrow nonzero
    refine ⟨pairwise_interval _ _, ih (by omega), fun m hm n hn => ?_⟩
    have last := (mem_interval_iff.1 hm).2
    obtain ⟨-, -, k, first, -⟩ := (mem_runs_iff (by omega)).1 hn
    have grows : 10 * start ≤ 10 * start * 10 ^ k :=
      le_mul_of_one_le_right (by omega) (one_le_pow₀ (by decide))
    omega
  | case3 start stop outside =>
    rw [runs, dif_neg outside]
    exact .nil

/-! ## Numbers that begin with what has been typed -/

/-- The first run behind digits; behind none it holds the numbers of one digit but zero. -/
def firstRun (cs : List Char) : Int × Int :=
  if cs = [] then (1, 9) else (Decimal.natOfDigits cs, Decimal.natOfDigits cs)

theorem firstRun_narrow (cs : List Char) (nonzero : (firstRun cs).1 ≠ 0) :
    (firstRun cs).2 < 10 * (firstRun cs).1 := by
  unfold firstRun at *
  split
  · decide
  · rename_i typed
    rw [if_neg typed] at nonzero
    simp only at *
    omega

theorem mem_runs_zero_iff {low high n : Int} :
    n ∈ runs low high 0 0 ↔ low ≤ n ∧ n ≤ high ∧ n = 0 := by
  rw [runs]
  split
  · rw [dif_pos rfl, mem_interval_iff]
    omega
  · exact iff_of_false List.not_mem_nil (by omega)

theorem div_pow_eq_iff (m n k : Nat) :
    n / 10 ^ k = m ↔ (m : Int) * 10 ^ k ≤ n ∧ (n : Int) < (m + 1) * 10 ^ k := by
  have power : 0 < 10 ^ k := Nat.pow_pos (by decide)
  have bounds : n / 10 ^ k = m ↔ m * 10 ^ k ≤ n ∧ n < (m + 1) * 10 ^ k := by
    rw [Nat.div_eq_iff power, Nat.succ_mul]
    omega
  rw [bounds]
  norm_cast

/-- The runs behind digits hold the numbers that begin with these. -/
theorem mem_runs_firstRun_iff {cs : List Char} (plain : Decimal.Plain cs) {low high : Int}
    (nonneg : 0 ≤ low) (positive : cs = [] → 0 < low) {n : Int} :
    n ∈ runs low high (firstRun cs).1 (firstRun cs).2 ↔
      low ≤ n ∧ n ≤ high ∧ cs <+: Nat.toDigits 10 n.toNat := by
  by_cases untyped : cs = []
  · have low_pos := positive untyped
    have first : firstRun cs = (1, 9) := if_pos untyped
    rw [first, mem_runs_iff (by decide), untyped]
    refine and_congr_right fun above => and_congr_right fun _ => iff_of_true ?_ List.nil_prefix
    -- the run of a number is that of all numbers with as many digits
    obtain ⟨m, rfl⟩ := Int.eq_ofNat_of_zero_le (nonneg.trans above)
    refine ⟨Nat.log 10 m, ?_, ?_⟩
    · have from_below := Nat.pow_log_le_self 10 (by omega : m ≠ 0)
      rw [one_mul]
      exact_mod_cast from_below
    · have from_above := Nat.lt_pow_succ_log_self (by decide : 1 < 10) m
      rw [Nat.pow_succ'] at from_above
      show (m : Int) < 10 * 10 ^ Nat.log 10 m
      exact_mod_cast from_above
  · have digits := Decimal.toDigits_natOfDigits untyped plain
    have first : firstRun cs = (↑(Decimal.natOfDigits cs), ↑(Decimal.natOfDigits cs)) :=
      if_neg untyped
    rw [first]
    generalize Decimal.natOfDigits cs = number at digits
    subst digits
    rcases Nat.eq_zero_or_pos number with rfl | number_pos
    · rw [Nat.cast_zero, mem_runs_zero_iff, Decimal.isPrefix_toDigits_zero_iff]
      omega
    · rw [mem_runs_iff (by omega), Decimal.isPrefix_toDigits_iff number_pos]
      refine and_congr_right fun above => and_congr_right fun _ => ?_
      obtain ⟨m, rfl⟩ := Int.eq_ofNat_of_zero_le (nonneg.trans above)
      simp only [div_pow_eq_iff, Int.toNat_natCast]

/-! ## What is offered -/

/-- The order in which numbers are offered: by size where nothing has been typed, else by their
distance from zero, the shorter ones first. -/
def Precedes (token : String) (m n : Int) : Prop :=
  if token = "" then m < n
  else m.natAbs < n.natAbs ∧ (toString m).length ≤ (toString n).length

/-- The numbers of a range that begin with a text, in the order in which they are offered. -/
structure Lists (token : String) (low high : Int) (numbers : List Int) : Prop where
  mem_iff : ∀ n, n ∈ numbers ↔ low ≤ n ∧ n ≤ high ∧ Text.beginsWith (toString n) token = true
  ordered : numbers.Pairwise (Precedes token)

theorem dash_append_toString {n : Int} (positive : 0 < n) : "-" ++ toString n = toString (-n) := by
  rw [← String.toList_inj, String.toList_append, Decimal.toList_toString, Decimal.toList_toString,
    if_pos (by omega), if_neg (by omega), Int.neg_neg]
  rfl

theorem not_plain_iff (cs : List Char) :
    (!cs.all Char.isDigit || (cs.length > 1 && cs.head? == some '0')) = true ↔
      ¬ Decimal.Plain cs := by
  rw [Decimal.Plain, not_and_or, Classical.not_imp, not_not]
  simp

theorem candidates_of_dash {token : String} {cs : List Char} (dash : token.toList = '-' :: cs)
    (low high : Int) (limit : Nat) :
    candidates token low high limit =
      if Decimal.Plain cs then
        ((runs (max 1 (-high)) (-low) (firstRun cs).1 (firstRun cs).2).take limit).map
          fun n => toString (-n)
      else [] := by
  have typed : token ≠ "" := by
    rintro rfl
    cases dash
  unfold candidates
  rw [dash]
  simp only [if_neg typed, if_true]
  by_cases plain : Decimal.Plain cs
  · rw [if_pos plain, if_neg fun h => (not_plain_iff cs).1 h plain, ← magnitudes_eq_take]
    refine List.map_congr_left fun n hn => dash_append_toString ?_
    have := (mem_magnitudes hn).1
    omega
  · rw [if_neg plain, if_pos ((not_plain_iff cs).2 plain)]

theorem candidates_of_digits {token : String} (typed : token ≠ "")
    (undashed : token.toList.head? ≠ some '-') (low high : Int) (limit : Nat) :
    candidates token low high limit =
      if Decimal.Plain token.toList then
        ((runs (max 0 low) high (firstRun token.toList).1 (firstRun token.toList).2).take limit).map
          toString
      else [] := by
  unfold candidates
  split
  · rename_i cs dash
    exact absurd (by rw [dash]; rfl) undashed
  · simp only [if_neg typed]
    by_cases plain : Decimal.Plain token.toList
    · rw [if_pos plain, if_neg fun h => (not_plain_iff _).1 h plain, ← magnitudes_eq_take]
      rfl
    · rw [if_neg plain, if_pos ((not_plain_iff _).2 plain)]

theorem lists_untyped (low high : Int) : Lists "" low high (interval low high) where
  mem_iff n := by
    rw [mem_interval_iff, Text.beginsWith_iff]
    simp
  ordered := (pairwise_interval low high).imp fun h => (if_pos rfl).mpr h

/-- Behind a dash stand the digits of the opposite number. -/
theorem beginsWith_dash_iff {token : String} {cs : List Char} (dash : token.toList = '-' :: cs)
    (n : Int) : Text.beginsWith (toString n) token = true ↔
      n < 0 ∧ cs <+: Nat.toDigits 10 (-n).toNat := by
  rw [Text.beginsWith_iff, dash, Decimal.toList_toString]
  split
  · rename_i nonneg
    refine iff_of_false (fun front => ?_) fun h => absurd nonneg (by omega)
    have digit := Nat.isDigit_of_mem_toDigits (by decide) (by decide)
      (front.mem List.mem_cons_self)
    exact absurd digit (by decide)
  · rename_i negative
    rw [List.cons_prefix_cons]
    exact and_congr_left fun _ => iff_of_true rfl (by omega)

theorem beginsWith_digits_iff {token : String} (typed : token ≠ "")
    (undashed : token.toList.head? ≠ some '-') (n : Int) :
    Text.beginsWith (toString n) token = true ↔
      0 ≤ n ∧ token.toList <+: Nat.toDigits 10 n.toNat := by
  rw [Text.beginsWith_iff, Decimal.toList_toString]
  split
  · rename_i nonneg
    exact (and_iff_right nonneg).symm
  · rename_i negative
    refine iff_of_false (fun front => undashed ?_) fun h => negative h.1
    obtain ⟨c, cs, he⟩ := List.exists_cons_of_ne_nil (mt String.toList_eq_nil_iff.1 typed)
    rw [he, List.cons_prefix_cons] at front
    rw [he, front.1, List.head?_cons]

theorem precedes_of_lt {token : String} (typed : token ≠ "") {m n : Int}
    (side : 0 ≤ m ↔ 0 ≤ n) (nearer : m.natAbs < n.natAbs) : Precedes token m n := by
  rw [Precedes, if_neg typed]
  exact ⟨nearer, Decimal.length_toString_le side nearer.le⟩

theorem lists_of_dash {token : String} {cs : List Char} (dash : token.toList = '-' :: cs)
    (plain : Decimal.Plain cs) (low high : Int) :
    Lists token low high
      ((runs (max 1 (-high)) (-low) (firstRun cs).1 (firstRun cs).2).map fun n => -n) := by
  have mem {n : Int} : n ∈ runs (max 1 (-high)) (-low) (firstRun cs).1 (firstRun cs).2 ↔
      max 1 (-high) ≤ n ∧ n ≤ -low ∧ cs <+: Nat.toDigits 10 n.toNat :=
    mem_runs_firstRun_iff plain (by omega) (by omega)
  refine ⟨fun n => ?_, ?_⟩
  · rw [beginsWith_dash_iff dash, List.mem_map]
    constructor
    · rintro ⟨m, hm, rfl⟩
      have := mem.1 hm
      rw [Int.neg_neg]
      exact ⟨by omega, by omega, by omega, this.2.2⟩
    · rintro ⟨above, below, negative, front⟩
      exact ⟨-n, mem.2 ⟨by omega, by omega, front⟩, Int.neg_neg n⟩
  · rw [List.pairwise_map]
    refine (pairwise_runs (firstRun_narrow cs)).imp_of_mem fun hm hn less => ?_
    have bounds := (mem.1 hm).1
    have typed : token ≠ "" := by
      rintro rfl
      cases dash
    exact precedes_of_lt typed (by omega) (by omega)

theorem lists_of_digits {token : String} (typed : token ≠ "")
    (undashed : token.toList.head? ≠ some '-') (plain : Decimal.Plain token.toList)
    (low high : Int) :
    Lists token low high
      (runs (max 0 low) high (firstRun token.toList).1 (firstRun token.toList).2) := by
  have nonempty := mt String.toList_eq_nil_iff.1 typed
  have mem {n : Int} :
      n ∈ runs (max 0 low) high (firstRun token.toList).1 (firstRun token.toList).2 ↔
        max 0 low ≤ n ∧ n ≤ high ∧ token.toList <+: Nat.toDigits 10 n.toNat :=
    mem_runs_firstRun_iff plain (by omega) fun empty => absurd empty nonempty
  refine ⟨fun n => ?_, ?_⟩
  · rw [beginsWith_digits_iff typed undashed, mem, max_le_iff]
    tauto
  · refine (pairwise_runs (firstRun_narrow _)).imp_of_mem fun hm hn less => ?_
    have bounds := (mem.1 hm).1
    exact precedes_of_lt typed (by omega) (by omega)

theorem lists_nil {token : String} {low high : Int}
    (none : ∀ n : Int, ¬ Text.beginsWith (toString n) token = true) : Lists token low high [] where
  mem_iff n := iff_of_false List.not_mem_nil fun h => none n h.2.2
  ordered := .nil

/-- The numbers of a range that begin with a text are offered up to the limit. -/
theorem exists_lists (token : String) (low high : Int) :
    ∃ numbers, Lists token low high numbers ∧
      ∀ limit, candidates token low high limit = (numbers.take limit).map toString := by
  by_cases typed : token = ""
  · subst typed
    refine ⟨_, lists_untyped low high, fun limit => ?_⟩
    rw [← firstOf_eq_take]
    rfl
  by_cases dashed : token.toList.head? = some '-'
  · obtain ⟨cs, dash⟩ := List.head?_eq_some_iff.1 dashed
    by_cases plain : Decimal.Plain cs
    · refine ⟨_, lists_of_dash dash plain low high, fun limit => ?_⟩
      rw [candidates_of_dash dash, if_pos plain, ← List.map_take, List.map_map]
      rfl
    · refine ⟨[], lists_nil fun n begins => ?_, fun limit => ?_⟩
      · exact plain (Decimal.plain_of_isPrefix ((beginsWith_dash_iff dash n).1 begins).2)
      · rw [candidates_of_dash dash, if_neg plain, List.take_nil, List.map_nil]
  · by_cases plain : Decimal.Plain token.toList
    · refine ⟨_, lists_of_digits typed dashed plain low high, fun limit => ?_⟩
      rw [candidates_of_digits typed dashed, if_pos plain]
    · refine ⟨[], lists_nil fun n begins => ?_, fun limit => ?_⟩
      · exact plain (Decimal.plain_of_isPrefix ((beginsWith_digits_iff typed dashed n).1 begins).2)
      · rw [candidates_of_digits typed dashed, if_neg plain, List.take_nil, List.map_nil]

/-! ## Words of 64 bits -/

def fitsWord (n : Int) : Bool := decide (-0x8000000000000000 ≤ n ∧ n < 0x8000000000000000)

/-- The runs up to the limit, counted in words of 64 bits and in so many rounds.  There is no
answer when a number does not fit its word or the rounds are used up. -/
def magnitudesWithin (low high : Int) : Nat → Nat → Int → Int → Option (List Int)
  | 0, _, _, _ => none
  | rounds + 1, limit, start, stop =>
    if start ≤ high ∧ 0 < limit then
      let run := firstOf limit (max start low) (min stop high)
      if start = 0 then some run
      else if fitsWord (10 * start) && fitsWord (10 * stop) && fitsWord (10 * stop + 9) then
        (magnitudesWithin low high rounds (limit - run.length) (10 * start) (10 * stop + 9)).map
          (run ++ ·)
      else none
    else some []

/-- The numbers that begin with digits, counted in the same way; there are none behind text that is
no number of 64 bits. -/
def numbersWithin (digits : List Char) (low high : Int) (rounds limit : Nat) : Option (List Int) :=
  let run := firstRun digits
  if Decimal.Plain digits ∧ fitsWord run.1 = true then
    magnitudesWithin low high rounds limit run.1 run.2
  else some []

/-- The candidates, counted in words of 64 bits and in so many rounds. -/
def candidatesWithin (rounds : Nat) (token : String) (low high : Int) (limit : Nat) :
    Option (List String) :=
  if token = "" then some ((firstOf limit low high).map toString)
  else
    match token.toList with
    | '-' :: digits =>
      if fitsWord (-low) && fitsWord (-high) then
        (numbersWithin digits (max 1 (-high)) (-low) rounds limit).map
          (List.map fun n => toString (-n))
      else none
    | digits => (numbersWithin digits (max 0 low) high rounds limit).map (List.map toString)

/-- The loop ends, and its words suffice, if the first run and the bound are small. -/
theorem magnitudesWithin_eq {low high : Int} (bound : high ≤ 0x80000000) {rounds limit : Nat}
    {start stop : Int} (positive : 0 < start) (nonneg : 0 ≤ stop) (narrow : stop < 10 * start)
    (enough : high < start * 10 ^ rounds) :
    magnitudesWithin low high (rounds + 1) limit start stop =
      some (magnitudes limit low high start stop) := by
  induction rounds generalizing limit start stop with
  | zero =>
    rw [magnitudesWithin, if_neg (by omega), magnitudes, dif_neg (by omega)]
  | succ rounds ih =>
    rw [magnitudesWithin]
    by_cases inside : start ≤ high ∧ 0 < limit
    · have fits : (fitsWord (10 * start) && fitsWord (10 * stop) && fitsWord (10 * stop + 9)) =
          true := by
        simp only [fitsWord, Bool.and_eq_true, decide_eq_true_eq]
        omega
      have further : high < 10 * start * 10 ^ rounds := by
        rw [Int.mul_comm 10 start, Int.mul_assoc, ← Int.pow_succ']
        exact enough
      rw [magnitudes, if_pos inside, dif_pos ⟨by omega, inside⟩]
      have later := @ih (limit - (firstOf limit (max start low) (min stop high)).length)
        (10 * start) (10 * stop + 9) (by omega) (by omega) (by omega) further
      simp only [if_neg (by omega : ¬ start = 0), dif_neg (by omega : ¬ start = 0), fits, if_true]
      rw [later, Option.map_some]
    · rw [if_neg inside, magnitudes, dif_neg fun h => inside h.2]

theorem magnitudesWithin_zero (low high : Int) (rounds limit : Nat) (stop : Int) :
    magnitudesWithin low high (rounds + 1) limit 0 stop =
      some (magnitudes limit low high 0 stop) := by
  rw [magnitudesWithin, magnitudes]
  by_cases inside : 0 ≤ high ∧ 0 < limit
  · rw [if_pos inside, dif_pos ⟨Int.le_refl 0, inside⟩]
    rfl
  · rw [if_neg inside, dif_neg fun h => inside h.2]

/-- Eleven rounds suffice for numbers of 32 bits. -/
theorem numbersWithin_eq (cs : List Char) {low high : Int} (bound : high ≤ 0x80000000)
    (limit : Nat) :
    numbersWithin cs low high 11 limit =
      some (if Decimal.Plain cs then
        (runs low high (firstRun cs).1 (firstRun cs).2).take limit else []) := by
  have bounds : 0 ≤ (firstRun cs).1 ∧ 0 ≤ (firstRun cs).2 := by
    unfold firstRun
    split <;> simp
  have narrow := firstRun_narrow cs
  rw [numbersWithin, ← magnitudes_eq_take]
  generalize firstRun cs = run at *
  obtain ⟨start, stop⟩ := run
  by_cases plain : Decimal.Plain cs
  · rw [if_pos plain]
    by_cases fits : fitsWord start = true
    · rw [if_pos ⟨plain, fits⟩]
      rcases eq_or_ne start 0 with rfl | nonzero
      · exact magnitudesWithin_zero low high 10 limit stop
      · exact magnitudesWithin_eq bound (by omega) bounds.2 (narrow nonzero) (by omega)
    · -- a start beyond 64 bits is beyond every bound of 32 bits
      rw [if_neg fun h => fits h.2, magnitudes, dif_neg]
      simp only [fitsWord, decide_eq_true_eq] at fits
      omega
  · rw [if_neg plain, if_neg fun h => plain h.1]

/-- Between bounds of 32 bits the loop ends after eleven rounds at most, and no number on its way
is too large for 64 bits. -/
theorem candidatesWithin_eq (token : String) (low high : Int32) (limit : Nat) :
    candidatesWithin 11 token low.toInt high.toInt limit =
      some (candidates token low.toInt high.toInt limit) := by
  have low_le := low.le_toInt
  have low_lt := low.toInt_lt
  have high_le := high.le_toInt
  have high_lt := high.toInt_lt
  by_cases typed : token = ""
  · subst typed
    rfl
  rw [candidatesWithin, if_neg typed]
  split
  · rename_i cs dash
    have words : (fitsWord (-low.toInt) && fitsWord (-high.toInt)) = true := by
      simp only [fitsWord, Bool.and_eq_true, decide_eq_true_eq]
      omega
    rw [if_pos words, numbersWithin_eq cs (by omega), candidates_of_dash dash, Option.map_some]
    split <;> rfl
  · rename_i cs undashed
    have plainly : token.toList.head? ≠ some '-' := fun head => by
      obtain ⟨rest, he⟩ := List.head?_eq_some_iff.1 head
      exact undashed rest he
    rw [numbersWithin_eq _ (by omega), candidates_of_digits typed plainly, Option.map_some]
    split <;> rfl

/-! ## The node -/

theorem le_of_integer_result {ε : Type} {d : Descriptor} {high : Int32} {n : Int}
    {around : Surroundings ε} {v : Value} (max : integerKind.bound d "max" = some high)
    (taken : integer.result (toString n) d around = .ok v) : n ≤ high.toInt := by
  have read : Decimal.readInt32 (toString n) =
      if -0x80000000 ≤ n ∧ n < 0x80000000 then some (.ofInt n) else none := by
    rw [Decimal.readInt32, Decimal.readInt_toString]
    rfl
  by_cases small : -0x80000000 ≤ n ∧ n < 0x80000000
  · rw [if_pos small] at read
    simp only [integer, read] at taken
    cases checked : checkBounds integerKind d (.ofInt n) with
    | error e =>
      rw [checked] at taken
      cases taken
    | ok x =>
    obtain ⟨-, -, above⟩ := (checkBounds_eq_ok_iff integerKind d _ _).1 checked
    have fits : (Int32.ofInt n).toInt = n := Int32.toInt_ofInt_of_le small.1 (by omega)
    have below := of_decide_eq_false (above high max)
    rw [Int32.lt_iff_toInt_lt, fits] at below
    omega
  · rw [if_neg small] at read
    simp only [integer, read] at taken
    cases taken

/-- **An integer node offers exactly the range that matches.**  Between any bounds of 32 bits there
is one list of all numbers whose text begins with what has been typed, each once, by size where
nothing has been typed and else by distance from zero, the shorter ones first.  Of this list the
candidates are the first ones up to the limit.  The loop that finds them ends after eleven rounds
at most, and no number on its way is too large for a word of 64 bits.

Whatever a node offers therefore begins with the token, and the node takes it.  Where the upper
bound of the node can be read, the list is that of all numbers from the lower bound on, or from zero
without one, that begin with the token and that the node takes. -/
theorem integer_offers {ε : Type} (token : String) :
    (∀ low high : Int32, ∃ numbers, Lists token low.toInt high.toInt numbers ∧ ∀ limit,
      candidates token low.toInt high.toInt limit = (numbers.take limit).map toString ∧
      candidatesWithin 11 token low.toInt high.toInt limit =
        some (candidates token low.toInt high.toInt limit)) ∧
    ∀ d : Descriptor,
      (∀ around : Surroundings ε, ∀ c ∈ integer.complete token d around,
        Text.beginsWith c token = true ∧ ∃ v, integer.result c d around = .ok v) ∧
      ∀ high, integerKind.bound d "max" = some high →
        ∃ numbers,
          Lists token ((integerKind.bound d "min").getD 0).toInt high.toInt numbers ∧
          (∀ (around : Surroundings ε) n, n ∈ numbers ↔
            ((integerKind.bound d "min").getD 0).toInt ≤ n ∧
              Text.beginsWith (toString n) token = true ∧
              ∃ v, integer.result (toString n) d around = .ok v) ∧
          ∀ around : Surroundings ε,
            integer.complete token d around = (numbers.take around.limit).map toString := by
  have listed : ∀ (d : Descriptor) high, integerKind.bound d "max" = some high →
      ∃ numbers, Lists token ((integerKind.bound d "min").getD 0).toInt high.toInt numbers ∧
        ∀ around : Surroundings ε,
          integer.complete token d around = (numbers.take around.limit).map toString := by
    intro d high max
    obtain ⟨numbers, lists, offered⟩ :=
      exists_lists token ((integerKind.bound d "min").getD 0).toInt high.toInt
    refine ⟨numbers, lists, fun around => ?_⟩
    rw [← offered]
    simp only [integer, max]
  have accepted : ∀ (d : Descriptor) high, integerKind.bound d "max" = some high →
      ∀ n : Int, ((integerKind.bound d "min").getD 0).toInt ≤ n → n ≤ high.toInt →
        ∀ around : Surroundings ε,
          integer.result (toString n) d around = .ok (.integer (.ofInt n)) := by
    intro d high max n above below around
    refine integer_result_toString ?_ max above below around
    cases integerKind.bound d "min" with
    | none => exact .inr rfl
    | some low => exact .inl rfl
  refine ⟨fun low high => ?_, fun d => ⟨fun around c offered => ?_, fun high max => ?_⟩⟩
  · obtain ⟨numbers, lists, offered⟩ := exists_lists token low.toInt high.toInt
    exact ⟨numbers, lists, fun limit => ⟨offered limit, candidatesWithin_eq token low high limit⟩⟩
  · cases max : integerKind.bound d "max" with
    | none =>
      simp only [integer, max] at offered
      cases offered
    | some high =>
      obtain ⟨numbers, lists, complete⟩ := listed d high max
      rw [complete] at offered
      obtain ⟨n, hn, rfl⟩ := List.mem_map.1 offered
      obtain ⟨above, below, begins⟩ := (lists.mem_iff n).1 (List.mem_of_mem_take hn)
      exact ⟨begins, _, accepted d high max n above below around⟩
  · obtain ⟨numbers, lists, complete⟩ := listed d high max
    refine ⟨numbers, lists, fun around n => ?_, complete⟩
    rw [lists.mem_iff]
    constructor
    · rintro ⟨above, below, begins⟩
      exact ⟨above, begins, _, accepted d high max n above below around⟩
    · rintro ⟨above, begins, v, taken⟩
      exact ⟨above, le_of_integer_result max taken, begins⟩

/-- A node for every negative number of 32 bits, and for the digits. -/
def lowestDescriptor : Descriptor :=
  ⟨"@int", .ofList [("min", "-2147483648"), ("max", "9")]⟩

/-- Three of the ten numbers that begin with `-214748364`; the last of the ten is the least one. -/
theorem integer_offers_lowest :
    integerKind.bound lowestDescriptor "max" = some 9 ∧
      integer.complete "-214748364" lowestDescriptor { env := (), limit := 3 } =
        ["-214748364", "-2147483640", "-2147483641"] ∧
      ∃ numbers, Lists "-214748364" (-2147483648) 9 numbers ∧ -2147483648 ∈ numbers := by
  have max : integerKind.bound lowestDescriptor "max" = some 9 := by decide
  have min : integerKind.bound lowestDescriptor "min" = some (-2147483648) := by decide
  have counted : candidatesWithin 11 "-214748364" (-2147483648 : Int32).toInt (9 : Int32).toInt 3 =
      some ["-214748364", "-2147483640", "-2147483641"] := by decide
  obtain ⟨range, node⟩ := integer_offers (ε := Unit) "-214748364"
  obtain ⟨_, -, offered⟩ := range (-2147483648) 9
  obtain ⟨numbers, lists, mem, -⟩ := (node lowestDescriptor).2 9 max
  refine ⟨max, ?_, numbers, ?_, ?_⟩
  · simp only [integer, max, min]
    exact Option.some.inj ((offered 3).2.symm.trans counted)
  · rwa [min] at lists
  · exact (lists.mem_iff _).2 (by rw [min]; decide)

end ArgumentType

end CommandTree
