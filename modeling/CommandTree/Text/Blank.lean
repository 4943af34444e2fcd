/-!
# Blank characters

`isBlank` is the property White_Space of the Unicode standard: 25 characters, more than the
six of ASCII.  Text is trimmed by it and lines are judged empty by it; tokens are cut at
U+0020 alone (`CommandTree.Text.Cut`).

Results:
* `trimChars_nil_iff`: only text without any other character trims to nothing.
-/
namespace CommandTree.Text

/-- The Unicode property White_Space. -/
def isBlank (c : Char) : Bool :=
  let n := c.toNat
  (9 ≤ n && n ≤ 13) || n == 0x20 || n == 0x85 || n == 0xA0 || n == 0x1680 ||
    (0x2000 ≤ n && n ≤ 0x200A) || n == 0x2028 || n == 0x2029 || n == 0x202F ||
    n == 0x205F || n == 0x3000

def trimLeft (cs : List Char) : List Char := cs.dropWhile isBlank

def trimRight (cs : List Char) : List Char := (cs.reverse.dropWhile isBlank).reverse

def trimChars (cs : List Char) : List Char := trimRight (trimLeft cs)

def trim (s : String) : String := .ofList (trimChars s.toList)

def trimStart (s : String) : String := .ofList (trimLeft s.toList)

/-- The first run of characters that are not blank, empty for a blank line. -/
def firstWord (s : String) : String :=
  .ofList ((trimLeft s.toList).takeWhile fun c => !isBlank c)

theorem isBlank_of_isWhitespace {c : Char} (h : c.isWhitespace = true) : isBlank c = true := by
  simp only [Char.isWhitespace, Bool.or_eq_true, decide_eq_true_eq] at h
  rcases h with ((rfl | rfl) | rfl) | rfl <;> decide

theorem dropWhile_eq_nil_iff_all {α : Type} (p : α → Bool) (xs : List α) :
    xs.dropWhile p = [] ↔ xs.all p = true := by
  induction xs with
  | nil => simp
  | cons x xs ih => by_cases h : p x <;> simp [h, ih]

theorem trimChars_nil_iff (cs : List Char) : trimChars cs = [] ↔ cs.all isBlank = true := by
  constructor
  · intro h
    have h1 : (trimLeft cs).all isBlank = true := by
      have := (dropWhile_eq_nil_iff_all isBlank (trimLeft cs).reverse).1
        (by simpa [trimChars, trimRight] using h)
      simpa using this
    cases hd : cs.dropWhile isBlank with
    | nil => exact (dropWhile_eq_nil_iff_all isBlank cs).1 hd
    | cons c r =>
      have hc : isBlank c = false := by
        have := List.head_dropWhile_not (p := isBlank) (l := cs) (by simp [hd])
        simpa [hd] using this
      simp only [trimLeft, hd, List.all_cons, Bool.and_eq_true] at h1
      simp [hc] at h1
  · intro h
    have : trimLeft cs = [] := (dropWhile_eq_nil_iff_all isBlank cs).2 h
    simp [trimChars, this, trimRight]

end CommandTree.Text
