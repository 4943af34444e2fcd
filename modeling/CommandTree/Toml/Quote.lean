import CommandTree.Toml.Scalar

/-!
# Quoted text

Text between quotes, on one line or on several.  Between double quotes a backslash escapes; between
single quotes it does not.  A quoted text is cut off the document first (`cutQuoted`, `cutMulti`)
and judged afterwards.

Results:
* `cutLiteral_eq`: nothing of the text is lost in the cut.
-/
namespace CommandTree.Toml

/-- Whether a character may not stand for itself anywhere but at the end of a line. -/
def isControl (c : Char) : Bool := (c.toNat < 0x20 && c != '\t') || c.toNat == 0x7F

/-- Cuts at the closing double quote, which no backslash precedes. -/
def cutBasic : List Char → Option (List Char × List Char)
  | [] => none
  | '"' :: rest => some ([], rest)
  | '\\' :: c :: rest => (cutBasic rest).map fun (inner, rest) => ('\\' :: c :: inner, rest)
  | c :: rest => (cutBasic rest).map fun (inner, rest) => (c :: inner, rest)

def cutLiteral : List Char → Option (List Char × List Char)
  | [] => none
  | '\'' :: rest => some ([], rest)
  | c :: rest => (cutLiteral rest).map fun (inner, rest) => (c :: inner, rest)

/-- Cuts at three closing quotes; up to two more quotes before them belong to the text. -/
def cutMulti (quote : Char) (escapes : Bool) : List Char → Option (List Char × List Char)
  | [] => none
  | [_] => none
  | c :: d :: rest =>
    if c = quote ∧ d = quote ∧ rest.head? = some quote then
      let more := (rest.tail.takeWhile (· = quote)).take 2
      some (more, rest.tail.drop more.length)
    else if escapes ∧ c = '\\' then
      (cutMulti quote escapes rest).map fun (inner, rest) => (c :: d :: inner, rest)
    else (cutMulti quote escapes (d :: rest)).map fun (inner, rest) => (c :: inner, rest)

def hexChar (ds : List Char) : Option Char :=
  let n := ofDigits 16 ds
  if ds.all isHexDigit ∧ n.isValidChar then some (.ofNat n) else none

/-- The character that a backslash and a letter stand for. -/
def letterEscape : Char → Option Char
  | 'b' => some '\x08'
  | 't' => some '\t'
  | 'n' => some '\n'
  | 'f' => some '\x0c'
  | 'r' => some '\r'
  | 'e' => some '\x1b'
  | '"' => some '"'
  | '\\' => some '\\'
  | _ => none

/-- The text meant by what stands between double quotes on one line. -/
def decodeBasic : List Char → Option (List Char)
  | [] => some []
  | '\\' :: 'x' :: a :: b :: rest => do return (← hexChar [a, b]) :: (← decodeBasic rest)
  | '\\' :: 'u' :: a :: b :: c :: d :: rest => do
    return (← hexChar [a, b, c, d]) :: (← decodeBasic rest)
  | '\\' :: 'U' :: a :: b :: c :: d :: e :: f :: g :: h :: rest => do
    return (← hexChar [a, b, c, d, e, f, g, h]) :: (← decodeBasic rest)
  | '\\' :: c :: rest => do return (← letterEscape c) :: (← decodeBasic rest)
  | c :: rest => do
    if isControl c || c == '\\' then none
    return c :: (← decodeBasic rest)

/-- Whether a line ends here, blanks aside. -/
def endsLine (cs : List Char) : Bool :=
  match cs.dropWhile fun c => c == ' ' || c == '\t' with
  | '\n' :: _ => true
  | '\r' :: '\n' :: _ => true
  | _ => false

/-- Whether the text may stand between three double quotes.  A backslash at the end of a line
joins it to the next. -/
def isMultiBasic : List Char → Bool
  | [] => true
  | '\\' :: 'x' :: a :: b :: rest => (hexChar [a, b]).isSome && isMultiBasic rest
  | '\\' :: 'u' :: a :: b :: c :: d :: rest =>
    (hexChar [a, b, c, d]).isSome && isMultiBasic rest
  | '\\' :: 'U' :: a :: b :: c :: d :: e :: f :: g :: h :: rest =>
    (hexChar [a, b, c, d, e, f, g, h]).isSome && isMultiBasic rest
  | '\\' :: c :: rest =>
    ((letterEscape c).isSome || endsLine (c :: rest)) && isMultiBasic rest
  | '\r' :: '\n' :: rest => isMultiBasic rest
  | c :: rest => (c == '\n' || !(isControl c || c == '\\')) && isMultiBasic rest

/-- Whether the text may stand between three single quotes. -/
def isMultiLiteral : List Char → Bool
  | [] => true
  | '\r' :: '\n' :: rest => isMultiLiteral rest
  | c :: rest => (c == '\n' || !isControl c) && isMultiLiteral rest

theorem cutLiteral_eq {cs inner rest : List Char} (h : cutLiteral cs = some (inner, rest)) :
    cs = inner ++ '\'' :: rest := by
  induction cs generalizing inner with
  | nil => simp [cutLiteral] at h
  | cons c cs ih =>
    by_cases hc : c = '\''
    · subst hc; simp [cutLiteral] at h; simp [h]
    · rw [cutLiteral] at h
      · obtain ⟨⟨i, r⟩, hi, he⟩ := Option.map_eq_some_iff.1 h
        cases he
        rw [ih hi]
        rfl
      · simpa using hc

end CommandTree.Toml
