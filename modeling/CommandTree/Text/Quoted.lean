import CommandTree.Text.Unprintable

/-!
# Quoted text

Text between double quotes in which every character can be seen: a backslash and a quote are
escaped, NUL, tab, line feed and carriage return have letters, and other characters without a
shape of their own are spelled `\\u{hex}` with the fewest digits.
-/
namespace CommandTree.Text

def hex (n : Nat) : List Char := Nat.toDigits 16 n

/-- One character as it stands between the quotes. -/
def quotedChar (c : Char) : List Char :=
  match c with
  | '\x00' => ['\\', '0']
  | '\t' => ['\\', 't']
  | '\n' => ['\\', 'n']
  | '\r' => ['\\', 'r']
  | '\\' => ['\\', '\\']
  | '"' => ['\\', '"']
  | c =>
    if (0x20 ≤ c.toNat && c.toNat < 0x7F) then [c]
    else if isAttached c || isUnprintable c then
      ['\\', 'u', '\x7b'] ++ hex c.toNat ++ ['\x7d']
    else [c]

def quoted (s : String) : String :=
  .ofList ('"' :: s.toList.flatMap quotedChar ++ ['"'])

end CommandTree.Text
