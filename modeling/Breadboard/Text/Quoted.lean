import Breadboard.Text.Unseen

/-!
# Breadboard — quoted text

A text in double quotes, on one line, with everything visible: a quote or a backslash has a
backslash before it, the common control characters have short names, and every other character
that does not show is written by its code point.
-/

namespace Breadboard.Text

/-- A character by its code point. -/
def byCode (c : Char) : List Char :=
  ['\\', 'u', '\x7b'] ++ Nat.toDigits 16 c.toNat ++ ['\x7d']

/-- A character inside quotes. -/
def quotedChar (c : Char) : List Char :=
  match c with
  | '\x00' => ['\\', '0']
  | '\t' => ['\\', 't']
  | '\r' => ['\\', 'r']
  | '\n' => ['\\', 'n']
  | '"' => ['\\', '"']
  | '\\' => ['\\', '\\']
  | c => if isUnseen c then byCode c else [c]

/-- A text in quotes. -/
def quoted (s : String) : String :=
  String.ofList ('"' :: s.toList.flatMap quotedChar ++ ['"'])

end Breadboard.Text
