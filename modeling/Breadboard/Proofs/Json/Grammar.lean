import Breadboard.Json.Reader
import Mathlib.Data.List.Forall2

/-!
# Breadboard — the grammar of JSON

The strict grammar of JSON texts as relations between a value and the characters that spell it. It
says nothing about how a text is read: white space may stand wherever the grammar has it, numbers are
kept as they are spelt, and a character of a string may be written as itself, by a short escape, by
its code, or, if it needs two units, by a pair of codes.

* `SpellsChar`, `SpellsString` — strings and the texts that they stand for;
* `IsNumber` — the spellings that are numbers;
* `Spells` — values, with `SpellsItems` for what is in an array and `SpellsMembers` for what is in an
  object;
* `Document` — whole texts.

Every string here stands for a text. A string with half a surrogate pair in it, which the reader takes
for a string without a text, is outside this grammar.
-/

namespace Breadboard.Json

/-- White space. -/
def Blank (t : List Char) : Prop := ∀ c ∈ t, c = ' ' ∨ c = '\t' ∨ c = '\n' ∨ c = '\r'

-- by going through the text, and not through all characters
instance (t : List Char) : Decidable (Blank t) := List.decidableBAll _ t

/-! ## Strings -/

/-- A hexadecimal digit of either case, and its value. -/
def IsHexDigit (c : Char) (d : Nat) : Prop :=
  "0123456789abcdef".toList[d]? = some c ∨ "0123456789ABCDEF".toList[d]? = some c

/-- Four hexadecimal digits spell a 16-bit unit. -/
inductive SpellsUnit : Nat → List Char → Prop where
  | digits {c₃ c₂ c₁ c₀ : Char} {d₃ d₂ d₁ d₀ : Nat} :
    IsHexDigit c₃ d₃ → IsHexDigit c₂ d₂ → IsHexDigit c₁ d₁ → IsHexDigit c₀ d₀ →
    SpellsUnit (d₃ * 4096 + d₂ * 256 + d₁ * 16 + d₀) [c₃, c₂, c₁, c₀]

/-- The short escapes: what follows the backslash, and what is meant. -/
def shortEscapes : List (Char × Char) :=
  [('"', '"'), ('\\', '\\'), ('/', '/'), ('b', '\x08'), ('f', '\x0c'), ('n', '\n'), ('r', '\r'),
    ('t', '\t')]

/-- How a character may be written inside a string. -/
inductive SpellsChar : Char → List Char → Prop where
  /-- As itself, unless it is the quote, the backslash or a control character. -/
  | plain {c : Char} : c ≠ '"' → c ≠ '\\' → ' ' ≤ c → SpellsChar c [c]
  | short {e c : Char} : (e, c) ∈ shortEscapes → SpellsChar c ['\\', e]
  | code {c : Char} {ds : List Char} : SpellsUnit c.toNat ds → SpellsChar c ('\\' :: 'u' :: ds)
  /-- By the two halves of a surrogate pair. -/
  | pair {c : Char} {high low : List Char} : 0x10000 ≤ c.toNat →
    SpellsUnit (0xD800 + (c.toNat - 0x10000) / 0x400) high →
    SpellsUnit (0xDC00 + (c.toNat - 0x10000) % 0x400) low →
    SpellsChar c ('\\' :: 'u' :: high ++ '\\' :: 'u' :: low)

/-- A text in quotes. -/
inductive SpellsString : String → List Char → Prop where
  | quoted {s : String} {pieces : List (List Char)} : List.Forall₂ SpellsChar s.toList pieces →
    SpellsString s ('"' :: pieces.flatten ++ ['"'])

/-! ## Numbers -/

/-- The part of a number before the point: no zero in front of other digits. -/
inductive IsWhole : List Char → Prop where
  | zero : IsWhole ['0']
  | digits {d : Char} {ds : List Char} : d ≠ '0' → isDigit d → (∀ c ∈ ds, isDigit c) →
    IsWhole (d :: ds)

/-- One digit or more. -/
def IsDigits (ds : List Char) : Prop := ds ≠ [] ∧ ∀ c ∈ ds, isDigit c

/-- The part of a number from the point on, if there is one. -/
inductive IsFraction : List Char → Prop where
  | none : IsFraction []
  | point {ds : List Char} : IsDigits ds → IsFraction ('.' :: ds)

/-- The exponent of a number, if there is one. -/
inductive IsExponent : List Char → Prop where
  | none : IsExponent []
  | plain {e : Char} {ds : List Char} : e = 'e' ∨ e = 'E' → IsDigits ds → IsExponent (e :: ds)
  | signed {e s : Char} {ds : List Char} : e = 'e' ∨ e = 'E' → s = '+' ∨ s = '-' → IsDigits ds →
    IsExponent (e :: s :: ds)

/-- The spellings that are numbers. -/
inductive IsNumber : List Char → Prop where
  | plain {w f x : List Char} : IsWhole w → IsFraction f → IsExponent x → IsNumber (w ++ f ++ x)
  | negative {w f x : List Char} : IsWhole w → IsFraction f → IsExponent x →
    IsNumber ('-' :: (w ++ f ++ x))

/-! ## Values -/

mutual

/-- The characters that spell a value. -/
inductive Spells : Json → List Char → Prop where
  | null : Spells .null ['n', 'u', 'l', 'l']
  | true : Spells (.bool true) ['t', 'r', 'u', 'e']
  | false : Spells (.bool false) ['f', 'a', 'l', 's', 'e']
  | number {t : List Char} : IsNumber t → Spells (.number t) t
  | string {s : String} {t : List Char} : SpellsString s t → Spells (.string (some s)) t
  | emptyArray {t : List Char} : Blank t → Spells (.array []) ('[' :: t ++ [']'])
  | array {vs : List Json} {t : List Char} : SpellsItems vs t →
    Spells (.array vs) ('[' :: t ++ [']'])
  | emptyObject {t : List Char} : Blank t → Spells (.object []) ('{' :: t ++ ['}'])
  | object {ms : List (Option String × Json)} {t : List Char} : SpellsMembers ms t →
    Spells (.object ms) ('{' :: t ++ ['}'])

/-- A value with white space around it. -/
inductive SpellsPadded : Json → List Char → Prop where
  | padded {v : Json} {l t r : List Char} : Blank l → Spells v t → Blank r →
    SpellsPadded v (l ++ t ++ r)

/-- One item or more, with commas between them. -/
inductive SpellsItems : List Json → List Char → Prop where
  | last {v : Json} {t : List Char} : SpellsPadded v t → SpellsItems [v] t
  | more {v : Json} {vs : List Json} {t ts : List Char} : SpellsPadded v t → SpellsItems vs ts →
    SpellsItems (v :: vs) (t ++ ',' :: ts)

/-- A key and a value with a colon between them. -/
inductive SpellsMember : Option String × Json → List Char → Prop where
  | member {k : String} {v : Json} {l u r t : List Char} : Blank l → SpellsString k u → Blank r →
    SpellsPadded v t → SpellsMember (some k, v) (l ++ u ++ r ++ ':' :: t)

/-- One member or more, with commas between them. -/
inductive SpellsMembers : List (Option String × Json) → List Char → Prop where
  | last {m : Option String × Json} {t : List Char} : SpellsMember m t → SpellsMembers [m] t
  | more {m : Option String × Json} {ms : List (Option String × Json)} {t ts : List Char} :
    SpellsMember m t → SpellsMembers ms ts → SpellsMembers (m :: ms) (t ++ ',' :: ts)

end

/-- The text of a document: a value with white space around it, and nothing else. -/
def Document (v : Json) (text : String) : Prop := SpellsPadded v text.toList

/-! ## Basic facts -/

theorem blank_nil : Blank [] := nofun

theorem Spells.unpadded {v : Json} {t : List Char} (h : Spells v t) : SpellsPadded v t := by
  have hPadded := SpellsPadded.padded blank_nil h blank_nil
  rwa [List.nil_append, List.append_nil] at hPadded

theorem IsWhole.head {w : List Char} (h : IsWhole w) : ∃ d ds, w = d :: ds ∧ isDigit d := by
  cases h with
  | zero => exact ⟨'0', [], rfl, rfl⟩
  | digits _ hd _ => exact ⟨_, _, rfl, hd⟩

end Breadboard.Json
