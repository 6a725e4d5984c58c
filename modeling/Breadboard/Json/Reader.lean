import Breadboard.Json

/-!
# Breadboard — reading JSON

`Json.read?` reads a text that is exactly one JSON value with white space around it, by the strict
grammar: no comments, no trailing commas, no leading zeros, no control characters in strings, no
byte order mark.

The reader is a machine that takes one character at a time. Its state is a stack of the arrays and
objects that are still open (`Frame`) and what it is in the middle of (`Mode`). Since all nesting
is on that stack, a document may be nested to any depth, and reading one text after another is
composition of steps: `(s ++ t).foldlM step st = s.foldlM step st >>= t.foldlM step`.
-/

namespace Breadboard.Json

/-! ## Strings -/

/-- What has been read of a string. -/
structure Scan where
  /-- The characters so far, the last one first; `none` once there is half a surrogate pair. -/
  chars : Option (List Char) := some []
  /-- The first half of a surrogate pair whose second half has to come next. -/
  high : Option Nat := none

namespace Scan

/-- Another character. A first half that is still waiting for its second one stays alone. -/
def push (s : Scan) (c : Char) : Scan :=
  { chars := if s.high.isSome then none else s.chars.map (c :: ·) }

/-- Another 16-bit unit, written as an escape. -/
def pushUnit (s : Scan) (unit : Nat) : Scan :=
  if 0xDC00 ≤ unit ∧ unit ≤ 0xDFFF then
    match s.high with
    | some high =>
      { chars := s.chars.map (Char.ofNat (0x10000 + (high - 0xD800) * 0x400 + (unit - 0xDC00)) :: ·) }
    | none => { chars := none }
  else if 0xD800 ≤ unit ∧ unit ≤ 0xDBFF then
    { chars := if s.high.isSome then none else s.chars, high := some unit }
  else
    s.push (Char.ofNat unit)

/-- The text of a string that ends here. -/
def text (s : Scan) : Option String :=
  if s.high.isSome then none else s.chars.map fun cs => String.ofList cs.reverse

end Scan

/-- The character that a short escape stands for. -/
def shortEscape? : Char → Option Char
  | '"' => some '"'
  | '\\' => some '\\'
  | '/' => some '/'
  | 'b' => some '\x08'
  | 'f' => some '\x0c'
  | 'n' => some '\n'
  | 'r' => some '\r'
  | 't' => some '\t'
  | _ => none

/-- The value of a hexadecimal digit of either case. -/
def hexValue? (c : Char) : Option Nat :=
  if '0' ≤ c ∧ c ≤ '9' then some (c.toNat - '0'.toNat)
  else if 'a' ≤ c ∧ c ≤ 'f' then some (c.toNat - 'a'.toNat + 10)
  else if 'A' ≤ c ∧ c ≤ 'F' then some (c.toNat - 'A'.toNat + 10)
  else none

/-- Where in a string the reader is. -/
inductive StringMode where
  | plain
  /-- After a backslash. -/
  | escape
  /-- In an escape by code, with so many digits to come. -/
  | code (digits value : Nat)

/-! ## Numbers -/

/-- Where in a number the reader is. -/
inductive NumberMode where
  /-- After the sign. -/
  | sign
  /-- After a leading zero, which no digit may follow. -/
  | zero
  | integer
  /-- After the decimal point. -/
  | point
  | fraction
  /-- After the letter of the exponent. -/
  | exponent
  /-- After the sign of the exponent. -/
  | exponentSign
  | exponentDigits
deriving DecidableEq

/-- The decimal digits. -/
def isDigit (c : Char) : Bool := '0' ≤ c && c ≤ '9'

namespace NumberMode

/-- How a number goes on; `none` if `c` is not part of it. -/
def next? (m : NumberMode) (c : Char) : Option NumberMode :=
  match m with
  | sign => if c = '0' then some zero else if isDigit c then some integer else none
  | zero =>
    if c = '.' then some point else if c = 'e' ∨ c = 'E' then some exponent else none
  | integer =>
    if isDigit c then some integer
    else if c = '.' then some point else if c = 'e' ∨ c = 'E' then some exponent else none
  | point => if isDigit c then some fraction else none
  | fraction =>
    if isDigit c then some fraction else if c = 'e' ∨ c = 'E' then some exponent else none
  | exponent =>
    if c = '+' ∨ c = '-' then some exponentSign
    else if isDigit c then some exponentDigits else none
  | exponentSign | exponentDigits => if isDigit c then some exponentDigits else none

/-- Whether a number may end here. -/
def isComplete : NumberMode → Bool
  | zero | integer | fraction | exponentDigits => true
  | _ => false

end NumberMode

/-! ## The machine -/

/-- An array or object that is still open, with what it holds so far, the last one first. -/
inductive Frame where
  | array (items : List Json)
  | object (members : List (Option String × Json))
  /-- An object in which the value for a key has to come. -/
  | member (members : List (Option String × Json)) (key : Option String)

/-- What the reader is in the middle of. -/
inductive Mode where
  /-- A value has to come. -/
  | value
  /-- The first value of an array has to come, or its end. -/
  | firstItem
  /-- The first key of an object has to come, or its end. -/
  | firstKey
  /-- A key has to come. -/
  | key
  /-- The colon after a key has to come. -/
  | colon (key : Option String)
  /-- A comma has to come, or the end of what is open. -/
  | separator
  /-- The rest of a word that stands for a value. -/
  | word (rest : List Char) (value : Json)
  | number (mode : NumberMode) (spelling : List Char)
  | string (isKey : Bool) (mode : StringMode) (scan : Scan)
  /-- The document is complete. -/
  | done (value : Json)

/-- The state of the reader. -/
structure State where
  stack : List Frame := []
  mode : Mode := .value

/-- The white space of JSON. -/
def isBlank (c : Char) : Bool :=
  c = ' ' || c = '\t' || c = '\n' || c = '\r'

/-- A value is complete and goes into what is open. -/
def State.accept (stack : List Frame) (v : Json) : Option State :=
  match stack with
  | [] => some ⟨[], .done v⟩
  | .array items :: rest => some ⟨.array (v :: items) :: rest, .separator⟩
  | .member members key :: rest => some ⟨.object ((key, v) :: members) :: rest, .separator⟩
  | .object _ :: _ => none

/-- The end of an array. -/
def State.closeArray (stack : List Frame) : Option State :=
  match stack with
  | .array items :: rest => State.accept rest (.array items.reverse)
  | _ => none

/-- The end of an object. -/
def State.closeObject (stack : List Frame) : Option State :=
  match stack with
  | .object members :: rest => State.accept rest (.object members.reverse)
  | _ => none

/-- The first character of a value. -/
def State.start (stack : List Frame) (c : Char) : Option State :=
  if isBlank c then some ⟨stack, .value⟩
  else if c = '{' then some ⟨.object [] :: stack, .firstKey⟩
  else if c = '[' then some ⟨.array [] :: stack, .firstItem⟩
  else if c = '"' then some ⟨stack, .string false .plain {}⟩
  else if c = '-' then some ⟨stack, .number .sign [c]⟩
  else if c = '0' then some ⟨stack, .number .zero [c]⟩
  else if isDigit c then some ⟨stack, .number .integer [c]⟩
  else if c = 't' then some ⟨stack, .word ['r', 'u', 'e'] (.bool true)⟩
  else if c = 'f' then some ⟨stack, .word ['a', 'l', 's', 'e'] (.bool false)⟩
  else if c = 'n' then some ⟨stack, .word ['u', 'l', 'l'] .null⟩
  else none

/-- A character after a complete value. -/
def State.follow (st : State) (c : Char) : Option State :=
  if isBlank c then some st
  else
    match st.mode with
    | .separator =>
      if c = ',' then
        match st.stack with
        | .array _ :: _ => some { st with mode := .value }
        | .object _ :: _ => some { st with mode := .key }
        | _ => none
      else if c = ']' then State.closeArray st.stack
      else if c = '}' then State.closeObject st.stack
      else none
    | _ => none

/-- A character of a string. -/
def State.stepString (stack : List Frame) (isKey : Bool) (mode : StringMode) (scan : Scan)
    (c : Char) : Option State :=
  match mode with
  | .plain =>
    if c = '"' then
      if isKey then some ⟨stack, .colon scan.text⟩ else State.accept stack (.string scan.text)
    else if c = '\\' then some ⟨stack, .string isKey .escape scan⟩
    else if c < ' ' then none
    else some ⟨stack, .string isKey .plain (scan.push c)⟩
  | .escape =>
    if c = 'u' then some ⟨stack, .string isKey (.code 4 0) scan⟩
    else (shortEscape? c).map fun e => ⟨stack, .string isKey .plain (scan.push e)⟩
  | .code digits value =>
    (hexValue? c).map fun d =>
      if digits ≤ 1 then ⟨stack, .string isKey .plain (scan.pushUnit (value * 16 + d))⟩
      else ⟨stack, .string isKey (.code (digits - 1) (value * 16 + d)) scan⟩

/-- One character; `none` if no JSON text goes on with it. -/
def step (st : State) (c : Char) : Option State :=
  match st.mode with
  | .value => State.start st.stack c
  | .firstItem =>
    if isBlank c then some st
    else if c = ']' then State.closeArray st.stack
    else State.start st.stack c
  | .firstKey =>
    if isBlank c then some st
    else if c = '}' then State.closeObject st.stack
    else if c = '"' then some { st with mode := .string true .plain {} }
    else none
  | .key =>
    if isBlank c then some st
    else if c = '"' then some { st with mode := .string true .plain {} }
    else none
  | .colon key =>
    if isBlank c then some st
    else if c = ':' then
      match st.stack with
      | .object members :: rest => some ⟨.member members key :: rest, .value⟩
      | _ => none
    else none
  | .separator | .done _ => st.follow c
  | .word [] _ => none
  | .word [w] v => if c = w then State.accept st.stack v else none
  | .word (w :: ws) v => if c = w then some { st with mode := .word ws v } else none
  | .number mode spelling =>
    match mode.next? c with
    | some mode' => some { st with mode := .number mode' (c :: spelling) }
    | none =>
      -- a number has no end mark of its own: `c` already belongs to what follows it
      if mode.isComplete then
        (State.accept st.stack (.number spelling.reverse)).bind (·.follow c)
      else
        none
  | .string isKey mode scan => State.stepString st.stack isKey mode scan c

/-- The document, if the text may end here. -/
def State.finish (st : State) : Option Json :=
  match st.stack, st.mode with
  | [], .done v => some v
  | [], .number mode spelling => if mode.isComplete then some (.number spelling.reverse) else none
  | _, _ => none

/-- The JSON value that a text spells. -/
def read? (text : String) : Option Json :=
  (text.toList.foldlM step {}).bind State.finish

end Breadboard.Json
