import Breadboard.Fault
import Breadboard.Json.Reader

/-!
# Breadboard — setups

A `Setup` says which parts a bench starts out with. It is kept as a JSON document. `Setup.ofText`
reads one: unknown members are passed over, a member that is left out has its default, and a
setup or a part may also be written as an array of its members in order. `Setup.render` writes
one, with all members, in a layout for people.
-/

namespace Breadboard

/-- A part of a setup. -/
structure PartSetup where
  chip : String
  /-- What to call the part, if not by its chip. -/
  name : Option String := none
  hasDisplay : Bool := false
deriving DecidableEq

/-- What a bench starts out with. -/
structure Setup where
  name : String := ""
  logFilter : String := "info"
  parts : List PartSetup := []
deriving DecidableEq

/-! ## Reading -/

/-- A name that may be left open. -/
def Json.textOrNull? : Json → Option (Option String)
  | .null => some none
  | v => v.text?.map some

/-- The part that a JSON value describes. -/
def PartSetup.ofJson? (v : Json) : Option PartSetup := do
  let field ← v.record? ["chip", "name", "has_display"]
  let chip ← (field "chip").bind Json.text?
  let name ← (field "name").elim (some none) Json.textOrNull?
  let hasDisplay ← (field "has_display").elim (some false) Json.bool?
  return { chip, name, hasDisplay }

/-- The setup that a JSON value describes. -/
def Setup.ofJson? (v : Json) : Option Setup := do
  let field ← v.record? ["name", "log_filter", "parts"]
  let name ← (field "name").elim (some "") Json.text?
  let logFilter ← (field "log_filter").elim (some "info") Json.text?
  let parts ← (field "parts").elim (some []) fun v => do (← v.items?).mapM PartSetup.ofJson?
  return { name, logFilter, parts }

/-- The setup that a text spells. -/
def Setup.ofText (text : String) : Except Fault Setup :=
  match (Json.read? text).bind Setup.ofJson? with
  | some s => .ok s
  | none => .error .malformedSetup

/-- The setup in the file at `path`, which holds `bytes`, or nothing if there is no such file. -/
def Setup.ofFile (path : String) (bytes : Option ByteArray) : Except Fault Setup :=
  match bytes.bind String.fromUTF8? with
  | some text => Setup.ofText text
  | none => .error (.unreadableSetup s!"Failed to read config file '{path}':")

/-! ## Writing -/

/-- A digit of a code. -/
def hexDigit (n : Nat) : Char :=
  if n < 10 then Char.ofNat ('0'.toNat + n) else Char.ofNat ('a'.toNat + (n - 10))

/-- A character inside a JSON string: only what may not stand there as itself is escaped. -/
def Json.escape (c : Char) : List Char :=
  if c = '"' then ['\\', '"']
  else if c = '\\' then ['\\', '\\']
  else if c = '\x08' then ['\\', 'b']
  else if c = '\t' then ['\\', 't']
  else if c = '\n' then ['\\', 'n']
  else if c = '\x0c' then ['\\', 'f']
  else if c = '\r' then ['\\', 'r']
  else if c < ' ' then ['\\', 'u', '0', '0', hexDigit (c.toNat / 16), hexDigit (c.toNat % 16)]
  else [c]

/-- A text as a JSON string. -/
def Json.quote (s : String) : String :=
  String.ofList ('"' :: s.toList.flatMap Json.escape ++ ['"'])

/-- A part, indented below its setup. -/
def PartSetup.render (p : PartSetup) : String :=
  "    \x7b\n" ++
  "      \"chip\": " ++ Json.quote p.chip ++ ",\n" ++
  "      \"name\": " ++ p.name.elim "null" Json.quote ++ ",\n" ++
  "      \"has_display\": " ++ (if p.hasDisplay then "true" else "false") ++ "\n" ++
  "    \x7d"

/-- Parts, one after the other. -/
def PartSetup.renderAll : List PartSetup → String
  | [] => ""
  | [p] => p.render
  | p :: ps => p.render ++ ",\n" ++ renderAll ps

/-- A setup as a JSON text, one member to a line. -/
def Setup.render (s : Setup) : String :=
  "\x7b\n" ++
  "  \"name\": " ++ Json.quote s.name ++ ",\n" ++
  "  \"log_filter\": " ++ Json.quote s.logFilter ++ ",\n" ++
  "  \"parts\": " ++
    (if s.parts.isEmpty then "[]" else "[\n" ++ PartSetup.renderAll s.parts ++ "\n  ]") ++ "\n" ++
  "\x7d"

end Breadboard
