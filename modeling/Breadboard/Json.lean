/-!
# Breadboard — JSON values

A JSON document as a tree. Numbers keep their spelling, since nothing here computes with them, and
objects keep their members in the order of the text, repeated keys included.

A string may be spelt with escapes for halves of surrogate pairs. An escape whose other half is
missing stands for no character, so the whole string stands for no text: that is the string
`none`. It is a value like any other until somebody wants its text.
-/

namespace Breadboard

/-- A JSON value. -/
inductive Json where
  | null
  | bool (b : Bool)
  | number (spelling : List Char)
  | string (text : Option String)
  | array (items : List Json)
  | object (members : List (Option String × Json))

namespace Json

/-- The text of a string. -/
def text? : Json → Option String
  | .string text => text
  | _ => none

/-- The truth value that a word stands for. -/
def bool? : Json → Option Bool
  | .bool b => some b
  | _ => none

/-- The items of an array. -/
def items? : Json → Option (List Json)
  | .array items => some items
  | _ => none

/-- A record with the given keys, in either notation, as a function from keys to values: an object
whose keys are all readable and in which none of the given keys occurs twice, or an array of
values in the order of the keys, of which the last ones may be left out. -/
def record? (keys : List String) : Json → Option (String → Option Json)
  | .object members =>
    if members.all (fun m => m.1.isSome) &&
        keys.all (fun k => members.countP (fun m => m.1 == some k) ≤ 1) then
      some fun k => members.lookup (some k)
    else
      none
  | .array items =>
    if items.length ≤ keys.length then
      some fun k => items[keys.idxOf k]?
    else
      none
  | _ => none

end Json

end Breadboard
