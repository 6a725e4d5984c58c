import Breadboard.Bench
import Breadboard.Text.Quoted

/-!
# Breadboard — dumps

A part or a reporter written out field by field, on one line or indented. Dumps are for people
who look into a bench; nothing reads them back.
-/

namespace Breadboard

/-- The value of a field in a dump. -/
inductive DumpValue where
  | ident (id : Ident)
  | quoted (s : String)
  | bare (s : String)

/-- A named thing with its fields. -/
structure Dump where
  name : String
  fields : List (String × DumpValue)

namespace Dump

/-- The value of a field, on one line. -/
def inlineValue : DumpValue → String
  | .ident id => s!"PartId({id})"
  | .quoted s => Text.quoted s
  | .bare s => s

/-- The value of a field, over several lines if it has parts of its own. -/
def indentedValue : DumpValue → String
  | .ident id => s!"PartId(\n        {id},\n    )"
  | v => inlineValue v

/-- A dump on one line. -/
def inlined (d : Dump) : String :=
  let fields := d.fields.map fun (name, v) => name ++ ": " ++ inlineValue v
  d.name ++ " \x7b " ++ String.intercalate ", " fields ++ " \x7d"

/-- A dump with a line for every field. -/
def indented (d : Dump) : String :=
  let fields := d.fields.map fun (name, v) => "    " ++ name ++ ": " ++ indentedValue v ++ ",\n"
  d.name ++ " \x7b\n" ++ String.join fields ++ "\x7d"

end Dump

/-- The word for a phase. -/
def Phase.text : Phase → String
  | .constructed => "Constructed"
  | .running => "Running"

/-- The word for a truth value. -/
def flagText (b : Bool) : String := if b then "true" else "false"

/-- What a dump shows of a part. -/
def Part.dump (p : Part) : Dump where
  name := "GatePart"
  fields :=
    [("id", .ident p.id), ("name", .quoted p.name), ("has_display", .bare (flagText p.hasDisplay)),
      ("state", .bare p.phase.text)]

/-- What a dump shows of a reporter. -/
def Network.dump (n : Network) (r : ReporterId) : Option Dump :=
  n.reporters[r]?.map fun it =>
    { name := "ErrorReporter"
      fields :=
        [("source", .ident it.source), ("source_name", .quoted it.name),
          ("listeners", .bare (toString (n.liveCount r)))] }

end Breadboard
