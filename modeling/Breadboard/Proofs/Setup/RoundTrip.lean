import Breadboard.Proofs.Json.Reading
import Breadboard.Setup

/-!
# Breadboard — a setup that is written and read again

`Setup.render` and `Setup.ofText` know nothing of each other: the one puts texts together, the other
runs the reader and looks for members. Between them stands the value `Setup.toJson`, all members in
order. What `render` writes is a document of the grammar for that value, and the reader reads every
document, so what is read is that value again; and from it `Setup.ofJson?` takes every member back.

* `Json.spellsString_quote` — a quoted text is a string for that text, whatever is in it;
* `PartSetup.spells_body`, `Setup.document_render` — what is written is JSON, for this value;
* `Setup.ofJson?_toJson` — and the value has all of the setup in it;
* `Setup.ofText_render` — so **what is written is read as the setup it was written for**.
-/

namespace Breadboard

/-! ## Quoted texts -/

namespace Json

/-- The digits that are written are digits that are read. -/
theorem isHexDigit_hexDigit {n : Nat} (h : n < 16) : IsHexDigit (hexDigit n) n := by
  have hAll : ∀ n < 16, "0123456789abcdef".toList[n]? = some (hexDigit n) := by decide
  exact .inl (hAll n h)

/-- A control character is written by its code. -/
theorem spellsUnit_control {n : Nat} (h : n < 256) :
    SpellsUnit n ['0', '0', hexDigit (n / 16), hexDigit (n % 16)] := by
  have hZero : IsHexDigit '0' 0 := .inl rfl
  have hValue : 0 * 4096 + 0 * 256 + n / 16 * 16 + n % 16 = n := by omega
  have hUnit := SpellsUnit.digits hZero hZero
    (isHexDigit_hexDigit (n := n / 16) (by omega)) (isHexDigit_hexDigit (n := n % 16) (by omega))
  rwa [hValue] at hUnit

/-- **Every character** may be written as it is escaped. -/
theorem spellsChar_escape (c : Char) : SpellsChar c (escape c) := by
  unfold escape
  split_ifs with hQuote hBackslash hBackspace hTab hNewline hFormFeed hReturn hControl
  · subst hQuote
    exact .short (by decide)
  · subst hBackslash
    exact .short (by decide)
  · subst hBackspace
    exact .short (by decide)
  · subst hTab
    exact .short (by decide)
  · subst hNewline
    exact .short (by decide)
  · subst hFormFeed
    exact .short (by decide)
  · subst hReturn
    exact .short (by decide)
  · -- any other control character, by its code
    have hSmall : c.toNat < 32 := hControl
    exact .code (spellsUnit_control (by omega))
  · exact .plain hQuote hBackslash (Char.not_lt.mp hControl)

/-- **Every text** is spelt by its quotation. -/
theorem spellsString_quote (s : String) : SpellsString s (quote s).toList := by
  have hPieces : List.Forall₂ SpellsChar s.toList (s.toList.map escape) := by
    rw [List.forall₂_map_right_iff, List.forall₂_same]
    exact fun c _ => spellsChar_escape c
  rw [quote, String.toList_ofList, List.flatMap_def]
  exact .quoted hPieces

/-! ## The layout -/

/-- A member on a line of its own. -/
def memberLine (indent : List Char) (key : String) (value : List Char) : List Char :=
  '\n' :: indent ++ (quote key).toList ++ ':' :: ' ' :: value

/-- A line of the layout is a member. -/
theorem spellsMember_memberLine {indent r : List Char} (hIndent : Blank indent) (hr : Blank r)
    (key : String) {v : Json} {t : List Char} (h : Spells v t) :
    SpellsMember (some key, v) (memberLine indent key (t ++ r)) := by
  have hLead : Blank ('\n' :: indent) := List.forall_mem_cons.mpr ⟨by decide, hIndent⟩
  have hValue : SpellsPadded v ([' '] ++ t ++ r) := .padded (by decide) h hr
  have hMember := SpellsMember.member hLead (spellsString_quote key) blank_nil hValue
  rwa [List.append_nil] at hMember

/-- A string, or nothing. -/
def ofText? (s : Option String) : Json := s.elim .null fun s => .string (some s)

/-- A text that may be missing is written as a string or as null. -/
theorem spells_ofText? (s : Option String) : Spells (ofText? s) (s.elim "null" quote).toList := by
  cases s with
  | none => exact .null
  | some s => exact .string (spellsString_quote s)

theorem spells_bool (b : Bool) : Spells (.bool b) (if b then "true" else "false").toList := by
  cases b with
  | false => exact .false
  | true => exact .true

end Json

open Json (memberLine)

/-! ## Parts -/

namespace PartSetup

/-- A part with all its members. -/
def toJson (p : PartSetup) : Json :=
  .object [(some "chip", .string (some p.chip)), (some "name", .ofText? p.name),
    (some "has_display", .bool p.hasDisplay)]

/-- A part is read back from its members. -/
theorem ofJson?_toJson (p : PartSetup) : ofJson? p.toJson = some p := by
  obtain ⟨chip, name, hasDisplay⟩ := p
  cases name with
  | none => rfl
  | some name => rfl

/-- So are all parts, in order. -/
theorem mapM_ofJson?_map_toJson (ps : List PartSetup) :
    (ps.map toJson).mapM ofJson? = some ps := by
  induction ps with
  | nil => rfl
  | cons p ps ih =>
    rw [List.map_cons, List.mapM_cons, ofJson?_toJson, ih]
    rfl

/-- The text of a part after its indentation. -/
def body (p : PartSetup) : List Char :=
  '{' :: (memberLine "      ".toList "chip" (Json.quote p.chip).toList ++
    ',' :: (memberLine "      ".toList "name" (p.name.elim "null" Json.quote).toList ++
    ',' :: memberLine "      ".toList "has_display"
      ((if p.hasDisplay then "true" else "false").toList ++ "\n    ".toList))) ++ ['}']

theorem toList_render (p : PartSetup) : p.render.toList = "    ".toList ++ p.body := by
  have hChip : Json.quote "chip" = "\"chip\"" := rfl
  have hName : Json.quote "name" = "\"name\"" := rfl
  have hDisplay : Json.quote "has_display" = "\"has_display\"" := rfl
  unfold render body memberLine
  rw [hChip, hName, hDisplay]
  simp

/-- What is written for a part spells the part. -/
theorem spells_body (p : PartSetup) : Json.Spells p.toJson p.body := by
  have hIndent : Json.Blank "      ".toList := by decide
  have hChip := Json.spellsMember_memberLine hIndent Json.blank_nil "chip"
    (.string (Json.spellsString_quote p.chip))
  have hName := Json.spellsMember_memberLine hIndent Json.blank_nil "name"
    (Json.spells_ofText? p.name)
  have hDisplay := Json.spellsMember_memberLine hIndent (r := "\n    ".toList) (by decide)
    "has_display" (Json.spells_bool p.hasDisplay)
  -- the first two members end at their commas, the last one on a line of its own
  rw [List.append_nil] at hChip hName
  exact .object (.more hChip (.more hName (.last hDisplay)))

/-- With its indentation, and with white space around it, it still does. -/
theorem spellsPadded_render (p : PartSetup) {l r : List Char} (hl : Json.Blank l)
    (hr : Json.Blank r) : Json.SpellsPadded p.toJson (l ++ p.render.toList ++ r) := by
  have hIndent : Json.Blank "    ".toList := by decide
  have hLead : Json.Blank (l ++ "    ".toList) := List.forall_mem_append.mpr ⟨hl, hIndent⟩
  rw [toList_render, ← List.append_assoc]
  exact .padded hLead p.spells_body hr

/-- One part or more are the items of an array, with white space around them. -/
theorem spellsItems_renderAll {ps : List PartSetup} (hps : ps ≠ []) {l r : List Char}
    (hl : Json.Blank l) (hr : Json.Blank r) :
    Json.SpellsItems (ps.map toJson) (l ++ (renderAll ps).toList ++ r) := by
  induction ps using renderAll.induct generalizing l with
  | case1 => exact absurd rfl hps
  | case2 p => exact .last (p.spellsPadded_render hl hr)
  | case3 p ps hNonempty ih =>
    have hFirst := p.spellsPadded_render hl Json.blank_nil
    -- the line break after the comma leads the parts that follow
    have hRest := ih hNonempty (l := ['\n']) (by decide)
    have hSplit : l ++ (renderAll (p :: ps)).toList ++ r =
        (l ++ p.render.toList ++ []) ++ ',' :: (['\n'] ++ (renderAll ps).toList ++ r) := by
      rw [renderAll]
      · simp
      · exact hNonempty
    rw [hSplit]
    exact .more hFirst hRest

end PartSetup

/-! ## Setups -/

namespace Setup

/-- A setup with all its members. -/
def toJson (s : Setup) : Json :=
  .object [(some "name", .string (some s.name)), (some "log_filter", .string (some s.logFilter)),
    (some "parts", .array (s.parts.map PartSetup.toJson))]

/-- A setup is read back from its members. -/
theorem ofJson?_toJson (s : Setup) : ofJson? s.toJson = some s := by
  have hMembers : ofJson? s.toJson = ((s.parts.map PartSetup.toJson).mapM PartSetup.ofJson?).bind
      fun parts => some { s with parts := parts } := rfl
  rw [hMembers, PartSetup.mapM_ofJson?_map_toJson, Option.bind_some]

/-- The text of the parts of a setup. -/
def partsText (s : Setup) : String :=
  if s.parts.isEmpty then "[]" else "[\n" ++ PartSetup.renderAll s.parts ++ "\n  ]"

/-- What is written for the parts spells the array of them. -/
theorem spells_partsText (s : Setup) :
    Json.Spells (.array (s.parts.map PartSetup.toJson)) s.partsText.toList := by
  unfold partsText
  -- no parts are written as an empty array on the same line
  by_cases hEmpty : s.parts = []
  · rw [hEmpty]
    exact .emptyArray Json.blank_nil
  · have hItems := PartSetup.spellsItems_renderAll hEmpty (l := ['\n']) (r := "\n  ".toList)
      (by decide) (by decide)
    have hSplit : ("[\n" ++ PartSetup.renderAll s.parts ++ "\n  ]").toList =
        '[' :: (['\n'] ++ (PartSetup.renderAll s.parts).toList ++ "\n  ".toList) ++ [']'] := by
      simp
    rw [if_neg (by rwa [List.isEmpty_iff]), hSplit]
    exact .array hItems

theorem toList_render (s : Setup) :
    s.render.toList = '{' :: (memberLine "  ".toList "name" (Json.quote s.name).toList ++
      ',' :: (memberLine "  ".toList "log_filter" (Json.quote s.logFilter).toList ++
      ',' :: memberLine "  ".toList "parts" (s.partsText.toList ++ ['\n']))) ++ ['}'] := by
  have hName : Json.quote "name" = "\"name\"" := rfl
  have hFilter : Json.quote "log_filter" = "\"log_filter\"" := rfl
  have hParts : Json.quote "parts" = "\"parts\"" := rfl
  unfold render partsText memberLine
  rw [hName, hFilter, hParts]
  simp

/-- **What is written is JSON**, for the value that has all members of the setup. -/
theorem document_render (s : Setup) : Json.Document s.toJson s.render := by
  have hIndent : Json.Blank "  ".toList := by decide
  have hName := Json.spellsMember_memberLine hIndent Json.blank_nil "name"
    (.string (Json.spellsString_quote s.name))
  have hFilter := Json.spellsMember_memberLine hIndent Json.blank_nil "log_filter"
    (.string (Json.spellsString_quote s.logFilter))
  have hParts := Json.spellsMember_memberLine hIndent (r := ['\n']) (by decide) "parts"
    s.spells_partsText
  rw [List.append_nil] at hName hFilter
  rw [Json.Document, toList_render]
  exact (Json.Spells.object (.more hName (.more hFilter (.last hParts)))).unpadded

/-- **A setup that is written is read again as it was**: the text is a JSON document for all members
of the setup, and reading that text succeeds, with an equal setup. -/
theorem ofText_render (s : Setup) :
    Json.Document s.toJson s.render ∧ ofText s.render = .ok s := by
  refine ⟨s.document_render, ?_⟩
  rw [ofText, Json.read?_of_document s.document_render, Option.bind_some, ofJson?_toJson]

end Setup

end Breadboard
