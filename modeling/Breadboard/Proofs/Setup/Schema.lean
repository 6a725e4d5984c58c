import Breadboard.Proofs.Setup.RoundTrip
import Mathlib.Data.List.Nodup
import Mathlib.Data.List.Perm.Basic

/-!
# Breadboard — the schema of setups

Which values describe a setup, and which one. A setup and a part are **records** (`Json.IsRecord`): objects,
in which the keys of the record occur once or not at all among any others, or arrays of values in the order
of the keys. A member that is left out has its default (`Json.Field`). `PartSetup.DescribedBy` and
`Setup.DescribedBy` say so without a word about how a text is read or where a member is looked for.

* `Json.isRecord_iff` — a record is read in both notations, as it is described;
* `PartSetup.ofJson?_eq_some_iff`, `Setup.ofJson?_eq_some_iff` — what is read is what is described;
* `Setup.DescribedBy.of_alike` — neither the order of members nor members with other keys matter;
* `Setup.ofText_follows_schema` — all of this, of texts.

All of it is about values that can be spelt (`Json.Spellable`), whose keys can all be read.
-/

namespace Breadboard

namespace Json

-- ---------------------------------------------------------------------------
-- Values that can be spelt
-- ---------------------------------------------------------------------------

/-- Some text spells the value. -/
def Spellable (v : Json) : Prop := ∃ t, Spells v t

theorem SpellsPadded.spellable {v : Json} {t : List Char} (h : SpellsPadded v t) : v.Spellable := by
  cases h with
  | padded _ h _ => exact ⟨_, h⟩

/-- Items that are spelt can be spelt. -/
theorem SpellsItems.spellable {vs : List Json} {t : List Char} (h : SpellsItems vs t) :
    ∀ v ∈ vs, v.Spellable := by
  cases h with
  | last h => exact List.forall_mem_singleton.mpr h.spellable
  | more h hs => exact List.forall_mem_cons.mpr ⟨h.spellable, hs.spellable⟩

/-- A member that is spelt has a key that can be read and a value that can be spelt. -/
theorem SpellsMember.spellable {m : Option String × Json} {t : List Char} (h : SpellsMember m t) :
    m.1.isSome = true ∧ m.2.Spellable := by
  cases h with
  | member _ _ _ h => exact ⟨rfl, h.spellable⟩

theorem SpellsMembers.spellable {ms : List (Option String × Json)} {t : List Char}
    (h : SpellsMembers ms t) : ∀ m ∈ ms, m.1.isSome = true ∧ m.2.Spellable := by
  cases h with
  | last h => exact List.forall_mem_singleton.mpr h.spellable
  | more h hs => exact List.forall_mem_cons.mpr ⟨h.spellable, hs.spellable⟩

/-- The items of an array that can be spelt can be spelt. -/
theorem Spellable.items {vs : List Json} (h : Spellable (.array vs)) : ∀ v ∈ vs, v.Spellable := by
  obtain ⟨t, h⟩ := h
  cases h with
  | emptyArray => simp
  | array h => exact h.spellable

/-- An object that can be spelt has keys that can be read, and values that can be spelt. -/
theorem Spellable.members {ms : List (Option String × Json)} (h : Spellable (.object ms)) :
    ∀ m ∈ ms, m.1.isSome = true ∧ m.2.Spellable := by
  obtain ⟨t, h⟩ := h
  cases h with
  | emptyObject => simp
  | object h => exact h.spellable

/-- A member without white space. -/
theorem spellsMember_compact {k : String} {u : List Char} (hKey : SpellsString k u) {v : Json}
    {t : List Char} (h : Spells v t) : SpellsMember (some k, v) (u ++ ':' :: t) := by
  have hMember := SpellsMember.member blank_nil hKey blank_nil h.unpadded
  rwa [List.nil_append, List.append_nil] at hMember

-- ---------------------------------------------------------------------------
-- Records
-- ---------------------------------------------------------------------------

/-- The values of all members with that key, in order. -/
def under (key : String) (members : List (Option String × Json)) : List Json :=
  members.filterMap fun m => if m.1 = some key then some m.2 else none

/-- **A record with the given keys, and the value of each**, if it has one: an object in which each of the
keys occurs once or not at all, among any others, or an array of values in the order of the keys, of which
the last ones may be left out. -/
inductive IsRecord (keys : List String) : Json → List (Option Json) → Prop where
  | object {members : List (Option String × Json)} {vals : List (Option Json)} :
    List.Forall₂ (fun key x => under key members = x.toList) keys vals →
    IsRecord keys (.object members) vals
  | array {items : List Json} {k : Nat} : items.length + k = keys.length →
    IsRecord keys (.array items) (items.map some ++ List.replicate k none)

theorem under_cons (key : String) (m : Option String × Json) (members : List (Option String × Json)) :
    under key (m :: members) = if m.1 = some key then m.2 :: under key members else under key members := by
  rw [under, List.filterMap_cons]
  by_cases h : m.1 = some key
  · rw [if_pos h, if_pos h]
    rfl
  · rw [if_neg h, if_neg h]
    rfl

/-- Counting a key is counting its values. -/
theorem countP_eq_length_under (key : String) (members : List (Option String × Json)) :
    members.countP (fun m => m.1 == some key) = (under key members).length := by
  induction members with
  | nil => rfl
  | cons m members ih =>
    rw [under_cons, List.countP_cons, ih]
    by_cases h : m.1 = some key <;> simp [h]

/-- To look a key up is to find the first of its values. -/
theorem lookup_eq_head?_under (key : String) (members : List (Option String × Json)) :
    members.lookup (some key) = (under key members).head? := by
  induction members with
  | nil => rfl
  | cons m members ih =>
    obtain ⟨k, v⟩ := m
    rw [under_cons, List.lookup_cons, ih]
    by_cases h : k = some key
    · simp [h]
    · have hBeq : (some key == k) = false := beq_false_of_ne (Ne.symm h)
      rw [hBeq, if_neg h]

/-- At most one value, and it is that one. -/
theorem eq_toList_iff {l : List Json} {x : Option Json} :
    l = x.toList ↔ l.length ≤ 1 ∧ l.head? = x := by
  match l with
  | [] => cases x <;> simp
  | [v] => cases x <;> simp
  | v :: w :: l => cases x <;> simp

/-- The values in order, as a function of the keys. -/
theorem map_idxOf_eq {keys : List String} (hKeys : keys.Nodup) {items : List Json} {k : Nat}
    (h : items.length + k = keys.length) :
    keys.map (fun key => items[keys.idxOf key]?) = items.map some ++ List.replicate k none := by
  refine List.ext_getElem (by simp [h]) fun i hi _ => ?_
  rw [List.length_map] at hi
  rw [List.getElem_map, hKeys.idxOf_getElem i hi]
  -- a key has the item at its place, or none is left for it
  rcases Nat.lt_or_ge i items.length with hLt | hGe
  · rw [List.getElem_append_left (by simpa using hLt), List.getElem_map, List.getElem?_eq_getElem hLt]
  · rw [List.getElem_append_right (by simpa using hGe), List.getElem_replicate,
      List.getElem?_eq_none hGe]

/-- An object is a record if no key has two values, and the values are the first ones found. -/
theorem isRecord_object_iff {keys : List String} {members : List (Option String × Json)}
    {vals : List (Option Json)} :
    IsRecord keys (.object members) vals ↔
      (∀ key ∈ keys, (under key members).length ≤ 1) ∧
        keys.map (fun key => (under key members).head?) = vals := by
  rw [← List.forall₂_eq_eq_eq, List.forall₂_map_left_iff, ← List.forall₂_and_left]
  simp only [← eq_toList_iff]
  constructor
  · rintro ⟨h⟩
    exact h
  · exact .object

/-- An array is a record if it is not too long, and the values are found by the places of the keys. -/
theorem isRecord_array_iff {keys : List String} (hKeys : keys.Nodup) {items : List Json}
    {vals : List (Option Json)} :
    IsRecord keys (.array items) vals ↔
      items.length ≤ keys.length ∧ keys.map (fun key => items[keys.idxOf key]?) = vals := by
  constructor
  · rintro (_ | @⟨_, k, h⟩)
    exact ⟨by omega, map_idxOf_eq hKeys h⟩
  · rintro ⟨hLe, rfl⟩
    have hLength := Nat.add_sub_cancel' hLe
    rw [map_idxOf_eq hKeys hLength]
    exact .array hLength

/-- **Records are read in both notations.** -/
theorem isRecord_iff {keys : List String} (hKeys : keys.Nodup) {v : Json} (hv : v.Spellable)
    {vals : List (Option Json)} :
    IsRecord keys v vals ↔ ∃ field, v.record? keys = some field ∧ keys.map field = vals := by
  cases v with
  | object members =>
    -- an object that can be spelt has no key that cannot be read
    have hReadable : members.all (fun m => m.1.isSome) = true :=
      List.all_eq_true.mpr fun m hm => (hv.members m hm).1
    rw [isRecord_object_iff]
    simp [record?, hReadable, lookup_eq_head?_under, countP_eq_length_under]
  | array items =>
    rw [isRecord_array_iff hKeys]
    simp [record?]
  | _ =>
    constructor
    · rintro ⟨⟩
    · rintro ⟨field, hField, -⟩
      cases hField

/-- A record with three keys, as it is read and as it is described. -/
theorem exists_record?_iff {k₁ k₂ k₃ : String} (hKeys : [k₁, k₂, k₃].Nodup) {v : Json} (hv : v.Spellable)
    {P : Option Json → Option Json → Option Json → Prop} :
    (∃ field, v.record? [k₁, k₂, k₃] = some field ∧ P (field k₁) (field k₂) (field k₃)) ↔
      ∃ x y z, IsRecord [k₁, k₂, k₃] v [x, y, z] ∧ P x y z := by
  constructor
  · rintro ⟨field, hField, h⟩
    exact ⟨_, _, _, (isRecord_iff hKeys hv).mpr ⟨field, hField, rfl⟩, h⟩
  · rintro ⟨x, y, z, hRecord, h⟩
    obtain ⟨field, hField, hVals⟩ := (isRecord_iff hKeys hv).mp hRecord
    simp only [List.map_cons, List.map_nil, List.cons.injEq, and_true] at hVals
    obtain ⟨rfl, rfl, rfl⟩ := hVals
    exact ⟨field, hField, h⟩

/-- The values under a key are those of its members. -/
theorem mem_under {key : String} {members : List (Option String × Json)} {x : Json} :
    x ∈ under key members ↔ (some key, x) ∈ members := by
  rw [under, List.mem_filterMap]
  constructor
  · rintro ⟨⟨k, w⟩, hMem, hm⟩
    split at hm
    next hKey =>
      obtain rfl : w = x := Option.some.inj hm
      obtain rfl : k = some key := hKey
      exact hMem
    next => cases hm
  · exact fun hMem => ⟨_, hMem, if_pos rfl⟩

/-- The values of a record that can be spelt can be spelt. -/
theorem IsRecord.spellable {keys : List String} {v : Json} {vals : List (Option Json)}
    (h : IsRecord keys v vals) (hv : v.Spellable) {x : Json} (hx : some x ∈ vals) : x.Spellable := by
  cases h with
  | @object members _ h =>
    obtain ⟨-, rfl⟩ := isRecord_object_iff.mp (.object h)
    obtain ⟨key, -, hHead⟩ := List.mem_map.mp hx
    exact (hv.members _ (mem_under.mp (List.mem_of_head? hHead))).2
  | @array items k h =>
    have hItem : x ∈ items := by simpa using hx
    exact hv.items x hItem

-- ---------------------------------------------------------------------------
-- Members and their defaults
-- ---------------------------------------------------------------------------

/-- What a member stands for: `d` if it is left out, and what its value means if it is there. -/
inductive Field {α : Type} (means : Json → α → Prop) (d : α) : Option Json → α → Prop where
  | absent : Field means d none d
  | present {v : Json} {a : α} : means v a → Field means d (some v) a

/-- The value is a string with that text. -/
def IsText (v : Json) (s : String) : Prop := v = .string (some s)

/-- The value is a string with that text, or null if there is none. -/
def IsTextOrNull (v : Json) (s : Option String) : Prop := v = .ofText? s

/-- The value is that truth value. -/
def IsBool (v : Json) (b : Bool) : Prop := v = .bool b

/-- Texts are read from strings only … -/
theorem text?_eq_some_iff {v : Json} {s : String} : v.text? = some s ↔ v.IsText s := by
  cases v <;> simp [text?, IsText]

/-- … texts that may be missing from strings and null … -/
theorem textOrNull?_eq_some_iff {v : Json} {s : Option String} :
    v.textOrNull? = some s ↔ v.IsTextOrNull s := by
  cases s <;> cases v <;> simp [textOrNull?, text?, IsTextOrNull, ofText?]

/-- … truth values from truth values … -/
theorem bool?_eq_some_iff {v : Json} {b : Bool} : v.bool? = some b ↔ v.IsBool b := by
  cases v <;> simp [bool?, IsBool]

/-- … and lists from arrays. -/
theorem items?_eq_some_iff {v : Json} {items : List Json} : v.items? = some items ↔ v = .array items := by
  cases v <;> simp [items?]

/-- A member is read by its default if it is left out, and by its meaning if it is there. -/
theorem elim_eq_some_iff {α : Type} {f : Json → Option α} {means : Json → α → Prop} {x : Option Json}
    {d a : α} (h : ∀ v, x = some v → (f v = some a ↔ means v a)) :
    x.elim (some d) f = some a ↔ Field means d x a := by
  cases x with
  | none =>
    rw [Option.elim_none, Option.some.injEq]
    constructor
    · rintro rfl
      exact .absent
    · rintro ⟨⟩
      rfl
  | some v =>
    rw [Option.elim_some, h v rfl]
    constructor
    · exact .present
    · rintro (_ | hMeans)
      exact hMeans

end Json

-- ---------------------------------------------------------------------------
-- The schema
-- ---------------------------------------------------------------------------

namespace PartSetup

/-- The keys of a part, in order. -/
def keys : List String := ["chip", "name", "has_display"]

/-- **The value describes the part**: it has a chip, and possibly a name, which may be null, and a display. -/
def DescribedBy (p : PartSetup) (v : Json) : Prop :=
  ∃ chip name display, Json.IsRecord keys v [some chip, name, display] ∧ chip.IsText p.chip ∧
    Json.Field Json.IsTextOrNull none name p.name ∧ Json.Field Json.IsBool false display p.hasDisplay

/-- The part is read from the members. -/
def Reads (p : PartSetup) (chip name display : Option Json) : Prop :=
  chip.bind Json.text? = some p.chip ∧ name.elim (some none) Json.textOrNull? = some p.name ∧
    display.elim (some false) Json.bool? = some p.hasDisplay

/-- A part is read member by member. -/
theorem ofJson?_eq_some_iff_reads {v : Json} {p : PartSetup} :
    ofJson? v = some p ↔ ∃ field, v.record? keys = some field ∧
      p.Reads (field "chip") (field "name") (field "has_display") := by
  constructor
  · intro h
    obtain ⟨field, hField, h⟩ := Option.bind_eq_some_iff.mp h
    obtain ⟨chip, hChip, h⟩ := Option.bind_eq_some_iff.mp h
    obtain ⟨name, hName, h⟩ := Option.bind_eq_some_iff.mp h
    obtain ⟨display, hDisplay, h⟩ := Option.bind_eq_some_iff.mp h
    obtain rfl := Option.some.inj h
    exact ⟨field, hField, hChip, hName, hDisplay⟩
  · rintro ⟨field, hField, hChip, hName, hDisplay⟩
    rw [keys] at hField
    simp only [ofJson?, hField, hChip, hName, hDisplay, Option.bind_eq_bind, Option.bind_some]
    rfl

/-- **A value is read as a part exactly if it describes the part.** -/
theorem ofJson?_eq_some_iff {v : Json} (hv : v.Spellable) {p : PartSetup} :
    ofJson? v = some p ↔ p.DescribedBy v := by
  rw [ofJson?_eq_some_iff_reads, keys, Json.exists_record?_iff (P := p.Reads) (by decide) hv]
  constructor
  · rintro ⟨x, name, display, hRecord, hChip, hName, hDisplay⟩
    obtain ⟨chip, rfl, hText⟩ := Option.bind_eq_some_iff.mp hChip
    exact ⟨chip, name, display, hRecord, Json.text?_eq_some_iff.mp hText,
      (Json.elim_eq_some_iff fun _ _ => Json.textOrNull?_eq_some_iff).mp hName,
      (Json.elim_eq_some_iff fun _ _ => Json.bool?_eq_some_iff).mp hDisplay⟩
  · rintro ⟨chip, name, display, hRecord, hChip, hName, hDisplay⟩
    exact ⟨some chip, name, display, hRecord, Json.text?_eq_some_iff.mpr hChip,
      (Json.elim_eq_some_iff fun _ _ => Json.textOrNull?_eq_some_iff).mpr hName,
      (Json.elim_eq_some_iff fun _ _ => Json.bool?_eq_some_iff).mpr hDisplay⟩

end PartSetup

namespace Setup

/-- The keys of a setup, in order. -/
def keys : List String := ["name", "log_filter", "parts"]

/-- The value is an array, whose items describe the parts in order. -/
def IsParts (v : Json) (ps : List PartSetup) : Prop :=
  ∃ items, v = .array items ∧ List.Forall₂ (fun v p => PartSetup.DescribedBy p v) items ps

/-- **The value describes the setup**: it may have a name, a filter and parts, with defaults for those that
it has not. -/
def DescribedBy (s : Setup) (v : Json) : Prop :=
  ∃ name filter parts, Json.IsRecord keys v [name, filter, parts] ∧
    Json.Field Json.IsText "" name s.name ∧ Json.Field Json.IsText "info" filter s.logFilter ∧
    Json.Field IsParts [] parts s.parts

/-- Values are read as parts exactly if they describe them one by one. -/
theorem mapM_ofJson?_eq_some_iff {items : List Json} (h : ∀ v ∈ items, v.Spellable)
    {ps : List PartSetup} :
    items.mapM PartSetup.ofJson? = some ps ↔
      List.Forall₂ (fun v p => PartSetup.DescribedBy p v) items ps := by
  induction items generalizing ps with
  | nil => simp [eq_comm]
  | cons v items ih =>
    rw [List.forall_mem_cons] at h
    rw [List.mapM_cons]
    constructor
    · intro hRead
      obtain ⟨p, hp, hRead⟩ := Option.bind_eq_some_iff.mp hRead
      obtain ⟨qs, hqs, hRead⟩ := Option.bind_eq_some_iff.mp hRead
      obtain rfl := Option.some.inj hRead
      exact .cons ((PartSetup.ofJson?_eq_some_iff h.1).mp hp) ((ih h.2).mp hqs)
    · rintro (_ | ⟨hp, hps⟩)
      rw [(PartSetup.ofJson?_eq_some_iff h.1).mpr hp, (ih h.2).mpr hps]
      rfl

/-- How the parts of a setup are read. -/
def partsOf? (v : Json) : Option (List PartSetup) := do (← v.items?).mapM PartSetup.ofJson?

/-- The parts of a setup are read exactly if they are an array that describes them. -/
theorem partsOf?_eq_some_iff {v : Json} (hv : v.Spellable) {ps : List PartSetup} :
    partsOf? v = some ps ↔ IsParts v ps := by
  constructor
  · intro h
    obtain ⟨items, hItems, h⟩ := Option.bind_eq_some_iff.mp h
    obtain rfl := Json.items?_eq_some_iff.mp hItems
    exact ⟨items, rfl, (mapM_ofJson?_eq_some_iff hv.items).mp h⟩
  · rintro ⟨items, rfl, h⟩
    exact (mapM_ofJson?_eq_some_iff hv.items).mpr h

/-- The setup is read from the members. -/
def Reads (s : Setup) (name filter parts : Option Json) : Prop :=
  name.elim (some "") Json.text? = some s.name ∧ filter.elim (some "info") Json.text? = some s.logFilter ∧
    parts.elim (some []) partsOf? = some s.parts

/-- A setup is read member by member. -/
theorem ofJson?_eq_some_iff_reads {v : Json} {s : Setup} :
    ofJson? v = some s ↔ ∃ field, v.record? keys = some field ∧
      s.Reads (field "name") (field "log_filter") (field "parts") := by
  constructor
  · intro h
    obtain ⟨field, hField, h⟩ := Option.bind_eq_some_iff.mp h
    obtain ⟨name, hName, h⟩ := Option.bind_eq_some_iff.mp h
    obtain ⟨filter, hFilter, h⟩ := Option.bind_eq_some_iff.mp h
    obtain ⟨parts, hParts, h⟩ := Option.bind_eq_some_iff.mp h
    obtain rfl := Option.some.inj h
    exact ⟨field, hField, hName, hFilter, hParts⟩
  · rintro ⟨field, hField, hName, hFilter, hParts⟩
    rw [keys] at hField
    -- the parts are read by `partsOf?`, though it is not called so there
    have hPartsOf : (field "parts").elim (some []) (fun v => v.items?.bind fun items =>
        items.mapM PartSetup.ofJson?) = some s.parts := hParts
    simp only [ofJson?, hField, hName, hFilter, hPartsOf, Option.bind_eq_bind, Option.bind_some]
    rfl

/-- **A value is read as a setup exactly if it describes the setup.** -/
theorem ofJson?_eq_some_iff {v : Json} (hv : v.Spellable) {s : Setup} :
    ofJson? v = some s ↔ s.DescribedBy v := by
  rw [ofJson?_eq_some_iff_reads, keys, Json.exists_record?_iff (P := s.Reads) (by decide) hv]
  refine exists_congr fun name => exists_congr fun filter => exists_congr fun parts =>
    and_congr_right fun hRecord => ?_
  have hParts : ∀ w, parts = some w → (partsOf? w = some s.parts ↔ IsParts w s.parts) := by
    rintro w rfl
    exact partsOf?_eq_some_iff (hRecord.spellable hv (by simp))
  rw [Reads, Json.elim_eq_some_iff fun _ _ => Json.text?_eq_some_iff,
    Json.elim_eq_some_iff fun _ _ => Json.text?_eq_some_iff, Json.elim_eq_some_iff hParts]

end Setup

-- ---------------------------------------------------------------------------
-- What does not matter
-- ---------------------------------------------------------------------------

namespace Json

/-- The same values in any order, as far as `rel` tells them apart. -/
def SameValues (rel : Json → Json → Prop) (l l' : List Json) : Prop :=
  ∃ between, l.Perm between ∧ List.Forall₂ rel between l'

/-- **Records that say the same**: arrays of the same values, or objects with the same values under each of
the keys, in whatever order their members are and whatever members they have besides. -/
inductive AlikeRecord (keys : List String) (rel : Json → Json → Prop) : Json → Json → Prop where
  | refl (v : Json) : AlikeRecord keys rel v v
  | array {items items' : List Json} : List.Forall₂ rel items items' →
    AlikeRecord keys rel (.array items) (.array items')
  | object {ms ms' : List (Option String × Json)} :
    (∀ key ∈ keys, SameValues rel (under key ms) (under key ms')) →
    AlikeRecord keys rel (.object ms) (.object ms')

section Alike

variable {keys : List String} {rel : Json → Json → Prop}

/-- Having the same values goes both ways. -/
theorem SameValues.symm (hSymm : ∀ v v', rel v v' → rel v' v) {l l' : List Json}
    (h : SameValues rel l l') : SameValues rel l' l := by
  obtain ⟨between, hPerm, hRel⟩ := h
  -- permuting first and relating first are the same
  obtain ⟨between', hRel', hPerm'⟩ := List.perm_comp_forall₂ hPerm hRel
  exact ⟨between', hPerm'.symm, hRel'.flip.imp fun _ _ => hSymm _ _⟩

/-- Saying the same goes both ways. -/
theorem AlikeRecord.symm (hSymm : ∀ v v', rel v v' → rel v' v) {v v' : Json}
    (h : AlikeRecord keys rel v v') : AlikeRecord keys rel v' v := by
  cases h with
  | refl => exact .refl v
  | array h => exact .array (h.flip.imp fun _ _ => hSymm _ _)
  | object h => exact .object fun key hKey => (h key hKey).symm hSymm

/-- Where there is at most one value, there is no order. -/
theorem SameValues.exists_toList {x : Option Json} {l : List Json} (h : SameValues rel x.toList l) :
    ∃ x', l = x'.toList ∧ Option.Rel rel x x' := by
  obtain ⟨between, hPerm, hRel⟩ := h
  cases x with
  | none =>
    obtain rfl := List.nil_perm.mp hPerm
    cases hRel
    exact ⟨none, rfl, .none⟩
  | some v =>
    obtain rfl := List.singleton_perm.mp hPerm
    match l, hRel with
    | [w], .cons hv .nil => exact ⟨some w, rfl, .some hv⟩

/-- Objects with the same values have, with each key, the same value. -/
theorem exists_vals_of_sameValues {ks : List String} {ms ms' : List (Option String × Json)}
    {vals : List (Option Json)}
    (hVals : List.Forall₂ (fun key x => under key ms = x.toList) ks vals)
    (hSame : ∀ key ∈ ks, SameValues rel (under key ms) (under key ms')) :
    ∃ vals', List.Forall₂ (fun key x => under key ms' = x.toList) ks vals' ∧
      List.Forall₂ (Option.Rel rel) vals vals' := by
  induction hVals with
  | nil => exact ⟨[], .nil, .nil⟩
  | cons hVal _ ih =>
    rw [List.forall_mem_cons, hVal] at hSame
    obtain ⟨x', hx', hRel⟩ := hSame.1.exists_toList
    obtain ⟨vals', hVals', hRels⟩ := ih hSame.2
    exact ⟨x' :: vals', .cons hx' hVals', .cons hRel hRels⟩

/-- **Records that say the same are read as the same.** -/
theorem AlikeRecord.isRecord (hRefl : ∀ v, rel v v) {v v' : Json} (h : AlikeRecord keys rel v v')
    {vals : List (Option Json)} (hRecord : IsRecord keys v vals) :
    ∃ vals', IsRecord keys v' vals' ∧ List.Forall₂ (Option.Rel rel) vals vals' := by
  have hSelf : ∀ vals : List (Option Json), List.Forall₂ (Option.Rel rel) vals vals := by
    intro vals
    rw [List.forall₂_same]
    rintro (_ | v) -
    · exact .none
    · exact .some (hRefl v)
  cases h with
  | refl => exact ⟨vals, hRecord, hSelf vals⟩
  | array hItems =>
    obtain ⟨_⟩ | @⟨_, k, hLength⟩ := hRecord
    -- arrays have the same values in the same places, and the same ones left out
    refine ⟨_, .array (hItems.length_eq ▸ hLength), List.rel_append ?_ (hSelf _)⟩
    rw [List.forall₂_map_left_iff, List.forall₂_map_right_iff]
    exact hItems.imp fun _ _ => .some
  | object hSame =>
    obtain ⟨hVals⟩ | ⟨_⟩ := hRecord
    obtain ⟨vals', hVals', hRels⟩ := exists_vals_of_sameValues hVals hSame
    exact ⟨vals', .object hVals', hRels⟩

/-- A member keeps what it stands for if its value keeps what it means. -/
theorem Field.of_rel {α : Type} {means : Json → α → Prop} {d a : α}
    (hMeans : ∀ v v', rel v v' → means v a → means v' a) {x x' : Option Json} (hRel : Option.Rel rel x x')
    (h : Field means d x a) : Field means d x' a := by
  cases hRel with
  | none => exact h
  | some hv =>
    obtain ⟨_⟩ | hMeans' := h
    exact .present (hMeans _ _ hv hMeans')

end Alike

end Json

/-- **Parts that say the same**: order and other members apart. -/
def PartSetup.Alike : Json → Json → Prop := Json.AlikeRecord keys Eq

/-- Parts that say the same describe the same part. -/
theorem PartSetup.DescribedBy.of_alike {p : PartSetup} {v v' : Json} (h : p.DescribedBy v)
    (hAlike : Alike v v') : p.DescribedBy v' := by
  obtain ⟨chip, name, display, hRecord, hChip, hName, hDisplay⟩ := h
  obtain ⟨vals', hRecord', hRels⟩ := Json.AlikeRecord.isRecord (fun _ => rfl) hAlike hRecord
  match vals', hRels with
  | [_, name', display'], .cons (.some rfl) (.cons hName' (.cons hDisplay' .nil)) =>
    exact ⟨chip, name', display', hRecord', hChip, hName.of_rel (fun _ _ hEq => hEq ▸ id) hName',
      hDisplay.of_rel (fun _ _ hEq => hEq ▸ id) hDisplay'⟩

namespace Setup

/-- The same values, or arrays of parts that say the same. -/
def AlikeParts (v v' : Json) : Prop :=
  v = v' ∨ ∃ items items', v = .array items ∧ v' = .array items' ∧
    List.Forall₂ PartSetup.Alike items items'

/-- **Setups that say the same**: order and other members apart, in the setup and in its parts. -/
def Alike : Json → Json → Prop := Json.AlikeRecord keys AlikeParts

/-- For setups, too, saying the same goes both ways. -/
theorem Alike.symm {v v' : Json} (h : Alike v v') : Alike v' v := by
  refine Json.AlikeRecord.symm (fun w w' hw => ?_) h
  rcases hw with rfl | ⟨items, items', rfl, rfl, hItems⟩
  · exact .inl rfl
  · exact .inr ⟨items', items, rfl, rfl,
      hItems.flip.imp fun _ _ => Json.AlikeRecord.symm fun _ _ => Eq.symm⟩

theorem forall₂_describedBy_of_alike {items items' : List Json} {ps : List PartSetup}
    (h : List.Forall₂ (fun v p => PartSetup.DescribedBy p v) items ps)
    (hAlike : List.Forall₂ PartSetup.Alike items items') :
    List.Forall₂ (fun v p => PartSetup.DescribedBy p v) items' ps := by
  induction hAlike generalizing ps with
  | nil => exact h
  | cons hHead _ ih =>
    cases h with
    | cons hp hps => exact .cons (hp.of_alike hHead) (ih hps)

/-- Arrays of parts that say the same describe the same parts. -/
theorem IsParts.of_alike {v v' : Json} {ps : List PartSetup} (h : IsParts v ps)
    (hAlike : AlikeParts v v') : IsParts v' ps := by
  obtain ⟨items, rfl, hParts⟩ := h
  rcases hAlike with rfl | ⟨_, items', hEq, rfl, hItems⟩
  · exact ⟨items, rfl, hParts⟩
  · obtain rfl := Json.array.inj hEq
    exact ⟨items', rfl, forall₂_describedBy_of_alike hParts hItems⟩

/-- **Setups that say the same describe the same setup.** -/
theorem DescribedBy.of_alike {s : Setup} {v v' : Json} (h : s.DescribedBy v) (hAlike : Alike v v') :
    s.DescribedBy v' := by
  obtain ⟨name, filter, parts, hRecord, hName, hFilter, hParts⟩ := h
  obtain ⟨vals', hRecord', hRels⟩ := Json.AlikeRecord.isRecord (fun _ => .inl rfl) hAlike hRecord
  -- an array of parts is no text
  have hText : ∀ (t : String) (w w' : Json), AlikeParts w w' → w.IsText t → w'.IsText t := by
    rintro t w w' (rfl | ⟨_, _, rfl, -⟩) hText
    · exact hText
    · cases hText
  match vals', hRels with
  | [name', filter', parts'], .cons hName' (.cons hFilter' (.cons hParts' .nil)) =>
    exact ⟨name', filter', parts', hRecord', hName.of_rel (hText _) hName', hFilter.of_rel (hText _) hFilter',
      hParts.of_rel (fun _ _ hw hMeans => hMeans.of_alike hw) hParts'⟩

/-- A text that spells a value is read as the value is. -/
theorem ofText_of_document {v : Json} {text : String} (h : Json.Document v text) :
    ofText text = (ofJson? v).elim (.error .malformedSetup) .ok := by
  rw [ofText, Json.read?_of_document h, Option.bind_some]
  cases ofJson? v <;> rfl

/-- What is read is what is described. -/
theorem ofText_eq_ok_iff {v : Json} {text : String} (h : Json.Document v text) {s : Setup} :
    ofText text = .ok s ↔ s.DescribedBy v := by
  rw [ofText_of_document h, ← ofJson?_eq_some_iff (Json.SpellsPadded.spellable h)]
  cases ofJson? v <;> simp

/-- What describes nothing is malformed. -/
theorem ofText_eq_error {v : Json} {text : String} (h : Json.Document v text)
    (hNone : ∀ s : Setup, ¬ s.DescribedBy v) : ofText text = .error .malformedSetup := by
  rw [ofText_of_document h]
  cases hRead : ofJson? v with
  | none => rfl
  | some s => exact absurd ((ofJson?_eq_some_iff (Json.SpellsPadded.spellable h)).mp hRead) (hNone s)

/--
**Reading follows the schema.** Take any text that spells a value, with any white space and any escapes.

* The text is read as a setup exactly if the value describes it.
* If the value describes no setup, the text is refused as malformed.
* A text that spells a value that says the same is read the same: neither the order of members nor members
  with other keys matter, in the setup and in its parts.
-/
theorem ofText_follows_schema {v : Json} {text : String} (h : Json.Document v text) :
    (∀ s : Setup, ofText text = .ok s ↔ s.DescribedBy v) ∧
    ((∀ s : Setup, ¬ s.DescribedBy v) → ofText text = .error .malformedSetup) ∧
    ∀ v' text', Json.Document v' text' → Alike v v' → ofText text' = ofText text := by
  refine ⟨fun s => ofText_eq_ok_iff h, ofText_eq_error h, fun v' text' h' hAlike => ?_⟩
  cases hText : ofText text with
  | ok s => exact (ofText_eq_ok_iff h').mpr (((ofText_eq_ok_iff h).mp hText).of_alike hAlike)
  | error f =>
    -- refused: the first value describes nothing, so the second does not either
    have hNone : ∀ s : Setup, ¬ s.DescribedBy v := by
      intro s hs
      rw [(ofText_eq_ok_iff h).mpr hs] at hText
      cases hText
    have hNone' : ∀ s : Setup, ¬ s.DescribedBy v' := fun s hs => hNone s (hs.of_alike hAlike.symm)
    rw [ofText_eq_error h' hNone', ← hText, ofText_eq_error h hNone]

/-- A part in each notation, after a member with another key. -/
def sloppy : Json :=
  .object [(some "x", .object [(some "parts", .null)]), (some "parts", .array
    [.array [.string (some "Not"), .null], .object [(some "y", .array []), (some "chip", .string (some "Or"))]])]

/-- The same without the members that do not matter. -/
def tidy : Json :=
  .object [(some "parts", .array
    [.array [.string (some "Not"), .null], .object [(some "chip", .string (some "Or"))]])]

def sloppyText : String :=
  "\x7b\"x\":\x7b\"parts\":null\x7d,\"p\\u0061rts\":[[\"Not\",null],\x7b\"y\":[],\"chip\":\"Or\"\x7d]\x7d"

def tidyText : String :=
  "\x7b\"parts\":[[\"Not\",null],\x7b\"chip\":\"Or\"\x7d]\x7d"

/-- A key with an escape in it is the key that it spells. -/
theorem spellsString_escaped : Json.SpellsString "parts" "\"p\\u0061rts\"".toList := by
  have hZero : Json.IsHexDigit '0' 0 := .inl rfl
  have hSix : Json.IsHexDigit '6' 6 := .inl rfl
  have hOne : Json.IsHexDigit '1' 1 := .inl rfl
  have hPieces : List.Forall₂ Json.SpellsChar "parts".toList
      [['p'], ['\\', 'u', '0', '0', '6', '1'], ['r'], ['t'], ['s']] :=
    .cons (.plain (by decide) (by decide) (by decide)) (.cons (.code (.digits hZero hZero hSix hOne))
      (.cons (.plain (by decide) (by decide) (by decide)) (.cons (.plain (by decide) (by decide) (by decide))
        (.cons (.plain (by decide) (by decide) (by decide)) .nil))))
  exact .quoted hPieces

theorem spells_not : Json.Spells (.array [.string (some "Not"), .null]) "[\"Not\",null]".toList :=
  .array (.more (Json.spells_ofText? (some "Not")).unpadded (.last (Json.spells_ofText? none).unpadded))

theorem spellsMember_or :
    Json.SpellsMember (some "chip", .string (some "Or")) "\"chip\":\"Or\"".toList :=
  Json.spellsMember_compact (Json.spellsString_quote "chip") (Json.spells_ofText? (some "Or"))

/-- The first text spells the first value, member by member from the inside … -/
theorem document_sloppy : Json.Document sloppy sloppyText := by
  have hOther := Json.spellsMember_compact (Json.spellsString_quote "y") (.emptyArray Json.blank_nil)
  have hNested := Json.spellsMember_compact (Json.spellsString_quote "parts") .null
  have hUnknown := Json.spellsMember_compact (Json.spellsString_quote "x") (.object (.last hNested))
  have hOr := Json.Spells.object (.more hOther (.last spellsMember_or))
  have hParts := Json.spellsMember_compact spellsString_escaped
    (.array (.more spells_not.unpadded (.last hOr.unpadded)))
  exact (Json.Spells.object (.more hUnknown (.last hParts))).unpadded

/-- … and the second text the second. -/
theorem document_tidy : Json.Document tidy tidyText := by
  have hOr := Json.Spells.object (.last spellsMember_or)
  have hParts := Json.spellsMember_compact (Json.spellsString_quote "parts")
    (.array (.more spells_not.unpadded (.last hOr.unpadded)))
  exact (Json.Spells.object (.last hParts)).unpadded

/-- The same key twice. -/
def twice : Json :=
  .object [(some "name", .string (some "a")), (some "name", .string (some "a"))]

theorem document_twice : Json.Document twice "\x7b\"name\":\"a\",\"name\":\"a\"\x7d" := by
  have hName := Json.spellsMember_compact (Json.spellsString_quote "name") (Json.spells_ofText? (some "a"))
  exact (Json.Spells.object (.more hName (.last hName))).unpadded

/-- Both texts are read, and the one with a repeated key is refused. -/
theorem ofText_follows_schema_sloppy :
    Json.Document sloppy sloppyText ∧ Json.Document tidy tidyText ∧ Alike sloppy tidy ∧
      ofText sloppyText = .ok { parts := [{ chip := "Not" }, { chip := "Or" }] } ∧
      ofText tidyText = ofText sloppyText ∧
      ofText "\x7b\"name\":\"a\",\"name\":\"a\"\x7d" = .error .malformedSetup := by
  obtain ⟨hOk, -, hSame⟩ := ofText_follows_schema document_sloppy
  -- only the parts have a value in either, and these differ by a member that does not matter
  have hAlike : Alike sloppy tidy := by
    refine .object fun key hKey => ?_
    simp only [keys, List.mem_cons, List.not_mem_nil, or_false] at hKey
    have hOr : PartSetup.Alike (.object [(some "y", .array []), (some "chip", .string (some "Or"))])
        (.object [(some "chip", .string (some "Or"))]) := by
      refine .object fun key hKey => ?_
      simp only [PartSetup.keys, List.mem_cons, List.not_mem_nil, or_false] at hKey
      rcases hKey with rfl | rfl | rfl
      · exact ⟨_, .refl _, .cons rfl .nil⟩
      · exact ⟨_, .refl _, .nil⟩
      · exact ⟨_, .refl _, .nil⟩
    rcases hKey with rfl | rfl | rfl
    · exact ⟨_, .refl _, .nil⟩
    · exact ⟨_, .refl _, .nil⟩
    · exact ⟨_, .refl _, .cons (.inr ⟨_, _, rfl, rfl, .cons (.refl _) (.cons hOr .nil)⟩) .nil⟩
  have hNone : ∀ s : Setup, ¬ s.DescribedBy twice := by
    rintro s ⟨name, filter, parts, hRecord, -⟩
    have hOnce := (Json.isRecord_object_iff.mp hRecord).1 "name" (by decide)
    exact absurd hOnce (by decide)
  refine ⟨document_sloppy, document_tidy, hAlike, (hOk _).mpr ?_, hSame _ _ document_tidy hAlike,
    (ofText_follows_schema document_twice).2.1 hNone⟩
  have hNot : PartSetup.DescribedBy { chip := "Not" } (.array [.string (some "Not"), .null]) :=
    ⟨_, some .null, none, .array (k := 1) rfl, rfl, .present rfl, .absent⟩
  have hOr : PartSetup.DescribedBy { chip := "Or" }
      (.object [(some "y", .array []), (some "chip", .string (some "Or"))]) :=
    ⟨_, none, none, .object (.cons rfl (.cons rfl (.cons rfl .nil))), rfl, .absent, .absent⟩
  exact ⟨none, none, _, .object (.cons rfl (.cons rfl (.cons rfl .nil))), .absent, .absent,
    .present ⟨_, rfl, .cons hNot (.cons hOr .nil)⟩⟩

end Setup

end Breadboard
