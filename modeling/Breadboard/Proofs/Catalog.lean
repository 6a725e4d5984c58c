import Breadboard.Proofs.Circuit.Acceptance
import Breadboard.Proofs.Text.Order
import Mathlib.Data.List.Forall2
import Mathlib.Data.String.Basic

/-!
# Breadboard — catalogs and what was registered in them

Catalogs are set up, copied and registered in, any number of them side by side (`Catalog.Act`). Beside the
catalogs that come of it (`Catalog.shelf`) stand their histories (`Catalog.histories`): for each catalog the
names and chips that were registered in it, first to last. A copy begins with the history of what it was
made of, and from then on each of the two has its own.

A catalog is known by what it has under each name, and that is what its history has last
(`Catalog.Records`). No act breaks this (`Catalog.Act.records`), so it holds after any number of them
(`Catalog.records_of_acts`). `Catalog.catalogs_follow_histories` says what it means for those who ask.
-/

namespace Breadboard.Catalog

/-- A name, and the chip that was registered under it. -/
abbrev Entry := String × Chip

-- ---------------------------------------------------------------------------
-- What a catalog has on record
-- ---------------------------------------------------------------------------

/-- No entry for `name` comes after the one of `chip`. -/
def Latest (entries : List Entry) (name : String) (chip : Chip) : Prop :=
  ∃ before after, entries = before ++ (name, chip) :: after ∧ name ∉ after.map Prod.fst

/-- The catalog has under every name what is found for it first, looking from the end. -/
def Records (c : Catalog) (entries : List Entry) : Prop :=
  ∀ name, c.chips[name]? = entries.reverse.lookup name

/-- An empty catalog has nothing on record. -/
theorem records_empty : Records empty [] := by
  intro name
  simp [empty]

/-- Registering is one more entry, found before all others for its name. -/
theorem Records.register {c : Catalog} {entries : List Entry} (h : c.Records entries) (name : String)
    (chip : Chip) : (c.register name chip).Records (entries ++ [(name, chip)]) := by
  intro other
  rw [Catalog.register, Std.TreeMap.getElem?_insert, List.reverse_append, List.reverse_singleton,
    List.singleton_append, List.lookup_cons, h other]
  by_cases hName : name = other
  · simp [hName]
  · have hOther : (other == name) = false := beq_eq_false_iff_ne.mpr (Ne.symm hName)
    simp [hName, hOther]

/-- Registering chips under their own names, one after the other. -/
theorem Records.register_all {c : Catalog} {entries : List Entry} (h : c.Records entries)
    (chips : List Chip) :
    (chips.foldl (fun c chip => c.register chip.name chip) c).Records
      (entries ++ chips.map fun chip => (chip.name, chip)) := by
  induction chips generalizing c entries with
  | nil =>
    rw [List.map_nil, List.append_nil]
    exact h
  | cons chip chips ih =>
    rw [List.map_cons, List.append_cons]
    exact ih (h.register chip.name chip)

namespace Records

variable {c : Catalog} {entries : List Entry} {name : String}

/-- What is created is the chip of the latest entry. -/
theorem create_iff_latest (h : c.Records entries) {chip : Chip} :
    c.create name = .ok chip ↔ Latest entries name chip := by
  -- the first entry from the end is the last one from the beginning
  rw [create_eq_ok_iff, h name, List.lookup_eq_some_iff]
  constructor
  · rintro ⟨after, before, hSplit, hNone⟩
    refine ⟨before.reverse, after.reverse, ?_, ?_⟩
    · rw [← List.reverse_reverse entries, hSplit]
      simp
    · intro hMem
      obtain ⟨entry, hEntry, hName⟩ := List.mem_map.mp hMem
      have hNe := hNone entry (List.mem_reverse.mp hEntry)
      exact (bne_iff_ne.mp hNe) hName.symm
  · rintro ⟨before, after, rfl, hNone⟩
    refine ⟨after.reverse, before.reverse, by simp, fun entry hEntry => ?_⟩
    rw [bne_iff_ne]
    rintro rfl
    exact hNone (List.mem_map_of_mem (List.mem_reverse.mp hEntry))

/-- The names are those in the history. -/
theorem mem_names_iff (h : c.Records entries) : name ∈ c.names ↔ name ∈ entries.map Prod.fst := by
  rw [names, Std.TreeMap.mem_keys, Std.TreeMap.mem_iff_isSome_getElem?, h name, List.lookup_isSome_iff,
    List.mem_map]
  simp only [List.mem_reverse, beq_iff_eq]
  exact exists_congr fun _ => and_congr_right fun _ => eq_comm

end Records

/-- The names come in the order of their bytes. -/
theorem names_ascending (c : Catalog) : c.names.Pairwise fun a b => Text.bytes a < Text.bytes b :=
  c.chips.ordered_keys.imp fun h => Text.bytes_lt_of_lt (compare_lt_iff_lt.mp h)

/-- To be contained is to be listed. -/
theorem contains_iff_mem_names (c : Catalog) (name : String) : c.contains name = true ↔ name ∈ c.names := by
  rw [contains, names, Std.TreeMap.mem_keys, Std.TreeMap.contains_iff_mem]

/-- Unknown is what is not listed. -/
theorem create_eq_unknownChip_iff (c : Catalog) (name : String) :
    c.create name = .error (.unknownChip name) ↔ name ∉ c.names := by
  rw [names, Std.TreeMap.mem_keys, Std.TreeMap.mem_iff_isSome_getElem?]
  unfold create
  cases c.chips[name]? <;> simp

-- ---------------------------------------------------------------------------
-- Catalogs side by side
-- ---------------------------------------------------------------------------

/-- Something that is done with catalogs. They are numbered in the order in which they come about. -/
inductive Act where
  /-- A catalog without chips is set up. -/
  | empty
  /-- A catalog of the standard chips is set up. -/
  | standard
  /-- A copy is made of catalog number `k`. -/
  | copy (k : Nat)
  /-- A chip is registered in catalog number `k`. -/
  | register (k : Nat) (name : String) (chip : Chip)

/-- What an act does to the catalogs that there are. -/
def Act.apply (shelf : List Catalog) : Act → List Catalog
  | empty => shelf ++ [Catalog.empty]
  | standard => shelf ++ [Catalog.standard]
  | copy k => shelf ++ shelf[k]?.toList
  | register k name chip => shelf.modify k (·.register name chip)

/-- What an act adds to the histories of the catalogs. -/
def Act.record (histories : List (List Entry)) : Act → List (List Entry)
  | empty => histories ++ [[]]
  | standard => histories ++ [Chip.standard.map fun chip => (chip.name, chip)]
  | copy k => histories ++ histories[k]?.toList
  | register k name chip => histories.modify k (· ++ [(name, chip)])

/-- The catalogs that some acts, done in order, leave. -/
def shelf (acts : List Act) : List Catalog := acts.foldl Act.apply []

/-- The history of each of them. -/
def histories (acts : List Act) : List (List Entry) := acts.foldl Act.record []

/-- No act makes a catalog differ from its history. -/
theorem Act.records {shelf : List Catalog} {histories : List (List Entry)} (act : Act)
    (h : List.Forall₂ Records shelf histories) :
    List.Forall₂ Records (act.apply shelf) (act.record histories) := by
  have hLength := h.length_eq
  cases act with
  | empty => exact List.rel_append h (.cons records_empty .nil)
  | standard => exact List.rel_append h (.cons (records_empty.register_all Chip.standard) .nil)
  | copy k =>
    refine List.rel_append h ?_
    rcases Nat.lt_or_ge k shelf.length with hk | hk
    · have hk' : k < histories.length := by omega
      rw [List.getElem?_eq_getElem hk, List.getElem?_eq_getElem hk']
      exact .cons (h.get hk hk') .nil
    · rw [List.getElem?_eq_none hk, List.getElem?_eq_none (by omega)]
      exact .nil
  | register k name chip =>
    -- one catalog and its history get the same entry, and all others stay
    refine List.forall₂_iff_get.mpr ⟨by simp [apply, record, hLength], fun i hi hi' => ?_⟩
    have hLt : i < shelf.length := by simpa [apply] using hi
    have hLt' : i < histories.length := by omega
    have hRecords : shelf[i].Records histories[i] := h.get hLt hLt'
    simp only [apply, record, List.get_eq_getElem, List.getElem_modify]
    split
    · exact hRecords.register name chip
    · exact hRecords

/-- Every catalog that comes about is as its history says. -/
theorem records_of_acts (acts : List Act) : List.Forall₂ Records (shelf acts) (histories acts) := by
  -- the acts are taken one by one, from catalogs that are as their histories say
  have hAll : ∀ (acts : List Act) (cs : List Catalog) (hs : List (List Entry)),
      List.Forall₂ Records cs hs →
      List.Forall₂ Records (acts.foldl Act.apply cs) (acts.foldl Act.record hs) := by
    intro acts
    induction acts with
    | nil => exact fun cs hs h => h
    | cons act acts ih => exact fun cs hs h => ih _ _ (act.records h)
  exact hAll acts [] [] .nil

/--
**A catalog is what its own history says.** After any acts, let `c` be one of the catalogs, and `entries` its
history.

* The names come in strictly ascending order of their bytes in UTF-8, and are those in the history.
* The catalog contains a name exactly if the name is listed.
* What is created under a name is the chip of the latest entry for it; a name that is not listed, and no other,
  is refused as unknown.
-/
theorem catalogs_follow_histories {acts : List Act} {k : Nat} {c : Catalog} (h : (shelf acts)[k]? = some c) :
    ∃ entries, (histories acts)[k]? = some entries ∧
      c.names.Pairwise (fun a b => Text.bytes a < Text.bytes b) ∧
      (∀ name, name ∈ c.names ↔ name ∈ entries.map Prod.fst) ∧
      (∀ name, c.contains name = true ↔ name ∈ c.names) ∧
      (∀ name chip, c.create name = .ok chip ↔ Latest entries name chip) ∧
      ∀ name, c.create name = .error (.unknownChip name) ↔ name ∉ c.names := by
  have hAll := records_of_acts acts
  obtain ⟨hk, rfl⟩ := List.getElem?_eq_some_iff.mp h
  have hk' : k < (histories acts).length := by rwa [← hAll.length_eq]
  have hRecords : ((shelf acts)[k]).Records (histories acts)[k] := hAll.get hk hk'
  exact ⟨(histories acts)[k], List.getElem?_eq_getElem hk', names_ascending _,
    fun _ => hRecords.mem_names_iff, contains_iff_mem_names _, fun _ _ => hRecords.create_iff_latest,
    create_eq_unknownChip_iff _⟩

/-- A copy is made, and then both catalogs are registered in. -/
def twins : List Act :=
  [.standard, .register 0 "\uff5e" .nand, .copy 0, .register 0 "Not" .not16, .register 1 "𝔸" .mux,
    .register 1 "𝔸" .mux16]

/-- The first has a new chip under a standard name, which the second does not see; the second has a name that
the first does not know, and under it the later of two chips. That name comes last in the second, after one
that takes fewer bytes. -/
theorem catalogs_follow_histories_twins :
    ∃ c d, shelf twins = [c, d] ∧
      c.create "Not" = .ok .not16 ∧ d.create "Not" = .ok .not ∧
      c.create "𝔸" = .error (.unknownChip "𝔸") ∧ d.create "𝔸" = .ok .mux16 ∧
      c.contains "\uff5e" = true ∧ d.contains "\uff5e" = true ∧
      d.names.Pairwise (fun a b => Text.bytes a < Text.bytes b) ∧ "𝔸" ∈ d.names := by
  obtain ⟨entries, hEntries, -, hNames, hContains, hCreate, hUnknown⟩ :=
    catalogs_follow_histories (show (shelf twins)[0]? = some _ from rfl)
  obtain ⟨copied, hCopied, hAscending, hCopyNames, hCopyContains, hCopyCreate, -⟩ :=
    catalogs_follow_histories (show (shelf twins)[1]? = some _ from rfl)
  -- the histories are computed, and every answer is read off them
  obtain rfl : _ = entries := Option.some.inj hEntries
  obtain rfl : _ = copied := Option.some.inj hCopied
  refine ⟨_, _, rfl, (hCreate "Not" .not16).mpr ?_, (hCopyCreate "Not" .not).mpr ?_, (hUnknown "𝔸").mpr ?_,
    (hCopyCreate "𝔸" .mux16).mpr ?_, ?_, ?_, hAscending, ?_⟩
  · exact ⟨(Chip.standard.map fun chip => (chip.name, chip)) ++ [("\uff5e", .nand)], [], rfl, by decide⟩
  · exact ⟨[("Nand", .nand)], ((Chip.standard.drop 2).map fun chip => (chip.name, chip)) ++
      [("\uff5e", .nand), ("𝔸", .mux), ("𝔸", .mux16)], rfl, by decide⟩
  · rw [hNames]
    decide
  · exact ⟨(Chip.standard.map fun chip => (chip.name, chip)) ++ [("\uff5e", .nand), ("𝔸", .mux)], [], rfl,
      by decide⟩
  · rw [hContains, hNames]
    decide
  · rw [hCopyContains, hCopyNames]
    decide
  · rw [hCopyNames]
    decide

end Breadboard.Catalog
