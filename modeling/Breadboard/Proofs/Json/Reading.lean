import Breadboard.Proofs.Json.Grammar

/-!
# Breadboard — the reader reads every document

`Json.read?` is a machine that takes one character at a time. Here it is fed the texts of the grammar,
piece by piece: what a text does to the machine (`State.feed`) is what its parts do to it in turn.

A value does the same to the machine whatever is open around it: it goes where a complete value goes
(`State.accept`). Only numbers need care, since they have no end of their own. After a number the
machine is still in the middle of it, and the next character, or the end of the text, has it accepted.
That last step, on its own, is `State.settle`; on all other states it does nothing. So every value is
described by `feed_spells`: fed a text that spells `v` and settled, the machine has accepted `v`.

* `State.feed_string`, `State.feed_number` — strings and numbers;
* `feed_spells` — values, by induction along the grammar;
* `read?_of_document` — **every document is read, as the value that it spells**.
-/

namespace Breadboard.Json

namespace State

/-! ## Feeding -/

/-- The state after some more characters. -/
def feed (st : State) (t : List Char) : Option State := t.foldlM step st

@[simp] theorem feed_nil (st : State) : st.feed [] = some st := rfl

theorem feed_cons (st : State) (c : Char) (t : List Char) :
    st.feed (c :: t) = (step st c).bind fun st' => st'.feed t := rfl

/-- A text is fed in one go or in two. -/
theorem feed_append (st : State) (t u : List Char) :
    st.feed (t ++ u) = (st.feed t).bind fun st' => st'.feed u :=
  List.foldlM_append

/-- A character that is taken leads to the state that reads the rest. -/
theorem feed_cons_of_step {st st' : State} {c : Char} (h : step st c = some st') (t : List Char) :
    st.feed (c :: t) = st'.feed t := by
  rw [feed_cons, h, Option.bind_some]

/-- A text that is taken leads to the state that reads the rest. -/
theorem feed_append_of_feed {st st' : State} {t : List Char} (h : st.feed t = some st')
    (u : List Char) : st.feed (t ++ u) = st'.feed u := by
  rw [feed_append, h, Option.bind_some]

theorem feed_singleton (st : State) (c : Char) : st.feed [c] = step st c := by
  rw [feed_cons]
  exact Option.bind_fun_some _

end State

/-! ## White space -/

/-- Whether the machine is between two symbols. -/
def Mode.isBetween : Mode → Bool
  | .word .. | .number .. | .string .. => false
  | _ => true

/-- White space is one of four characters. -/
theorem isBlank_eq_true_iff {c : Char} :
    isBlank c = true ↔ c = ' ' ∨ c = '\t' ∨ c = '\n' ∨ c = '\r' := by
  simp only [isBlank, Bool.or_eq_true, decide_eq_true_eq, or_assoc]

namespace State

/-- Between symbols a blank is skipped … -/
theorem step_blank {st : State} {c : Char} (h : st.mode.isBetween = true) (hc : isBlank c = true) :
    step st c = some st := by
  obtain ⟨stack, mode⟩ := st
  cases mode with
  | value => exact if_pos hc
  | firstItem => exact if_pos hc
  | firstKey => exact if_pos hc
  | key => exact if_pos hc
  | colon key => exact if_pos hc
  | separator => exact if_pos hc
  | done v => exact if_pos hc
  | word _ _ => cases h
  | number _ _ => cases h
  | string _ _ _ => cases h

/-- … and so is any number of blanks. -/
theorem feed_blank {st : State} {t : List Char} (h : st.mode.isBetween = true) (ht : Blank t) :
    st.feed t = some st := by
  induction t with
  | nil => rfl
  | cons c t ih =>
    obtain ⟨hc, hRest⟩ := List.forall_mem_cons.mp ht
    rw [feed_cons_of_step (step_blank h (isBlank_eq_true_iff.mpr hc)), ih hRest]

/-! ## The end of a number -/

/-- Has a number accepted that may end here. -/
def settle (st : State) : Option State :=
  match st.mode with
  | .number mode spelling =>
    if mode.isComplete then accept st.stack (.number spelling.reverse) else none
  | _ => some st

/-- A character with which no number goes on. -/
def EndsNumber (c : Char) : Prop := ∀ m : NumberMode, m.next? c = none

theorem endsNumber_comma : EndsNumber ',' := by intro m; cases m <;> rfl

theorem endsNumber_bracket : EndsNumber ']' := by intro m; cases m <;> rfl

theorem endsNumber_brace : EndsNumber '}' := by intro m; cases m <;> rfl

/-- No number goes on after a blank. -/
theorem endsNumber_blank {c : Char} (h : c = ' ' ∨ c = '\t' ∨ c = '\n' ∨ c = '\r') :
    EndsNumber c := by
  intro m
  rcases h with rfl | rfl | rfl | rfl <;> cases m <;> rfl

/-- After a complete value the machine is between symbols, and a comma or an end is to come. -/
theorem mode_of_accept {stack : List Frame} {v : Json} {st : State}
    (h : accept stack v = some st) : st.mode = .separator ∨ st.mode = .done v := by
  unfold accept at h
  split at h
  · obtain rfl := Option.some.inj h
    exact .inr rfl
  · obtain rfl := Option.some.inj h
    exact .inl rfl
  · obtain rfl := Option.some.inj h
    exact .inl rfl
  · cases h

/-- After a complete value, blanks may come. -/
theorem isBetween_of_accept {stack : List Frame} {v : Json} {st : State}
    (h : accept stack v = some st) : st.mode.isBetween = true := by
  rcases mode_of_accept h with hMode | hMode <;> rw [hMode] <;> rfl

/-- What is accepted is settled. -/
theorem bind_settle_accept (stack : List Frame) (v : Json) :
    (accept stack v).bind settle = accept stack v := by
  cases h : accept stack v with
  | none => rfl
  | some st =>
    rw [Option.bind_some, settle]
    rcases mode_of_accept h with hMode | hMode <;> rw [hMode]

/-- **A character that ends numbers** has one accepted first. -/
theorem step_settle {c : Char} (hc : EndsNumber c) (st : State) :
    step st c = st.settle.bind fun st' => step st' c := by
  obtain ⟨stack, mode⟩ := st
  cases mode with
  | number m spelling =>
    have hStep : step ⟨stack, .number m spelling⟩ c =
        if m.isComplete then (accept stack (.number spelling.reverse)).bind (·.follow c) else none := by
      simp only [step, hc m]
    rw [hStep, settle]
    -- an incomplete number is refused on both sides
    by_cases hComplete : m.isComplete = true
    · simp only [if_pos hComplete]
      apply Option.bind_congr
      intro st' hAccept
      obtain ⟨stack', mode'⟩ := st'
      rcases mode_of_accept hAccept with hMode | hMode
      · obtain rfl : mode' = .separator := hMode
        rfl
      · obtain rfl : mode' = .done _ := hMode
        rfl
    · simp only [if_neg hComplete, Option.bind_none]
  | _ => rfl

/-- A text that begins with such a character finds the number accepted. -/
theorem feed_settle {c : Char} (hc : EndsNumber c) (st : State) (t : List Char) :
    st.feed (c :: t) = st.settle.bind fun st' => st'.feed (c :: t) := by
  rw [feed_cons, step_settle hc, Option.bind_assoc]
  rfl

/-- The end of the text has a number accepted too. -/
theorem finish_settle (st : State) : st.finish = st.settle.bind finish := by
  obtain ⟨stack, mode⟩ := st
  cases mode with
  | number m spelling =>
    -- a number at the end of the text is the whole document, or what is open is not closed
    by_cases hComplete : m.isComplete = true
    · cases stack with
      | nil => simp [settle, finish, hComplete, accept]
      | cons frame rest => cases frame <;> simp [settle, finish, hComplete, accept]
    · cases stack with
      | nil => simp [settle, finish, hComplete]
      | cons frame rest => simp [settle, finish, hComplete]
  | _ => rfl

end State

/-! ## Strings -/

/-- Both cases of a hexadecimal digit are read as its value. -/
theorem hexValue?_of_isHexDigit {c : Char} {d : Nat} (h : IsHexDigit c d) : hexValue? c = some d := by
  have hLower : ∀ x ∈ "0123456789abcdef".toList.zipIdx, hexValue? x.1 = some x.2 := by decide
  have hUpper : ∀ x ∈ "0123456789ABCDEF".toList.zipIdx, hexValue? x.1 = some x.2 := by decide
  rcases h with h | h
  · exact hLower (c, d) (List.mk_mem_zipIdx_iff_getElem?.mpr h)
  · exact hUpper (c, d) (List.mk_mem_zipIdx_iff_getElem?.mpr h)

/-- The short escapes are read as they are listed, and none of them is the mark of a code. -/
theorem shortEscape?_of_mem {e c : Char} (h : (e, c) ∈ shortEscapes) :
    e ≠ 'u' ∧ shortEscape? e = some c := by
  have hAll : ∀ x ∈ shortEscapes, x.1 ≠ 'u' ∧ shortEscape? x.1 = some x.2 := by decide
  exact hAll _ h

namespace Scan

theorem high_push (s : Scan) (c : Char) : (s.push c).high = none := rfl

/-- Without half a pair to wait for, a character is added to those before. -/
theorem chars_push {s : Scan} (h : s.high = none) (c : Char) :
    (s.push c).chars = s.chars.map (c :: ·) := by
  simp only [push, h, Option.isSome_none, Bool.false_eq_true, if_false]

/-- A code that is a character's own adds that character. -/
theorem pushUnit_toNat (s : Scan) (c : Char) : s.pushUnit c.toNat = s.push c := by
  have hValid : c.toNat < 0xD800 ∨ 0xDFFF < c.toNat ∧ c.toNat < 0x110000 := c.valid
  rw [pushUnit, if_neg (by omega), if_neg (by omega), Char.ofNat_toNat]

/-- The two halves of a surrogate pair add the character that they stand for. -/
theorem pushUnit_pair {s : Scan} (h : s.high = none) {c : Char} (hc : 0x10000 ≤ c.toNat) :
    (s.pushUnit (0xD800 + (c.toNat - 0x10000) / 0x400)).pushUnit
      (0xDC00 + (c.toNat - 0x10000) % 0x400) = s.push c := by
  have hValid : c.toNat < 0xD800 ∨ 0xDFFF < c.toNat ∧ c.toNat < 0x110000 := c.valid
  generalize hOffset : c.toNat - 0x10000 = offset
  have hFirst : s.pushUnit (0xD800 + offset / 0x400) =
      { chars := s.chars, high := some (0xD800 + offset / 0x400) } := by
    rw [pushUnit, if_neg (by omega), if_pos (by omega), h]
    rfl
  have hNat : 0x10000 + (0xD800 + offset / 0x400 - 0xD800) * 0x400 +
      (0xDC00 + offset % 0x400 - 0xDC00) = c.toNat := by omega
  rw [hFirst, pushUnit, if_pos (by omega)]
  simp only [hNat, Char.ofNat_toNat, push, h, Option.isSome_none, Bool.false_eq_true, if_false]

end Scan

namespace State

/-- The machine in the middle of a string. -/
def inString (stack : List Frame) (isKey : Bool) (scan : Scan) : State :=
  ⟨stack, .string isKey .plain scan⟩

variable {stack : List Frame} {isKey : Bool} {scan : Scan}

theorem step_backslash :
    step (inString stack isKey scan) '\\' = some ⟨stack, .string isKey .escape scan⟩ := rfl

theorem step_code_mark :
    step ⟨stack, .string isKey .escape scan⟩ 'u' = some ⟨stack, .string isKey (.code 4 0) scan⟩ := rfl

/-- A digit of a code, with more to come. -/
theorem step_code {c : Char} {d : Nat} (h : IsHexDigit c d) (digits value : Nat) :
    step ⟨stack, .string isKey (.code (digits + 2) value) scan⟩ c =
      some ⟨stack, .string isKey (.code (digits + 1) (value * 16 + d)) scan⟩ := by
  simp [step, stepString, hexValue?_of_isHexDigit h]

/-- The last digit of a code completes it. -/
theorem step_lastCode {c : Char} {d : Nat} (h : IsHexDigit c d) (value : Nat) :
    step ⟨stack, .string isKey (.code 1 value) scan⟩ c =
      some (inString stack isKey (scan.pushUnit (value * 16 + d))) := by
  simp [step, stepString, hexValue?_of_isHexDigit h, inString]

/-- **Codes.** A code of four digits adds the unit that it names. -/
theorem feed_unit {n : Nat} {ds : List Char} (h : SpellsUnit n ds) :
    (inString stack isKey scan).feed ('\\' :: 'u' :: ds) =
      some (inString stack isKey (scan.pushUnit n)) := by
  obtain ⟨h₃, h₂, h₁, h₀⟩ := h
  rename_i c₃ c₂ c₁ c₀ d₃ d₂ d₁ d₀
  -- four digits to base 16, the first of them the highest
  have hValue : (((0 * 16 + d₃) * 16 + d₂) * 16 + d₁) * 16 + d₀ =
      d₃ * 4096 + d₂ * 256 + d₁ * 16 + d₀ := by omega
  rw [feed_cons_of_step step_backslash, feed_cons_of_step step_code_mark,
    feed_cons_of_step (step_code h₃ 2 0), feed_cons_of_step (step_code h₂ 1 _),
    feed_cons_of_step (step_code h₁ 0 _), feed_cons_of_step (step_lastCode h₀ _), feed_nil, hValue]

/-- **Any spelling of a character** adds that character. -/
theorem feed_char {c : Char} {t : List Char} (hHigh : scan.high = none) (h : SpellsChar c t) :
    (inString stack isKey scan).feed t = some (inString stack isKey (scan.push c)) := by
  cases h with
  -- as it is, by a short escape, by its code, or by the codes of a pair
  | plain hQuote hBackslash hSpace =>
    rw [feed_singleton]
    show stepString stack isKey .plain scan c = _
    simp only [stepString, if_neg hQuote, if_neg hBackslash, if_neg (Char.not_lt.mpr hSpace), inString]
  | short hMem =>
    obtain ⟨hNotCode, hEscape⟩ := shortEscape?_of_mem hMem
    rw [feed_cons_of_step step_backslash, feed_singleton]
    show stepString stack isKey .escape scan _ = _
    simp only [stepString, if_neg hNotCode, hEscape, Option.map_some, inString]
  | code hUnit => rw [feed_unit hUnit, Scan.pushUnit_toNat]
  | pair hLarge hFirst hSecond =>
    rw [feed_append_of_feed (feed_unit hFirst), feed_unit hSecond, Scan.pushUnit_pair hHigh hLarge]

/-- Characters, each in one of its spellings, are added one by one. -/
theorem feed_pieces {cs : List Char} {pieces : List (List Char)}
    (h : List.Forall₂ SpellsChar cs pieces) :
    ∀ scan : Scan, scan.high = none →
      (inString stack isKey scan).feed pieces.flatten =
        some (inString stack isKey (cs.foldl Scan.push scan)) := by
  induction h with
  | nil =>
    intro scan _
    rfl
  | @cons c piece cs pieces hPiece _ ih =>
    intro scan hHigh
    rw [List.flatten_cons, feed_append_of_feed (feed_char hHigh hPiece),
      ih _ (Scan.high_push scan c), List.foldl_cons]

end State

/-- The text of a string is what was added, in order. -/
theorem Scan.text_foldl_push (cs : List Char) :
    ∀ (scan : Scan) (before : List Char), scan.high = none → scan.chars = some before →
      (cs.foldl Scan.push scan).text = some (String.ofList (before.reverse ++ cs)) := by
  induction cs with
  | nil =>
    intro scan before hHigh hChars
    simp [Scan.text, hHigh, hChars]
  | cons c cs ih =>
    intro scan before hHigh hChars
    -- the characters so far are kept in reverse
    rw [List.foldl_cons, ih (scan.push c) (c :: before) (Scan.high_push scan c)
      (by rw [Scan.chars_push hHigh, hChars, Option.map_some]), List.reverse_cons, List.append_assoc,
      List.singleton_append]

namespace State

/-- What the machine does at the end of a string that stands for `s`. -/
def closeString (stack : List Frame) (isKey : Bool) (s : String) : Option State :=
  if isKey then some ⟨stack, .colon (some s)⟩ else accept stack (.string (some s))

/-- **Strings.** Where a string may begin, it is read as the text that it stands for. -/
theorem feed_string {st : State} {stack : List Frame} {isKey : Bool} {s : String} {t : List Char}
    (hOpen : step st '"' = some (inString stack isKey {})) (h : SpellsString s t) :
    st.feed t = closeString stack isKey s := by
  obtain ⟨hPieces⟩ := h
  have hText : (s.toList.foldl Scan.push {}).text = some s := by
    rw [Scan.text_foldl_push _ {} [] rfl rfl, List.reverse_nil, List.nil_append, String.ofList_toList]
  rw [List.cons_append, feed_cons_of_step hOpen, feed_append_of_feed (feed_pieces hPieces {} rfl),
    feed_singleton]
  show (if isKey then _ else accept stack (.string _)) = _
  rw [hText]
  rfl

end State

/-! ## Numbers -/

theorem ne_of_isDigit {c x : Char} (h : isDigit c = true) (hx : isDigit x = false) : c ≠ x := by
  rintro rfl
  rw [h] at hx
  cases hx

theorem not_isBlank_of_isDigit {c : Char} (h : isDigit c = true) : ¬ isBlank c = true := by
  rw [isBlank_eq_true_iff]
  rintro (hc | hc | hc | hc) <;> exact ne_of_isDigit h rfl hc

namespace NumberMode

/-- Where in a number the reader is after some more characters of it. -/
def run (m : NumberMode) (t : List Char) : Option NumberMode := t.foldlM next? m

theorem run_cons_of_next? {m m' : NumberMode} {c : Char} (h : m.next? c = some m') (t : List Char) :
    m.run (c :: t) = m'.run t := by
  show (m.next? c).bind (fun m' => m'.run t) = _
  rw [h, Option.bind_some]

/-- Within a number, too, a text is read in one go or in two. -/
theorem run_append_of_run {m m' : NumberMode} {t : List Char} (h : m.run t = some m')
    (u : List Char) : m.run (t ++ u) = m'.run u := by
  show (t ++ u).foldlM next? m = _
  rw [List.foldlM_append]
  show (m.run t).bind (fun m' => m'.run u) = _
  rw [h, Option.bind_some]

/-- A place in a number where digits may go on for ever. -/
def TakesDigits (m : NumberMode) : Prop := ∀ c, isDigit c = true → m.next? c = some m

/-- Digits do not lead away from where digits may go on. -/
theorem run_digits {m : NumberMode} (hm : m.TakesDigits) {ds : List Char}
    (hds : ∀ c ∈ ds, isDigit c = true) : m.run ds = some m := by
  induction ds with
  | nil => rfl
  | cons d ds ih =>
    obtain ⟨hd, hRest⟩ := List.forall_mem_cons.mp hds
    rw [run_cons_of_next? (hm d hd), ih hRest]

/-- One digit leads there, and the others stay. -/
theorem run_isDigits {m m' : NumberMode} (hm : ∀ c, isDigit c = true → m.next? c = some m')
    (hm' : m'.TakesDigits) {ds : List Char} (hds : IsDigits ds) : m.run ds = some m' := by
  obtain ⟨hNonempty, hDigits⟩ := hds
  cases ds with
  | nil => exact absurd rfl hNonempty
  | cons d ds =>
    obtain ⟨hd, hRest⟩ := List.forall_mem_cons.mp hDigits
    rw [run_cons_of_next? (hm d hd), run_digits hm' hRest]

theorem takesDigits_integer : integer.TakesDigits := fun _ hc => if_pos hc

theorem takesDigits_fraction : fraction.TakesDigits := fun _ hc => if_pos hc

theorem takesDigits_exponentDigits : exponentDigits.TakesDigits := fun _ hc => if_pos hc

/-- The sign of an exponent may be left out. -/
theorem next?_exponent_digit {c : Char} (hc : isDigit c = true) :
    exponent.next? c = some exponentDigits := by
  have hSign : ¬ (c = '+' ∨ c = '-') := by
    rintro (h | h)
    · exact ne_of_isDigit hc rfl h
    · exact ne_of_isDigit hc rfl h
  show (if c = '+' ∨ c = '-' then _ else _) = _
  rw [if_neg hSign, if_pos hc]

/-- A first digit other than zero may be followed by others. -/
theorem next?_sign_digit {d : Char} (hZero : d ≠ '0') (hd : isDigit d = true) :
    sign.next? d = some integer := by
  show (if d = '0' then _ else _) = _
  rw [if_neg hZero, if_pos hd]

/-- The part before the point ends with a lone zero or among other digits. -/
theorem run_whole {w : List Char} (h : IsWhole w) :
    sign.run w = some zero ∨ sign.run w = some integer := by
  cases h with
  | zero => exact .inl rfl
  | @digits d ds hZero hd hds =>
    right
    rw [run_cons_of_next? (next?_sign_digit hZero hd), run_digits takesDigits_integer hds]

/-- Where a number may end or go on with an exponent. -/
def TakesExponent (m : NumberMode) : Prop := m = zero ∨ m = integer ∨ m = fraction

/-- With or without a fraction, an exponent may come next. -/
theorem run_fraction {m : NumberMode} (hm : m = zero ∨ m = integer) {f : List Char}
    (h : IsFraction f) : ∃ m', m'.TakesExponent ∧ m.run f = some m' := by
  cases h with
  | none =>
    refine ⟨m, ?_, rfl⟩
    rcases hm with rfl | rfl
    · exact .inl rfl
    · exact .inr (.inl rfl)
  | point hds =>
    have hPoint : m.next? '.' = some point := by rcases hm with rfl | rfl <;> rfl
    have hFirst : ∀ c, isDigit c = true → point.next? c = some fraction := fun _ hc => if_pos hc
    refine ⟨fraction, .inr (.inr rfl), ?_⟩
    rw [run_cons_of_next? hPoint, run_isDigits hFirst takesDigits_fraction hds]

/-- With or without an exponent, the number may end. -/
theorem run_exponent {m : NumberMode} (hm : m.TakesExponent) {x : List Char} (h : IsExponent x) :
    ∃ m' : NumberMode, m'.isComplete = true ∧ m.run x = some m' := by
  have hLetter : ∀ e, e = 'e' ∨ e = 'E' → m.next? e = some exponent := by
    rintro e (rfl | rfl) <;> rcases hm with rfl | rfl | rfl <;> rfl
  cases h with
  | none =>
    refine ⟨m, ?_, rfl⟩
    rcases hm with rfl | rfl | rfl <;> rfl
  | plain he hds =>
    refine ⟨exponentDigits, rfl, ?_⟩
    rw [run_cons_of_next? (hLetter _ he),
      run_isDigits (fun _ hc => next?_exponent_digit hc) takesDigits_exponentDigits hds]
  | @signed e s ds he hs hds =>
    have hSign : exponent.next? s = some exponentSign := if_pos hs
    have hFirst : ∀ c, isDigit c = true → exponentSign.next? c = some exponentDigits :=
      fun _ hc => if_pos hc
    refine ⟨exponentDigits, rfl, ?_⟩
    rw [run_cons_of_next? (hLetter e he), run_cons_of_next? hSign,
      run_isDigits hFirst takesDigits_exponentDigits hds]

/-- A number without its sign is read to a place where it may end. -/
theorem run_magnitude {w f x : List Char} (hw : IsWhole w) (hf : IsFraction f) (hx : IsExponent x) :
    ∃ m : NumberMode, m.isComplete = true ∧ sign.run (w ++ f ++ x) = some m := by
  -- the three parts, each from where the one before may end
  obtain ⟨m₁, hm₁, hRun₁⟩ : ∃ m, (m = zero ∨ m = integer) ∧ sign.run w = some m := by
    rcases run_whole hw with h | h
    · exact ⟨_, .inl rfl, h⟩
    · exact ⟨_, .inr rfl, h⟩
  obtain ⟨m₂, hm₂, hRun₂⟩ := run_fraction hm₁ hf
  obtain ⟨m₃, hm₃, hRun₃⟩ := run_exponent hm₂ hx
  refine ⟨m₃, hm₃, ?_⟩
  rw [List.append_assoc, run_append_of_run hRun₁, run_append_of_run hRun₂, hRun₃]

end NumberMode

namespace State

variable {stack : List Frame}

/-- The machine goes along with the number and keeps its spelling, latest character first. -/
theorem feed_of_run {m m' : NumberMode} {t : List Char} (h : m.run t = some m')
    (spelling : List Char) :
    feed ⟨stack, .number m spelling⟩ t = some ⟨stack, .number m' (t.reverse ++ spelling)⟩ := by
  induction t generalizing m spelling with
  | nil =>
    obtain rfl : m = m' := Option.some.inj h
    rfl
  | cons c t ih =>
    obtain ⟨m₁, hNext, hRun⟩ := Option.bind_eq_some_iff.mp h
    have hStep : step ⟨stack, .number m spelling⟩ c = some ⟨stack, .number m₁ (c :: spelling)⟩ := by
      simp only [step, hNext]
    rw [feed_cons_of_step hStep, ih hRun, List.reverse_cons, List.append_assoc,
      List.singleton_append]

/-- A value that begins with a digit begins as after a minus sign. -/
theorem step_value_digit {d : Char} (hd : isDigit d = true) {m : NumberMode}
    (h : NumberMode.sign.next? d = some m) :
    step ⟨stack, .value⟩ d = some ⟨stack, .number m [d]⟩ := by
  show start stack d = _
  -- a digit is none of the marks that are looked for before it
  rw [start, if_neg (not_isBlank_of_isDigit hd), if_neg (ne_of_isDigit hd rfl),
    if_neg (ne_of_isDigit hd rfl), if_neg (ne_of_isDigit hd rfl), if_neg (ne_of_isDigit hd rfl)]
  -- zero is told apart, since no digit may follow it
  by_cases hZero : d = '0'
  · subst hZero
    obtain rfl := Option.some.inj h
    rfl
  · rw [NumberMode.next?_sign_digit hZero hd] at h
    obtain rfl := Option.some.inj h
    rw [if_neg hZero, if_pos hd]

/-- **Numbers.** A number is kept as it is spelt, and it may end where its spelling ends. -/
theorem feed_number (stack : List Frame) {t : List Char} (h : IsNumber t) :
    ∃ m : NumberMode, m.isComplete = true ∧
      feed ⟨stack, .value⟩ t = some ⟨stack, .number m t.reverse⟩ := by
  cases h with
  | @plain w f x hw hf hx =>
    obtain ⟨m, hm, hRun⟩ := NumberMode.run_magnitude hw hf hx
    refine ⟨m, hm, ?_⟩
    -- without a sign the first digit already begins the value
    obtain ⟨d, ds, rfl, hd⟩ := hw.head
    obtain ⟨m₁, hNext, hRest⟩ := Option.bind_eq_some_iff.mp hRun
    replace hRest : m₁.run (ds ++ f ++ x) = some m := hRest
    rw [List.cons_append, List.cons_append, feed_cons_of_step (step_value_digit hd hNext),
      feed_of_run hRest, List.reverse_cons]
  | negative hw hf hx =>
    obtain ⟨m, hm, hRun⟩ := NumberMode.run_magnitude hw hf hx
    have hSign : step ⟨stack, .value⟩ '-' = some ⟨stack, .number .sign ['-']⟩ := rfl
    refine ⟨m, hm, ?_⟩
    rw [feed_cons_of_step hSign, feed_of_run hRun, List.reverse_cons]

end State

/-! ## Values -/

/-- No value begins with white space or with the end of an array. -/
theorem head_of_spells {v : Json} {t : List Char} (h : Spells v t) :
    ∃ c u, t = c :: u ∧ c ≠ ']' ∧ ¬ isBlank c = true := by
  cases h with
  | null => exact ⟨_, _, rfl, by decide, by decide⟩
  | true => exact ⟨_, _, rfl, by decide, by decide⟩
  | false => exact ⟨_, _, rfl, by decide, by decide⟩
  | number h =>
    cases h with
    | plain hw _ _ =>
      obtain ⟨d, ds, rfl, hd⟩ := hw.head
      exact ⟨d, _, rfl, ne_of_isDigit hd rfl, not_isBlank_of_isDigit hd⟩
    | negative _ _ _ => exact ⟨_, _, rfl, by decide, by decide⟩
  | string h =>
    cases h
    exact ⟨_, _, rfl, by decide, by decide⟩
  | emptyArray _ => exact ⟨_, _, rfl, by decide, by decide⟩
  | array _ => exact ⟨_, _, rfl, by decide, by decide⟩
  | emptyObject _ => exact ⟨_, _, rfl, by decide, by decide⟩
  | object _ => exact ⟨_, _, rfl, by decide, by decide⟩

namespace State

variable {stack : List Frame}

/-- Where an array may end, a value is read as where it may not. -/
theorem feed_firstItem {v : Json} {t : List Char} (h : Spells v t) :
    feed ⟨stack, .firstItem⟩ t = feed ⟨stack, .value⟩ t := by
  obtain ⟨c, u, rfl, hBracket, hBlank⟩ := head_of_spells h
  have hStep : step ⟨stack, .firstItem⟩ c = step ⟨stack, .value⟩ c := by
    show (if isBlank c then _ else if c = ']' then _ else start stack c) = start stack c
    rw [if_neg hBlank, if_neg hBracket]
  rw [feed_cons, feed_cons, hStep]

/-- A word is read to its end and accepted. -/
theorem feed_word (v : Json) (w : Char) (ws : List Char) :
    feed ⟨stack, .word (w :: ws) v⟩ (w :: ws) = accept stack v := by
  induction ws generalizing w with
  | nil =>
    rw [feed_singleton]
    exact if_pos rfl
  | cons w' ws ih =>
    have hStep : step ⟨stack, .word (w :: w' :: ws) v⟩ w = some ⟨stack, .word (w' :: ws) v⟩ :=
      if_pos rfl
    rw [feed_cons_of_step hStep, ih]

/-- A text after which a number cannot go on: the value before it is complete first. -/
theorem feed_append_settle {c : Char} (hc : EndsNumber c) (st : State) (t u : List Char) :
    st.feed (t ++ c :: u) = ((st.feed t).bind settle).bind fun st' => st'.feed (c :: u) := by
  rw [feed_append, Option.bind_assoc]
  apply Option.bind_congr
  intro st' _
  exact feed_settle hc st' u

/-- White space before and after a value changes nothing. -/
theorem feed_padding {v : Json} {mode : Mode} (hMode : mode.isBetween = true) {l t r : List Char}
    (hl : Blank l) (hr : Blank r)
    (h : (feed ⟨stack, mode⟩ t).bind settle = accept stack v) :
    (feed ⟨stack, mode⟩ (l ++ t ++ r)).bind settle = accept stack v := by
  rw [List.append_assoc, feed_append_of_feed (feed_blank hMode hl)]
  cases r with
  | nil => rw [List.append_nil, h]
  | cons c r =>
    have hc : EndsNumber c := endsNumber_blank (hr c List.mem_cons_self)
    -- the first blank after the value has it accepted, and the others find it accepted
    rw [feed_append_settle hc, h, Option.bind_assoc]
    calc (accept stack v).bind (fun st' => (st'.feed (c :: r)).bind settle)
        = (accept stack v).bind settle := by
          apply Option.bind_congr
          intro st' hAccept
          rw [feed_blank (isBetween_of_accept hAccept) hr, Option.bind_some]
      _ = accept stack v := bind_settle_accept stack v

-- The five statements go along the derivation together. What is open below (`stack`) is arbitrary
-- in all of them, and so is what an array or an object holds so far.
mutual

/-- **Values.** Fed a text that spells a value, the machine has accepted that value once it is
settled. -/
theorem feed_spells {v : Json} {t : List Char} (h : Spells v t) (stack : List Frame) :
    (feed ⟨stack, .value⟩ t).bind settle = accept stack v := by
  match h with
  | .null =>
    have hStep : step ⟨stack, .value⟩ 'n' = some ⟨stack, .word ['u', 'l', 'l'] .null⟩ := rfl
    rw [feed_cons_of_step hStep, feed_word, bind_settle_accept]
  | .true =>
    have hStep : step ⟨stack, .value⟩ 't' = some ⟨stack, .word ['r', 'u', 'e'] (.bool true)⟩ := rfl
    rw [feed_cons_of_step hStep, feed_word, bind_settle_accept]
  | .false =>
    have hStep : step ⟨stack, .value⟩ 'f' =
        some ⟨stack, .word ['a', 'l', 's', 'e'] (.bool false)⟩ := rfl
    rw [feed_cons_of_step hStep, feed_word, bind_settle_accept]
  | .number h =>
    -- the one value that is not accepted where it ends
    obtain ⟨m, hComplete, hFeed⟩ := feed_number stack h
    rw [hFeed, Option.bind_some, settle]
    simp only [hComplete, if_true, List.reverse_reverse]
  | .string h =>
    have hOpen : step ⟨stack, .value⟩ '"' = some (inString stack false {}) := rfl
    rw [feed_string hOpen h]
    exact bind_settle_accept stack _
  | .emptyArray h =>
    have hOpen : step ⟨stack, .value⟩ '[' = some ⟨.array [] :: stack, .firstItem⟩ := rfl
    rw [List.cons_append, feed_cons_of_step hOpen, feed_append_of_feed (feed_blank rfl h),
      feed_singleton]
    exact bind_settle_accept stack _
  | .array h =>
    have hOpen : step ⟨stack, .value⟩ '[' = some ⟨.array [] :: stack, .firstItem⟩ := rfl
    rw [List.cons_append, feed_cons_of_step hOpen, feed_items h stack [] (.inr rfl)]
    exact bind_settle_accept stack _
  | .emptyObject h =>
    have hOpen : step ⟨stack, .value⟩ '{' = some ⟨.object [] :: stack, .firstKey⟩ := rfl
    rw [List.cons_append, feed_cons_of_step hOpen, feed_append_of_feed (feed_blank rfl h),
      feed_singleton]
    exact bind_settle_accept stack _
  | .object h =>
    have hOpen : step ⟨stack, .value⟩ '{' = some ⟨.object [] :: stack, .firstKey⟩ := rfl
    rw [List.cons_append, feed_cons_of_step hOpen, feed_members h stack [] (.inr rfl)]
    exact bind_settle_accept stack _

/-- A value with white space around it, where an item may stand or the first one. -/
theorem feed_padded {v : Json} {t : List Char} (h : SpellsPadded v t) (stack : List Frame)
    {mode : Mode} (hMode : mode = .value ∨ mode = .firstItem) :
    (feed ⟨stack, mode⟩ t).bind settle = accept stack v := by
  match h with
  | .padded hl h hr =>
    rcases hMode with rfl | rfl
    · exact feed_padding rfl hl hr (feed_spells h stack)
    · exact feed_padding rfl hl hr (by rw [feed_firstItem h, feed_spells h stack])

/-- The items of an array, up to its end, are added to those before. -/
theorem feed_items {vs : List Json} {t : List Char} (h : SpellsItems vs t) (stack : List Frame)
    (items : List Json) {mode : Mode} (hMode : mode = .value ∨ mode = .firstItem) :
    feed ⟨.array items :: stack, mode⟩ (t ++ [']']) = accept stack (.array (items.reverse ++ vs)) := by
  match h with
  | @SpellsItems.last v t h =>
    -- the bracket has the last item accepted if it is a number
    rw [feed_append_settle endsNumber_bracket, feed_padded h _ hMode]
    show feed ⟨.array (v :: items) :: stack, .separator⟩ [']'] = _
    rw [feed_singleton]
    show accept stack (.array (v :: items).reverse) = _
    rw [List.reverse_cons]
  | @SpellsItems.more v vs t ts h hs =>
    have hComma : step ⟨.array (v :: items) :: stack, .separator⟩ ',' =
        some ⟨.array (v :: items) :: stack, .value⟩ := rfl
    rw [List.append_assoc, List.cons_append, feed_append_settle endsNumber_comma,
      feed_padded h _ hMode]
    show feed ⟨.array (v :: items) :: stack, .separator⟩ (',' :: (ts ++ [']'])) = _
    rw [feed_cons_of_step hComma, feed_items hs stack (v :: items) (.inl rfl), List.reverse_cons,
      List.append_assoc, List.singleton_append]

/-- A member is added to those before, and a comma or the end of the object is to come. -/
theorem feed_member {m : Option String × Json} {t : List Char} (h : SpellsMember m t)
    (stack : List Frame) (members : List (Option String × Json)) {mode : Mode}
    (hMode : mode = .key ∨ mode = .firstKey) :
    (feed ⟨.object members :: stack, mode⟩ t).bind settle =
      some ⟨.object (m :: members) :: stack, .separator⟩ := by
  match h with
  | @SpellsMember.member k v l u r t hl hKey hr h =>
    -- key, colon and value, with blanks between them
    have hOpen : step ⟨.object members :: stack, mode⟩ '"' =
        some (inString (.object members :: stack) true {}) := by
      rcases hMode with rfl | rfl <;> rfl
    have hBetween : mode.isBetween = true := by rcases hMode with rfl | rfl <;> rfl
    have hString : feed ⟨.object members :: stack, mode⟩ u =
        some ⟨.object members :: stack, .colon (some k)⟩ := feed_string hOpen hKey
    have hColon : step ⟨.object members :: stack, .colon (some k)⟩ ':' =
        some ⟨.member members (some k) :: stack, .value⟩ := rfl
    rw [List.append_assoc, List.append_assoc, feed_append_of_feed (feed_blank hBetween hl),
      feed_append_of_feed hString, feed_append_of_feed (feed_blank rfl hr),
      feed_cons_of_step hColon, feed_padded h _ (.inl rfl)]
    rfl

/-- The members of an object, up to its end, are added to those before. -/
theorem feed_members {ms : List (Option String × Json)} {t : List Char} (h : SpellsMembers ms t)
    (stack : List Frame) (members : List (Option String × Json)) {mode : Mode}
    (hMode : mode = .key ∨ mode = .firstKey) :
    feed ⟨.object members :: stack, mode⟩ (t ++ ['}']) =
      accept stack (.object (members.reverse ++ ms)) := by
  match h with
  | @SpellsMembers.last m t h =>
    rw [feed_append_settle endsNumber_brace, feed_member h _ _ hMode, Option.bind_some,
      feed_singleton]
    show accept stack (.object (m :: members).reverse) = _
    rw [List.reverse_cons]
  | @SpellsMembers.more m ms t ts h hs =>
    have hComma : step ⟨.object (m :: members) :: stack, .separator⟩ ',' =
        some ⟨.object (m :: members) :: stack, .key⟩ := rfl
    rw [List.append_assoc, List.cons_append, feed_append_settle endsNumber_comma,
      feed_member h _ _ hMode, Option.bind_some, feed_cons_of_step hComma,
      feed_members hs stack (m :: members) (.inl rfl), List.reverse_cons, List.append_assoc,
      List.singleton_append]

end

end State

/-- **Every document is read**, as the value that it spells. -/
theorem read?_of_document {v : Json} {text : String} (h : Document v text) : read? text = some v := by
  -- the value is accepted with nothing open around it
  have hFeed : (State.feed {} text.toList).bind State.settle = some ⟨[], .done v⟩ :=
    State.feed_padded h [] (.inl rfl)
  calc read? text
      = (State.feed {} text.toList).bind State.finish := rfl
    _ = (State.feed {} text.toList).bind fun st => st.settle.bind State.finish := by
        apply Option.bind_congr
        intro st _
        exact st.finish_settle
    _ = ((State.feed {} text.toList).bind State.settle).bind State.finish :=
        (Option.bind_assoc ..).symm
    _ = some v := by
        rw [hFeed]
        rfl

end Breadboard.Json
