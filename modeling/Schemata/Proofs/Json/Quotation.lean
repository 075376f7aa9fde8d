import Schemata.Json.Reader
import Schemata.Json.Writer

/-!
# Quoted strings are read back

A string is written character by character, each as itself or as an escape, and every escape is read
as the character it stands for. So reading the document of a string gives the string, and no two
strings have the same document.
-/

namespace Schemata.Json

open Text

theorem hexValue?_hexDigit : ∀ n < 16, hexValue? (hexDigit n) = some n := by decide

theorem length_hexDigits (width n : Nat) : (hexDigits width n).length = width := by
  induction width generalizing n with
  | zero => rfl
  | succ width ih => rw [hexDigits, List.length_append, ih, List.length_singleton]

theorem units?_hexDigits {n : Nat} (h : n < 0x10000) : units? (hexDigits 4 n) = some n := by
  have hdigit : ∀ m, hexValue? (hexDigit (m % 16)) = some (m % 16) :=
    fun m => hexValue?_hexDigit _ (Nat.mod_lt m (by decide))
  have hvalue : 16 * (16 * (16 * (n / 16 / 16 / 16 % 16) + n / 16 / 16 % 16) + n / 16 % 16) +
      n % 16 = n := by omega
  simpa [units?, hexDigits, hdigit] using hvalue

/-! ### One character -/

/-- How a character is written: by a letter, by its number, or as it is. -/
inductive Escaped (c : Char) : List Char → Prop where
  | letter {e : Char} (he : simpleEscape? e = some c) : Escaped c ['\\', e]
  | units (hc : c.toNat < 32) : Escaped c ('\\' :: 'u' :: hexDigits 4 c.toNat)
  | plain (hquote : c ≠ '"') (hback : c ≠ '\\') (hcontrol : ¬ c.toNat < 32) : Escaped c [c]

/-- The characters that are written by a letter. -/
def lettered : List Char := ['"', '\\', '\n', '\r', '\t', Char.ofNat 8, Char.ofNat 12]

theorem escapeChar_of_not_lettered (plainOnly : Bool) {c : Char} (h : c ∉ lettered) :
    escapeChar plainOnly c =
      if c.toNat < 32 || (plainOnly && 126 < c.toNat) then escapeUnits c else [c] := by
  simp only [lettered, List.mem_cons, List.not_mem_nil, or_false, not_or] at h
  obtain ⟨hquote, hback, hfeed, hreturn, htab, hbackspace, hform⟩ := h
  have hcode : ∀ n, c ≠ Char.ofNat n → c.toNat ≠ n := by
    rintro n hne rfl
    exact hne (Char.ofNat_toNat c).symm
  simp [escapeChar, hquote, hback, hfeed, hreturn, htab, hcode 8 hbackspace, hcode 12 hform]

theorem escaped_escapeChar (c : Char) : Escaped c (escapeChar false c) := by
  by_cases hletter : c ∈ lettered
  · simp only [lettered, List.mem_cons, List.not_mem_nil, or_false] at hletter
    rcases hletter with rfl | rfl | rfl | rfl | rfl | rfl | rfl
    all_goals exact .letter rfl
  · have hquote : c ≠ '"' := fun heq => hletter (heq ▸ by decide)
    have hback : c ≠ '\\' := fun heq => hletter (heq ▸ by decide)
    rw [escapeChar_of_not_lettered false hletter, Bool.false_and, Bool.or_false]
    split
    · rename_i hcontrol
      rw [decide_eq_true_eq] at hcontrol
      rw [escapeUnits, if_pos (by omega)]
      exact .units hcontrol
    · rename_i hcontrol
      rw [decide_eq_true_eq] at hcontrol
      exact .plain hquote hback hcontrol

theorem Escaped.length_pos {c : Char} {written : List Char} (h : Escaped c written) :
    0 < written.length := by
  cases h <;> simp

/-- No character is written by the letter of the units. -/
theorem ne_units_of_simpleEscape? {e c : Char} (he : simpleEscape? e = some c) : e ≠ 'u' := by
  rintro rfl
  cases he

/-- What is read, with one more character in front. -/
private def inFront (c : Char) (found : Except ReadError (List Nat × Place)) :
    Except ReadError (List Nat × Place) :=
  found.map fun pair => (c.toNat :: pair.1, pair.2)

private theorem bind_eq_inFront (c : Char) (found : Except ReadError (List Nat × Place)) :
    (do
      let (points, stop) ← found
      return (c.toNat :: points, stop)) = inFront c found := by
  cases found <;> rfl

private theorem readString_simple (start fuel position : Nat) {e c : Char} (rest : List Char)
    (he : simpleEscape? e = some c) :
    readString start (fuel + 1) ⟨position, '\\' :: e :: rest⟩ =
      inFront c (readString start fuel ⟨position + 2, rest⟩) := by
  have hunits := ne_units_of_simpleEscape? he
  rw [readString]
  split
  · rename_i heq; cases heq
  · rename_i heq; cases heq
  · rename_i heq; cases heq
  · rename_i heq
    cases heq
    exact absurd rfl hunits
  · rename_i heq
    cases heq
    rw [he, ← bind_eq_inFront]
    rfl
  · rename_i hback heq
    cases heq
    exact absurd rfl (hback _ _ rfl)

private theorem readString_units (start fuel position : Nat) {c : Char} {rest : List Char}
    (hc : c.toNat < 32) (hrest : rest ≠ []) :
    readString start (fuel + 1) ⟨position, '\\' :: 'u' :: hexDigits 4 c.toNat ++ rest⟩ =
      inFront c (readString start fuel ⟨position + 6, rest⟩) := by
  have hlength : (hexDigits 4 c.toNat).length = 4 := length_hexDigits 4 _
  have hdrop : (hexDigits 4 c.toNat ++ rest).drop 4 = rest := List.drop_left' hlength
  have htake : (hexDigits 4 c.toNat ++ rest).take 4 = hexDigits 4 c.toNat :=
    List.take_left' hlength
  have hskip : (Place.mk position ('\\' :: 'u' :: (hexDigits 4 c.toNat ++ rest))).skip 6 =
      ⟨position + 6, rest⟩ := congrArg (Place.mk (position + 6)) hdrop
  have hempty : rest.isEmpty = false := by simpa using hrest
  have hlow : (decide (0xD800 ≤ c.toNat) && decide (c.toNat ≤ 0xDBFF)) = false := by
    simp only [Bool.and_eq_false_iff, decide_eq_false_iff_not]
    omega
  rw [List.cons_append, List.cons_append, readString]
  split
  · rename_i heq; cases heq
  · rename_i heq; cases heq
  · rename_i heq; cases heq
  · rename_i heq
    cases heq
    rw [hdrop, htake, units?_hexDigits (by omega), hempty, if_neg (by simp)]
    dsimp only
    rw [hlow, if_neg (by simp)]
    dsimp only
    rw [hskip, ← bind_eq_inFront]
  · rename_i hunits heq
    cases heq
    exact (hunits rfl).elim
  · rename_i hback heq
    cases heq
    exact (hback _ _ rfl rfl).elim

private theorem readString_plain (start fuel position : Nat) {c : Char} (rest : List Char)
    (hquote : c ≠ '"') (hback : c ≠ '\\') (hcontrol : ¬ c.toNat < 32) :
    readString start (fuel + 1) ⟨position, c :: rest⟩ =
      inFront c (readString start fuel ⟨position + 1, rest⟩) := by
  rw [readString]
  split
  · rename_i heq; cases heq
  · rename_i heq
    cases heq
    exact absurd rfl hquote
  · rename_i heq
    cases heq
    exact absurd rfl hback
  · rename_i heq
    cases heq
    exact absurd rfl hback
  · rename_i heq
    cases heq
    exact absurd rfl hback
  · rename_i heq
    cases heq
    rw [if_neg hcontrol, ← bind_eq_inFront]
    rfl

/-- What a character is written as is read as the character. -/
private theorem readString_escaped (start fuel position : Nat) {c : Char} {written rest : List Char}
    (h : Escaped c written) (hrest : rest ≠ []) :
    readString start (fuel + 1) ⟨position, written ++ rest⟩ =
      inFront c (readString start fuel ⟨position + written.length, rest⟩) := by
  cases h with
  | letter he => exact readString_simple start fuel position rest he
  | units hc =>
    have hlength : ('\\' :: 'u' :: hexDigits 4 c.toNat).length = 6 := by simp [length_hexDigits]
    rw [hlength]
    exact readString_units start fuel position hc hrest
  | plain hquote hback hcontrol =>
    exact readString_plain start fuel position rest hquote hback hcontrol

/-! ### Whole strings -/

/-- The inside of a quoted string is read up to the closing quote. -/
theorem readString_flatMap (start : Nat) {fuel : Nat} (position : Nat) {chars : List Char}
    (hfuel : chars.length < fuel) (rest : List Char) :
    ∃ stop : Place, readString start fuel
        ⟨position, chars.flatMap (escapeChar false) ++ '"' :: rest⟩ =
          .ok (chars.map Char.toNat, stop) ∧
      stop.rest = rest := by
  induction chars generalizing fuel position with
  | nil =>
    obtain ⟨fuel, rfl⟩ : ∃ more, fuel = more + 1 := ⟨fuel - 1, by omega⟩
    exact ⟨_, rfl, rfl⟩
  | cons c chars ih =>
    obtain ⟨fuel, rfl⟩ : ∃ more, fuel = more + 1 := ⟨fuel - 1, by omega⟩
    rw [List.length_cons] at hfuel
    obtain ⟨stop, hread, hstop⟩ :=
      ih (position + (escapeChar false c).length) (Nat.lt_of_succ_lt_succ hfuel)
    refine ⟨stop, ?_, hstop⟩
    rw [List.flatMap_cons, List.append_assoc,
      readString_escaped start fuel position (escaped_escapeChar c) (by simp), hread]
    rfl

theorem length_le_length_flatMap (chars : List Char) :
    chars.length ≤ (chars.flatMap (escapeChar false)).length := by
  induction chars with
  | nil => exact Nat.le_refl _
  | cons c chars ih =>
    have hwritten := (escaped_escapeChar c).length_pos
    rw [List.flatMap_cons, List.length_append, List.length_cons]
    omega

theorem toList_quote (text : String) :
    (quote false text).toList = '"' :: (text.toList.flatMap (escapeChar false) ++ ['"']) := by
  rw [quote, String.toList_ofList]
  rfl

/-- A quoted string is read back. -/
theorem read_quote (text : String) : read (quote false text) = .ok (.str text) := by
  have hlength := length_le_length_flatMap text.toList
  rw [read, toList_quote]
  generalize htext : text.toList = chars at hlength ⊢
  have hfuel : chars.length <
      2 * ('"' :: (chars.flatMap (escapeChar false) ++ ['"'])).length + 1 := by
    rw [List.length_cons, List.length_append]
    omega
  obtain ⟨⟨position, rest⟩, hread, hrest⟩ := readString_flatMap 0 1 hfuel []
  cases hrest
  have hvalue : readValue (2 * ('"' :: (chars.flatMap (escapeChar false) ++ ['"'])).length + 2)
      (Place.mk 0 ('"' :: (chars.flatMap (escapeChar false) ++ ['"']))).skipBlanks =
        .ok (.str text, ⟨position, []⟩) := by
    change (readString 0 _ ⟨1, chars.flatMap (escapeChar false) ++ ['"']⟩ >>= fun found =>
      pure (ofPoints found.1, found.2)) = _
    rw [hread, ← htext]
    simp [bind, Except.bind, pure, Except.pure, ofPoints_toNat]
  dsimp only
  rw [hvalue]
  rfl

theorem quote_injective {first second : String} (h : quote false first = quote false second) :
    first = second := by
  have hread := read_quote first
  rw [h, read_quote] at hread
  cases hread
  rfl

/-! ### Strings that are no texts -/

/-- The code point that is written at the start. -/
def firstPoint? : List Char → Option (Nat × List Char)
  | [] => none
  | '\\' :: 'u' :: rest => (units? (rest.take 4)).map fun n => (n, rest.drop 4)
  | '\\' :: e :: rest => (simpleEscape? e).map fun c => (c.toNat, rest)
  | c :: rest => some (c.toNat, rest)

theorem firstPoint?_units {n : Nat} (h : n < 0x10000) (rest : List Char) :
    firstPoint? ('\\' :: 'u' :: hexDigits 4 n ++ rest) = some (n, rest) := by
  have hlength : (hexDigits 4 n).length = 4 := length_hexDigits 4 n
  rw [List.cons_append, List.cons_append, firstPoint?, List.take_left' hlength,
    List.drop_left' hlength, units?_hexDigits h]
  rfl

theorem Escaped.firstPoint?_append {c : Char} {written : List Char} (h : Escaped c written)
    (rest : List Char) : firstPoint? (written ++ rest) = some (c.toNat, rest) := by
  cases h with
  | @letter e he =>
    rw [List.cons_append, List.cons_append, List.nil_append,
      firstPoint?.eq_3 e rest (ne_units_of_simpleEscape? he), he]
    rfl
  | units hc => exact firstPoint?_units (by omega) rest
  | plain hquote hback hcontrol =>
    rw [List.singleton_append]
    exact firstPoint?.eq_4 c rest (fun _ heq _ => hback heq) fun _ _ heq _ => hback heq

theorem firstPoint?_escapePoint {n : Nat} (h : n < 0x110000) (rest : List Char) :
    firstPoint? (escapePoint false n ++ rest) = some (n, rest) := by
  rw [escapePoint]
  split
  · rename_i hhalf
    rw [isSurrogate, Bool.and_eq_true, decide_eq_true_eq, decide_eq_true_eq] at hhalf
    exact firstPoint?_units (by omega) rest
  · rename_i hwhole
    rw [(escaped_escapeChar _).firstPoint?_append, toNat_ofNat h (by simpa using hwhole)]

theorem flatMap_escapePoint_injective {points others : List Nat} (h : ∀ n ∈ points, n < 0x110000)
    (hothers : ∀ n ∈ others, n < 0x110000)
    (heq : points.flatMap (escapePoint false) = others.flatMap (escapePoint false)) :
    points = others := by
  induction points generalizing others with
  | nil =>
    cases others with
    | nil => rfl
    | cons m others =>
      have hfirst := congrArg firstPoint? heq
      rw [List.flatMap_cons, firstPoint?_escapePoint (hothers m List.mem_cons_self)] at hfirst
      cases hfirst
  | cons n points ih =>
    have hfirst := congrArg firstPoint? heq
    rw [List.flatMap_cons, firstPoint?_escapePoint (h n List.mem_cons_self)] at hfirst
    cases others with
    | nil => cases hfirst
    | cons m others =>
      rw [List.flatMap_cons, firstPoint?_escapePoint (hothers m List.mem_cons_self),
        Option.some.injEq, Prod.mk.injEq] at hfirst
      obtain ⟨rfl, hrest⟩ := hfirst
      rw [ih (fun k hk => h k (List.mem_cons_of_mem _ hk))
        (fun k hk => hothers k (List.mem_cons_of_mem _ hk)) hrest]

theorem toList_quotePoints (points : List Nat) : (quotePoints false points).toList =
    '"' :: (points.flatMap (escapePoint false) ++ ['"']) := by
  rw [quotePoints, String.toList_ofList]
  rfl

/-- A text is written as the string of its code points. -/
theorem quotePoints_toNat (text : String) :
    quotePoints false (text.toList.map Char.toNat) = quote false text := by
  simp [quotePoints, quote, List.flatMap_map, escapePoint, not_isSurrogate_toNat]

theorem quotePoints_injective {points others : List Nat} (h : ∀ n ∈ points, n < 0x110000)
    (hothers : ∀ n ∈ others, n < 0x110000)
    (heq : quotePoints false points = quotePoints false others) : points = others := by
  have hchars := congrArg String.toList heq
  rw [toList_quotePoints, toList_quotePoints, List.cons.injEq] at hchars
  exact flatMap_escapePoint_injective h hothers (List.append_cancel_right hchars.2)

/-- A string that is no text is not written as a text is. -/
theorem quotePoints_ne_quote {points : List Nat} (h : holdsHalf points = true) (text : String) :
    quotePoints false points ≠ quote false text := by
  intro heq
  rw [← quotePoints_toNat] at heq
  have htext : ∀ n ∈ text.toList.map Char.toNat, n < 0x110000 := by
    intro n hn
    obtain ⟨c, -, rfl⟩ := List.mem_map.1 hn
    have hvalid : c.toNat < 0xD800 ∨ 0xDFFF < c.toNat ∧ c.toNat < 0x110000 := c.valid
    omega
  rw [quotePoints_injective (lt_of_holdsHalf h) htext heq] at h
  simp [holdsHalf, not_isSurrogate_toNat] at h

end Schemata.Json
