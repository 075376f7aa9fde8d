import Mathlib.Data.List.TakeWhile
import Schemata.Number.Shortest
import Schemata.Text.Digit
import Schemata.Proofs.Text.Lines

/-!
# Numbers as text

Whole numbers and finite doubles are written with digits, points, signs and exponent marks, and an
exponent mark never stands without a digit before it. So no part of a number can be taken for a
name.
-/

namespace Schemata.Text

/-- Digits, points, signs and exponent marks; an exponent mark only goes on with digits. -/
def isNumeral (inside : Bool) : List Char → Bool
  | [] => true
  | c :: rest =>
    if c.isDigit then isNumeral true rest
    else if c == 'e' || c == 'E' then inside && isNumeral true rest
    else (c == '.' || c == '+' || c == '-') && isNumeral false rest

theorem mem_digits_of_isDigit {c : Char} (h : c.isDigit = true) :
    c ∈ (List.range' 48 10).map Char.ofNat := by
  simp only [Char.isDigit, Bool.and_eq_true, decide_eq_true_eq, ge_iff_le,
    UInt32.le_iff_toNat_le] at h
  have hzero : 48 ≤ c.toNat := h.1
  have hnine : c.toNat ≤ 57 := h.2
  refine List.mem_map.2 ⟨c.toNat, ?_, Char.ofNat_toNat c⟩
  rw [List.mem_range'_1]
  omega

theorem isNameChar_of_isDigit {c : Char} (h : c.isDigit = true) : isNameChar c = true := by
  have hall : ((List.range' 48 10).map Char.ofNat).all isNameChar = true := by decide
  exact List.all_eq_true.1 hall c (mem_digits_of_isDigit h)

theorem isNameStart_eq_false_of_isDigit {c : Char} (h : c.isDigit = true) :
    isNameStart c = false := by
  have hall : ((List.range' 48 10).map Char.ofNat).all (!isNameStart ·) = true := by decide
  simpa using List.all_eq_true.1 hall c (mem_digits_of_isDigit h)

theorem unbroken_of_isNumeral {inside : Bool} {chars : List Char}
    (h : isNumeral inside chars = true) : Unbroken chars := by
  induction chars generalizing inside with
  | nil => simp
  | cons c chars ih =>
    rw [isNumeral] at h
    rw [unbroken_cons]
    split at h
    · rename_i hdigit
      exact ⟨isLineBreak_eq_false_of_isNameChar (isNameChar_of_isDigit hdigit), ih h⟩
    · split at h
      · rename_i hexponent
        rw [Bool.or_eq_true, beq_iff_eq, beq_iff_eq] at hexponent
        refine ⟨?_, ih (Bool.and_eq_true_iff.1 h).2⟩
        rcases hexponent with rfl | rfl <;> decide
      · simp only [Bool.and_eq_true, Bool.or_eq_true, beq_iff_eq] at h
        refine ⟨?_, ih h.2⟩
        rcases h.1 with (rfl | rfl) | rfl <;> decide

theorem isNumeral_dropWhile {inside : Bool} {chars : List Char}
    (h : isNumeral inside chars = true) : isNumeral false (chars.dropWhile isNameChar) = true := by
  induction chars generalizing inside with
  | nil => rfl
  | cons c chars ih =>
    rw [isNumeral] at h
    split at h
    · rename_i hdigit
      rw [List.dropWhile_cons, if_pos (isNameChar_of_isDigit hdigit)]
      exact ih h
    · rename_i hdigit
      split at h
      · rename_i hexponent
        have hname : isNameChar c = true := by
          rw [Bool.or_eq_true, beq_iff_eq, beq_iff_eq] at hexponent
          rcases hexponent with rfl | rfl <;> decide
        rw [List.dropWhile_cons, if_pos hname]
        exact ih (Bool.and_eq_true_iff.1 h).2
      · rename_i hexponent
        have hname : isNameChar c = false := by
          simp only [Bool.and_eq_true, Bool.or_eq_true, beq_iff_eq] at h
          rcases h.1 with (rfl | rfl) | rfl <;> decide
        rw [List.dropWhile_cons, hname]
        rw [if_neg (by simp), isNumeral, if_neg hdigit, if_neg hexponent]
        exact h

theorem isNumeral_digits_append {digits : List Char} (h : ∀ c ∈ digits, c.isDigit = true)
    (inside : Bool) (rest : List Char) :
    isNumeral inside (digits ++ rest) = isNumeral (inside || !digits.isEmpty) rest := by
  induction digits generalizing inside with
  | nil => simp
  | cons c digits ih =>
    rw [List.cons_append, isNumeral, if_pos (h c (by simp)),
      ih fun d hd => h d (by simp [hd])]
    simp

theorem isNumeral_digits {digits : List Char} (h : ∀ c ∈ digits, c.isDigit = true)
    (inside : Bool) : isNumeral inside digits = true := by
  have happend := isNumeral_digits_append h inside []
  rw [List.append_nil] at happend
  rw [happend]
  rfl

theorem isNumeral_point (inside : Bool) (rest : List Char) :
    isNumeral inside ('.' :: rest) = isNumeral false rest := rfl

theorem isNumeral_zeroPoint (inside : Bool) (rest : List Char) :
    isNumeral inside ('0' :: '.' :: rest) = isNumeral false rest := rfl

theorem isNumeral_exponent (negative : Prop) [Decidable negative] (rest : List Char) :
    isNumeral true ('e' :: (if negative then '-' else '+') :: rest) = isNumeral false rest := by
  split <;> rfl

theorem isDigit_toDigits (n : Nat) : ∀ c ∈ Nat.toDigits 10 n, c.isDigit = true :=
  fun _ hc => Nat.isDigit_of_mem_toDigits (by decide) (by decide) hc

theorem isDigit_replicate (count : Nat) : ∀ c ∈ List.replicate count '0', c.isDigit = true := by
  intro c hc
  rw [(List.mem_replicate.1 hc).2]
  decide

theorem isNumeral_int (n : Int) : isNumeral false (toString n).toList = true := by
  cases n with
  | ofNat n =>
    change isNumeral false (Nat.repr n).toList = true
    rw [Nat.toList_repr]
    exact isNumeral_digits (isDigit_toDigits n) false
  | negSucc n =>
    change isNumeral false ("-" ++ Nat.repr (n + 1)).toList = true
    rw [String.toList_append, Nat.toList_repr]
    exact isNumeral_digits (isDigit_toDigits (n + 1)) false

/-- One digit, the others after a point, and an exponent with its sign. -/
theorem isNumeral_scientific {first : Char} {more : List Char}
    (h : ∀ c ∈ first :: more, c.isDigit = true) (negative : Prop) [Decidable negative]
    (zeros power : Nat) :
    isNumeral false ((first :: more).take 1 ++
      (if (first :: more).length > 1 then '.' :: (first :: more).drop 1 else []) ++
        'e' :: (if negative then '-' else '+') ::
          (List.replicate zeros '0' ++ Nat.toDigits 10 power)) = true := by
  have hfirst : ∀ c ∈ [first], c.isDigit = true := fun c hc => h c (by simp_all)
  have hexponent : isNumeral true ('e' :: (if negative then '-' else '+') ::
      (List.replicate zeros '0' ++ Nat.toDigits 10 power)) = true := by
    rw [isNumeral_exponent, isNumeral_digits_append (isDigit_replicate zeros)]
    exact isNumeral_digits (isDigit_toDigits power) _
  cases more with
  | nil => exact (isNumeral_digits_append hfirst false _).trans hexponent
  | cons next more =>
    have hmore : ∀ c ∈ next :: more, c.isDigit = true := fun c hc => h c (by simp [hc])
    rw [if_pos (by simp), List.append_assoc]
    change isNumeral false ([first] ++ ('.' :: ((next :: more) ++ _))) = true
    rw [isNumeral_digits_append hfirst, isNumeral_point, isNumeral_digits_append hmore]
    exact hexponent

/-- A positive number has a digit that is not zero. -/
theorem exists_ne_zero_toDigits {n : Nat} (h : 0 < n) : ∃ c ∈ Nat.toDigits 10 n, c ≠ '0' := by
  induction n using Nat.strongRecOn with
  | _ n ih =>
    by_cases hsmall : n < 10
    · refine ⟨n.digitChar, by simp [Nat.toDigits_of_lt_base hsmall], ?_⟩
      have hdigits : ∀ n < 10, 0 < n → n.digitChar ≠ '0' := by decide
      exact hdigits n hsmall h
    · obtain ⟨c, hc, hne⟩ := ih (n / 10) (by omega) (by omega)
      refine ⟨c, ?_, hne⟩
      rw [Nat.toDigits_of_base_le (by decide) (by omega)]
      exact List.mem_append_left _ hc

/-! ### Digits of other scripts -/

theorem isDecimal_iff {c : Char} : isDecimal c = true ↔
    c.isDigit = true ∨ ¬ c.toNat < 128 ∧ digitRanges.contains c.toNat = true := by
  simp only [isDecimal, digitValue?]
  split
  · simp [*]
  · split
    · simp [*]
    · simp [*, Ranges.contains, List.find?_isSome]

/-- The digits of every script are characters of names. -/
theorem isNameChar_of_isDecimal {c : Char} (h : isDecimal c = true) : isNameChar c = true := by
  rcases isDecimal_iff.1 h with hdigit | ⟨hcode, hdigit⟩
  · exact isNameChar_of_isDigit hdigit
  · have hranges : (digitRanges.all fun range => wordRanges.any fun word =>
        word.1.ble range.1 && range.2.ble word.2) = true := by decide +kernel
    obtain ⟨range, hrange, hlow, hhigh⟩ := (Ranges.contains_iff _ _).1 hdigit
    obtain ⟨word, hword, hinside⟩ := List.any_eq_true.1 (List.all_eq_true.1 hranges range hrange)
    rw [Bool.and_eq_true, Nat.ble_eq, Nat.ble_eq] at hinside
    have hcontains : wordRanges.contains c.toNat = true :=
      (Ranges.contains_iff _ _).2 ⟨word, hword, by omega, by omega⟩
    rw [isNameChar, isWord, if_neg hcode, hcontains]
    rfl

theorem toNat_lt_of_isNameStart {c : Char} (h : isNameStart c = true) : c.toNat < 128 := by
  simp only [isNameStart, Bool.or_eq_true, beq_iff_eq] at h
  rcases h with (halpha | rfl) | rfl
  · have hupper : 'Z'.val.toNat = 90 := rfl
    have hlower : 'z'.val.toNat = 122 := rfl
    change (decide (c.val ≥ 'A'.val ∧ c.val ≤ 'Z'.val) ||
      (decide (c.val ≥ 'a'.val) && decide (c.val ≤ 'z'.val))) = true at halpha
    simp only [Bool.or_eq_true, Bool.and_eq_true, decide_eq_true_eq, ge_iff_le,
      UInt32.le_iff_toNat_le] at halpha
    change c.val.toNat < 128
    omega
  · decide
  · decide

theorem isNameStart_eq_false_of_isDecimal {c : Char} (h : isDecimal c = true) :
    isNameStart c = false := by
  rcases isDecimal_iff.1 h with hdigit | ⟨hcode, -⟩
  · exact isNameStart_eq_false_of_isDigit hdigit
  · cases hstart : isNameStart c with
    | false => rfl
    | true => exact absurd (toNat_lt_of_isNameStart hstart) hcode
/-! ### Reading whole numbers -/

theorem isDecimal_of_isDigit {c : Char} (h : c.isDigit = true) : isDecimal c = true := by
  rw [isDecimal, digitValue?, if_pos h]
  rfl

theorem digitValue?_digitChar : ∀ n < 10, digitValue? n.digitChar = some n := by decide

/-- The digits of a number are read as the number. -/
theorem digitsValue_toDigits (n : Nat) : digitsValue (Nat.toDigits 10 n) = n := by
  induction n using Nat.strongRecOn with
  | _ n ih =>
    by_cases hsmall : n < 10
    · rw [Nat.toDigits_of_lt_base hsmall, digitsValue, List.foldl_cons, List.foldl_nil,
        digitValue?_digitChar n hsmall]
      simp
    · have hhigh : digitsValue (Nat.toDigits 10 (n / 10)) = n / 10 := ih (n / 10) (by omega)
      rw [digitsValue] at hhigh
      rw [Nat.toDigits_of_base_le (by decide) (by omega), digitsValue, List.foldl_append, hhigh,
        List.foldl_cons, List.foldl_nil, digitValue?_digitChar _ (Nat.mod_lt n (by decide)),
        Option.getD_some]
      omega

/-- The first digit of a positive number is not zero. -/
theorem head_toDigits {n : Nat} (h : 0 < n) :
    ∃ c rest, Nat.toDigits 10 n = c :: rest ∧ '1' ≤ c ∧ c ≤ '9' := by
  induction n using Nat.strongRecOn with
  | _ n ih =>
    by_cases hsmall : n < 10
    · have hdigits : ∀ n < 10, 0 < n → '1' ≤ n.digitChar ∧ n.digitChar ≤ '9' := by decide
      exact ⟨n.digitChar, [], Nat.toDigits_of_lt_base hsmall, hdigits n hsmall h⟩
    · obtain ⟨c, rest, hdigits, hrange⟩ := ih (n / 10) (by omega) (by omega)
      refine ⟨c, rest ++ [(n % 10).digitChar], ?_, hrange⟩
      rw [Nat.toDigits_of_base_le (by decide) (by omega), hdigits, List.cons_append]

/-- A whole number is written as its digits, with a sign in front if it is negative. -/
theorem toList_int (n : Int) :
    (toString n).toList = (if n < 0 then ['-'] else []) ++ Nat.toDigits 10 n.natAbs := by
  cases n with
  | ofNat n =>
    have hsign : ¬ Int.ofNat n < 0 := Int.not_lt.2 (Int.natCast_nonneg n)
    change (Nat.repr n).toList = _
    rw [Nat.toList_repr, if_neg hsign]
    rfl
  | negSucc n =>
    change ("-" ++ Nat.repr (n + 1)).toList = _
    rw [String.toList_append, Nat.toList_repr, if_pos (Int.negSucc_lt_zero n)]
    rfl

end Schemata.Text

namespace Schemata.Binary64

open Text

/-- Of two numbers the first one that is positive and fits is taken. -/
private theorem firstFitting_pos {first second : Nat} {power : Int} {fits fits' : Bool}
    {found : Nat × Int}
    (h : (if first > 0 && fits then some (first, power)
      else if second > 0 && fits' then some (second, power) else none) = some found) :
    0 < found.1 := by
  split at h
  · rename_i hfirst
    cases h
    exact of_decide_eq_true (Bool.and_eq_true_iff.1 hfirst).1
  · split at h
    · rename_i hsecond
      cases h
      exact of_decide_eq_true (Bool.and_eq_true_iff.1 hsecond).1
    · cases h

theorem candidate?_pos {m : Nat} {q point : Int} {n : Nat} {found : Nat × Int}
    (h : candidate? m q point n = some found) : 0 < found.1 := by
  rw [candidate?] at h
  split at h
  exact firstFitting_pos h

theorem shortestDigits_pos {m : Nat} (q : Int) (h : m ≠ 0) : 0 < (shortestDigits m q).1 := by
  rw [shortestDigits]
  split
  · rename_i found hfound
    obtain ⟨n, -, hcandidate⟩ := List.exists_of_findSome?_eq_some hfound
    exact candidate?_pos hcandidate
  · exact Nat.pos_of_ne_zero h

/-- The digits of a positive number without its trailing zeros. -/
theorem exists_digits {n : Nat} (h : 0 < n) :
    ∃ first more, ((Nat.toDigits 10 n).reverse.dropWhile (· == '0')).reverse = first :: more ∧
      ∀ c ∈ first :: more, c.isDigit = true := by
  have hdigits : ∀ c ∈ ((Nat.toDigits 10 n).reverse.dropWhile (· == '0')).reverse,
      c.isDigit = true := by
    intro c hc
    have hmem := (List.dropWhile_suffix _).subset (List.mem_reverse.1 hc)
    exact isDigit_toDigits n c (List.mem_reverse.1 hmem)
  cases hcases : ((Nat.toDigits 10 n).reverse.dropWhile (· == '0')).reverse with
  | nil =>
    rw [List.reverse_eq_nil_iff, List.dropWhile_eq_nil_iff] at hcases
    obtain ⟨c, hc, hne⟩ := exists_ne_zero_toDigits h
    exact absurd (by simpa using hcases c (List.mem_reverse.2 hc)) hne
  | cons first more =>
    rw [hcases] at hdigits
    exact ⟨first, more, rfl, hdigits⟩

/-- The text of a positive double is a numeral in all its layouts. -/
theorem isNumeral_positiveText (format : NumberFormat) {m : Nat} (q : Int) (h : m ≠ 0) :
    isNumeral false (positiveText format m q).toList = true := by
  obtain ⟨first, more, hdigits, hall⟩ := exists_digits (shortestDigits_pos q h)
  simp only [positiveText, String.toList_ofList, hdigits]
  split
  · split
    · -- below one: a zero, the point, zeros and the digits
      rw [isNumeral_zeroPoint, isNumeral_digits_append (isDigit_replicate _)]
      exact isNumeral_digits hall _
    · -- the digits before the point, filled up with zeros, and those after it
      have hwhole : ∀ count, ∀ c ∈ (first :: more).take count, c.isDigit = true :=
        fun count c hc => hall c (List.mem_of_mem_take hc)
      rw [List.append_assoc, isNumeral_digits_append (hwhole _),
        isNumeral_digits_append (isDigit_replicate _), isNumeral_point]
      refine isNumeral_digits ?_ false
      split
      · intro c hc
        rw [List.mem_singleton.1 hc]
        decide
      · exact fun c hc => hall c (List.mem_of_mem_drop hc)
  · -- one digit, the others after a point, and an exponent with its sign
    exact isNumeral_scientific hall _ _ _

/-- A finite double is written as a numeral. -/
theorem isNumeral_literalText (negative : Bool) (m : Nat) (q : Int) :
    isNumeral false (literalText (.finite negative m q)).toList = true := by
  have hpositive : isNumeral false (if m == 0 then "0.0"
      else positiveText ⟨-4, 16, "Infinity", "NaN"⟩ m q).toList = true := by
    split
    · decide
    · rename_i hzero
      exact isNumeral_positiveText _ q (by simpa using hzero)
  cases negative with
  | false => simpa [literalText, textWith] using hpositive
  | true => simpa [literalText, textWith, isNumeral] using hpositive

end Schemata.Binary64
