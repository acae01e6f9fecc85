import EventCalculus.Proofs.TermText

/-!
# Numerals in the surface form

The digits of an integer, and the digits of a fraction around its point, are read
as one numeral.  An exponent is no part of a numeral, so a number that shows one
cannot be read.
-/

namespace EventCalculus

/-!
# Classes of characters
-/

theorem digitZeros_bounds : forall z, z ∈ Text.digitZeros -> z = 0x30 ∨ 0x660 ≤ z := by
  decide

/-- Below the Arabic zero the only digits are the ASCII ones. -/
theorem textIsDigit_eq_false {c : Char} (hascii : c.toNat < 0x30 ∨ 0x39 < c.toNat)
    (hlow : c.toNat < 0x660) : Text.isDigit c = false := by
  have hnone : Text.digitZeros.find? (fun z => z ≤ c.toNat && c.toNat ≤ z + 9) = none := by
    apply List.find?_eq_none.mpr
    intro z hz hrange
    simp only [Bool.and_eq_true, decide_eq_true_eq] at hrange
    have hbounds := digitZeros_bounds z hz
    omega
  rw [Text.isDigit, Text.digitValue?, hnone]
  rfl

/-- No visible ASCII character is blank. -/
theorem isBlank_eq_false {c : Char} (hlow : 0x21 ≤ c.toNat) (hhigh : c.toNat ≤ 0x7E) :
    Text.isBlank c = false := by
  have hblank : forall z, z ∈ Text.blankCodePoints -> z < 0x21 ∨ 0x7E < z := by
    decide
  apply Bool.eq_false_iff.mpr
  intro hmem
  have hbounds := hblank c.toNat (List.contains_iff_mem.mp hmem)
  omega

theorem isWordStart_bounds {c : Char} (h : isWordStart c = true) :
    65 ≤ c.toNat ∧ c.toNat ≤ 122 := by
  simp only [isWordStart_eq, Bool.or_eq_true] at h
  rcases h with (hupper | hlower) | hunderscore
  · have hbounds := isUpper_bounds hupper
    omega
  · have hbounds := isLower_bounds hlower
    omega
  · rw [eq_of_beq hunderscore]
    decide

theorem isBlank_of_isWordStart {c : Char} (h : isWordStart c = true) : Text.isBlank c = false := by
  have hbounds := isWordStart_bounds h
  exact isBlank_eq_false (by omega) (by omega)

theorem textIsDigit_of_isWordStart {c : Char} (h : isWordStart c = true) :
    Text.isDigit c = false := by
  have hbounds := isWordStart_bounds h
  exact textIsDigit_eq_false (by omega) (by omega)

theorem isBlank_of_isDigit {c : Char} (h : c.isDigit = true) : Text.isBlank c = false := by
  have hbounds := isDigit_bounds h
  exact isBlank_eq_false (by omega) (by omega)

/-- What follows a word goes on with no word character, no digit and no point. -/
theorem EndsWord.not_isWordChar {rest : List Char} (h : EndsWord rest) {c : Char}
    (hc : rest.head? = some c) :
    isWordChar c = false ∧ Text.isDigit c = false ∧ c ≠ '.' := by
  have hdelimiter := h c hc
  simp only [isDelimiter, Bool.or_eq_true, beq_iff_eq] at hdelimiter
  rcases hdelimiter with (rfl | rfl) | rfl
  · decide
  · decide
  · decide

theorem EndsWord.not_isDigit {rest : List Char} (h : EndsWord rest) :
    forall c, rest.head? = some c -> Text.isDigit c = false :=
  fun _ hc => (h.not_isWordChar hc).right.left

theorem EndsWord.startsWord {rest : List Char} (h : EndsWord rest) :
    Token.startsWord rest = false := by
  cases rest with
  | nil => rfl
  | cons c more =>
      have hchar := (h.not_isWordChar (c := c) rfl).left
      simp only [isWordChar, Char.isAlphanum, Bool.or_eq_false_iff] at hchar
      simp [Token.startsWord, isWordStart, hchar.left.left, hchar.right]

/-!
# Runs in front of something else
-/

section
variable {p : Char -> Bool} {run rest : List Char} (hrun : forall c, c ∈ run -> p c = true)
  (hrest : forall c, rest.head? = some c -> p c = false)
include hrun hrest

theorem takeWhile_run_append : (run ++ rest).takeWhile p = run := by
  rw [List.takeWhile_append_of_pos hrun]
  cases rest with
  | nil => simp
  | cons c more => simp [hrest c rfl]

theorem dropWhile_run_append : (run ++ rest).dropWhile p = rest := by
  rw [List.dropWhile_append_of_pos hrun]
  cases rest with
  | nil => rfl
  | cons c more => simp [hrest c rfl]

end

theorem head?_cons_not_isDigit {c : Char} (h : Text.isDigit c = false) (cs : List Char) :
    forall d, (c :: cs).head? = some d -> Text.isDigit d = false := by
  intro d hd
  cases hd
  exact h

theorem textIsDigit_point : Text.isDigit '.' = false :=
  textIsDigit_eq_false (by decide) (by decide)

theorem textIsDigit_exponent : Text.isDigit 'e' = false :=
  textIsDigit_eq_false (by decide) (by decide)

section
variable {digits rest : List Char} (hdigits : AllDigits digits)
  (hrest : forall c, rest.head? = some c -> Text.isDigit c = false)
include hdigits hrest

theorem takeWhile_digits_append : (digits ++ rest).takeWhile Text.isDigit = digits :=
  takeWhile_run_append (fun c hc => textIsDigit_of_isDigit (hdigits c hc)) hrest

theorem dropWhile_digits_append : (digits ++ rest).dropWhile Text.isDigit = rest :=
  dropWhile_run_append (fun c hc => textIsDigit_of_isDigit (hdigits c hc)) hrest

end

namespace Token

variable {rest : List Char} (negative : Bool)

theorem readNumeral_digits {digits : List Char} (hne : digits ≠ []) (hdigits : AllDigits digits)
    (hrest : EndsWord rest) :
    readNumeral negative (digits ++ rest) = .ok (.numeral ⟨negative, digits, []⟩, rest) := by
  have hstop := hrest.not_isDigit
  have hpoint : rest.head? ≠ some '.' := fun h => (hrest.not_isWordChar h).right.right rfl
  simp [readNumeral, takeWhile_digits_append hdigits hstop, dropWhile_digits_append hdigits hstop,
    hne, hpoint, hrest.startsWord]

theorem readNumeral_fraction {d : DecimalParts} (hscale : d.scale = none)
    (hrest : EndsWord rest) :
    readNumeral negative (d.chars ++ rest) =
      .ok (.numeral ⟨negative, d.whole, d.fraction⟩, rest) := by
  have hfraction : d.fraction ≠ [] := by
    have hshown := d.shown
    rw [hscale] at hshown
    simpa using hshown
  have hchars : d.chars ++ rest = d.whole ++ ('.' :: (d.fraction ++ rest)) := by
    simp [DecimalParts.chars, DecimalParts.pointText, DecimalParts.scaleText, hscale, hfraction]
  have hpoint := head?_cons_not_isDigit textIsDigit_point (d.fraction ++ rest)
  have hstop := hrest.not_isDigit
  rw [hchars]
  simp [readNumeral, takeWhile_digits_append d.whole_digits hpoint,
    dropWhile_digits_append d.whole_digits hpoint, takeWhile_digits_append d.fraction_digits hstop,
    dropWhile_digits_append d.fraction_digits hstop, d.whole_ne_nil, hfraction, hrest.startsWord]

/-- The letter of the exponent ends the digits, and no numeral runs into a letter. -/
theorem readNumeral_exponent {d : DecimalParts} {e : Int} (hscale : d.scale = some e)
    (rest : List Char) : exists suffix, readNumeral negative (d.chars ++ rest) = .error suffix := by
  have hletter := head?_cons_not_isDigit textIsDigit_exponent (Binary64.exponentText e ++ rest)
  have hstarts : startsWord ('e' :: (Binary64.exponentText e ++ rest)) = true := rfl
  have hwhole : d.whole.isEmpty = false := List.isEmpty_eq_false_iff.mpr d.whole_ne_nil
  by_cases hfraction : d.fraction = []
  · have hchars : d.chars ++ rest = d.whole ++ 'e' :: (Binary64.exponentText e ++ rest) := by
      simp [DecimalParts.chars, DecimalParts.pointText, DecimalParts.scaleText, hscale, hfraction]
    rw [hchars]
    simp only [readNumeral, takeWhile_digits_append d.whole_digits hletter,
      dropWhile_digits_append d.whole_digits hletter, hwhole, ↓reduceIte, List.head?_cons,
      Option.some.injEq, Char.reduceEq, decide_false, Bool.false_and, Bool.false_eq_true, hstarts,
      Bool.not_true]
    split
    · exact ⟨_, rfl⟩
    · exact ⟨_, rfl⟩
  · have hchars : d.chars ++ rest =
        d.whole ++ '.' :: (d.fraction ++ 'e' :: (Binary64.exponentText e ++ rest)) := by
      simp [DecimalParts.chars, DecimalParts.pointText, DecimalParts.scaleText, hscale, hfraction]
    have hpoint := head?_cons_not_isDigit textIsDigit_point
      (d.fraction ++ 'e' :: (Binary64.exponentText e ++ rest))
    have hempty : d.fraction.isEmpty = false := List.isEmpty_eq_false_iff.mpr hfraction
    rw [hchars]
    simp only [readNumeral, takeWhile_digits_append d.whole_digits hpoint,
      dropWhile_digits_append d.whole_digits hpoint, List.drop_succ_cons, List.drop_zero,
      takeWhile_digits_append d.fraction_digits hletter,
      dropWhile_digits_append d.fraction_digits hletter, hwhole, ↓reduceIte, List.head?_cons,
      decide_true, Bool.true_and, hempty, Bool.not_false, hstarts, Bool.not_true,
      Bool.false_eq_true]
    split
    · exact ⟨_, rfl⟩
    · exact ⟨_, rfl⟩

end Token

/-!
# Values of numerals
-/

namespace Numeral

theorem value_intChars (n : Int) (h : (Nat.toDigits 10 n.natAbs).length ≤ digitLimit) :
    value ⟨decide (n < 0), Nat.toDigits 10 n.natAbs, []⟩ = .ok (.int n) := by
  have hvalue : Text.digitsValue (Nat.toDigits 10 n.natAbs) = n.natAbs := by
    rw [digitsValue_eq_ofDigitChars (AllDigits.toDigits _), Nat.ofDigitChars_ten_toDigits]
  simp only [value, List.isEmpty_nil, ↓reduceIte, Nat.not_lt.mpr h, hvalue, decide_eq_true_eq]
  congr 2
  split
  · omega
  · omega

theorem value_fraction {d : DecimalParts} (hscale : d.scale = none) (negative : Bool) :
    value ⟨negative, d.whole, d.fraction⟩ =
      .ok (.float (Binary64.ofDecimal negative d.coefficient d.exponent)) := by
  have hfraction : d.fraction ≠ [] := by
    have hshown := d.shown
    rw [hscale] at hshown
    simpa using hshown
  have hvalue := digitsValue_eq_ofDigitChars (d.whole_digits.append d.fraction_digits)
  simp [value, hfraction, hvalue, DecimalParts.coefficient, DecimalParts.exponent, hscale]

end Numeral
end EventCalculus
