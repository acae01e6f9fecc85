import EventCalculus.Numeric.Literal
import EventCalculus.Proofs.DecimalReading
import EventCalculus.Proofs.FiniteNumbers
import Mathlib.Data.List.Basic
import Mathlib.Data.List.TakeWhile

/-!
# Reading back the text of a number

The text of a finite number shows digits around a point, an exponent, or both.
Read as a literal it denotes the number again, so no two finite numbers have the
same text.
-/

namespace EventCalculus

/-!
# Digits
-/

/-- Every character is a decimal digit of the ASCII range. -/
def AllDigits (cs : List Char) : Prop :=
  forall c, c ∈ cs -> c.isDigit = true

namespace AllDigits

theorem append {cs ds : List Char} (hcs : AllDigits cs) (hds : AllDigits ds) :
    AllDigits (cs ++ ds) := by
  intro c hc
  cases List.mem_append.mp hc with
  | inl hleft => exact hcs c hleft
  | inr hright => exact hds c hright

theorem take {cs : List Char} (h : AllDigits cs) (n : Nat) : AllDigits (cs.take n) :=
  fun c hc => h c (List.mem_of_mem_take hc)

theorem drop {cs : List Char} (h : AllDigits cs) (n : Nat) : AllDigits (cs.drop n) :=
  fun c hc => h c (List.mem_of_mem_drop hc)

theorem zeros (n : Nat) : AllDigits (List.replicate n '0') := by
  intro c hc
  rw [List.eq_of_mem_replicate hc]
  rfl

theorem toDigits (n : Nat) : AllDigits (Nat.toDigits 10 n) :=
  fun _ hc => Nat.isDigit_of_mem_toDigits (by decide) (by decide) hc

theorem not_mem {cs : List Char} (h : AllDigits cs) {c : Char} (hc : c.isDigit = false) :
    c ∉ cs := by
  intro hmem
  rw [h c hmem] at hc
  cases hc

end AllDigits

theorem beq_eq_false_of_class (p : Char -> Bool) {c d : Char} (hc : p c = true)
    (hd : p d = false) : (c == d) = false := by
  rw [beq_eq_false_iff_ne]
  intro heq
  rw [heq, hd] at hc
  cases hc

/-- A character that the text of a finite number may have. -/
def isNumberChar (c : Char) : Bool :=
  c.isDigit || c == '.' || c == 'e' || c == '+' || c == '-'

theorem digitValue?_of_isDigit {c : Char} (h : c.isDigit = true) :
    Text.digitValue? c = some (c.toNat - '0'.toNat) := by
  have hrange := Char.isDigit_iff_toNat.mp h
  have hlow : 0x30 ≤ c.toNat := hrange.left
  have hhigh : c.toNat ≤ 0x30 + 9 := hrange.right
  simp [Text.digitValue?, Text.digitZeros, hlow, hhigh]

theorem textIsDigit_of_isDigit {c : Char} (h : c.isDigit = true) : Text.isDigit c = true := by
  rw [Text.isDigit, digitValue?_of_isDigit h]
  rfl

theorem digitsValue_eq_ofDigitChars {cs : List Char} (h : AllDigits cs) :
    Text.digitsValue cs = Nat.ofDigitChars 10 cs 0 := by
  unfold Text.digitsValue Nat.ofDigitChars
  apply List.foldl_ext
  intro n c hc
  rw [digitValue?_of_isDigit (h c hc)]
  rfl

theorem pieces_of_not_mem {separator : Char} {cs : List Char} (h : separator ∉ cs) :
    Text.pieces separator cs = [cs] := by
  induction cs with
  | nil => rfl
  | cons c rest ih =>
      have hne : c ≠ separator := fun heq => h (heq ▸ List.mem_cons_self)
      have hrest : separator ∉ rest := fun hmem => h (List.mem_cons_of_mem c hmem)
      simp [Text.pieces, hne, ih hrest]

namespace Literal

theorem digits?_of_allDigits {cs : List Char} (hne : cs ≠ []) (h : AllDigits cs) :
    digits? cs = some cs := by
  have hdigits : forall c, c ∈ cs -> Text.isDigit c = true :=
    fun c hc => textIsDigit_of_isDigit (h c hc)
  have hpieces : Text.pieces '_' cs = [cs] := pieces_of_not_mem (h.not_mem (by decide))
  have hall : cs.all Text.isDigit = true := List.all_eq_true.mpr hdigits
  simp [digits?, hpieces, hne, hall, List.filter_eq_self.mpr hdigits]

theorem optionalDigits?_of_allDigits {cs : List Char} (h : AllDigits cs) :
    optionalDigits? cs = some cs := by
  unfold optionalDigits?
  split
  · rename_i hnil
    rw [hnil]
  · rename_i hne
    exact digits?_of_allDigits hne h

theorem splitSign_of_isDigit {c : Char} {rest : List Char} (h : c.isDigit = true) :
    splitSign (c :: rest) = (false, c :: rest) := by
  unfold splitSign
  split
  · rename_i hcons
    rw [(List.cons.inj hcons).left] at h
    exact absurd h (by decide)
  · rename_i hcons
    rw [(List.cons.inj hcons).left] at h
    exact absurd h (by decide)
  · rfl

theorem splitAtFirst_of_none {mark : Char -> Bool} {cs : List Char}
    (h : forall c, c ∈ cs -> mark c = false) : splitAtFirst mark cs = (cs, none) := by
  have htake : cs.takeWhile (fun c => !mark c) = cs := by
    apply List.takeWhile_eq_self_iff.mpr
    intro c hc
    rw [h c hc]
    rfl
  simp [splitAtFirst, htake]

theorem splitAtFirst_append {mark : Char -> Bool} {before after : List Char} {c : Char}
    (hbefore : forall d, d ∈ before -> mark d = false) (hc : mark c = true) :
    splitAtFirst mark (before ++ c :: after) = (before, some after) := by
  have htake : (before ++ c :: after).takeWhile (fun d => !mark d) = before := by
    rw [List.takeWhile_append_of_pos]
    · simp [hc]
    · intro d hd
      rw [hbefore d hd]
      rfl
  simp [splitAtFirst, htake]

end Literal

/-!
# Parts

Digits before the point, digits after it, and an exponent; at least one of the
last two is there.
-/

/-- The parts of a decimal text. -/
structure DecimalParts where
  whole : List Char
  fraction : List Char
  scale : Option Int
  whole_ne_nil : whole ≠ []
  whole_digits : AllDigits whole
  fraction_digits : AllDigits fraction
  shown : fraction ≠ [] ∨ scale.isSome = true

namespace DecimalParts

/-- The point and the digits after it, if there are any. -/
def pointText (d : DecimalParts) : List Char :=
  if d.fraction = [] then [] else '.' :: d.fraction

/-- The exponent, if there is one. -/
def scaleText (d : DecimalParts) : List Char :=
  match d.scale with
  | none => []
  | some e => 'e' :: Binary64.exponentText e

def chars (d : DecimalParts) : List Char :=
  d.whole ++ d.pointText ++ d.scaleText

def coefficient (d : DecimalParts) : Nat :=
  Nat.ofDigitChars 10 (d.whole ++ d.fraction) 0

def exponent (d : DecimalParts) : Int :=
  d.scale.getD 0 - d.fraction.length

theorem isDigit_or_point (d : DecimalParts) {c : Char} (hc : c ∈ d.whole ++ d.pointText) :
    c.isDigit = true ∨ c = '.' := by
  unfold pointText at hc
  cases List.mem_append.mp hc with
  | inl hwhole => exact Or.inl (d.whole_digits c hwhole)
  | inr hpoint =>
      split at hpoint
      · cases hpoint
      · cases List.mem_cons.mp hpoint with
        | inl hdot => exact Or.inr hdot
        | inr hfraction => exact Or.inl (d.fraction_digits c hfraction)

theorem exists_digit_chars (d : DecimalParts) :
    exists c rest, d.chars = c :: rest ∧ c.isDigit = true := by
  cases hwhole : d.whole with
  | nil =>
      exact absurd hwhole d.whole_ne_nil
  | cons c rest =>
      refine ⟨c, rest ++ d.pointText ++ d.scaleText, ?_, ?_⟩
      · simp only [chars, hwhole, List.cons_append]
      · exact d.whole_digits c (hwhole ▸ List.mem_cons_self)

/-- A point or an exponent is shown, so the text is none of an integer. -/
theorem point_or_scale_mem_chars (d : DecimalParts) : '.' ∈ d.chars ∨ 'e' ∈ d.chars := by
  cases d.shown with
  | inl hfraction =>
      apply Or.inl
      simp [chars, pointText, hfraction]
  | inr hscale =>
      rcases Option.isSome_iff_exists.mp hscale with ⟨e, he⟩
      apply Or.inr
      simp [chars, scaleText, he]

theorem allDigits_exponent (e : Int) :
    AllDigits (List.replicate (2 - (Nat.toDigits 10 e.natAbs).length) '0' ++
      Nat.toDigits 10 e.natAbs) :=
  (AllDigits.zeros _).append (AllDigits.toDigits _)

theorem exponent?_exponentText (e : Int) :
    Literal.exponent? (some (Binary64.exponentText e)) = some e := by
  have hdigits := allDigits_exponent e
  have hne : List.replicate (2 - (Nat.toDigits 10 e.natAbs).length) '0' ++
      Nat.toDigits 10 e.natAbs ≠ [] := by
    simp
  have hread := Literal.digits?_of_allDigits hne hdigits
  have hvalue : Text.digitsValue (List.replicate (2 - (Nat.toDigits 10 e.natAbs).length) '0' ++
      Nat.toDigits 10 e.natAbs) = e.natAbs := by
    rw [digitsValue_eq_ofDigitChars hdigits, Nat.ofDigitChars_append]
    simp
  by_cases hneg : e < 0
  · have hnatAbs : -(e.natAbs : Int) = e := by omega
    simp only [Literal.exponent?, Binary64.exponentText, hneg, ↓reduceIte, Literal.splitSign,
      List.cons_append, hread, Option.map_some, hvalue, hnatAbs]
  · have hnatAbs : (e.natAbs : Int) = e := by omega
    simp only [Literal.exponent?, Binary64.exponentText, hneg, ↓reduceIte, Literal.splitSign,
      List.cons_append, hread, Option.map_some, hvalue, hnatAbs, Bool.false_eq_true]

theorem isNumberChar_of_mem_chars (d : DecimalParts) {c : Char} (hc : c ∈ d.chars) :
    isNumberChar c = true := by
  unfold chars scaleText at hc
  cases List.mem_append.mp hc with
  | inl hmantissa =>
      cases d.isDigit_or_point hmantissa with
      | inl hdigit => simp [isNumberChar, hdigit]
      | inr hpoint => simp [isNumberChar, hpoint]
  | inr hscale =>
      cases hd : d.scale with
      | none =>
          simp [hd] at hscale
      | some e =>
          rw [hd] at hscale
          simp only [Binary64.exponentText, List.cons_append, List.mem_cons] at hscale
          rcases hscale with hletter | hsign | hdigit
          · simp [isNumberChar, hletter]
          · split at hsign
            · simp [isNumberChar, hsign]
            · simp [isNumberChar, hsign]
          · simp [isNumberChar, allDigits_exponent e c hdigit]

theorem splitAtFirst_scale (d : DecimalParts) :
    exists scale, Literal.splitAtFirst (fun c => c == 'e' || c == 'E') d.chars =
        (d.whole ++ d.pointText, scale) ∧
      Literal.exponent? scale = some (d.scale.getD 0) := by
  have hmantissa : forall c, c ∈ d.whole ++ d.pointText -> (c == 'e' || c == 'E') = false := by
    intro c hc
    cases d.isDigit_or_point hc with
    | inl hdigit =>
        rw [beq_eq_false_of_class Char.isDigit hdigit (by decide),
          beq_eq_false_of_class Char.isDigit hdigit (by decide)]
        rfl
    | inr hpoint =>
        rw [hpoint]
        rfl
  unfold chars scaleText
  cases d.scale with
  | none =>
      refine ⟨none, ?_, rfl⟩
      rw [List.append_nil]
      exact Literal.splitAtFirst_of_none hmantissa
  | some e =>
      refine ⟨some (Binary64.exponentText e), ?_, exponent?_exponentText e⟩
      exact Literal.splitAtFirst_append hmantissa rfl

theorem splitAtFirst_point (d : DecimalParts) :
    exists after, Literal.splitAtFirst (fun c => c == '.') (d.whole ++ d.pointText) =
        (d.whole, after) ∧
      after.getD [] = d.fraction := by
  have hwhole : forall c, c ∈ d.whole -> (c == '.') = false :=
    fun c hc => beq_eq_false_of_class Char.isDigit (d.whole_digits c hc) (by decide)
  unfold pointText
  split
  · rename_i hnil
    refine ⟨none, ?_, hnil.symm⟩
    rw [List.append_nil]
    exact Literal.splitAtFirst_of_none hwhole
  · exact ⟨some d.fraction, Literal.splitAtFirst_append hwhole rfl, rfl⟩

theorem readScientific?_chars (d : DecimalParts) (negative : Bool) :
    Literal.readScientific? negative d.chars =
      some (Binary64.ofDecimal negative d.coefficient d.exponent) := by
  rcases d.splitAtFirst_scale with ⟨scale, hscale, hexponent⟩
  rcases d.splitAtFirst_point with ⟨after, hpoint, hfraction⟩
  have hwhole := Literal.optionalDigits?_of_allDigits d.whole_digits
  have hafter := Literal.optionalDigits?_of_allDigits d.fraction_digits
  have hvalue := digitsValue_eq_ofDigitChars (d.whole_digits.append d.fraction_digits)
  simp [Literal.readScientific?, hscale, hpoint, hfraction, hwhole, hafter, hexponent, hvalue,
    d.whole_ne_nil, coefficient, exponent]

end DecimalParts

/-!
# Layouts

Every layout shows its digits, with zeros in front of or behind them, and the
value stays the same.
-/

namespace Binary64

/-- The parts show the digits with some zeros behind them; the first digit has the place. -/
def ShownBy (digits : List Char) (place : Int) (d : DecimalParts) : Prop :=
  exists zeros : Nat, d.coefficient = Nat.ofDigitChars 10 digits 0 * 10 ^ zeros ∧
    d.exponent = place - digits.length - zeros

section
variable {digits : List Char} (hdigits : AllDigits digits) (hne : digits ≠ [])

/-- All digits stand behind the point, after some zeros. -/
def behindPoint (zeros : Nat) : DecimalParts where
  whole := ['0']
  fraction := List.replicate zeros '0' ++ digits
  scale := none
  whole_ne_nil := by simp
  whole_digits := AllDigits.zeros 1
  fraction_digits := (AllDigits.zeros zeros).append hdigits
  shown := Or.inl (by simp [hne])

/-- All digits stand in front of the point, before some zeros. -/
def beforePoint (zeros : Nat) : DecimalParts where
  whole := digits ++ List.replicate zeros '0'
  fraction := ['0']
  scale := none
  whole_ne_nil := by simp [hne]
  whole_digits := hdigits.append (AllDigits.zeros zeros)
  fraction_digits := AllDigits.zeros 1
  shown := Or.inl (by simp)

/-- The point stands between digits. -/
def aroundPoint (count : Nat) (hpos : 0 < count) (hlt : count < digits.length) :
    DecimalParts where
  whole := digits.take count
  fraction := digits.drop count
  scale := none
  whole_ne_nil := by simp [hne, Nat.ne_of_gt hpos]
  whole_digits := hdigits.take count
  fraction_digits := hdigits.drop count
  shown := Or.inl (by simp [hlt])

/-- One digit stands in front of the point, and an exponent gives the place. -/
def withExponent (exponent : Int) : DecimalParts where
  whole := digits.take 1
  fraction := digits.drop 1
  scale := some exponent
  whole_ne_nil := by simp [hne]
  whole_digits := hdigits.take 1
  fraction_digits := hdigits.drop 1
  shown := Or.inr rfl

theorem shownBy_behindPoint {place : Int} (hplace : place ≤ 0) :
    ShownBy digits place (behindPoint hdigits hne (-place).toNat) := by
  refine ⟨0, ?_, ?_⟩
  · simp [DecimalParts.coefficient, behindPoint, Nat.ofDigitChars_cons, Nat.ofDigitChars_append]
  · simp [DecimalParts.exponent, behindPoint]
    omega

theorem shownBy_beforePoint {place : Int} (hplace : (digits.length : Int) ≤ place) :
    ShownBy digits place (beforePoint hdigits hne (place.toNat - digits.length)) := by
  refine ⟨place.toNat - digits.length + 1, ?_, ?_⟩
  · simp [DecimalParts.coefficient, beforePoint, Nat.ofDigitChars_cons, Nat.ofDigitChars_append,
      Nat.pow_succ]
    rw [Nat.mul_comm 10, Nat.mul_comm (10 ^ _), Nat.mul_assoc]
  · simp [DecimalParts.exponent, beforePoint]
    omega

theorem shownBy_aroundPoint {place : Int} (hpos : 0 < place.toNat)
    (hlt : place.toNat < digits.length) :
    ShownBy digits place (aroundPoint hdigits hne place.toNat hpos hlt) := by
  refine ⟨0, ?_, ?_⟩
  · simp [DecimalParts.coefficient, aroundPoint]
  · simp [DecimalParts.exponent, aroundPoint]
    omega

theorem shownBy_withExponent (place : Int) :
    ShownBy digits place (withExponent hdigits hne (place - 1)) := by
  have hlength : 0 < digits.length := List.length_pos_of_ne_nil hne
  refine ⟨0, ?_, ?_⟩
  · simp only [DecimalParts.coefficient, withExponent, List.take_append_drop, Nat.pow_zero,
      Nat.mul_one]
  · simp [DecimalParts.exponent, withExponent]
    omega

include hdigits hne

theorem exists_parts_positional (place : Int) :
    exists d : DecimalParts, d.chars = positional digits place ∧ ShownBy digits place d := by
  unfold positional
  by_cases hsmall : place ≤ 0
  · refine ⟨behindPoint hdigits hne (-place).toNat, ?_, shownBy_behindPoint hdigits hne hsmall⟩
    simp [behindPoint, DecimalParts.chars, DecimalParts.pointText, DecimalParts.scaleText, hne,
      hsmall]
  · by_cases hwhole : digits.length ≤ place.toNat
    · refine ⟨beforePoint hdigits hne (place.toNat - digits.length), ?_,
        shownBy_beforePoint hdigits hne (by omega)⟩
      simp [beforePoint, DecimalParts.chars, DecimalParts.pointText, DecimalParts.scaleText,
        hsmall, hwhole]
    · refine ⟨aroundPoint hdigits hne place.toNat (by omega) (by omega), ?_,
        shownBy_aroundPoint hdigits hne (by omega) (by omega)⟩
      simp [aroundPoint, DecimalParts.chars, DecimalParts.pointText, DecimalParts.scaleText,
        hsmall, hwhole]

theorem exists_parts_scientific (place : Int) :
    exists d : DecimalParts, d.chars = scientific digits place ∧ ShownBy digits place d := by
  refine ⟨withExponent hdigits hne (place - 1), ?_, shownBy_withExponent hdigits hne place⟩
  simp only [withExponent, DecimalParts.chars, DecimalParts.pointText, DecimalParts.scaleText,
    scientific, List.drop_eq_nil_iff]

end

theorem ofDecimal_of_shownBy {d : DecimalParts} {coefficient : Nat} {exponent : Int}
    (h : ShownBy (Nat.toDigits 10 coefficient)
      ((Nat.toDigits 10 coefficient).length + exponent) d) (negative : Bool) :
    ofDecimal negative d.coefficient d.exponent = ofDecimal negative coefficient exponent := by
  rcases h with ⟨zeros, hcoefficient, hexponent⟩
  rw [hcoefficient, hexponent, Nat.ofDigitChars_ten_toDigits, ofDecimal_mul_pow]
  congr 1
  omega

/-- The text of a finite magnitude has parts, and they denote the magnitude. -/
theorem exists_parts_magnitudeText {x : Binary64} (hfinite : x.isFinite = true) :
    exists d : DecimalParts, d.chars = magnitudeText x ∧
      forall negative, ofDecimal negative d.coefficient d.exponent = ⟨negative, x.rank⟩ := by
  cases hzero : x.isZero with
  | true =>
      have hrank : x.rank = ⟨0, Nat.succ_pos _⟩ := Fin.ext (eq_of_beq hzero)
      refine ⟨behindPoint (AllDigits.zeros 1) (by simp) 0, ?_, ?_⟩
      · simp [magnitudeText, hzero, behindPoint, DecimalParts.chars, DecimalParts.pointText,
          DecimalParts.scaleText]
      · intro negative
        rw [hrank]
        rfl
  | false =>
      have hread := readsBack_shortestDigits hfinite hzero
      have hrank : (ofDecimal false (shortestDigits x).coefficient
          (shortestDigits x).exponent).rank = x.rank := of_decide_eq_true hread
      have hdigits : AllDigits (Nat.toDigits 10 (shortestDigits x).coefficient) :=
        AllDigits.toDigits _
      have hne : Nat.toDigits 10 (shortestDigits x).coefficient ≠ [] := Nat.toDigits_ne_nil
      have hlayout : exists d : DecimalParts, d.chars = magnitudeText x ∧
          ShownBy (Nat.toDigits 10 (shortestDigits x).coefficient)
            ((Nat.toDigits 10 (shortestDigits x).coefficient).length +
              (shortestDigits x).exponent) d := by
        simp only [magnitudeText, hzero, Bool.false_eq_true, ↓reduceIte]
        split
        · exact exists_parts_positional hdigits hne _
        · exact exists_parts_scientific hdigits hne _
      rcases hlayout with ⟨d, hchars, hshown⟩
      refine ⟨d, hchars, ?_⟩
      intro negative
      rw [ofDecimal_of_shownBy hshown, ofDecimal_eq_rank, hrank]

theorem readScientific?_magnitudeText {x : Binary64} (hfinite : x.isFinite = true)
    (negative : Bool) :
    Literal.readScientific? negative (magnitudeText x) = some ⟨negative, x.rank⟩ := by
  rcases exists_parts_magnitudeText hfinite with ⟨d, hchars, hvalue⟩
  rw [← hchars, d.readScientific?_chars, hvalue]

/-!
# Numbers are determined by their texts
-/

theorem splitSign_chars {x : Binary64} (hfinite : x.isFinite = true) :
    Literal.splitSign x.chars = (x.negative, magnitudeText x) := by
  rcases exists_parts_magnitudeText hfinite with ⟨d, hchars, _⟩
  rcases d.exists_digit_chars with ⟨c, rest, hcons, hdigit⟩
  rw [hchars] at hcons
  cases hnegative : x.negative with
  | true =>
      simp [chars, hnegative, hfinite, Literal.splitSign]
  | false =>
      simp only [chars, hnegative, hfinite, ↓reduceIte, Bool.false_eq_true, hcons]
      exact Literal.splitSign_of_isDigit hdigit

theorem eq_of_chars_eq {x y : Binary64} (hx : x.isFinite = true) (hy : y.isFinite = true)
    (h : x.chars = y.chars) : x = y := by
  have hsplit := splitSign_chars hx
  rw [h, splitSign_chars hy, Prod.mk.injEq] at hsplit
  have hread := readScientific?_magnitudeText hx false
  rw [← hsplit.right, readScientific?_magnitudeText hy] at hread
  simp only [Option.some.injEq, mk.injEq, true_and] at hread
  calc x = ⟨x.negative, x.rank⟩ := rfl
    _ = ⟨y.negative, y.rank⟩ := by rw [hsplit.left, hread]
    _ = y := rfl

theorem mem_chars_of_mem_magnitudeText {x : Binary64} (hfinite : x.isFinite = true) {c : Char}
    (hc : c ∈ magnitudeText x) : c ∈ x.chars := by
  simp only [chars, hfinite, ↓reduceIte]
  split
  · exact List.mem_cons_of_mem _ hc
  · exact hc

theorem point_or_scale_mem_chars {x : Binary64} (hfinite : x.isFinite = true) :
    '.' ∈ x.chars ∨ 'e' ∈ x.chars := by
  rcases exists_parts_magnitudeText hfinite with ⟨d, hchars, _⟩
  cases d.point_or_scale_mem_chars with
  | inl hpoint => exact Or.inl (mem_chars_of_mem_magnitudeText hfinite (hchars ▸ hpoint))
  | inr hscale => exact Or.inr (mem_chars_of_mem_magnitudeText hfinite (hchars ▸ hscale))

theorem isNumberChar_of_mem_chars {x : Binary64} (hfinite : x.isFinite = true) {c : Char}
    (hc : c ∈ x.chars) : isNumberChar c = true := by
  rcases exists_parts_magnitudeText hfinite with ⟨d, hchars, _⟩
  unfold chars at hc
  simp only [hfinite, ↓reduceIte, ← hchars] at hc
  split at hc
  · cases List.mem_cons.mp hc with
    | inl hsign =>
        rw [hsign]
        rfl
    | inr hmagnitude => exact d.isNumberChar_of_mem_chars hmagnitude
  · exact d.isNumberChar_of_mem_chars hc

theorem exists_start_chars {x : Binary64} (hfinite : x.isFinite = true) :
    exists c rest, x.chars = c :: rest ∧ (c.isDigit = true ∨ c = '-') := by
  rcases exists_parts_magnitudeText hfinite with ⟨d, hchars, _⟩
  rcases d.exists_digit_chars with ⟨c, rest, hcons, hdigit⟩
  rw [hchars] at hcons
  cases hnegative : x.negative with
  | true =>
      exact ⟨'-', magnitudeText x, by simp [chars, hnegative, hfinite], Or.inr rfl⟩
  | false =>
      exact ⟨c, rest, by simp [chars, hnegative, hfinite, hcons], Or.inl hdigit⟩

end Binary64

namespace Number

theorem splitSign_intChars (n : Int) :
    Literal.splitSign (intChars n) = (decide (n < 0), Nat.toDigits 10 n.natAbs) := by
  unfold intChars
  split
  · rename_i hneg
    simp [Literal.splitSign, hneg]
  · rename_i hnonneg
    cases hdigits : Nat.toDigits 10 n.natAbs with
    | nil =>
        exact absurd hdigits Nat.toDigits_ne_nil
    | cons c rest =>
        have hdigit : c.isDigit = true :=
          AllDigits.toDigits n.natAbs c (hdigits ▸ List.mem_cons_self)
        rw [Literal.splitSign_of_isDigit hdigit, decide_eq_false hnonneg]

theorem int_eq_of_intChars_eq {m n : Int} (h : intChars m = intChars n) : m = n := by
  have hsplit := splitSign_intChars m
  rw [h, splitSign_intChars n, Prod.mk.injEq] at hsplit
  have hmagnitude := congrArg (fun digits => Nat.ofDigitChars 10 digits 0) hsplit.right
  simp only [Nat.ofDigitChars_ten_toDigits] at hmagnitude
  have hsign := decide_eq_decide.mp hsplit.left
  omega

theorem isDigit_or_sign_of_mem_intChars {n : Int} {c : Char} (hc : c ∈ intChars n) :
    c.isDigit = true ∨ c = '-' := by
  unfold intChars at hc
  split at hc
  · cases List.mem_cons.mp hc with
    | inl hsign => exact Or.inr hsign
    | inr hdigit => exact Or.inl (AllDigits.toDigits _ c hdigit)
  · exact Or.inl (AllDigits.toDigits _ c hc)

theorem exists_start_intChars (n : Int) :
    exists c rest, intChars n = c :: rest ∧ (c.isDigit = true ∨ c = '-') := by
  cases hchars : intChars n with
  | nil =>
      have hsplit := splitSign_intChars n
      rw [hchars] at hsplit
      exact absurd (congrArg Prod.snd hsplit).symm Nat.toDigits_ne_nil
  | cons c rest =>
      exact ⟨c, rest, rfl, isDigit_or_sign_of_mem_intChars (hchars ▸ List.mem_cons_self)⟩

theorem intChars_ne_chars {n : Int} {x : Binary64} (hfinite : x.isFinite = true) :
    intChars n ≠ x.chars := by
  intro h
  cases Binary64.point_or_scale_mem_chars hfinite with
  | inl hpoint =>
      rw [← h] at hpoint
      exact absurd (isDigit_or_sign_of_mem_intChars hpoint) (by decide)
  | inr hscale =>
      rw [← h] at hscale
      exact absurd (isDigit_or_sign_of_mem_intChars hscale) (by decide)

theorem exists_start_chars {n : Number} (hfinite : n.isFinite = true) :
    exists c rest, n.chars = c :: rest ∧ (c.isDigit = true ∨ c = '-') := by
  cases n with
  | int n => exact exists_start_intChars n
  | float x => exact Binary64.exists_start_chars hfinite

theorem isNumberChar_of_mem_chars {n : Number} (hfinite : n.isFinite = true) {c : Char}
    (hc : c ∈ n.chars) : isNumberChar c = true := by
  cases n with
  | int n =>
      cases isDigit_or_sign_of_mem_intChars hc with
      | inl hdigit => simp [isNumberChar, hdigit]
      | inr hsign => simp [isNumberChar, hsign]
  | float x => exact Binary64.isNumberChar_of_mem_chars hfinite hc

theorem eq_of_chars_eq {m n : Number} (hm : m.isFinite = true) (hn : n.isFinite = true)
    (h : m.chars = n.chars) : m = n := by
  cases m with
  | int m =>
      cases n with
      | int n => rw [int_eq_of_intChars_eq h]
      | float y => exact absurd h (intChars_ne_chars hn)
  | float x =>
      cases n with
      | int n => exact absurd h.symm (intChars_ne_chars hm)
      | float y => rw [Binary64.eq_of_chars_eq hm hn h]

end Number
end EventCalculus
