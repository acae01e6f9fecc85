import EventCalculus.Numeric.Decimal
import Mathlib.Algebra.Order.Ring.Nat

/-!
# Reading decimal values

A decimal value is read the same however many of the trailing zeros of its
coefficient stand in its exponent.  Every rank is nearest to its own magnitude,
so the digits that are chosen for a number read back as the number.
-/

namespace EventCalculus
namespace Binary64

/-!
# Quotients
-/

theorem roundQuotient_mul_left {k : Nat} (hk : 0 < k) (num den : Nat) :
    roundQuotient (k * num) (k * den) = roundQuotient num den := by
  have hbelow : 2 * (k * (num % den)) < k * den ↔ 2 * (num % den) < den := by
    rw [Nat.mul_left_comm]
    exact Nat.mul_lt_mul_left hk
  have habove : k * den < 2 * (k * (num % den)) ↔ den < 2 * (num % den) := by
    rw [Nat.mul_left_comm]
    exact Nat.mul_lt_mul_left hk
  simp only [roundQuotient, Nat.mul_div_mul_left num den hk, Nat.mul_mod_mul_left, hbelow, habove]

theorem nearestRank_mul_left {k : Nat} (hk : 0 < k) (num den : Nat) :
    nearestRank (k * num) (k * den) = nearestRank num den := by
  simp only [nearestRank, Nat.mul_div_mul_left num den hk, Nat.mul_assoc,
    roundQuotient_mul_left hk]

theorem ofQuotient_mul_left {k : Nat} (hk : 0 < k) (negative : Bool) (num den : Nat) :
    ofQuotient negative (k * num) (k * den) = ofQuotient negative num den := by
  simp only [ofQuotient, Nat.mul_assoc, nearestRank_mul_left hk]

theorem roundQuotient_mul_right_self (n : Nat) {k : Nat} (hk : 0 < k) :
    roundQuotient (n * k) k = n := by
  simp [roundQuotient, Nat.mul_div_cancel n hk, hk]

/-!
# Ranks

The magnitudes of the normal ranks come in binades of equal length; within one,
the distance between neighbours is a power of two.
-/

theorem nearestRank_of_lt {n : Nat} (h : n < Nat.pow 2 53) : nearestRank n 1 = n := by
  have hround : roundQuotient n 1 = n := by
    have hself := roundQuotient_mul_right_self n Nat.one_pos
    rwa [Nat.mul_one] at hself
  have hinfinity : n ≤ infinityRank := by
    apply Nat.le_trans (Nat.le_of_lt h)
    decide +kernel
  simp only [nearestRank, Nat.div_one, h, ↓reduceIte, Nat.pow_zero, Nat.pow_eq, Nat.mul_one,
    Nat.zero_mul, Nat.zero_add, hround]
  exact Nat.min_eq_left hinfinity

theorem log2_mul_two_pow {m : Nat} (hlow : 2 ^ 52 ≤ m) (hhigh : m < 2 ^ 53) (shift : Nat) :
    (m * 2 ^ shift).log2 = 52 + shift := by
  have hpos : 0 < 2 ^ shift := Nat.two_pow_pos shift
  have hne : m * 2 ^ shift ≠ 0 := Nat.mul_ne_zero (by omega) (Nat.ne_of_gt hpos)
  apply (Nat.log2_eq_iff hne).mpr
  constructor
  · rw [Nat.pow_add]
    exact Nat.mul_le_mul_right _ hlow
  · rw [show 52 + shift + 1 = 53 + shift by omega, Nat.pow_add]
    exact Nat.mul_lt_mul_of_pos_right hhigh hpos

theorem nearestRank_of_binade {m : Nat} (hlow : 2 ^ 52 ≤ m) (hhigh : m < 2 ^ 53) {shift : Nat}
    (hinfinity : shift * 2 ^ 52 + m ≤ infinityRank) :
    nearestRank (m * 2 ^ shift) 1 = shift * 2 ^ 52 + m := by
  cases shift with
  | zero =>
      rw [Nat.pow_zero, Nat.mul_one, nearestRank_of_lt hhigh, Nat.zero_mul, Nat.zero_add]
  | succ q =>
      have hpos : 0 < 2 ^ (q + 1) := Nat.two_pow_pos (q + 1)
      have hlarge : ¬ m * 2 ^ (q + 1) < 2 ^ 53 := by
        have hmul : 2 ^ 52 * 2 ^ 1 ≤ m * 2 ^ (q + 1) :=
          Nat.mul_le_mul hlow (Nat.pow_le_pow_right (by decide) (by omega))
        omega
      simp only [nearestRank, Nat.pow_eq, Nat.div_one, hlarge, ↓reduceIte,
        log2_mul_two_pow hlow hhigh, Nat.add_sub_cancel_left, Nat.one_mul,
        roundQuotient_mul_right_self m hpos]
      exact Nat.min_eq_left hinfinity

theorem nearestRank_unitsOfRank {rank : Nat} (h : rank < infinityRank) :
    nearestRank (unitsOfRank rank) 1 = rank := by
  by_cases hsmall : rank < 2 ^ 52
  · have hunits : unitsOfRank rank = rank := by
      simp only [unitsOfRank, Nat.pow_eq, hsmall, ↓reduceIte]
    rw [hunits]
    apply nearestRank_of_lt
    exact Nat.lt_trans hsmall (by decide +kernel)
  · have hunits : unitsOfRank rank =
        (2 ^ 52 + rank % 2 ^ 52) * 2 ^ (rank / 2 ^ 52 - 1) := by
      simp only [unitsOfRank, Nat.pow_eq, hsmall, ↓reduceIte]
    have hrest : rank % 2 ^ 52 < 2 ^ 52 := Nat.mod_lt _ (Nat.two_pow_pos 52)
    have hrank : (rank / 2 ^ 52 - 1) * 2 ^ 52 + (2 ^ 52 + rank % 2 ^ 52) = rank := by
      omega
    rw [hunits, nearestRank_of_binade (by omega) (by omega) (by omega)]
    exact hrank

/-!
# Scale
-/

theorem digitCount_eq_length {n : Nat} (h : n ≠ 0) : digitCount n = (Nat.toDigits 10 n).length := by
  simp [digitCount, h]

theorem digitCount_mul_ten {n : Nat} (h : n ≠ 0) : digitCount (n * 10) = digitCount n + 1 := by
  have happend := Nat.toDigits_append_toDigits (b := 10) (n := n) (d := 0) (by decide)
    (Nat.pos_of_ne_zero h) (by decide)
  rw [Nat.add_zero, Nat.mul_comm] at happend
  rw [digitCount_eq_length h, digitCount_eq_length (by omega), ← happend, List.length_append]
  rfl

theorem digitCount_le_iff {n k : Nat} (hk : 0 < k) : digitCount n ≤ k ↔ n < 10 ^ k := by
  by_cases hn : n = 0
  · simp [digitCount, hn]
  · rw [digitCount_eq_length hn]
    exact Nat.length_toDigits_le_iff (by decide) hk

/-- The number nearest to a decimal value, however far outside of the range it is. -/
def ofScaled (negative : Bool) (coefficient : Nat) (exponent : Int) : Binary64 :=
  if 0 ≤ exponent then
    ofQuotient negative (coefficient * Nat.pow 10 exponent.toNat) 1
  else
    ofQuotient negative coefficient (Nat.pow 10 (-exponent).toNat)

theorem ofDecimal_eq (negative : Bool) (coefficient : Nat) (exponent : Int) :
    ofDecimal negative coefficient exponent =
      if coefficient = 0 || (digitCount coefficient : Int) + exponent < -400 then
        zero negative
      else if 400 < (digitCount coefficient : Int) + exponent then
        infinity negative
      else
        ofScaled negative coefficient exponent :=
  rfl

theorem ofScaled_mul_ten (negative : Bool) (coefficient : Nat) (exponent : Int) :
    ofScaled negative (coefficient * 10) exponent =
      ofScaled negative coefficient (exponent + 1) := by
  unfold ofScaled
  by_cases hnonneg : 0 ≤ exponent
  · have htoNat : (exponent + 1).toNat = exponent.toNat + 1 := by omega
    have hnext : 0 ≤ exponent + 1 := by omega
    simp only [hnonneg, hnext, ↓reduceIte, htoNat, Nat.pow_eq, Nat.pow_succ, Nat.mul_assoc,
      Nat.mul_comm]
  · by_cases hlast : exponent = -1
    · subst hlast
      rw [if_neg hnonneg, if_pos (by decide), Nat.mul_comm coefficient 10]
      have hpower : coefficient * Nat.pow 10 (-1 + 1 : Int).toNat = coefficient :=
        Nat.mul_one coefficient
      rw [hpower]
      exact ofQuotient_mul_left (by decide) negative coefficient 1
    · have htoNat : (-exponent).toNat = (-(exponent + 1)).toNat + 1 := by omega
      have hnext : ¬ 0 ≤ exponent + 1 := by omega
      simp only [hnonneg, hnext, ↓reduceIte, htoNat, Nat.pow_eq, Nat.pow_succ]
      rw [Nat.mul_comm coefficient, Nat.mul_comm _ 10]
      exact ofQuotient_mul_left (by decide) negative coefficient _

/-- A zero at the end of the coefficient is as good as one in the exponent. -/
theorem ofDecimal_mul_ten (negative : Bool) (coefficient : Nat) (exponent : Int) :
    ofDecimal negative (coefficient * 10) exponent =
      ofDecimal negative coefficient (exponent + 1) := by
  by_cases hzero : coefficient = 0
  · simp [ofDecimal, hzero]
  · have hzero' : ¬ coefficient * 10 = 0 := by omega
    have hplace : ((digitCount (coefficient * 10) : Nat) : Int) + exponent =
        (digitCount coefficient : Int) + (exponent + 1) := by
      rw [digitCount_mul_ten hzero]
      omega
    simp only [ofDecimal_eq, hzero, hzero', hplace, ofScaled_mul_ten]

theorem ofDecimal_mul_pow (negative : Bool) (coefficient : Nat) (exponent : Int) (k : Nat) :
    ofDecimal negative (coefficient * 10 ^ k) exponent =
      ofDecimal negative coefficient (exponent + k) := by
  induction k generalizing exponent with
  | zero =>
      simp
  | succ k ih =>
      rw [Nat.pow_succ, ← Nat.mul_assoc, ofDecimal_mul_ten, ih]
      congr 1
      omega

/-- The sign of a decimal value plays no part in the rank it is read as. -/
theorem ofDecimal_eq_rank (negative : Bool) (coefficient : Nat) (exponent : Int) :
    ofDecimal negative coefficient exponent =
      ⟨negative, (ofDecimal false coefficient exponent).rank⟩ := by
  rw [ofDecimal_eq, ofDecimal_eq]
  split
  · rfl
  · split
    · rfl
    · unfold ofScaled
      split
      · rfl
      · rfl

/-!
# The digits that are written
-/

theorem readsBack_trimZeros {x : Binary64} (fuel : Nat) {d : Digits}
    (h : readsBack x d = true) : readsBack x (d.trimZeros fuel) = true := by
  induction fuel generalizing d with
  | zero =>
      exact h
  | succ fuel ih =>
      unfold Digits.trimZeros
      split
      · rename_i hzero
        simp only [bne_iff_ne, ne_eq, Bool.and_eq_true, beq_iff_eq] at hzero
        have hcoefficient : d.coefficient / 10 * 10 = d.coefficient := by omega
        apply ih
        unfold readsBack at h ⊢
        rw [← ofDecimal_mul_ten, hcoefficient]
        exact h
      · exact h

theorem readsBack_of_first {x : Binary64} {near far d : Digits}
    (h : (if readsBack x near then some near
      else if readsBack x far then some far
      else none) = some d) : readsBack x d = true := by
  split at h
  · rename_i hnear
    rw [← Option.some.inj h]
    exact hnear
  · split at h
    · rename_i hfar
      rw [← Option.some.inj h]
      exact hfar
    · cases h

theorem readsBack_of_nearestDigits? {x : Binary64} {count : Nat} {d : Digits}
    (h : nearestDigits? x count = some d) : readsBack x d = true :=
  readsBack_of_first h

/-!
The exact magnitude is a decimal value too, and its first digit is well within
the range of places that are read.
-/

theorem units_pos {x : Binary64} (hzero : x.isZero = false) : 0 < x.units := by
  have hrank : 0 < x.rank.val := by
    apply Nat.pos_of_ne_zero
    intro h
    simp [isZero, h] at hzero
  unfold units unitsOfRank
  simp only [Nat.pow_eq]
  split
  · exact hrank
  · exact Nat.mul_pos (by omega) (Nat.two_pow_pos _)

theorem unitsOfRank_lt {rank e : Nat} (h : rank < (e + 2) * 2 ^ 52) :
    unitsOfRank rank < 2 ^ 53 * 2 ^ e := by
  have hrest : rank % 2 ^ 52 < 2 ^ 52 := Nat.mod_lt _ (Nat.two_pow_pos 52)
  unfold unitsOfRank
  simp only [Nat.pow_eq]
  split
  · rename_i hsmall
    have hlt : rank < 2 ^ 53 := by omega
    exact Nat.lt_of_lt_of_le hlt (Nat.le_mul_of_pos_right _ (Nat.two_pow_pos e))
  · have hshift : rank / 2 ^ 52 - 1 ≤ e := by omega
    calc (2 ^ 52 + rank % 2 ^ 52) * 2 ^ (rank / 2 ^ 52 - 1)
        ≤ (2 ^ 52 + rank % 2 ^ 52) * 2 ^ e :=
          Nat.mul_le_mul_left _ (Nat.pow_le_pow_right (by decide) hshift)
      _ < 2 ^ 53 * 2 ^ e := Nat.mul_lt_mul_of_pos_right (by omega) (Nat.two_pow_pos e)

theorem units_lt {x : Binary64} (hfinite : x.isFinite = true) : x.units < 2 ^ 53 * 2 ^ 2045 := by
  have hrank : x.rank.val < 2047 * 2 ^ 52 := of_decide_eq_true hfinite
  exact unitsOfRank_lt hrank

/-- A magnitude of `n` units, written with all its digits, reads back when a unit is `2 ^ (-k)`
and the first digit has a place that is read. -/
theorem rank_ofDecimal_exact {n k : Nat} (hk : 0 < k) (hunits : unitsPerOne = 2 ^ k) (hn : 0 < n)
    (hlow : k ≤ digitCount (n * 5 ^ k) + 400) (hhigh : digitCount (n * 5 ^ k) ≤ k + 400) :
    (ofDecimal false (n * 5 ^ k) (-(k : Int))).rank.val = nearestRank n 1 := by
  have hpower : 0 < 5 ^ k := Nat.pow_pos (by decide)
  have hcoefficient : n * 5 ^ k ≠ 0 := Nat.mul_ne_zero (by omega) (Nat.ne_of_gt hpower)
  have hnear : ¬ (digitCount (n * 5 ^ k) : Int) + -(k : Int) < -400 := by omega
  have hfar : ¬ 400 < (digitCount (n * 5 ^ k) : Int) + -(k : Int) := by omega
  have hneg : ¬ 0 ≤ -(k : Int) := by omega
  have htoNat : (- -(k : Int)).toNat = k := by omega
  have htens : n * 5 ^ k * 2 ^ k = 10 ^ k * n := by
    rw [Nat.mul_assoc, ← Nat.mul_pow, Nat.mul_comm]
  have hscaled := nearestRank_mul_left (k := 10 ^ k) (Nat.pow_pos (by decide)) n 1
  rw [Nat.mul_one] at hscaled
  simp only [ofDecimal_eq, hcoefficient, hnear, hfar, decide_false, Bool.or_self,
    Bool.false_eq_true, ↓reduceIte, ofScaled, hneg, ofQuotient, htoNat, Nat.pow_eq, hunits, htens,
    hscaled]

theorem digitCount_mul_le {n m k limit : Nat} (hm : 0 < m) (hk : 0 < k) (hn : n < limit)
    (hlimit : limit * m ≤ 10 ^ k) : digitCount (n * m) ≤ k := by
  apply (digitCount_le_iff hk).mpr
  calc n * m < limit * m := Nat.mul_lt_mul_of_pos_right hn hm
    _ ≤ 10 ^ k := hlimit

theorem lt_digitCount_mul {n m k : Nat} (hk : 0 < k) (hn : 0 < n) (hm : 10 ^ k ≤ m) :
    k < digitCount (n * m) := by
  apply Nat.lt_of_not_le
  intro hle
  have hfew := (digitCount_le_iff hk).mp hle
  have hmany : 10 ^ k ≤ n * m := by
    calc 10 ^ k ≤ 1 * m := by rw [Nat.one_mul]; exact hm
      _ ≤ n * m := Nat.mul_le_mul_right _ hn
  exact absurd hfew (Nat.not_lt.mpr hmany)

theorem exactDigits_eq (x : Binary64) :
    exactDigits x = ⟨x.units * 5 ^ 1074, -((1074 : Nat) : Int)⟩ := by
  simp only [exactDigits, Nat.pow_eq, Int.cast_ofNat_Int]

theorem readsBack_exactDigits {x : Binary64} (hfinite : x.isFinite = true)
    (hzero : x.isZero = false) : readsBack x (exactDigits x) = true := by
  have hpos := units_pos hzero
  have hfirst : 673 < digitCount (x.units * 5 ^ 1074) :=
    lt_digitCount_mul (by decide) hpos (by decide +kernel)
  have hlast : digitCount (x.units * 5 ^ 1074) ≤ 1474 :=
    digitCount_mul_le (by decide +kernel) (by decide) (units_lt hfinite) (by decide +kernel)
  have hexact := rank_ofDecimal_exact (by decide) (by simp only [unitsPerOne, Nat.pow_eq]) hpos
    (by omega) hlast
  have hnearest : nearestRank x.units 1 = x.rank.val :=
    nearestRank_unitsOfRank (of_decide_eq_true hfinite)
  have hrank : (ofDecimal false (x.units * 5 ^ 1074) (-((1074 : Nat) : Int))).rank = x.rank := by
    apply Fin.ext
    rw [hexact, hnearest]
  rw [exactDigits_eq, readsBack, hrank]
  exact decide_eq_true rfl

theorem readsBack_shortestDigits {x : Binary64} (hfinite : x.isFinite = true)
    (hzero : x.isZero = false) : readsBack x (shortestDigits x) = true := by
  unfold shortestDigits
  apply readsBack_trimZeros
  cases hfound : (List.range 17).findSome? fun n => nearestDigits? x (n + 1) with
  | none =>
      exact readsBack_exactDigits hfinite hzero
  | some d =>
      rcases List.exists_of_findSome?_eq_some hfound with ⟨n, _, hn⟩
      exact readsBack_of_nearestDigits? hn

end Binary64
end EventCalculus
