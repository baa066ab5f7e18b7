import Mathlib.Algebra.Order.Ring.Nat
import Mathlib.Tactic.Ring

/-!
# What rounding does to a magnitude

A finite number of 64 bits is a sign and a magnitude `m * 2 ^ e`, where the format has one choice of
`m` and `e` for each magnitude (`TopDown.Magnitude.Canonical`). The bits of the magnitude, read as
one integer, count the magnitudes from zero upwards: they are `TopDown.Magnitude.place`.

Arithmetic works out an exact result, which may have any number of digits, and rounds it. All that is
ever needed of this step is that it does not pass a magnitude of the format: the rounded result is at
the place of such a magnitude or above it, if the exact one is not smaller
(`TopDown.Magnitude.place_le_place`), and correspondingly from above
(`TopDown.Magnitude.place_le_of_le`). The proof compares exponents first. Where they differ, the
result has 53 digits and lies beyond the whole range of the smaller exponent; where they agree, the
same digits are dropped from both.

Rounding up may carry into a digit too many, so that the result is shifted once more. Its place stays
the same, because the places of one exponent go on where those of the one before end
(`TopDown.Magnitude.carry`).
-/

namespace TopDown

open Float.Model Float.Model.UnpackedFloat

namespace Magnitude

/-- The mantissa and the exponent are those that the format has for a magnitude: 53 digits, or fewer
at the least exponent. -/
structure Canonical (m : Nat) (e : Int) : Prop where
  /-- There are 53 digits at the most. -/
  lt : m < 2 ^ 53
  /-- The exponent is not below the least one. -/
  least : -1074 ≤ e
  /-- There are fewer digits at the least exponent only. -/
  full : e = -1074 ∨ 2 ^ 52 ≤ m

/-- The place of the magnitude `m * 2 ^ e` among all magnitudes of the format. -/
def place (m : Nat) (e : Int) : Int :=
  (e + 1074) * 2 ^ 52 + m

theorem place_nonneg {m : Nat} {e : Int} (h : -1074 ≤ e) : 0 ≤ place m e := by
  rw [place]
  omega

/-! ### Dropping digits -/

/-- The mantissa `n / 2 ^ k`, rounded. -/
def rounded (n k : Nat) : Nat :=
  (ExtendedMantissa.ofMantissaAndAccuracy n .exact >>> k).roundedMantissa

/-- The residual bits record whether a digit was lost. -/
theorem shifted (n k : Nat) :
    (ExtendedMantissa.ofMantissaAndAccuracy n .exact >>> k).mantissa = n / 2 ^ k ∧
      (2 ^ k ∣ n → (ExtendedMantissa.ofMantissaAndAccuracy n .exact >>> k).roundBit = false ∧
        (ExtendedMantissa.ofMantissaAndAccuracy n .exact >>> k).stickyBit = false) := by
  change (k.repeat ExtendedMantissa.shiftRightOne ⟨n, false, false⟩).mantissa = n / 2 ^ k ∧
    (2 ^ k ∣ n → (k.repeat ExtendedMantissa.shiftRightOne ⟨n, false, false⟩).roundBit = false ∧
      (k.repeat ExtendedMantissa.shiftRightOne ⟨n, false, false⟩).stickyBit = false)
  induction k with
  | zero => simp [Nat.repeat]
  | succ k ih =>
    obtain ⟨hm, hbits⟩ := ih
    rw [Nat.repeat]
    refine ⟨?_, fun hdvd => ?_⟩
    · rw [ExtendedMantissa.shiftRightOne, hm, Nat.div_div_eq_div_mul, pow_succ]
    · obtain ⟨hround, hsticky⟩ := hbits (dvd_trans (pow_dvd_pow 2 (Nat.le_succ k)) hdvd)
      refine ⟨?_, ?_⟩
      · simp only [ExtendedMantissa.shiftRightOne, hm, bne_eq_false_iff_eq]
        obtain ⟨c, rfl⟩ := hdvd
        rw [pow_succ, mul_assoc, Nat.mul_div_cancel_left _ (Nat.two_pow_pos k), Nat.mul_mod_right]
      · simp only [ExtendedMantissa.shiftRightOne, hround, hsticky, Bool.or_false]

theorem roundedMantissa_bounds (em : ExtendedMantissa) :
    em.mantissa ≤ em.roundedMantissa ∧ em.roundedMantissa ≤ em.mantissa + 1 := by
  obtain ⟨m, r, s⟩ := em
  cases r <;> cases s <;>
    simp only [ExtendedMantissa.roundedMantissa, ExtendedMantissa.accuracy,
      Accuracy.roundToNearestEven] <;> omega

theorem rounded_bounds (n k : Nat) : n / 2 ^ k ≤ rounded n k ∧ rounded n k ≤ n / 2 ^ k + 1 := by
  have h := roundedMantissa_bounds (ExtendedMantissa.ofMantissaAndAccuracy n .exact >>> k)
  rw [(shifted n k).1] at h
  exact h

/-- What is divided exactly is not rounded. -/
theorem rounded_of_dvd {n k : Nat} (h : 2 ^ k ∣ n) : rounded n k = n / 2 ^ k := by
  obtain ⟨hm, hbits⟩ := shifted n k
  obtain ⟨hround, hsticky⟩ := hbits h
  unfold rounded
  generalize ExtendedMantissa.ofMantissaAndAccuracy n .exact >>> k = em at *
  obtain ⟨m, r, s⟩ := em
  subst hround hsticky
  exact hm

/-! ### The exponent of a magnitude -/

/-- The exponent that the format has for the magnitude `m * 2 ^ e`. -/
def target (m : Nat) (e : Int) : Int :=
  Format.binary64.targetExponent (totalExponent m e)

theorem target_eq (m : Nat) (e : Int) : target m e = max (m.log2 + 1 + e - 53) (-1074) :=
  rfl

/-- The mantissa, with zeros behind it where the exponent falls. -/
def widened (m : Nat) (e : Int) : Nat :=
  m <<< (e - target m e).toNat

/-- The number of digits to drop. -/
def excess (m : Nat) (e : Int) : Nat :=
  (target m e - e).toNat

/-- The rounded mantissa of a magnitude at its exponent, before a carry. -/
def mantissa (m : Nat) (e : Int) : Nat :=
  rounded (widened m e) (excess m e)

variable {m : Nat} {e : Int}

theorem least_le_target : -1074 ≤ target m e :=
  le_max_right _ _

theorem widened_of_le (h : e ≤ target m e) : widened m e = m := by
  rw [widened, Int.toNat_of_nonpos (by omega)]
  rfl

theorem excess_of_le (h : target m e ≤ e) : excess m e = 0 := by
  rw [excess, Int.toNat_of_nonpos (by omega)]

theorem log2_shiftLeft (hm : 0 < m) (k : Nat) : (m <<< k).log2 = m.log2 + k := by
  have hle := Nat.log2_self_le hm.ne'
  have hlt := Nat.lt_log2_self (n := m)
  rw [Nat.shiftLeft_eq, Nat.log2_eq_iff (Nat.mul_pos hm (Nat.two_pow_pos k)).ne', pow_add,
    Nat.add_right_comm, pow_add]
  exact ⟨Nat.mul_le_mul_right _ hle, Nat.mul_lt_mul_of_pos_right hlt (Nat.two_pow_pos k)⟩

theorem widened_pos (hm : 0 < m) : 0 < widened m e := by
  rw [widened, Nat.shiftLeft_eq]
  exact Nat.mul_pos hm (Nat.two_pow_pos _)

/-- The digits that are kept are 53 at the most. -/
theorem kept_lt (hm : 0 < m) : widened m e / 2 ^ excess m e < 2 ^ 53 := by
  have htarget : (m.log2 : Int) + 1 + e - 53 ≤ target m e := le_max_left _ _
  rcases le_total (target m e) e with h | h
  · rw [excess_of_le h, pow_zero, Nat.div_one, ← Nat.log2_lt (widened_pos hm).ne', widened,
      log2_shiftLeft hm]
    omega
  · rw [widened_of_le h, Nat.div_lt_iff_lt_mul (Nat.two_pow_pos _), ← pow_add,
      ← Nat.log2_lt hm.ne', excess]
    omega

/-- They are no fewer, unless the exponent is the least one. -/
theorem le_kept (hm : 0 < m) (h : target m e ≠ -1074) :
    2 ^ 52 ≤ widened m e / 2 ^ excess m e := by
  have htarget : target m e = m.log2 + 1 + e - 53 := by
    rw [target_eq] at h ⊢
    omega
  rcases le_total (target m e) e with hle | hle
  · rw [excess_of_le hle, pow_zero, Nat.div_one, ← Nat.le_log2 (widened_pos hm).ne', widened,
      log2_shiftLeft hm]
    omega
  · rw [widened_of_le hle, Nat.le_div_iff_mul_le (Nat.two_pow_pos _), ← pow_add,
      ← Nat.le_log2 hm.ne', excess]
    omega

theorem mantissa_le (hm : 0 < m) : mantissa m e ≤ 2 ^ 53 :=
  (rounded_bounds _ _).2.trans (kept_lt hm)

theorem le_mantissa (hm : 0 < m) (h : target m e ≠ -1074) : 2 ^ 52 ≤ mantissa m e :=
  (le_kept hm h).trans (rounded_bounds _ _).1

/-! ### Magnitudes of the format are not passed -/

variable {m₁ : Nat} {e₁ : Int}

/-- **A magnitude of the format below the exact result** is not above the rounded one. -/
theorem place_le_place (h₁ : Canonical m₁ e₁) (hm : 0 < m) (he : e ≤ e₁)
    (h : m₁ * 2 ^ (e₁ - e).toNat ≤ m) : place m₁ e₁ ≤ place (mantissa m e) (target m e) := by
  have hlt := h₁.lt
  have hlog : e₁ ≠ -1074 → 52 + (e₁ - e).toNat ≤ m.log2 := fun hne => by
    rw [Nat.le_log2 hm.ne', pow_add]
    exact (Nat.mul_le_mul_right _ (h₁.full.resolve_left hne)).trans h
  have hle : e₁ ≤ target m e := by
    by_cases hne : e₁ = -1074
    · rw [hne]
      exact least_le_target
    · have := hlog hne
      rw [target_eq]
      omega
  rcases eq_or_lt_of_le hle with heq | hlt'
  · have hkept : m₁ ≤ mantissa m e := by
      refine le_trans ?_ (rounded_bounds _ _).1
      rw [widened_of_le (heq ▸ he), excess, ← heq]
      exact (Nat.le_div_iff_mul_le (Nat.two_pow_pos _)).mpr h
    rw [← heq, place, place]
    omega
  · have hkept := le_mantissa (m := m) (e := e) hm (by have := h₁.least; omega)
    rw [place, place]
    omega

/-- **A magnitude of the format above the exact result** is not below the rounded one. -/
theorem place_le_of_le (h₁ : Canonical m₁ e₁) (hm : 0 < m) (he : e ≤ e₁)
    (h : m ≤ m₁ * 2 ^ (e₁ - e).toNat) : place (mantissa m e) (target m e) ≤ place m₁ e₁ := by
  have hlog : m.log2 < 53 + (e₁ - e).toNat := by
    rw [Nat.log2_lt hm.ne', pow_add]
    exact lt_of_le_of_lt h (Nat.mul_lt_mul_of_pos_right h₁.lt (Nat.two_pow_pos _))
  have hle : target m e ≤ e₁ := by
    have := h₁.least
    rw [target_eq]
    omega
  rcases eq_or_lt_of_le hle with heq | hlt
  · have hkept : mantissa m e ≤ m₁ := by
      rw [mantissa, widened_of_le (heq ▸ he), excess, heq]
      -- rounding up needs a lost digit, and then there is room below `m₁`
      rcases eq_or_lt_of_le h with hm' | hm'
      · rw [rounded_of_dvd (hm' ▸ dvd_mul_left _ _), hm',
          Nat.mul_div_cancel _ (Nat.two_pow_pos _)]
      · exact (rounded_bounds _ _).2.trans ((Nat.div_lt_iff_lt_mul (Nat.two_pow_pos _)).mpr hm')
    rw [heq, place, place]
    omega
  · have hkept := mantissa_le (m := m) (e := e) hm
    have hfull := h₁.full.resolve_left (by have := least_le_target (m := m) (e := e); omega)
    rw [place, place]
    omega

/-! ### The carry -/

/-- The result of rounding, shifted once more if it has carried. -/
def settled (m : Nat) (e : Int) : ExtendedMantissa × Int :=
  shiftToTargetExponent Format.binary64 (mantissa m e) (target m e) .exact

theorem shiftToTarget_widened (hm : 0 < m) :
    shiftToTargetExponent Format.binary64 (widened m e) (e - (e - target m e).toNat) .exact =
      (ExtendedMantissa.ofMantissaAndAccuracy (widened m e) .exact >>> excess m e, target m e) := by
  have htotal : totalExponent (widened m e) (e - (e - target m e).toNat) = totalExponent m e := by
    rw [totalExponent, totalExponent, widened, log2_shiftLeft hm]
    push_cast
    ring
  have hdrop : (target m e - (e - (e - target m e).toNat)).toNat = excess m e := by
    rw [excess]
    omega
  rw [shiftToTargetExponent, htotal]
  change shiftToExponent _ _ _ (target m e) = _
  rw [shiftToExponent, hdrop]
  refine Prod.ext rfl ?_
  change e - ((e - target m e).toNat : Int) + excess m e = target m e
  rw [excess]
  omega

theorem round_eq (s : Sign) (hm : 0 < m) :
    round Format.binary64 s m e =
      if h : (settled m e).1.mantissa = 0 then .zero s
      else .finite s (settled m e).1.mantissa (settled m e).2 (Nat.pos_of_ne_zero h) := by
  have h : round Format.binary64 s m e = roundWithAccuracy Format.binary64 s (widened m e)
      (e - (e - target m e).toNat) .exact := rfl
  rw [h, roundWithAccuracy, shiftToTarget_widened hm]
  rfl

/-- A mantissa of enough digits is rounded as it is. -/
theorem roundWithAccuracy_of_le (s : Sign) (h : e ≤ target m e) :
    roundWithAccuracy Format.binary64 s m e .exact = round Format.binary64 s m e := by
  have hround : round Format.binary64 s m e = roundWithAccuracy Format.binary64 s (widened m e)
      (e - (e - target m e).toNat) .exact := rfl
  rw [hround, widened_of_le h, Int.toNat_of_nonpos (by omega), Nat.cast_zero, sub_zero]

/-- **A carry keeps the place.** -/
theorem carry (hm : 0 < m) :
    Canonical (settled m e).1.mantissa (settled m e).2 ∧
      place (settled m e).1.mantissa (settled m e).2 = place (mantissa m e) (target m e) := by
  have hle := mantissa_le (m := m) (e := e) hm
  have hge := le_mantissa (m := m) (e := e) hm
  have hleast := least_le_target (m := m) (e := e)
  rw [settled]
  generalize mantissa m e = r at *
  generalize target m e = t at *
  have hshift : shiftToTargetExponent Format.binary64 r t .exact =
      (ExtendedMantissa.ofMantissaAndAccuracy r .exact >>> (target r t - t).toNat,
        t + (target r t - t).toNat) := rfl
  rw [hshift]
  dsimp only
  rw [(shifted _ _).1]
  rcases eq_or_lt_of_le hle with rfl | hlt
  · have hone : (target (2 ^ 53) t - t).toNat = 1 := by
      rw [target_eq, Nat.log2_two_pow]
      omega
    rw [hone]
    refine ⟨⟨by decide, by push_cast; omega, .inr (by decide)⟩, ?_⟩
    rw [place, place]
    norm_num
    ring
  · have hnone : (target r t - t).toNat = 0 := by
      have hlog : r.log2 ≤ 52 := by
        by_cases hr : r = 0
        · rw [hr, Nat.log2_zero]
          exact Nat.zero_le _
        · exact Nat.le_of_lt_succ ((Nat.log2_lt hr).mpr hlt)
      rw [target_eq]
      omega
    rw [hnone, pow_zero, Nat.div_one, Nat.cast_zero, add_zero]
    refine ⟨⟨hlt, hleast, ?_⟩, rfl⟩
    by_cases ht : t = -1074
    · exact .inl ht
    · exact .inr (hge ht)

end Magnitude

end TopDown
