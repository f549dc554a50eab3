import Mathlib.Tactic.Positivity
import UnitScript.Number.Text
import UnitScript.Proofs.Number.Rounding

/-!
# Literals are rounded correctly

A real literal is read as a quotient: its digits as one whole number, divided
by a power of ten.  Division keeps the quotient exact in a significand with
two further digits, and drops digits until the significand fits.

* `Tracks` says what a significand with its two further digits stands for;
  dropping a digit and rounding respect it.
* `rounds_roundWithAccuracy` and `rounds_div` say that arithmetic rounds
  correctly.
* `rounds_readReal` says the same of literals.
-/

namespace UnitScript.Number

open Float.Model (Format UnpackedFloat totalExponent)
open Float.Model.UnpackedFloat (Accuracy ExtendedMantissa accuracyOfFraction divCore
  roundWithAccuracy shiftToExponent shiftToTargetExponent)

/-! ## Significands with two further digits -/

/-- The exact significand `y` is the whole significand, the digit behind its
point, and a rest that the last digit says to be zero or not. -/
def Tracks (em : ExtendedMantissa) (y : ℚ) : Prop :=
  ∃ rest : ℚ, y = em.mantissa + em.roundBit.toNat / 2 + rest ∧ 0 ≤ rest ∧ rest < 1 / 2 ∧
    (em.stickyBit = true ↔ 0 < rest)

theorem toNat_bounds (b : Bool) : (0 : ℚ) ≤ b.toNat ∧ (b.toNat : ℚ) ≤ 1 :=
  ⟨Nat.cast_nonneg _, by exact_mod_cast b.toNat_le⟩

theorem Tracks.bounds {em : ExtendedMantissa} {y : ℚ} (h : Tracks em y) :
    em.mantissa ≤ y ∧ y < em.mantissa + 1 := by
  obtain ⟨rest, rfl, hnonneg, hlt, -⟩ := h
  obtain ⟨hzero, hone⟩ := toNat_bounds em.roundBit
  constructor <;> linarith

theorem tracks_exact (m : Nat) : Tracks (.ofMantissaAndAccuracy m .exact) m :=
  ⟨0, by simp [ExtendedMantissa.ofMantissaAndAccuracy], le_rfl, by norm_num,
    by simp [ExtendedMantissa.ofMantissaAndAccuracy]⟩

/-- The remainder of a division says how the quotient goes on. -/
theorem tracks_fraction (n : Nat) {d : Nat} (hd : 0 < d) :
    Tracks (.ofMantissaAndAccuracy (n / d) (accuracyOfFraction (n % d) d)) (n / d : ℚ) := by
  have hpos : (0 : ℚ) < d := by exact_mod_cast hd
  have hvalue : (n : ℚ) / d = (n / d : Nat) + (n % d : Nat) / d := by
    have hdivision : (n : ℚ) = d * (n / d : Nat) + (n % d : Nat) := by
      exact_mod_cast (Nat.div_add_mod n d).symm
    rw [hdivision, add_div, mul_div_cancel_left₀ _ hpos.ne']
  have hlt : ((n % d : Nat) : ℚ) < d := by exact_mod_cast Nat.mod_lt n hd
  unfold accuracyOfFraction
  split
  · next hzero =>
      rw [hvalue, hzero, Nat.cast_zero, zero_div, add_zero]
      exact tracks_exact _
  · next hne =>
      have hk : (0 : ℚ) < (n % d : Nat) := by exact_mod_cast Nat.pos_of_ne_zero hne
      rw [hvalue]
      generalize n % d = k at *
      have hfraction : (k : ℚ) / d < 1 := (div_lt_one hpos).2 hlt
      cases hcompare : compare (2 * k) d with
      | lt =>
        have hless : (2 * k : ℚ) < d := by exact_mod_cast Nat.compare_eq_lt.1 hcompare
        have hhalf : (k : ℚ) / d < 1 / 2 := by
          rw [div_lt_div_iff₀ hpos two_pos]
          linarith
        refine ⟨k / d, ?_, by positivity, hhalf, ?_⟩
        · simp [ExtendedMantissa.ofMantissaAndAccuracy]
        · simp only [ExtendedMantissa.ofMantissaAndAccuracy, true_iff]
          positivity
      | eq =>
        have hequal : (2 * k : ℚ) = d := by exact_mod_cast Nat.compare_eq_eq.1 hcompare
        have hhalf : (k : ℚ) / d = 1 / 2 := by
          rw [div_eq_div_iff hpos.ne' two_ne_zero]
          linarith
        refine ⟨0, ?_, le_rfl, by norm_num, ?_⟩
        · simp [ExtendedMantissa.ofMantissaAndAccuracy, hhalf]
        · simp [ExtendedMantissa.ofMantissaAndAccuracy]
      | gt =>
        have hgreater : (d : ℚ) < 2 * k := by exact_mod_cast Nat.compare_eq_gt.1 hcompare
        have hhalf : (1 : ℚ) / 2 < k / d := by
          rw [div_lt_div_iff₀ two_pos hpos]
          linarith
        refine ⟨k / d - 1 / 2, ?_, by linarith, by linarith, ?_⟩
        · simp [ExtendedMantissa.ofMantissaAndAccuracy]
        · simp only [ExtendedMantissa.ofMantissaAndAccuracy, true_iff]
          linarith

/-- Dropping a digit halves the exact significand. -/
theorem Tracks.shiftRightOne {em : ExtendedMantissa} {y : ℚ} (h : Tracks em y) :
    Tracks em.shiftRightOne (y / 2) := by
  obtain ⟨m, round, sticky⟩ := em
  obtain ⟨rest, rfl, hnonneg, hlt, hsticky⟩ := h
  obtain ⟨hzero, hone⟩ := toNat_bounds round
  have hdigit : (m % 2 != 0).toNat = m % 2 := by
    rcases Nat.mod_two_eq_zero_or_one m with hm | hm <;> rw [hm] <;> rfl
  have hhalves : (m : ℚ) = 2 * (m / 2 : Nat) + (m % 2 : Nat) := by
    exact_mod_cast (Nat.div_add_mod m 2).symm
  refine ⟨round.toNat / 4 + rest / 2, ?_, by positivity, by linarith, ?_⟩
  · simp only [ExtendedMantissa.shiftRightOne, hdigit]
    linarith
  · simp only [ExtendedMantissa.shiftRightOne]
    cases round
    · simp only [Bool.false_or, Bool.toNat_false]
      constructor
      · intro h
        have := hsticky.1 h
        positivity
      · intro h
        exact hsticky.2 (by norm_num at h; exact h)
    · simp only [Bool.true_or, Bool.toNat_true, true_iff]
      positivity

theorem Tracks.shiftRight {em : ExtendedMantissa} {y : ℚ} (h : Tracks em y) (n : Nat) :
    Tracks (em >>> n) (y / 2 ^ n) := by
  induction n with
  | zero =>
    rw [pow_zero, div_one]
    exact h
  | succ n ih =>
    rw [pow_succ, ← div_div]
    exact ih.shiftRightOne

/-- The rounded significand is nearest, and even if another one is as near. -/
theorem Tracks.rounded {em : ExtendedMantissa} {y : ℚ} (h : Tracks em y) :
    |em.roundedMantissa - y| ≤ 1 / 2 ∧
      (|em.roundedMantissa - y| = 1 / 2 → em.roundedMantissa % 2 = 0) := by
  obtain ⟨m, round, sticky⟩ := em
  obtain ⟨rest, rfl, hnonneg, hlt, hsticky⟩ := h
  simp only [ExtendedMantissa.roundedMantissa]
  cases round with
  | false =>
    -- down
    have hrounded : (ExtendedMantissa.accuracy ⟨m, false, sticky⟩).roundToNearestEven m = m := by
      cases sticky <;> rfl
    have hdist : |(m : ℚ) - (m + (false.toNat : ℚ) / 2 + rest)| = rest := by
      rw [Bool.toNat_false, Nat.cast_zero, zero_div, add_zero, sub_add_cancel_left, abs_neg,
        abs_of_nonneg hnonneg]
    rw [hrounded, hdist]
    exact ⟨hlt.le, fun heq => absurd heq hlt.ne⟩
  | true =>
    cases sticky with
    | false =>
      -- a tie
      have hrest : rest = 0 := le_antisymm (not_lt.1 fun h => by simpa using hsticky.2 h) hnonneg
      have hdist : |((m + m % 2 : Nat) : ℚ) - (m + (true.toNat : ℚ) / 2 + rest)| = 1 / 2 := by
        rw [hrest]
        rcases Nat.mod_two_eq_zero_or_one m with hm | hm <;> rw [hm] <;> push_cast <;>
          norm_num
      exact ⟨hdist.le, fun _ => by
        simp only [ExtendedMantissa.accuracy, Accuracy.roundToNearestEven]
        omega⟩
    | true =>
      -- up
      have hrest : 0 < rest := hsticky.1 rfl
      have hdist : |((m + 1 : Nat) : ℚ) - (m + (true.toNat : ℚ) / 2 + rest)| = 1 / 2 - rest := by
        rw [Bool.toNat_true, Nat.cast_one, Nat.cast_add, Nat.cast_one, abs_of_nonneg (by linarith)]
        ring
      exact ⟨hdist.le.trans (by linarith), fun heq => absurd (hdist.symm.trans heq) (by linarith)⟩

/-! ## Storing a rounded significand -/

theorem overflow_eq : overflow = (2 ^ 53 - 1 / 2) * 2 ^ (971 : Int) := by
  have hhigh : (2 : ℚ) ^ 1024 = 2 ^ 53 * 2 ^ 971 := by rw [← pow_add]
  have hlow : (2 : ℚ) ^ 971 = 2 ^ 970 * 2 := pow_succ _ _
  rw [overflow, hhigh, show (971 : Int) = (971 : Nat) from rfl, zpow_natCast, hlow]
  generalize (2 : ℚ) ^ 970 = p
  ring

/-- What a rounded significand becomes: zero, itself, or the next power of
two with the next exponent. -/
def carried (r : Nat) (e : Int) : UnpackedFloat :=
  if h : r = 0 then .zero .positive
  else if r < 2 ^ 53 then .finite .positive r e (Nat.pos_of_ne_zero h)
  else .finite .positive (2 ^ 52) (e + 1) (by decide)

/-- A number with an exponent below that of the greatest reals is not rounded
to infinity. -/
theorem lt_overflow_of_exponent {y : ℚ} {e : Int} (hy : y < 2 ^ 53) (he : e ≤ 970) :
    y * 2 ^ e < overflow := by
  have hpos := two_zpow_pos 971
  have hpower : (2 : ℚ) ^ e * 2 ≤ 2 ^ (971 : Int) := by
    rw [← zpow_add_one₀ two_ne_zero]
    exact zpow_le_zpow_right₀ one_le_two (by omega)
  have hlt : y * 2 ^ e < 2 ^ 53 * 2 ^ e := mul_lt_mul_of_pos_right hy (two_zpow_pos e)
  rw [overflow_eq]
  generalize (2 : ℚ) ^ (971 : Int) = p at *
  generalize (2 : ℚ) ^ e = s at *
  linarith

theorem overflow_le_of_exponent {y : ℚ} {e : Int} (hy : 2 ^ 52 ≤ y) (he : 972 ≤ e) :
    overflow ≤ y * 2 ^ e := by
  have hpos := two_zpow_pos 971
  have hpower : (2 : ℚ) ^ (971 : Int) * 2 ≤ 2 ^ e := by
    rw [← zpow_add_one₀ two_ne_zero]
    exact zpow_le_zpow_right₀ one_le_two (by omega)
  have hle : 2 ^ 52 * 2 ^ e ≤ y * 2 ^ e := mul_le_mul_of_nonneg_right hy (two_zpow_pos e).le
  rw [overflow_eq]
  generalize (2 : ℚ) ^ (971 : Int) = p at *
  generalize (2 : ℚ) ^ e = s at *
  linarith

section

variable {y : ℚ} {r : Nat} {e : Int}

theorem rounds_of_finite {x : Float} (h : ∃ lowest, Binary.ofFloat x = ⟨false, .finite r e lowest⟩)
    {q : ℚ} (hq : q < overflow) (hnear : Nearest q r e) : Rounds q x := by
  obtain ⟨lowest, h⟩ := h
  unfold Rounds
  rw [h]
  exact ⟨hq, hnear⟩

theorem rounds_of_infinite {x : Float} (h : Binary.ofFloat x = ⟨false, .infinite⟩) {q : ℚ}
    (hq : overflow ≤ q) : Rounds q x := by
  unfold Rounds
  rw [h]
  exact hq

/-- The greatest significand is odd, so the middle above it is rounded up. -/
theorem lt_of_rounded (hclose : |r - y| ≤ 1 / 2) (htie : |r - y| = 1 / 2 → r % 2 = 0)
    (hr : r < 2 ^ 53) : y < 2 ^ 53 - 1 / 2 := by
  obtain ⟨hlower, hupper⟩ := abs_le.1 hclose
  have hle : (r : ℚ) + 1 ≤ 2 ^ 53 := by exact_mod_cast hr
  refine lt_of_le_of_ne (by linarith) fun hy => ?_
  have hr' : (r : ℚ) + 1 = 2 ^ 53 := by linarith
  have hdist : |(r : ℚ) - y| = 1 / 2 := by
    rw [abs_of_neg (by linarith)]
    linarith
  have hlast : r + 1 = 2 ^ 53 := by exact_mod_cast hr'
  have := htie hdist
  omega

/-- A number is rounded correctly when its exact significand `y` is rounded to
the nearest whole number `r`. -/
theorem rounds_carried (hclose : |r - y| ≤ 1 / 2) (htie : |r - y| = 1 / 2 → r % 2 = 0)
    (hfull : e = -1074 ∨ 2 ^ 52 ≤ y) (hy : y < 2 ^ 53) (he : -1074 ≤ e) :
    Rounds (y * 2 ^ e) (.ofModel (.pack (carried r e))) := by
  have hnear := nearest_of_rounded hclose htie hfull
  obtain ⟨hlower, hupper⟩ := abs_le.1 hclose
  have hnormal : 2 ^ 52 ≤ r ∨ e = -1074 := by
    rcases hfull with hleast | hfull
    · exact .inr hleast
    · have hr : (2 : ℚ) ^ 52 < r + 1 := by linarith
      exact .inl (Nat.lt_succ_iff.1 (by exact_mod_cast hr))
  unfold carried
  by_cases hzero : r = 0
  · rw [dif_pos hzero]
    subst hzero
    have hleast : e = -1074 := hnormal.resolve_left (by norm_num)
    subst hleast
    exact rounds_of_finite ⟨false, by decide⟩ (lt_overflow_of_exponent hy (by norm_num)) hnear
  rw [dif_neg hzero]
  by_cases hlt : r < 2 ^ 53
  · rw [if_pos hlt]
    rcases le_or_gt e 971 with hsmall | hlarge
    · refine rounds_of_finite (Binary.ofFloat_pack _ ⟨hlt, he, hsmall, hnormal⟩) ?_ hnear
      rcases hsmall.lt_or_eq with hless | rfl
      · exact lt_overflow_of_exponent hy (by omega)
      · rw [overflow_eq]
        exact mul_lt_mul_of_pos_right (lt_of_rounded hclose htie hlt) (two_zpow_pos _)
    · exact rounds_of_infinite (Binary.ofFloat_pack_infinite _ hlarge)
        (overflow_le_of_exponent (hfull.resolve_left (by omega)) (by omega))
  · rw [if_neg hlt]
    have hr : r = 2 ^ 53 := by
      have hle : (r : ℚ) < 2 ^ 53 + 1 := by linarith
      have : r < 2 ^ 53 + 1 := by exact_mod_cast hle
      omega
    subst hr
    rcases le_or_gt e 970 with hsmall | hlarge
    · exact rounds_of_finite
        (Binary.ofFloat_pack _ ⟨by norm_num, by omega, by omega, .inl le_rfl⟩)
        (lt_overflow_of_exponent hy hsmall) hnear.carry
    · refine rounds_of_infinite (Binary.ofFloat_pack_infinite _ (by omega)) ?_
      rw [Nat.cast_pow, Nat.cast_ofNat] at hupper
      rcases (show e = 971 ∨ 972 ≤ e by omega) with rfl | hlarger
      · rw [overflow_eq]
        exact mul_le_mul_of_nonneg_right (by linarith) (two_zpow_pos _).le
      · exact overflow_le_of_exponent (by linarith) hlarger

end

/-! ## Rounding -/

theorem targetExponent_binary64 (k : Int) :
    Format.binary64.targetExponent k = max (k - 53) (-1074) := rfl

theorem targetExponent_eq (m : Nat) (e : Int) :
    Format.binary64.targetExponent (totalExponent m e) = max (m.log2 + e - 52) (-1074) := by
  rw [targetExponent_binary64, totalExponent]
  omega

theorem mantissa_of_accuracy (m : Nat) (accuracy : Accuracy) :
    (ExtendedMantissa.ofMantissaAndAccuracy m accuracy).mantissa = m := by
  rcases accuracy with _ | (_ | _ | _) <;> rfl

/-- A significand that fits stays as it is. -/
theorem shift_of_lt {r : Nat} {k : Int} (hk : -1074 ≤ k) (hr : r < 2 ^ 53) :
    shiftToTargetExponent Format.binary64 r k .exact = (⟨r, false, false⟩, k) := by
  have hlog : r.log2 ≤ 52 := by
    rcases Nat.eq_zero_or_pos r with rfl | hpos
    · decide
    · exact Nat.lt_succ_iff.1 ((Nat.log2_lt hpos.ne').2 hr)
  have hamount : (max (r.log2 + k - 52) (-1074) - k).toNat = 0 := by omega
  simp only [shiftToTargetExponent, targetExponent_eq, shiftToExponent, hamount,
    Int.natCast_zero, Int.add_zero]
  rfl

/-- A significand of 54 digits loses one. -/
theorem shift_of_carry {k : Int} (hk : -1074 ≤ k) :
    shiftToTargetExponent Format.binary64 (2 ^ 53) k .exact = (⟨2 ^ 52, false, false⟩, k + 1) := by
  have hamount : (max (((2 ^ 53 : Nat).log2 : Int) + k - 52) (-1074) - k).toNat = 1 := by
    rw [Nat.log2_two_pow]
    omega
  simp only [shiftToTargetExponent, targetExponent_eq, shiftToExponent, hamount]
  rfl

/-- The first shift rounds, the second one only makes room for a carry. -/
theorem roundWithAccuracy_eq {m : Nat} {e : Int} {accuracy : Accuracy} {em : ExtendedMantissa}
    {k : Int} (hshift : shiftToTargetExponent Format.binary64 m e accuracy = (em, k))
    (hk : -1074 ≤ k) (hr : em.roundedMantissa ≤ 2 ^ 53) :
    roundWithAccuracy Format.binary64 .positive m e accuracy = carried em.roundedMantissa k := by
  rw [roundWithAccuracy, hshift]
  dsimp only
  generalize em.roundedMantissa = r at hr
  rcases hr.lt_or_eq with hlt | rfl
  · rw [shift_of_lt hk hlt, carried]
    by_cases hzero : r = 0
    · rw [dif_pos hzero, dif_pos hzero]
    · rw [dif_neg hzero, dif_neg hzero, if_pos hlt]
  · rw [shift_of_carry hk]
    rfl

/-- Rounding a significand of which enough digits are known is correct. -/
theorem rounds_roundWithAccuracy {m : Nat} {e : Int} {accuracy : Accuracy} {y : ℚ}
    (hy : Tracks (.ofMantissaAndAccuracy m accuracy) y) (hready : 52 ≤ m.log2 ∨ e ≤ -1074) :
    Rounds (y * 2 ^ e)
      (.ofModel (.pack (roundWithAccuracy Format.binary64 .positive m e accuracy))) := by
  -- the exponent that the significand is shifted to, and the exact significand there
  obtain ⟨n, hn⟩ : ∃ n : Nat, e + n = max (m.log2 + e - 52) (-1074) :=
    ⟨(max (m.log2 + e - 52) (-1074) - e).toNat, by omega⟩
  have hshift : shiftToTargetExponent Format.binary64 m e accuracy =
      (ExtendedMantissa.ofMantissaAndAccuracy m accuracy >>> n, e + n) := by
    simp only [shiftToTargetExponent, targetExponent_eq, ← hn, shiftToExponent,
      add_sub_cancel_left, Int.toNat_natCast]
  have hpos : (0 : ℚ) < 2 ^ n := by positivity
  have hscale : y * 2 ^ e = y / 2 ^ n * 2 ^ (e + n) := by
    rw [zpow_add₀ two_ne_zero, zpow_natCast, mul_comm ((2 : ℚ) ^ e), ← mul_assoc,
      div_mul_cancel₀ _ hpos.ne']
  obtain ⟨hlower, hupper⟩ := hy.bounds
  rw [mantissa_of_accuracy] at hlower hupper
  have hlt : y / 2 ^ n < 2 ^ 53 := by
    have hm : m + 1 ≤ 2 ^ (53 + n) :=
      Nat.lt_log2_self.trans_le (Nat.pow_le_pow_right two_pos (by omega))
    have hm' : (m : ℚ) + 1 ≤ 2 ^ (53 + n) := by exact_mod_cast hm
    rw [div_lt_iff₀ hpos, ← pow_add]
    exact hupper.trans_le hm'
  have hfull : e + n = -1074 ∨ 2 ^ 52 ≤ y / 2 ^ n := by
    refine or_iff_not_imp_left.2 fun hne => ?_
    have hlog : m.log2 = 52 + n := by omega
    have hm₀ : m ≠ 0 := by
      rintro rfl
      rw [Nat.log2_zero] at hlog
      omega
    have hm : 2 ^ (52 + n) ≤ m := hlog ▸ Nat.log2_self_le hm₀
    have hm' : (2 : ℚ) ^ (52 + n) ≤ m := by exact_mod_cast hm
    rw [le_div_iff₀ hpos, ← pow_add]
    exact hm'.trans hlower
  obtain ⟨hclose, htie⟩ := (hy.shiftRight n).rounded
  have hr : (ExtendedMantissa.ofMantissaAndAccuracy m accuracy >>> n).roundedMantissa ≤ 2 ^ 53 := by
    have hle := (abs_le.1 hclose).2
    have hr' : ((ExtendedMantissa.ofMantissaAndAccuracy m accuracy >>> n).roundedMantissa : ℚ) <
        2 ^ 53 + 1 := by linarith
    exact Nat.lt_succ_iff.1 (by exact_mod_cast hr')
  rw [roundWithAccuracy_eq hshift (by omega) hr, hscale]
  exact rounds_carried hclose htie hfull hlt (by omega)

theorem two_pow_le_shiftLeft {m : Nat} (h : 0 < m) (n : Nat) : 2 ^ (m.log2 + n) ≤ m <<< n := by
  rw [Nat.shiftLeft_eq, Nat.pow_add]
  exact Nat.mul_le_mul_right _ (Nat.log2_self_le h.ne')

/-- The numerator is shifted until the quotient has enough digits. -/
theorem divCore_ready {m₁ m₂ : Nat} {e : Int} {n : Nat} (h₁ : 0 < m₁) (h₂ : 0 < m₂)
    (hn : m₂.log2 + 53 ≤ m₁.log2 + n ∨ e ≤ -1074) : 52 ≤ (m₁ <<< n / m₂).log2 ∨ e ≤ -1074 := by
  refine hn.imp_left fun hn => ?_
  have hquotient : 2 ^ 52 ≤ m₁ <<< n / m₂ := by
    rw [Nat.le_div_iff_mul_le h₂]
    calc 2 ^ 52 * m₂ ≤ 2 ^ 52 * 2 ^ (m₂.log2 + 1) :=
          Nat.mul_le_mul_left _ Nat.lt_log2_self.le
      _ = 2 ^ (m₂.log2 + 53) := by rw [← Nat.pow_add]; congr 1; omega
      _ ≤ 2 ^ (m₁.log2 + n) := Nat.pow_le_pow_right two_pos hn
      _ ≤ m₁ <<< n := two_pow_le_shiftLeft h₁ n
  exact (Nat.le_log2 (by omega)).2 hquotient

/-- Quotients are rounded correctly. -/
theorem rounds_div {m₁ m₂ : Nat} (e₁ e₂ : Int) (h₁ : 0 < m₁) (h₂ : 0 < m₂) :
    Rounds (m₁ * 2 ^ e₁ / (m₂ * 2 ^ e₂))
      (.ofModel (.pack (.div Format.binary64 (.finite .positive m₁ e₁ h₁)
        (.finite .positive m₂ e₂ h₂)))) := by
  have htarget : Format.binary64.targetExponent (totalExponent m₁ e₁ - totalExponent m₂ e₂) =
      max (m₁.log2 + e₁ - (m₂.log2 + e₂) - 53) (-1074) := by
    rw [targetExponent_binary64, totalExponent, totalExponent]
    omega
  obtain ⟨k, hk⟩ : ∃ k, k = min (e₁ - e₂) (max (m₁.log2 + e₁ - (m₂.log2 + e₂) - 53) (-1074)) :=
    ⟨_, rfl⟩
  obtain ⟨n, hn⟩ : ∃ n : Nat, k + n = e₁ - e₂ := ⟨(e₁ - e₂ - k).toNat, by omega⟩
  have hamount : (e₁ - e₂ - k).toNat = n := by omega
  have hvalue : (m₁ : ℚ) * 2 ^ e₁ / (m₂ * 2 ^ e₂) = ((m₁ <<< n : Nat) : ℚ) / m₂ * 2 ^ k := by
    have hpowers : (2 : ℚ) ^ e₁ / 2 ^ e₂ = 2 ^ n * 2 ^ k := by
      rw [← zpow_sub₀ two_ne_zero, ← hn, zpow_add₀ two_ne_zero, zpow_natCast, mul_comm]
    rw [mul_div_mul_comm, hpowers, Nat.shiftLeft_eq]
    push_cast
    ring
  have hcore : divCore Format.binary64 m₁ e₁ m₂ e₂ =
      (m₁ <<< n / m₂, k, accuracyOfFraction (m₁ <<< n % m₂) m₂) := by
    rw [divCore, htarget, ← hk, hamount]
  change Rounds _ (.ofModel (.pack (roundWithAccuracy Format.binary64 .positive
    (divCore Format.binary64 m₁ e₁ m₂ e₂).1 (divCore Format.binary64 m₁ e₁ m₂ e₂).2.1
    (divCore Format.binary64 m₁ e₁ m₂ e₂).2.2)))
  rw [hvalue, hcore]
  exact rounds_roundWithAccuracy (tracks_fraction _ h₂) (divCore_ready h₁ h₂ (by omega))

/-- Multiples of a power of two are rounded correctly. -/
theorem rounds_round {m : Nat} (hm : 0 < m) (e : Int) :
    Rounds (m * 2 ^ e) (.ofModel (.pack (.round Format.binary64 .positive m e))) := by
  obtain ⟨n, hn⟩ : ∃ n, n = (e - max (m.log2 + e - 52) (-1074)).toNat := ⟨_, rfl⟩
  have hvalue : (m : ℚ) * 2 ^ e = (m <<< n : Nat) * 2 ^ (e - n) := by
    rw [Nat.shiftLeft_eq, zpow_sub₀ two_ne_zero, zpow_natCast]
    push_cast
    rw [mul_assoc, mul_div_cancel₀ _ (by positivity)]
  have hready : 52 ≤ (m <<< n).log2 ∨ e - n ≤ -1074 := by
    refine or_iff_not_imp_right.2 fun hexponent => ?_
    have hlower : 2 ^ 52 ≤ m <<< n :=
      (Nat.pow_le_pow_right two_pos (by omega)).trans (two_pow_le_shiftLeft hm n)
    exact (Nat.le_log2 (by omega)).2 hlower
  rw [hvalue]
  simp only [UnpackedFloat.round, targetExponent_eq, UnpackedFloat.decreaseExponent, ← hn]
  exact rounds_roundWithAccuracy (tracks_exact _) hready

/-! ## Literals -/

/-- The number that is written with these digits before and behind the point. -/
def decimal (whole fraction : List Char) : ℚ :=
  ofDigits whole + ofDigits fraction / 10 ^ fraction.length

theorem rounds_zero : Rounds 0 (.ofModel (.pack (.zero .positive))) := by
  have h := rounds_carried (y := 0) (r := 0) (e := -1074) (by norm_num) (fun _ => rfl) (.inl rfl)
    (by norm_num) le_rfl
  rwa [zero_mul] at h

/-- A whole number of 53 binary digits is a real. -/
theorem toFloat_exact {n : Nat} (hn : n < 2 ^ 53) (hpos : 0 < n) :
    ∃ m e lowest, Binary.ofFloat n.toUInt64.toFloat = ⟨false, .finite m e lowest⟩ ∧
      (m : ℚ) * 2 ^ e = n := by
  have hword : n.toUInt64.toNat = n := by
    rw [Nat.toUInt64_eq, UInt64.toNat_ofNat']
    exact Nat.mod_eq_of_lt (by omega)
  have hround : n.toUInt64.toFloat = .ofModel (.pack (.round Format.binary64 .positive n 0)) := by
    change Float.ofModel (.pack (.normalize Format.binary64 n.toUInt64.toNat 0 .positive)) = _
    rw [hword, UnpackedFloat.normalize, Int.compare_eq_gt.2 (by omega)]
    rfl
  have hrounds := rounds_round hpos 0
  rw [← hround, zpow_zero, mul_one] at hrounds
  have hsmall : Representable n := ⟨n, 0, hn, by norm_num, by norm_num, by rw [zpow_zero, mul_one]⟩
  unfold Rounds at hrounds
  split at hrounds
  · next m e lowest hfinite =>
      exact ⟨m, e, lowest, hfinite, hrounds.2.eq_of_representable hsmall⟩
  · have hlt : (n : ℚ) * 2 ^ (0 : Int) < overflow :=
      lt_overflow_of_exponent (by exact_mod_cast hn) (by norm_num)
    rw [zpow_zero, mul_one] at hlt
    exact absurd hrounds (not_le.2 hlt)
  · exact hrounds.elim

/-- The exponent of a power of ten as a real. -/
def tenExponent (k : Nat) : Int := (10 ^ k).log2 - 52

/-- The significand of a power of ten as a real. -/
def tenSignificand (k : Nat) : Nat :=
  10 ^ k * 2 ^ (-tenExponent k).toNat / 2 ^ (tenExponent k).toNat

/-- What the table of powers of ten holds. -/
theorem powersOfTen_bits : ∀ k : Fin 23,
    Float.exactlyRepresentablePowersOfTen[k.val].toBits.toNat =
      (tenExponent k + 1074).toNat * 2 ^ 52 + tenSignificand k ∧
    (2 ^ 52 ≤ tenSignificand k ∧ tenSignificand k < 2 ^ 53) ∧
    (-1074 ≤ tenExponent k ∧ tenExponent k ≤ 971) ∧
    tenSignificand k * 2 ^ (tenExponent k).toNat = 10 ^ k.val * 2 ^ (-tenExponent k).toNat := by
  decide +kernel

/-- The table of powers of ten is exact. -/
theorem powersOfTen_exact {k : Nat} (hk : k < Float.exactlyRepresentablePowersOfTen.size) :
    ∃ m e lowest, Binary.ofFloat Float.exactlyRepresentablePowersOfTen[k] =
      ⟨false, .finite m e lowest⟩ ∧ (m : ℚ) * 2 ^ e = 10 ^ k := by
  obtain ⟨hbits, hsignificand, hexponent, hexact⟩ := powersOfTen_bits ⟨k, hk⟩
  obtain ⟨lowest, hfinite⟩ := Binary.ofFloat_eq_finite_iff.2
    ⟨⟨hsignificand.2, hexponent.1, hexponent.2, .inl hsignificand.1⟩, hbits⟩
  refine ⟨_, _, lowest, hfinite, ?_⟩
  simp only at hexact ⊢
  generalize tenExponent k = e at *
  generalize tenSignificand k = m at *
  have hpower : (2 : ℚ) ^ e * 2 ^ (-e).toNat = 2 ^ e.toNat := by
    rw [← zpow_natCast, ← zpow_natCast, ← zpow_add₀ two_ne_zero]
    congr 1
    omega
  have hcross : (m : ℚ) * 2 ^ e * 2 ^ (-e).toNat = 10 ^ k * 2 ^ (-e).toNat := by
    rw [mul_assoc, hpower]
    exact_mod_cast hexact
  exact mul_right_cancel₀ (by positivity) hcross

/-- A quotient of two reals is rounded as the quotient of their values. -/
theorem rounds_quotient {x y : Float} {m₁ m₂ : Nat} {e₁ e₂ : Int} {lowest₁ lowest₂ : Bool}
    (hx : Binary.ofFloat x = ⟨false, .finite m₁ e₁ lowest₁⟩)
    (hy : Binary.ofFloat y = ⟨false, .finite m₂ e₂ lowest₂⟩) (h₁ : 0 < m₁) (h₂ : 0 < m₂) :
    Rounds (m₁ * 2 ^ e₁ / (m₂ * 2 ^ e₂)) (x / y) := by
  change Rounds _ (.ofModel (.pack (.div Format.binary64 x.toModel.unpack y.toModel.unpack)))
  rw [Binary.unpack_of_ofFloat hx h₁, Binary.unpack_of_ofFloat hy h₂]
  exact rounds_div e₁ e₂ h₁ h₂

theorem pos_of_value_pos {m : Nat} {e : Int} (h : (0 : ℚ) < m * 2 ^ e) : 0 < m := by
  exact_mod_cast pos_of_mul_pos_left h (two_zpow_pos e).le

/-- A fraction with very many places is less than half of the least real. -/
theorem rounds_tiny {n k : Nat} (hk : n.log2 + 1076 ≤ k) :
    Rounds (n / 10 ^ k) (.ofModel (.pack (.zero .positive))) := by
  obtain ⟨c, hc⟩ : ∃ c : Nat, (c : Int) = 1074 := ⟨1074, rfl⟩
  have hten : (0 : ℚ) < 10 ^ k := by positivity
  have hvalue : (n : ℚ) / 10 ^ k = n * 2 ^ c / 10 ^ k * 2 ^ (-1074 : Int) := by
    rw [← hc, zpow_neg, zpow_natCast, mul_div_right_comm, mul_inv_cancel_right₀ (by positivity)]
  have hsmall : n * 2 ^ c * 2 < 10 ^ k := by
    calc n * 2 ^ c * 2 = n * 2 ^ (c + 1) := by rw [Nat.mul_assoc, ← Nat.pow_succ]
      _ < 2 ^ (n.log2 + 1) * 2 ^ (c + 1) :=
          Nat.mul_lt_mul_of_pos_right Nat.lt_log2_self (by positivity)
      _ ≤ 2 ^ k := by
          rw [← Nat.pow_add]
          exact Nat.pow_le_pow_right two_pos (by omega)
      _ ≤ 10 ^ k := Nat.pow_le_pow_left (by norm_num) k
  have hhalf : (n : ℚ) * 2 ^ c / 10 ^ k < 1 / 2 := by
    rw [div_lt_div_iff₀ hten two_pos, one_mul]
    exact_mod_cast hsmall
  have hnonneg : (0 : ℚ) ≤ n * 2 ^ c / 10 ^ k := by positivity
  rw [hvalue]
  generalize (n : ℚ) * 2 ^ c / 10 ^ k = y at *
  have hdist : |((0 : Nat) : ℚ) - y| = y := by
    rw [Nat.cast_zero, zero_sub, abs_neg, abs_of_nonneg hnonneg]
  exact rounds_carried (r := 0) (hdist.trans_le hhalf.le) (fun _ => rfl) (.inl rfl) (by linarith)
    le_rfl

/-- Small numbers are divided as reals: both are exact. -/
theorem rounds_fast {n k : Nat} (hn : n < 2 ^ 53)
    (hk : k < Float.exactlyRepresentablePowersOfTen.size) :
    Rounds (n / 10 ^ k) (n.toUInt64.toFloat / Float.exactlyRepresentablePowersOfTen[k]) := by
  obtain ⟨m₂, e₂, lowest₂, hy, hten⟩ := powersOfTen_exact hk
  have h₂ : 0 < m₂ := pos_of_value_pos (e := e₂) (by rw [hten]; positivity)
  rcases Nat.eq_zero_or_pos n with rfl | hpos
  · change Rounds _ (.ofModel (.pack (.div Format.binary64 (.zero .positive)
      Float.exactlyRepresentablePowersOfTen[k].toModel.unpack)))
    rw [Binary.unpack_of_ofFloat hy h₂, Nat.cast_zero, zero_div]
    exact rounds_zero
  · obtain ⟨m₁, e₁, lowest₁, hx, hexact⟩ := toFloat_exact hn hpos
    have h₁ : 0 < m₁ := pos_of_value_pos (e := e₁) (by rw [hexact]; exact_mod_cast hpos)
    rw [← hexact, ← hten]
    exact rounds_quotient hx hy h₁ h₂

/-- A decimal fraction is read as the real that it is rounded to. -/
theorem rounds_ofScientific (n : Nat) {k : Nat} (hk : 0 < k) :
    Rounds (n / 10 ^ k) (Float.ofScientific n true k) := by
  unfold Float.ofScientific
  split
  · next hfast => exact rounds_fast hfast.1 _
  · change Rounds _ (.ofModel (.pack (.ofScientific Format.binary64 n (Int.negOfNat k))))
    have hexponent : Int.negOfNat k = -(k : Int) := Int.negOfNat_eq
    have hrange : (2 : Int) ^ Format.binary64.exponentBits = 2048 := rfl
    have hplaces : (-Int.negOfNat k).toNat = k := by omega
    unfold UnpackedFloat.ofScientific
    by_cases hzero : n = 0
    · rw [dif_pos hzero, hzero, Nat.cast_zero, zero_div]
      exact rounds_zero
    rw [dif_neg hzero, if_neg (by omega)]
    by_cases htiny : Int.negOfNat k < -(2 ^ Format.binary64.exponentBits + (n.log2 : Int))
    · rw [if_pos htiny]
      exact rounds_tiny (by omega)
    · rw [if_neg htiny, if_neg (by omega)]
      have hten : 0 < 10 ^ (-Int.negOfNat k).toNat := by positivity
      have hvalue : ((10 ^ (-Int.negOfNat k).toNat : Nat) : ℚ) = 10 ^ k := by
        rw [hplaces, Nat.cast_pow, Nat.cast_ofNat]
      have hquotient := rounds_div 0 0 (Nat.pos_of_ne_zero hzero) hten
      rwa [zpow_zero, mul_one, mul_one, hvalue] at hquotient

theorem ofDigits_append (whole fraction : List Char) :
    ofDigits (whole ++ fraction) = ofDigits whole * 10 ^ fraction.length + ofDigits fraction := by
  change Nat.ofDigitChars 10 _ 0 = Nat.ofDigitChars 10 _ 0 * _ + Nat.ofDigitChars 10 _ 0
  rw [Nat.ofDigitChars_append, Nat.ofDigitChars_eq_ofDigitChars_zero, Nat.mul_comm]

/-- A literal is read as the real that it is rounded to. -/
theorem rounds_readReal (whole : List Char) {fraction : List Char} (h : fraction ≠ []) :
    Rounds (decimal whole fraction) (readReal whole fraction) := by
  have hvalue : decimal whole fraction =
      (ofDigits (whole ++ fraction) : Nat) / 10 ^ fraction.length := by
    rw [ofDigits_append, decimal]
    push_cast
    rw [add_div, mul_div_cancel_right₀ _ (by positivity)]
  rw [hvalue]
  exact rounds_ofScientific _ (List.length_pos_iff.2 h)

end UnitScript.Number
