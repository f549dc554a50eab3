import Mathlib.Algebra.Order.Field.Power
import Mathlib.Tactic.Linarith
import Mathlib.Tactic.NormNum
import Mathlib.Tactic.Ring
import UnitScript.Proofs.Number.Decoding

/-!
# Correct rounding

A rational number that is not negative is rounded to the nearest real, and to
the one with an even significand when two are equally near.  Numbers that lie
beyond the greatest real by half a step or more are rounded to infinity.

* `Number.Rounds` states this without saying how the real is found.
* `Rounds.unique` says that there is at most one such real.
* `nearest_of_rounded` reduces nearness among all reals to nearness among the
  whole multiples of one power of two.
-/

namespace UnitScript.Number

/-- A finite real has this value: a significand of 53 binary digits times a
power of two. -/
def Representable (value : ℚ) : Prop :=
  ∃ (n : Nat) (k : Int), n < 2 ^ 53 ∧ -1074 ≤ k ∧ k ≤ 971 ∧ value = n * 2 ^ k

/-- No finite real is nearer to `value` than `significand * 2 ^ exponent` is,
and when another one is as near, then `significand` is even. -/
structure Nearest (value : ℚ) (significand : Nat) (exponent : Int) : Prop where
  le : ∀ v, Representable v → |significand * 2 ^ exponent - value| ≤ |v - value|
  even : ∀ v, Representable v → v ≠ significand * 2 ^ exponent →
    |v - value| = |significand * 2 ^ exponent - value| → significand % 2 = 0

/-- Where rounding to infinity begins: halfway between the greatest real and
the next power of two. -/
def overflow : ℚ := 2 ^ 1024 - 2 ^ 970

/-- The real `x` is `value`, which is not negative, correctly rounded. -/
def Rounds (value : ℚ) (x : Float) : Prop :=
  match Binary.ofFloat x with
  | ⟨false, .finite significand exponent _⟩ =>
      value < overflow ∧ Nearest value significand exponent
  | ⟨false, .infinite⟩ => overflow ≤ value
  | _ => False

theorem two_zpow_pos (k : Int) : (0 : ℚ) < 2 ^ k := zpow_pos two_pos k

/-! ## Multiples of a power of two -/

/-- A multiple of a power of two is one of every smaller power. -/
theorem mul_zpow_eq (n : Nat) {k e : Int} (h : k ≤ e) :
    (n : ℚ) * 2 ^ e = (n * 2 ^ (e - k).toNat : Nat) * 2 ^ k := by
  have hpower : (2 : ℚ) ^ e = 2 ^ (e - k).toNat * 2 ^ k := by
    rw [← zpow_natCast, ← zpow_add₀ two_ne_zero]
    congr 1
    omega
  rw [hpower]
  push_cast
  ring

theorem Binary.Canonical.representable {m : Nat} {e : Int} (h : Binary.Canonical m e) :
    Representable (m * 2 ^ e) :=
  ⟨m, e, h.significand_lt, h.least, h.greatest, rfl⟩

/-- The exponents of reals are ordered as the reals are. -/
theorem exponent_le_of_value_le {m m' : Nat} {e e' : Int} (hc : Binary.Canonical m e)
    (hc' : Binary.Canonical m' e') (h : (m : ℚ) * 2 ^ e ≤ m' * 2 ^ e') : e ≤ e' := by
  by_contra hlt
  have hleast := hc'.least
  have hfull : 2 ^ 52 ≤ m := hc.normal.resolve_right (by omega)
  rw [mul_zpow_eq m (k := e') (by omega)] at h
  have hle : m * 2 ^ (e - e').toNat ≤ m' := by
    exact_mod_cast le_of_mul_le_mul_right h (two_zpow_pos e')
  have hgrow : 2 ^ 1 ≤ 2 ^ (e - e').toNat := Nat.pow_le_pow_right two_pos (by omega)
  have hm' := hc'.significand_lt
  have := Nat.mul_le_mul hfull hgrow
  omega

/-- A value belongs to one significand and one exponent. -/
theorem canonical_unique {m m' : Nat} {e e' : Int} (hc : Binary.Canonical m e)
    (hc' : Binary.Canonical m' e') (h : (m : ℚ) * 2 ^ e = m' * 2 ^ e') : m = m' ∧ e = e' := by
  have hexponent : e = e' :=
    le_antisymm (exponent_le_of_value_le hc hc' h.le) (exponent_le_of_value_le hc' hc h.ge)
  subst hexponent
  exact ⟨by exact_mod_cast mul_right_cancel₀ (two_zpow_pos e).ne' h, rfl⟩

/-! ## At most one real -/

/-- Of two neighbours that are equally near, one has an odd significand. -/
theorem Nearest.not_lt {q : ℚ} {m m' : Nat} {e e' : Int} (hc : Binary.Canonical m e)
    (hc' : Binary.Canonical m' e') (h : Nearest q m e) (hm : m % 2 = 0) (hm' : m' % 2 = 0)
    (hdist : |(m' : ℚ) * 2 ^ e' - q| = |m * 2 ^ e - q|) : ¬ (m : ℚ) * 2 ^ e < m' * 2 ^ e' := by
  intro hlt
  have hexponent := exponent_le_of_value_le hc hc' hlt.le
  have hpos := two_zpow_pos e
  rw [mul_zpow_eq m' hexponent] at hlt hdist
  have hparity : m' * 2 ^ (e' - e).toNat % 2 = 0 := by
    rw [Nat.mul_mod, hm', Nat.zero_mul, Nat.zero_mod]
  generalize m' * 2 ^ (e' - e).toNat = n at hlt hdist hparity
  have hless : m < n := by exact_mod_cast lt_of_mul_lt_mul_right hlt hpos.le
  have hmiddle : 2 * q = (n + m) * 2 ^ e := by
    rcases abs_eq_abs.1 hdist with heq | heq
    · linarith
    · linarith
  -- the significand is even, so the next real has the same exponent; it lies between the two
  have hnext : Representable ((m + 1 : Nat) * 2 ^ e) :=
    ⟨m + 1, e, by have := hc.significand_lt; omega, hc.least, hc.greatest, rfl⟩
  have hgap : (m : ℚ) + 2 ≤ n := by exact_mod_cast (by omega : m + 2 ≤ n)
  have hnear := h.le _ hnext
  push_cast at hnear
  rw [abs_of_nonpos (by nlinarith), abs_of_nonpos (by nlinarith)] at hnear
  linarith

theorem Nearest.unique {q : ℚ} {m m' : Nat} {e e' : Int} (hc : Binary.Canonical m e)
    (hc' : Binary.Canonical m' e') (h : Nearest q m e) (h' : Nearest q m' e') :
    m = m' ∧ e = e' := by
  have hdist : |(m' : ℚ) * 2 ^ e' - q| = |m * 2 ^ e - q| :=
    le_antisymm (h'.le _ hc.representable) (h.le _ hc'.representable)
  refine canonical_unique hc hc' (by_contra fun hne => ?_)
  have hm := h.even _ hc'.representable (Ne.symm hne) hdist
  have hm' := h'.even _ hc.representable hne hdist.symm
  rcases lt_or_gt_of_ne hne with hlt | hgt
  · exact h.not_lt hc hc' hm hm' hdist hlt
  · exact h'.not_lt hc' hc hm' hm hdist.symm hgt

/-- A number is rounded to one real only. -/
theorem Rounds.unique {q : ℚ} {x y : Float} (hx : Rounds q x) (hy : Rounds q y) : x = y := by
  unfold Rounds at hx hy
  split at hx
  · next m e lowest hofx =>
      have hcx := (Binary.ofFloat_eq_finite_iff.1 ⟨lowest, hofx⟩).1
      split at hy
      · next m' e' lowest' hofy =>
          have hcy := (Binary.ofFloat_eq_finite_iff.1 ⟨lowest', hofy⟩).1
          obtain ⟨rfl, rfl⟩ := hx.2.unique hcx hcy hy.2
          exact Binary.eq_of_ofFloat_finite hofx hofy
      · exact absurd hy (not_le.2 hx.1)
      · exact hy.elim
  · next hofx =>
      split at hy
      · exact absurd hx (not_le.2 hy.1)
      · next hofy => exact Binary.eq_of_ofFloat_infinite hofx hofy
      · exact hy.elim
  · exact hx.elim

/-! ## Finding the nearest real -/

/-- No whole number is nearer to `y` than one at most a half away. -/
theorem abs_sub_le_of_close {y : ℚ} {r : Nat} (hclose : |r - y| ≤ 1 / 2) (n : Nat) :
    |r - y| ≤ |n - y| ∧ ((n : ℚ) ≠ r → |(n : ℚ) - y| = |r - y| → |r - y| = 1 / 2) := by
  rcases eq_or_ne n r with rfl | hne
  · exact ⟨le_rfl, fun h => absurd rfl h⟩
  · have hapart : (1 : ℚ) ≤ |(n : ℚ) - r| := by
      have hint : (1 : Int) ≤ |(n : Int) - r| := Int.one_le_abs (by omega)
      exact_mod_cast hint
    have htriangle : |(n : ℚ) - r| ≤ |n - y| + |r - y| := by
      rw [abs_sub_comm (r : ℚ) y]
      exact abs_sub_le _ _ _
    exact ⟨by linarith, fun _ heq => by linarith⟩

/-- A significand that is nearest to the exact one is nearest among all reals,
if its exponent is the least one or the exact significand has 53 digits. -/
theorem nearest_of_rounded {y : ℚ} {r : Nat} {e : Int} (hclose : |r - y| ≤ 1 / 2)
    (htie : |r - y| = 1 / 2 → r % 2 = 0) (hfull : e = -1074 ∨ 2 ^ 52 ≤ y) :
    Nearest (y * 2 ^ e) r e := by
  have hpos := two_zpow_pos e
  -- what is to be shown, measured in units of the last place
  have hunits (v : ℚ) (hv : Representable v) : ∃ w : ℚ, v = w * 2 ^ e ∧ |r - y| ≤ |w - y| ∧
      (w ≠ r → |w - y| = |r - y| → r % 2 = 0) := by
    obtain ⟨n, k, hn, hleast, -, rfl⟩ := hv
    rcases le_or_gt e k with hle | hgt
    · obtain ⟨hnear, heq⟩ := abs_sub_le_of_close hclose (n * 2 ^ (k - e).toNat)
      exact ⟨_, mul_zpow_eq n hle, hnear, fun hne hdist => htie (heq hne hdist)⟩
    · -- a smaller exponent cannot reach the exact number
      have hy := hfull.resolve_left (by omega)
      have hhalf : (2 : ℚ) ^ (k - e) ≤ 2 ^ (-1 : Int) :=
        zpow_le_zpow_right₀ one_le_two (by omega)
      have hbelow : (n : ℚ) * 2 ^ (k - e) < 2 ^ 52 := by
        calc (n : ℚ) * 2 ^ (k - e) ≤ n * 2 ^ (-1 : Int) :=
              mul_le_mul_of_nonneg_left hhalf n.cast_nonneg
          _ < 2 ^ 53 * 2 ^ (-1 : Int) :=
              mul_lt_mul_of_pos_right (by exact_mod_cast hn) (two_zpow_pos _)
          _ = 2 ^ 52 := by norm_num
      have hdown := (abs_sub_le_of_close hclose (2 ^ 52)).1
      rw [Nat.cast_pow, Nat.cast_ofNat, abs_of_nonpos (by linarith : (2 : ℚ) ^ 52 - y ≤ 0)] at hdown
      have hfar : |r - y| < |(n : ℚ) * 2 ^ (k - e) - y| := by
        rw [abs_of_neg (by linarith : (n : ℚ) * 2 ^ (k - e) - y < 0)]
        linarith
      refine ⟨n * 2 ^ (k - e), ?_, hfar.le, fun _ heq => absurd heq hfar.ne'⟩
      rw [mul_assoc, ← zpow_add₀ two_ne_zero, Int.sub_add_cancel]
  have hscale (w : ℚ) : |w * 2 ^ e - y * 2 ^ e| = |w - y| * 2 ^ e := by
    rw [← sub_mul, abs_mul, abs_of_pos hpos]
  constructor
  · intro v hv
    obtain ⟨w, rfl, hle, -⟩ := hunits v hv
    rw [hscale, hscale]
    exact mul_le_mul_of_nonneg_right hle hpos.le
  · intro v hv hne hdist
    obtain ⟨w, rfl, -, heven⟩ := hunits v hv
    rw [hscale, hscale] at hdist
    exact heven (fun heq => hne (by rw [heq])) (mul_right_cancel₀ hpos.ne' hdist)

/-- A significand of 54 digits is written with the next exponent. -/
theorem Nearest.carry {q : ℚ} {e : Int} (h : Nearest q (2 ^ 53) e) :
    Nearest q (2 ^ 52) (e + 1) := by
  have hvalue : ((2 ^ 52 : Nat) : ℚ) * 2 ^ (e + 1) = (2 ^ 53 : Nat) * 2 ^ e := by
    rw [zpow_add_one₀ two_ne_zero]
    push_cast
    ring
  exact ⟨fun v hv => by rw [hvalue]; exact h.le v hv, fun _ _ _ _ => rfl⟩

/-- A number that is a real is rounded to itself. -/
theorem Nearest.eq_of_representable {q : ℚ} {m : Nat} {e : Int} (h : Nearest q m e)
    (hq : Representable q) : (m : ℚ) * 2 ^ e = q := by
  have hnear := h.le q hq
  rw [sub_self, abs_zero] at hnear
  exact sub_eq_zero.1 (abs_nonpos_iff.1 hnear)

end UnitScript.Number
