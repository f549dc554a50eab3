import Mathlib
import UnitScript.Number.Power
import UnitScript.Proofs.Number.Reading

/-!
# Products and powers in range

Rounding does not carry a number past a power of two.  So the size of a product,
a quotient or a power is known from the sizes of its factors, to the bit and
whatever is rounded on the way.

* `rounds_product` says that products are rounded correctly.
* `WithinBits` says that a real is positive and between two powers of two.  It is
  kept by rounding (`withinBits_of_rounds`), and from there by `WithinBits.mul`,
  `WithinBits.div` and `WithinBits.power`.
* `WithinBits.isNaN_div` says that division by such a real gives a number, unless there
  is none to divide.

The lemmas on `Float` and its model are in no file of Mathlib's own, so the whole of it
is imported here.
-/

namespace UnitScript.Number

open Float.Model (Format UnpackedFloat)
open Float.Model.UnpackedFloat (Accuracy Sign isNaN_unpack_iff_of_valid packComponents packedNaN
  roundWithAccuracy unpackExponent unpackExponent_packComponents unpackMantissa
  unpackMantissa_packComponents)

/-! ## Products -/

/-- A product has enough digits, unless both factors are among the least reals. -/
theorem product_ready {m₁ m₂ : Nat} {e₁ e₂ : Int} (h₁ : 0 < m₁) (h₂ : 0 < m₂)
    (hc₁ : Binary.Canonical m₁ e₁) (hc₂ : Binary.Canonical m₂ e₂) :
    52 ≤ (m₁ * m₂).log2 ∨ e₁ + e₂ ≤ -1074 := by
  have hlog (h : 2 ^ 52 ≤ m₁ * m₂) : 52 ≤ (m₁ * m₂).log2 := (Nat.le_log2 (by omega)).2 h
  rcases hc₁.normal with hfull | hleast
  · exact .inl (hlog (hfull.trans (Nat.le_mul_of_pos_right _ h₂)))
  · rcases hc₂.normal with hfull | hleast'
    · exact .inl (hlog (hfull.trans (Nat.le_mul_of_pos_left _ h₁)))
    · exact .inr (by omega)

theorem product_eq (m₁ m₂ : Nat) (e₁ e₂ : Int) :
    (m₁ : ℚ) * 2 ^ e₁ * (m₂ * 2 ^ e₂) = (m₁ * m₂ : Nat) * 2 ^ (e₁ + e₂) := by
  rw [zpow_add₀ two_ne_zero]
  push_cast
  ring

/-- A product of two reals is rounded as the product of their values. -/
theorem rounds_product {x y : Float} {m₁ m₂ : Nat} {e₁ e₂ : Int} {lowest₁ lowest₂ : Bool}
    (hx : Binary.ofFloat x = ⟨false, .finite m₁ e₁ lowest₁⟩)
    (hy : Binary.ofFloat y = ⟨false, .finite m₂ e₂ lowest₂⟩) (h₁ : 0 < m₁) (h₂ : 0 < m₂) :
    Rounds (m₁ * 2 ^ e₁ * (m₂ * 2 ^ e₂)) (x * y) := by
  have hc₁ := (Binary.ofFloat_eq_finite_iff.1 ⟨_, hx⟩).1
  have hc₂ := (Binary.ofFloat_eq_finite_iff.1 ⟨_, hy⟩).1
  change Rounds _ (.ofModel (.pack (.mul Format.binary64 x.toModel.unpack y.toModel.unpack)))
  rw [Binary.unpack_of_ofFloat hx h₁, Binary.unpack_of_ofFloat hy h₂, product_eq]
  exact rounds_roundWithAccuracy (tracks_exact _) (product_ready h₁ h₂ hc₁ hc₂)

/-! ## Reals between powers of two -/

/-- The real is positive, and it is between two to the power `-bits` and two to
the power `bits`. -/
def WithinBits (bits : Nat) (x : Float) : Prop :=
  ∃ m e lowest, Binary.ofFloat x = ⟨false, .finite m e lowest⟩ ∧
    ((2 : ℚ) ^ bits)⁻¹ ≤ m * 2 ^ e ∧ (m : ℚ) * 2 ^ e ≤ 2 ^ bits

variable {bits bits' : Nat} {x y : Float}

theorem WithinBits.mono (h : WithinBits bits x) (hle : bits ≤ bits') : WithinBits bits' x := by
  obtain ⟨m, e, lowest, hx, hlower, hupper⟩ := h
  have hpower : (2 : ℚ) ^ bits ≤ 2 ^ bits' := pow_le_pow_right₀ one_le_two hle
  exact ⟨m, e, lowest, hx, (inv_anti₀ (by positivity) hpower).trans hlower, hupper.trans hpower⟩

theorem WithinBits.isFinite (h : WithinBits bits x) : x.isFinite = true := by
  obtain ⟨m, e, lowest, hx, hlower, -⟩ := h
  have hpos : 0 < m := pos_of_value_pos (lt_of_lt_of_le (by positivity) hlower)
  change x.toModel.unpack.isFinite = true
  rw [Binary.unpack_of_ofFloat hx hpos]
  rfl

/-- Powers of two in the range of reals are reals. -/
theorem representable_two_zpow {k : Int} (hleast : -1074 ≤ k) (hgreatest : k ≤ 1023) :
    Representable (2 ^ k) := by
  rcases le_or_gt k 971 with hle | hgt
  · exact ⟨1, k, by norm_num, hleast, hle, by rw [Nat.cast_one, one_mul]⟩
  · obtain ⟨n, hn⟩ : ∃ n : Nat, k = n + 971 := ⟨(k - 971).toNat, by omega⟩
    refine ⟨2 ^ n, 971, Nat.pow_lt_pow_right (by norm_num) (by omega), by norm_num, le_rfl, ?_⟩
    rw [hn, zpow_add₀ two_ne_zero, zpow_natCast, Nat.cast_pow, Nat.cast_ofNat]

/-- What is nearest to a number is on the same side of every real. -/
theorem Nearest.le_of_le {q v : ℚ} {m : Nat} {e : Int} (h : Nearest q m e) (hv : Representable v)
    (hq : q ≤ v) : (m : ℚ) * 2 ^ e ≤ v := by
  by_contra hlt
  have hnear := h.le v hv
  rw [abs_of_nonneg (by linarith), abs_of_nonneg (by linarith)] at hnear
  linarith

theorem Nearest.ge_of_ge {q v : ℚ} {m : Nat} {e : Int} (h : Nearest q m e) (hv : Representable v)
    (hq : v ≤ q) : v ≤ (m : ℚ) * 2 ^ e := by
  by_contra hlt
  have hnear := h.le v hv
  rw [abs_of_nonpos (by linarith), abs_of_nonpos (by linarith)] at hnear
  linarith

/-- The greatest power of two that is a real. -/
theorem two_pow_lt_overflow : (2 : ℚ) ^ 1023 < overflow := by
  have hdouble : (2 : ℚ) ^ 1024 = 2 ^ 1023 * 2 := pow_succ _ _
  have hstep : (2 : ℚ) ^ 970 < 2 ^ 1023 := pow_lt_pow_right₀ one_lt_two (by norm_num)
  rw [overflow, hdouble]
  generalize (2 : ℚ) ^ 1023 = greatest at *
  generalize (2 : ℚ) ^ 970 = step at *
  linarith

/-- A number between two powers of two is rounded to a real between them. -/
theorem withinBits_of_rounds {q : ℚ} (h : Rounds q x) (hbits : bits ≤ 1023)
    (hlower : ((2 : ℚ) ^ bits)⁻¹ ≤ q) (hupper : q ≤ 2 ^ bits) : WithinBits bits x := by
  have hleast : Representable ((2 : ℚ) ^ bits)⁻¹ := by
    rw [← zpow_natCast, ← zpow_neg]
    exact representable_two_zpow (by omega) (by omega)
  have hgreatest : Representable ((2 : ℚ) ^ bits) := by
    rw [← zpow_natCast]
    exact representable_two_zpow (by omega) (by omega)
  unfold Rounds at h
  split at h
  · next m e lowest hx =>
      exact ⟨m, e, lowest, hx, h.2.ge_of_ge hleast hlower, h.2.le_of_le hgreatest hupper⟩
  · have hpower : (2 : ℚ) ^ bits ≤ 2 ^ 1023 := pow_le_pow_right₀ one_le_two hbits
    exact absurd (h.trans (hupper.trans hpower)) (not_le.2 two_pow_lt_overflow)
  · exact h.elim

/-- A decimal fraction in range. -/
theorem withinBits_ofScientific (n : Nat) {places : Nat} (hplaces : 0 < places)
    (hbits : bits ≤ 1023) (hlower : ((2 : ℚ) ^ bits)⁻¹ ≤ n / 10 ^ places)
    (hupper : (n : ℚ) / 10 ^ places ≤ 2 ^ bits) :
    WithinBits bits (Float.ofScientific n true places) :=
  withinBits_of_rounds (rounds_ofScientific n hplaces) hbits hlower hupper

theorem withinBits_one : WithinBits 0 1.0 :=
  withinBits_ofScientific 10 one_pos (by norm_num) (by norm_num) (by norm_num)

theorem WithinBits.mul (hx : WithinBits bits x) (hy : WithinBits bits' y)
    (hbits : bits + bits' ≤ 1023) :
    WithinBits (bits + bits') (x * y) := by
  obtain ⟨m₁, e₁, lowest₁, hofx, hlower₁, hupper₁⟩ := hx
  obtain ⟨m₂, e₂, lowest₂, hofy, hlower₂, hupper₂⟩ := hy
  have hpos₁ : (0 : ℚ) < m₁ * 2 ^ e₁ := lt_of_lt_of_le (by positivity) hlower₁
  have hpos₂ : (0 : ℚ) < m₂ * 2 ^ e₂ := lt_of_lt_of_le (by positivity) hlower₂
  refine withinBits_of_rounds
    (rounds_product hofx hofy (pos_of_value_pos hpos₁) (pos_of_value_pos hpos₂)) hbits ?_ ?_
  · rw [pow_add, mul_inv]
    exact mul_le_mul hlower₁ hlower₂ (by positivity) hpos₁.le
  · rw [pow_add]
    exact mul_le_mul hupper₁ hupper₂ hpos₂.le (by positivity)

theorem WithinBits.div (hx : WithinBits bits x) (hy : WithinBits bits' y)
    (hbits : bits + bits' ≤ 1023) :
    WithinBits (bits + bits') (x / y) := by
  obtain ⟨m₁, e₁, lowest₁, hofx, hlower₁, hupper₁⟩ := hx
  obtain ⟨m₂, e₂, lowest₂, hofy, hlower₂, hupper₂⟩ := hy
  have hpos₁ : (0 : ℚ) < m₁ * 2 ^ e₁ := lt_of_lt_of_le (by positivity) hlower₁
  have hpos₂ : (0 : ℚ) < m₂ * 2 ^ e₂ := lt_of_lt_of_le (by positivity) hlower₂
  refine withinBits_of_rounds
    (rounds_quotient hofx hofy (pos_of_value_pos hpos₁) (pos_of_value_pos hpos₂)) hbits ?_ ?_
  · rw [pow_add, mul_inv, div_eq_mul_inv]
    exact mul_le_mul hlower₁ (inv_anti₀ hpos₂ hupper₂) (by positivity) hpos₁.le
  · have hinv : ((m₂ : ℚ) * 2 ^ e₂)⁻¹ ≤ 2 ^ bits' := by
      rw [← inv_inv ((2 : ℚ) ^ bits')]
      exact inv_anti₀ (by positivity) hlower₂
    rw [pow_add, div_eq_mul_inv]
    exact mul_le_mul hupper₁ hinv (by positivity) (by positivity)

/-! ## Powers -/

/-- Each round of squaring doubles the bits of the base and halves the count, so
what is to come stays the same. -/
theorem WithinBits.squareMultiply {base product : Float} (hproduct : WithinBits bits product)
    (hbase : WithinBits bits' base) (fuel : Nat) {count : Nat}
    (hbits : bits + bits' * count ≤ 1023) :
    WithinBits (bits + bits' * count) (squareMultiply fuel base product count) := by
  induction fuel generalizing bits bits' base product count with
  | zero => exact hproduct.mono (Nat.le_add_right _ _)
  | succ fuel ih =>
    have hcount : bits' * count = bits' * (count % 2) + (bits' + bits') * (count / 2) := by
      conv_lhs => rw [← Nat.mod_add_div count 2]
      ring
    have hodd : WithinBits (bits + bits' * (count % 2))
        (if count % 2 = 1 then product * base else product) := by
      split
      · next hone =>
          rw [hone, Nat.mul_one]
          exact hproduct.mul hbase (by rw [hone] at hcount; omega)
      · exact hproduct.mono (Nat.le_add_right _ _)
    rw [Number.squareMultiply]
    split
    · next hlast =>
        rw [hlast, Nat.mul_zero, Nat.add_zero] at hcount
        rw [hcount]
        exact hodd
    · next hmore =>
        have hdouble : bits' + bits' ≤ (bits' + bits') * (count / 2) :=
          Nat.le_mul_of_pos_right _ (Nat.pos_of_ne_zero hmore)
        rw [hcount, ← Nat.add_assoc] at hbits ⊢
        exact ih hodd (hbase.mul hbase (by omega)) hbits

/-- The bits of a power are those of the base, as often as the exponent says. -/
theorem WithinBits.power (h : WithinBits bits x) {exponent : Int}
    (hbits : bits * exponent.natAbs ≤ 1023) :
    WithinBits (bits * exponent.natAbs) (power x exponent) := by
  have hresult := withinBits_one.squareMultiply h exponent.natAbs
    (show 0 + bits * exponent.natAbs ≤ 1023 by omega)
  rw [Nat.zero_add] at hresult
  unfold Number.power
  simp only
  split
  · have hreciprocal := withinBits_one.div hresult (by omega)
    rw [Nat.zero_add] at hreciprocal
    exact hreciprocal
  · exact hresult

/-! ## Quotients that are no number -/

theorem roundWithAccuracy_ne_notANumber (sign : Sign) (m : Nat) (e : Int)
    (accuracy : Accuracy) :
    roundWithAccuracy Format.binary64 sign m e accuracy ≠ .notANumber := by
  unfold roundWithAccuracy
  simp only
  split <;> exact nofun

theorem packComponents_ne_packedNaN {sign : Sign} {exponent : BitVec 11}
    {mantissa : BitVec 52} (h : exponent ≠ -1#11 ∨ mantissa = 0#52) :
    packComponents Format.binary64 sign exponent mantissa ≠ packedNaN Format.binary64 := by
  intro heq
  have hexponent : exponent = -1#11 := by
    have hfield := congrArg unpackExponent heq
    rwa [unpackExponent_packComponents, packedNaN, unpackExponent_packComponents] at hfield
  have hmantissa : mantissa = 1#52 <<< 51 := by
    have hfield := congrArg unpackMantissa heq
    rwa [unpackMantissa_packComponents, packedNaN, unpackMantissa_packComponents] at hfield
  rcases h with hfinite | hzero
  · exact hfinite hexponent
  · rw [hzero] at hmantissa
    exact absurd hmantissa (by decide)

/-- Only what is not a number is stored as such. -/
theorem pack_ne_packedNaN {u : UnpackedFloat} (h : u ≠ .notANumber) :
    u.pack Format.binary64 ≠ packedNaN Format.binary64 := by
  fun_cases UnpackedFloat.pack with
  | case1 => exact absurd rfl h
  | case2 s => exact packComponents_ne_packedNaN (.inr rfl)
  | case3 s => exact packComponents_ne_packedNaN (.inr rfl)
  | case4 s m e hm biasedExponent hlarge => exact packComponents_ne_packedNaN (.inr rfl)
  | case5 s m e hm digits biasedExponent hsmall hnormal =>
    refine packComponents_ne_packedNaN (.inl fun heq => ?_)
    have hfield := congrArg BitVec.toNat heq
    rw [BitVec.toNat_ofNat] at hfield
    change biasedExponent % 2048 = 2047 at hfield
    change ¬ 2048 ≤ biasedExponent + 1 at hsmall
    omega
  | case6 s m e hm digits biasedExponent hsmall hnormal =>
    exact packComponents_ne_packedNaN (.inl (by decide))

theorem isNaN_pack {u : UnpackedFloat} (h : u ≠ .notANumber) :
    (Float.ofModel (.pack u)).isNaN = false :=
  Bool.eq_false_iff.2 fun hnan =>
    pack_ne_packedNaN h ((isNaN_unpack_iff_of_valid (Float.Model.pack u).valid).1 hnan)

/-- A number divided by a real other than zero and infinity is a number. -/
theorem div_ne_notANumber {u : UnpackedFloat} (h : u ≠ .notANumber) {m : Nat} (e : Int)
    (hpos : 0 < m) : u.div Format.binary64 (.finite .positive m e hpos) ≠ .notANumber := by
  cases u with
  | notANumber => exact absurd rfl h
  | infinity sign => exact nofun
  | zero sign => exact nofun
  | finite sign m' e' hpos' => exact roundWithAccuracy_ne_notANumber _ _ _ _

/-- A quotient by a real in range is a number if the dividend is one. -/
theorem WithinBits.isNaN_div (hy : WithinBits bits y) (h : (x / y).isNaN = true) :
    x.isNaN = true := by
  obtain ⟨m, e, lowest, hofy, hlower, -⟩ := hy
  have hpos : 0 < m := pos_of_value_pos (lt_of_lt_of_le (by positivity) hlower)
  change (Float.ofModel (.pack (.div Format.binary64 x.toModel.unpack y.toModel.unpack))).isNaN
    = true at h
  rw [Binary.unpack_of_ofFloat hofy hpos] at h
  change x.toModel.unpack.isNaN = true
  rw [UnpackedFloat.isNaN_iff]
  by_contra hnumber
  rw [isNaN_pack (div_ne_notANumber hnumber e hpos)] at h
  cases h

end UnitScript.Number
