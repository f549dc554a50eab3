import UnitScript.Proofs.Number.Bounds

/-!
# Rounding with signs

The sign of a real is a bit of its own, so negative numbers are rounded like
positive ones.  Zero has two reals, which compare as equal.

* `unpack_neg` and `ofModel_pack_neg` say that a sign can be changed before or
  after a real is stored.
* `RoundsTo` is correct rounding of any rational number, and `RoundsTo.beq`
  that its results compare as equal.
* `exactly_of_roundsTo` says which reals hold a number without rounding it.
  Sums, differences and products of such reals are rounded only once:
  `RoundsTo.add`, `RoundsTo.sub` and `RoundsTo.mul`.
* `roundsTo_ofInt` is the same for whole numbers, and `div_one_eq_self` says that
  division by one changes nothing.
-/

namespace UnitScript.Number

open Float.Model (Format UnpackedFloat)
open Float.Model.UnpackedFloat (Accuracy Sign packComponents pack_unpack_of_valid
  roundWithAccuracy unpackExponent_packComponents unpackMantissa_packComponents
  unpackSign_packComponents unpack_packedNaN)

/-! ## Changing the sign -/

theorem unpack_packComponents_neg (sign : Sign) (exponent : BitVec 11) (mantissa : BitVec 52) :
    UnpackedFloat.unpack Format.binary64
        (packComponents Format.binary64 (-sign) exponent mantissa) =
      (UnpackedFloat.unpack Format.binary64
        (packComponents Format.binary64 sign exponent mantissa)).neg := by
  simp only [UnpackedFloat.unpack, unpackSign_packComponents, unpackExponent_packComponents,
    unpackMantissa_packComponents, Sign.ofBitVec_toBitVec]
  split
  · split <;> rfl
  · split
    · split <;> rfl
    · rfl

/-- A number and its opposite are stored with the same fields but for the sign. -/
theorem pack_neg {u : UnpackedFloat} (h : u ≠ .notANumber) :
    ∃ sign exponent mantissa,
      u.pack Format.binary64 = packComponents Format.binary64 sign exponent mantissa ∧
      u.neg.pack Format.binary64 = packComponents Format.binary64 (-sign) exponent mantissa := by
  cases u with
  | notANumber => exact absurd rfl h
  | infinity sign => exact ⟨sign, _, _, rfl, rfl⟩
  | zero sign => exact ⟨sign, _, _, rfl, rfl⟩
  | finite sign m e hpos =>
    simp only [UnpackedFloat.neg, UnpackedFloat.pack]
    split
    · exact ⟨sign, _, _, rfl, rfl⟩
    · split
      · exact ⟨sign, _, _, rfl, rfl⟩
      · exact ⟨sign, _, _, rfl, rfl⟩

theorem unpack_pack_neg (u : UnpackedFloat) :
    UnpackedFloat.unpack Format.binary64 (u.neg.pack Format.binary64) =
      (UnpackedFloat.unpack Format.binary64 (u.pack Format.binary64)).neg := by
  by_cases h : u = .notANumber
  · subst h
    change UnpackedFloat.unpack _ (UnpackedFloat.packedNaN _) =
      (UnpackedFloat.unpack _ (UnpackedFloat.packedNaN _)).neg
    rw [unpack_packedNaN, UnpackedFloat.neg]
  · obtain ⟨sign, exponent, mantissa, hpack, hneg⟩ := pack_neg h
    rw [hpack, hneg, unpack_packComponents_neg]

/-- Storing what arithmetic takes a real apart into gives the real back. -/
theorem ofModel_pack_unpack (x : Float) : Float.ofModel (.pack x.toModel.unpack) = x :=
  Float.toBits_inj.1 (UInt64.toBitVec_inj.1 (pack_unpack_of_valid x.toModel.valid))

theorem eq_of_unpack {x y : Float} (h : x.toModel.unpack = y.toModel.unpack) : x = y := by
  rw [← ofModel_pack_unpack x, h, ofModel_pack_unpack]

theorem unpack_neg (x : Float) : (-x).toModel.unpack = x.toModel.unpack.neg := by
  have hstored : x.toModel.unpack.pack Format.binary64 = x.toModel.toBits.toBitVec :=
    pack_unpack_of_valid x.toModel.valid
  refine (unpack_pack_neg x.toModel.unpack).trans ?_
  rw [hstored]
  rfl

theorem unpackedNeg_neg (u : UnpackedFloat) : u.neg.neg = u := by
  rcases u with (_ | _) | _ | (_ | _) | ⟨_ | _, _, _, _⟩ <;> rfl

theorem float_neg_neg (x : Float) : - -x = x :=
  eq_of_unpack (by rw [unpack_neg, unpack_neg, unpackedNeg_neg])

/-- The sign can be changed before or after a real is stored. -/
theorem ofModel_pack_neg (u : UnpackedFloat) :
    Float.ofModel (.pack u.neg) = -(Float.ofModel (.pack u)) := by
  apply eq_of_unpack
  rw [unpack_neg]
  exact unpack_pack_neg u

theorem roundWithAccuracy_neg (sign : Sign) (m : Nat) (e : Int) (accuracy : Accuracy) :
    roundWithAccuracy Format.binary64 (-sign) m e accuracy =
      (roundWithAccuracy Format.binary64 sign m e accuracy).neg := by
  unfold roundWithAccuracy
  simp only
  split <;> rfl

/-! ## Correct rounding of any number -/

/-- The real `x` is `value` correctly rounded.  Both zeros are correct for zero. -/
def RoundsTo (value : ℚ) (x : Float) : Prop :=
  (0 ≤ value ∧ Rounds value x) ∨ (value ≤ 0 ∧ Rounds (-value) (-x))

theorem RoundsTo.neg {q : ℚ} {x : Float} (h : RoundsTo q x) : RoundsTo (-q) (-x) := by
  rcases h with ⟨hsign, h⟩ | ⟨hsign, h⟩
  · refine .inr ⟨neg_nonpos.2 hsign, ?_⟩
    rwa [neg_neg, float_neg_neg]
  · exact .inl ⟨neg_nonneg.2 hsign, h⟩

theorem roundsTo_zero (sign : Sign) : RoundsTo 0 (.ofModel (.pack (.zero sign))) := by
  have hpositive : RoundsTo 0 (.ofModel (.pack (.zero .positive))) := .inl ⟨le_rfl, rounds_zero⟩
  cases sign with
  | positive => exact hpositive
  | negative =>
    have h := hpositive.neg
    rwa [neg_zero, ← ofModel_pack_neg] at h

/-- A rounded number is a number. -/
theorem Rounds.ne_nan {q : ℚ} {x : Float} (h : Rounds q x) : x ≠ Float.nan := by
  rintro rfl
  have hnan : Binary.ofFloat Float.nan = ⟨false, .notANumber⟩ := by decide
  unfold Rounds at h
  rwa [hnan] at h

theorem RoundsTo.ne_nan {q : ℚ} {x : Float} (h : RoundsTo q x) : x ≠ Float.nan := by
  rcases h with ⟨_, h⟩ | ⟨_, h⟩
  · exact h.ne_nan
  · rintro rfl
    exact h.ne_nan (by decide)

/-- The reals that a number is rounded to compare as equal. -/
theorem RoundsTo.beq {q : ℚ} {x y : Float} (hx : RoundsTo q x) (hy : RoundsTo q y) :
    (x == y) = true := by
  have hzero {z : Float} (hz : Rounds 0 z) : z = 0 := hz.unique rounds_zero
  have hopposite {z : Float} (hz : Rounds (-0) (-z)) : z = -0 := by
    rw [neg_zero] at hz
    rw [← float_neg_neg z, hzero hz]
  refine Float.beq_iff_ne_nan_and_eq.2 ⟨hx.ne_nan, hy.ne_nan, ?_⟩
  -- with different signs, the number is zero, and the reals are the two zeros
  rcases hx with ⟨hsign, hx⟩ | ⟨hsign, hx⟩ <;> rcases hy with ⟨hsign', hy⟩ | ⟨hsign', hy⟩
  · exact .inl (hx.unique hy)
  · obtain rfl := le_antisymm hsign' hsign
    exact .inr (.inl ⟨hzero hx, hopposite hy⟩)
  · obtain rfl := le_antisymm hsign hsign'
    exact .inr (.inr ⟨hopposite hx, hzero hy⟩)
  · refine .inl ?_
    rw [← float_neg_neg x, hx.unique hy, float_neg_neg]

/-- A real that compares equal to one is one: only the two zeros are different
reals that compare equal. -/
theorem eq_one_of_beq {x : Float} (h : (x == 1.0) = true) : x = 1.0 := by
  obtain ⟨_, _, heq | ⟨_, hzero⟩ | ⟨_, hzero⟩⟩ := Float.beq_iff_ne_nan_and_eq.1 h
  · exact heq
  · exact absurd hzero (by decide)
  · exact absurd hzero (by decide)

/-! ## Reals that hold a number exactly -/

/-- A number with a sign. -/
def signed (sign : Sign) (value : ℚ) : ℚ :=
  match sign with
  | .positive => value
  | .negative => -value

theorem signed_neg (sign : Sign) (q : ℚ) : signed (-sign) q = -signed sign q := by
  cases sign
  · exact (neg_neg q).symm
  · rfl

theorem signed_mul (s₁ s₂ : Sign) (a b : ℚ) :
    signed (s₁ * s₂) (a * b) = signed s₁ a * signed s₂ b := by
  cases s₁ <;> cases s₂
  · exact (neg_mul_neg a b).symm
  · exact (neg_mul a b).symm
  · exact (mul_neg a b).symm
  · rfl

theorem cast_apply (sign : Sign) (m : Nat) : ((sign.apply m : Int) : ℚ) = signed sign m := by
  cases sign
  · exact Int.cast_neg _
  · rfl

/-- The parts of a finite real, with the number that it holds. -/
inductive Exactly : ℚ → UnpackedFloat → Prop
  | zero (sign : Sign) : Exactly 0 (.zero sign)
  | finite (sign : Sign) {m : Nat} {e : Int} (hpos : 0 < m) (h : Binary.Canonical m e) :
      Exactly (signed sign (m * 2 ^ e)) (.finite sign m e hpos)

theorem Exactly.neg {q : ℚ} {u : UnpackedFloat} (h : Exactly q u) : Exactly (-q) u.neg := by
  cases h with
  | zero sign =>
    rw [neg_zero]
    exact .zero _
  | finite sign hpos hc =>
    rw [← signed_neg]
    exact .finite _ hpos hc

theorem Representable.lt_overflow {q : ℚ} (h : Representable q) : q < overflow := by
  obtain ⟨n, k, hn, -, hk, rfl⟩ := h
  rcases hk.lt_or_eq with hless | rfl
  · exact lt_overflow_of_exponent (by exact_mod_cast hn) (by omega)
  · have hle : (n : ℚ) + 1 ≤ 2 ^ 53 := by exact_mod_cast hn
    rw [overflow_eq]
    exact mul_lt_mul_of_pos_right (by linarith) (two_zpow_pos _)

/-- A real that a number is rounded to holds it if any real does. -/
theorem exactly_of_rounds {q : ℚ} {x : Float} (h : Rounds q x) (hq : Representable q) :
    Exactly q x.toModel.unpack := by
  unfold Rounds at h
  split at h
  · next m e lowest hx =>
      have hvalue := h.2.eq_of_representable hq
      rcases Nat.eq_zero_or_pos m with rfl | hpos
      · rw [Nat.cast_zero, zero_mul] at hvalue
        subst hvalue
        have hzero : x = .ofModel (.pack (.zero .positive)) :=
          (rounds_of_finite ⟨lowest, hx⟩ h.1 h.2).unique rounds_zero
        rw [hzero]
        exact .zero .positive
      · rw [Binary.unpack_of_ofFloat hx hpos, ← hvalue]
        exact .finite .positive hpos (Binary.ofFloat_eq_finite_iff.1 ⟨lowest, hx⟩).1
  · exact absurd hq.lt_overflow (not_lt.2 h)
  · exact h.elim

/-- So does one with a sign. -/
theorem exactly_of_roundsTo {q : ℚ} {x : Float} (h : RoundsTo q x) (hq : Representable |q|) :
    Exactly q x.toModel.unpack := by
  rcases h with ⟨hsign, h⟩ | ⟨hsign, h⟩
  · rw [abs_of_nonneg hsign] at hq
    exact exactly_of_rounds h hq
  · rw [abs_of_nonpos hsign] at hq
    have hopposite := (exactly_of_rounds h hq).neg
    rwa [unpack_neg, unpackedNeg_neg, neg_neg] at hopposite

/-! ## Arithmetic -/

theorem roundsTo_roundWithAccuracy (sign : Sign) {m : Nat} {e : Int} {accuracy : Accuracy} {y : ℚ}
    (hy : Tracks (.ofMantissaAndAccuracy m accuracy) y) (hready : 52 ≤ m.log2 ∨ e ≤ -1074) :
    RoundsTo (signed sign (y * 2 ^ e))
      (.ofModel (.pack (roundWithAccuracy Format.binary64 sign m e accuracy))) := by
  have hnonneg : 0 ≤ y := (Nat.cast_nonneg _).trans hy.bounds.1
  have hpositive : RoundsTo (y * 2 ^ e)
      (.ofModel (.pack (roundWithAccuracy Format.binary64 .positive m e accuracy))) :=
    .inl ⟨mul_nonneg hnonneg (two_zpow_pos e).le, rounds_roundWithAccuracy hy hready⟩
  cases sign with
  | positive => exact hpositive
  | negative =>
    have h := hpositive.neg
    rwa [← ofModel_pack_neg, ← roundWithAccuracy_neg] at h

/-- A multiple of a power of two is rounded correctly, whatever its sign. -/
theorem roundsTo_normalize (k : Int) (e : Int) (sign : Sign) :
    RoundsTo (k * 2 ^ e) (.ofModel (.pack (.normalize Format.binary64 k e sign))) := by
  have hround {m : Nat} (hm : 0 < m) :
      RoundsTo (m * 2 ^ e) (.ofModel (.pack (.round Format.binary64 .positive m e))) :=
    .inl ⟨mul_nonneg m.cast_nonneg (two_zpow_pos e).le, rounds_round hm e⟩
  unfold UnpackedFloat.normalize
  split
  · next hless =>
      have hk : k < 0 := Int.compare_eq_lt.1 hless
      have hvalue : (k : ℚ) = -((-k).toNat : Nat) := by
        have hint : k = -((-k).toNat : Int) := by omega
        exact_mod_cast hint
      have hopposite := (hround (m := (-k).toNat) (by omega)).neg
      rw [← ofModel_pack_neg, UnpackedFloat.round, ← roundWithAccuracy_neg] at hopposite
      rw [hvalue, neg_mul]
      exact hopposite
  · next hequal =>
      obtain rfl := Int.compare_eq_eq.1 hequal
      rw [Int.cast_zero, zero_mul]
      exact roundsTo_zero sign
  · next hgreater =>
      have hk : 0 < k := Int.compare_eq_gt.1 hgreater
      have hvalue : (k : ℚ) = (k.toNat : Nat) := by
        have hint : k = (k.toNat : Int) := by omega
        exact_mod_cast hint
      rw [hvalue]
      exact hround (by omega)

/-- A multiple of a power of two as one of a smaller power. -/
theorem apply_decreaseExponent (sign : Sign) (m : Nat) {e k : Int} (h : k ≤ e) :
    ((sign.apply (UnpackedFloat.decreaseExponent m e k).1 : Int) : ℚ) * 2 ^ k =
      signed sign (m * 2 ^ e) := by
  rw [cast_apply, mul_zpow_eq m h, UnpackedFloat.decreaseExponent, Nat.shiftLeft_eq]
  cases sign
  · exact neg_mul _ _
  · rfl

section Operators

variable {a b : ℚ} {x y : Float}

/-- The sum of two numbers that reals hold is rounded once. -/
theorem RoundsTo.add (hx : RoundsTo a x) (hy : RoundsTo b y) (ha : Representable |a|)
    (hb : Representable |b|) : RoundsTo (a + b) (x + y) := by
  have hleft := exactly_of_roundsTo hx ha
  have hright := exactly_of_roundsTo hy hb
  change RoundsTo _ (.ofModel (.pack (.add Format.binary64 x.toModel.unpack y.toModel.unpack)))
  generalize hu : x.toModel.unpack = u at hleft ⊢
  generalize hv : y.toModel.unpack = v at hright ⊢
  cases hleft with
  | zero sign =>
    cases hright with
    | zero sign' =>
      rw [add_zero]
      simp only [UnpackedFloat.add]
      split
      · exact roundsTo_zero _
      · exact roundsTo_zero _
    | finite sign' hpos hc =>
      -- the sum is the other operand, which is not rounded again
      simp only [UnpackedFloat.add]
      rw [← hv, ofModel_pack_unpack, zero_add]
      exact hy
  | @finite sign m e hpos hc =>
    cases hright with
    | zero sign' =>
      simp only [UnpackedFloat.add]
      rw [← hu, ofModel_pack_unpack, add_zero]
      exact hx
    | @finite sign' m' e' hpos' hc' =>
      -- both are multiples of the smaller power of two, and so is the sum
      rw [← apply_decreaseExponent sign m (min_le_left e e'),
        ← apply_decreaseExponent sign' m' (min_le_right e e'), ← add_mul, ← Int.cast_add]
      exact roundsTo_normalize _ _ _

/-- A difference is the sum with the opposite. -/
theorem float_sub_eq (x y : Float) : x - y = x + -y := by
  change Float.ofModel (.pack (.sub Format.binary64 x.toModel.unpack y.toModel.unpack)) =
    .ofModel (.pack (.add Format.binary64 x.toModel.unpack (-y).toModel.unpack))
  rw [unpack_neg]
  generalize x.toModel.unpack = u
  generalize y.toModel.unpack = v
  congr 2
  cases u with
  | finite sign m e hpos =>
    cases v with
    | finite sign' m' e' hpos' =>
      have hopposite (k k' : Int) : k - sign'.apply k' = k + (-sign').apply k' := by
        cases sign'
        · exact sub_neg_eq_add k k'
        · exact sub_eq_add_neg k k'
      simp only [UnpackedFloat.sub, UnpackedFloat.add, UnpackedFloat.neg, hopposite]
    | _ => rfl
  | _ => cases v <;> rfl

/-- The difference of two numbers that reals hold is rounded once. -/
theorem RoundsTo.sub (hx : RoundsTo a x) (hy : RoundsTo b y) (ha : Representable |a|)
    (hb : Representable |b|) : RoundsTo (a - b) (x - y) := by
  rw [sub_eq_add_neg, float_sub_eq]
  exact hx.add hy.neg ha (by rwa [abs_neg])

/-- The product of two numbers that reals hold is rounded once. -/
theorem RoundsTo.mul (hx : RoundsTo a x) (hy : RoundsTo b y) (ha : Representable |a|)
    (hb : Representable |b|) : RoundsTo (a * b) (x * y) := by
  have hleft := exactly_of_roundsTo hx ha
  have hright := exactly_of_roundsTo hy hb
  change RoundsTo _ (.ofModel (.pack (.mul Format.binary64 x.toModel.unpack y.toModel.unpack)))
  generalize x.toModel.unpack = u at hleft ⊢
  generalize y.toModel.unpack = v at hright ⊢
  cases hleft with
  | zero sign =>
    rw [zero_mul]
    cases hright with
    | zero sign' => exact roundsTo_zero _
    | finite sign' hpos hc => exact roundsTo_zero _
  | @finite sign m e hpos hc =>
    cases hright with
    | zero sign' =>
      rw [mul_zero]
      exact roundsTo_zero _
    | @finite sign' m' e' hpos' hc' =>
      rw [← signed_mul, product_eq]
      exact roundsTo_roundWithAccuracy _ (tracks_exact _) (product_ready hpos hpos' hc hc')

end Operators

/-! ## Whole numbers -/

/-- A natural number is rounded correctly when it is made a real. -/
theorem rounds_ofNat (n : Nat) : Rounds n (Float.ofNat n) := by
  rcases Nat.eq_zero_or_pos n with rfl | hpos
  · have hzero : Float.ofNat 0 = .ofModel (.pack (.zero .positive)) := by decide
    rw [hzero, Nat.cast_zero]
    exact rounds_zero
  change Rounds n (Float.ofScientific n false 0)
  unfold Float.ofScientific
  split
  · next hfast =>
      obtain ⟨m₁, e₁, lowest₁, hx, hexact⟩ := toFloat_exact hfast.1 hpos
      obtain ⟨m₂, e₂, lowest₂, hy, hone⟩ := powersOfTen_exact (k := 0) (by decide)
      rw [pow_zero] at hone
      have h₁ : 0 < m₁ := pos_of_value_pos (e := e₁) (by rw [hexact]; exact_mod_cast hpos)
      have h₂ : 0 < m₂ := pos_of_value_pos (e := e₂) (by rw [hone]; exact one_pos)
      have hproduct := rounds_product hx hy h₁ h₂
      rw [hexact, hone, mul_one] at hproduct
      exact hproduct
  · change Rounds _ (.ofModel (.pack (.ofScientific Format.binary64 n 0)))
    have hrange : (0 : Int) < 2 ^ Format.binary64.exponentBits := by decide
    have hready : 52 ≤ (n <<< 53 * 10 ^ 0).log2 := by
      rw [pow_zero, Nat.mul_one]
      have hlower : 2 ^ 52 ≤ n <<< 53 :=
        (Nat.pow_le_pow_right two_pos (by omega)).trans (two_pow_le_shiftLeft hpos 53)
      exact (Nat.le_log2 (by omega)).2 hlower
    have hvalue : ((n <<< 53 * 10 ^ 0 : Nat) : ℚ) * 2 ^ (-53 + 0 : Int) = n := by
      rw [Nat.shiftLeft_eq]
      push_cast
      norm_num [mul_assoc]
    have hproduct := rounds_roundWithAccuracy (e := -53 + 0) (tracks_exact (n <<< 53 * 10 ^ 0))
      (.inl hready)
    rw [hvalue] at hproduct
    unfold UnpackedFloat.ofScientific
    rw [dif_neg hpos.ne', if_neg (by omega), if_neg (by omega), if_pos (by omega)]
    exact hproduct

theorem roundsTo_ofInt (n : Int) : RoundsTo n (Float.ofInt n) := by
  cases n with
  | ofNat n => exact .inl ⟨by exact_mod_cast n.cast_nonneg, by exact_mod_cast rounds_ofNat n⟩
  | negSucc n =>
    have h : RoundsTo (n + 1 : Nat) (Float.ofNat (n + 1)) :=
      .inl ⟨Nat.cast_nonneg _, rounds_ofNat (n + 1)⟩
    rw [Int.cast_negSucc]
    exact h.neg

/-! ## Division by one -/

theorem float_neg_div (x y : Float) : -x / y = -(x / y) := by
  change Float.ofModel (.pack (.div Format.binary64 (-x).toModel.unpack y.toModel.unpack)) =
    -Float.ofModel (.pack (.div Format.binary64 x.toModel.unpack y.toModel.unpack))
  have hsign (s s' : Sign) : -s / s' = -(s / s') := by
    cases s <;> cases s' <;> rfl
  rw [unpack_neg, ← ofModel_pack_neg]
  congr 2
  generalize x.toModel.unpack = u
  generalize y.toModel.unpack = v
  cases u <;> cases v <;>
    simp only [UnpackedFloat.div, UnpackedFloat.neg, hsign, roundWithAccuracy_neg]

/-- A real is rounded to itself. -/
theorem rounds_self {x : Float} {m : Nat} {e : Int} {lowest : Bool}
    (h : Binary.ofFloat x = ⟨false, .finite m e lowest⟩) : Rounds (m * 2 ^ e) x := by
  have hc := (Binary.ofFloat_eq_finite_iff.1 ⟨lowest, h⟩).1
  refine rounds_of_finite ⟨lowest, h⟩ hc.representable.lt_overflow
    ⟨fun v _ => ?_, fun v _ hne hdist => ?_⟩
  · rw [sub_self, abs_zero]
    exact abs_nonneg _
  · rw [sub_self, abs_zero, abs_eq_zero, sub_eq_zero] at hdist
    exact absurd hdist hne

/-- What a number is rounded to stays the same when it is divided by one. -/
theorem Rounds.div_one_eq_self {q : ℚ} {x : Float} (h : Rounds q x) : x / 1.0 = x := by
  obtain ⟨m₁, e₁, lowest₁, hone, hlower, hupper⟩ := withinBits_one
  have hvalue : (m₁ : ℚ) * 2 ^ e₁ = 1 := by
    rw [pow_zero] at hlower hupper
    exact le_antisymm hupper (by simpa using hlower)
  unfold Rounds at h
  split at h
  · next m e lowest hx =>
      rcases Nat.eq_zero_or_pos m with rfl | hpos
      · have hzero : x = 0 := by
          have hself := rounds_self hx
          rw [Nat.cast_zero, zero_mul] at hself
          exact hself.unique rounds_zero
        rw [hzero]
        decide
      · have hquotient := rounds_quotient hx hone hpos
          (pos_of_value_pos (by rw [hvalue]; exact one_pos))
        rw [hvalue, div_one] at hquotient
        exact hquotient.unique (rounds_self hx)
  · next hx =>
      have hinfinite : x = .ofModel (.pack (.infinity .positive)) :=
        Binary.eq_of_ofFloat_infinite hx (by decide)
      rw [hinfinite]
      decide
  · exact h.elim

theorem RoundsTo.div_one_eq_self {q : ℚ} {x : Float} (h : RoundsTo q x) : x / 1.0 = x := by
  rcases h with ⟨_, h⟩ | ⟨_, h⟩
  · exact h.div_one_eq_self
  · rw [← float_neg_neg (x / 1.0), ← float_neg_div, h.div_one_eq_self, float_neg_neg]

end UnitScript.Number
