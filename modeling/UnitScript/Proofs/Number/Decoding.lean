import Mathlib.Algebra.Order.Ring.Nat
import UnitScript.Number.Binary

/-!
# The bits of finite reals

A finite real that is not negative is stored as a field for its exponent and
a field for its significand.  `Number.Binary.ofFloat` takes the two apart in
whole numbers; the arithmetic of reals does the same with words.

* `Binary.Canonical` says which significands and exponents are stored.
* `ofFloat_eq_finite_iff` and `ofFloat_eq_infinite_iff` give the bits behind a
  magnitude, so that the magnitude determines the real
  (`eq_of_ofFloat_finite`, `eq_of_ofFloat_infinite`).
* `ofFloat_pack` says what becomes of a significand and an exponent when they
  are stored, and `unpack_of_ofFloat` what arithmetic makes of them again.
-/

namespace UnitScript.Number.Binary

open Float.Model (Format UnpackedFloat)
open Float.Model.UnpackedFloat (Sign packComponents packedInfinity unpackMantissa unpackExponent
  unpackSign)

/-- The significand and the exponent of a finite real: 53 binary digits, all of
them used unless the exponent is the least one. -/
structure Canonical (significand : Nat) (exponent : Int) : Prop where
  significand_lt : significand < 2 ^ 53
  least : -1074 ≤ exponent
  greatest : exponent ≤ 971
  normal : 2 ^ 52 ≤ significand ∨ exponent = -1074

/-! ## Magnitudes and bits -/

theorem toBits_lt (x : Float) : x.toBits.toNat < 2 ^ 64 := x.toBits.toNat_lt

theorem eq_of_toBits {x y : Float} (h : x.toBits.toNat = y.toBits.toNat) : x = y := by
  have hbits : x.toBits = y.toBits := UInt64.toNat_inj.1 h
  obtain ⟨⟨xbits, _⟩⟩ := x
  obtain ⟨⟨ybits, _⟩⟩ := y
  obtain rfl : xbits = ybits := hbits
  rfl

/-- A finite magnitude stands for these bits and no others. -/
theorem ofFloat_eq_finite_iff {x : Float} {significand : Nat} {exponent : Int} :
    (∃ lowest, ofFloat x = ⟨false, .finite significand exponent lowest⟩) ↔
      Canonical significand exponent ∧
        x.toBits.toNat = (exponent + 1074).toNat * 2 ^ 52 + significand := by
  have hlt := toBits_lt x
  unfold ofFloat
  constructor
  · rintro ⟨lowest, h⟩
    obtain ⟨hsign, hmagnitude⟩ := Binary.mk.inj h
    have hpositive := of_decide_eq_false hsign
    split at hmagnitude
    · split at hmagnitude <;> cases hmagnitude
    · split at hmagnitude
      · cases hmagnitude
        unfold hidden at *
        exact ⟨⟨by omega, by omega, by omega, .inr rfl⟩, by omega⟩
      · cases hmagnitude
        unfold hidden at *
        exact ⟨⟨by omega, by omega, by omega, .inl (by omega)⟩, by omega⟩
  · rintro ⟨⟨hsignificand, hleast, hgreatest, hnormal⟩, hbits⟩
    have hpositive : ¬ x.toBits.toNat / (2048 * hidden) = 1 := by
      unfold hidden
      omega
    have hfield : ¬ x.toBits.toNat / hidden % 2048 = 2047 := by
      unfold hidden
      omega
    simp only [decide_eq_false hpositive, if_neg hfield, Binary.mk.injEq, true_and]
    by_cases hzero : x.toBits.toNat / hidden % 2048 = 0
    · refine ⟨false, ?_⟩
      rw [if_pos hzero, Magnitude.finite.injEq]
      unfold hidden at *
      exact ⟨by omega, by omega, rfl⟩
    · refine ⟨x.toBits.toNat % hidden = 0 && x.toBits.toNat / hidden % 2048 > 1, ?_⟩
      rw [if_neg hzero, Magnitude.finite.injEq]
      unfold hidden at *
      exact ⟨by omega, by omega, rfl⟩

theorem ofFloat_eq_infinite_iff {x : Float} :
    ofFloat x = ⟨false, .infinite⟩ ↔ x.toBits.toNat = 2047 * 2 ^ 52 := by
  have hlt := toBits_lt x
  unfold ofFloat
  constructor
  · intro h
    obtain ⟨hsign, hmagnitude⟩ := Binary.mk.inj h
    have hpositive := of_decide_eq_false hsign
    split at hmagnitude
    · split at hmagnitude
      · unfold hidden at *
        omega
      · cases hmagnitude
    · split at hmagnitude <;> cases hmagnitude
  · intro hbits
    rw [hbits]
    decide

theorem eq_of_ofFloat_finite {x y : Float} {significand : Nat} {exponent : Int}
    {lowest lowest' : Bool}
    (hx : ofFloat x = ⟨false, .finite significand exponent lowest⟩)
    (hy : ofFloat y = ⟨false, .finite significand exponent lowest'⟩) : x = y := by
  have hxbits := (ofFloat_eq_finite_iff.1 ⟨lowest, hx⟩).2
  have hybits := (ofFloat_eq_finite_iff.1 ⟨lowest', hy⟩).2
  exact eq_of_toBits (hxbits.trans hybits.symm)

theorem eq_of_ofFloat_infinite {x y : Float} (hx : ofFloat x = ⟨false, .infinite⟩)
    (hy : ofFloat y = ⟨false, .infinite⟩) : x = y :=
  eq_of_toBits ((ofFloat_eq_infinite_iff.1 hx).trans (ofFloat_eq_infinite_iff.1 hy).symm)

/-! ## Storing -/

/-- The bits of the parts of a real that is not negative. -/
theorem toNat_packComponents (exponent : BitVec 11) (mantissa : BitVec 52) :
    (packComponents Format.binary64 .positive exponent mantissa).toNat =
      exponent.toNat * 2 ^ 52 + mantissa.toNat := by
  have hfields : (packComponents Format.binary64 .positive exponent mantissa).toNat =
      (Sign.toBitVec .positive ++ exponent).toNat <<< 52 ||| mantissa.toNat :=
    BitVec.toNat_append _ _
  have hexponent : (Sign.toBitVec .positive ++ exponent).toNat = exponent.toNat := by
    rw [BitVec.toNat_append, Sign.toBitVec, BitVec.toNat_ofNat, Nat.zero_mod, Nat.zero_shiftLeft,
      Nat.zero_or]
  rw [hfields, hexponent, ← Nat.shiftLeft_add_eq_or_of_lt mantissa.isLt, Nat.shiftLeft_eq]

/-- The bits of a real that is made from a significand and an exponent. -/
theorem toNat_pack {significand : Nat} (exponent : Int) (hpos : 0 < significand) :
    (UnpackedFloat.pack Format.binary64 (.finite .positive significand exponent hpos)).toNat =
      if 971 < exponent then 2047 * 2 ^ 52
      else if significand.log2 = 52 then
        (exponent + 1075).toNat % 2 ^ 11 * 2 ^ 52 + significand % 2 ^ 52
      else significand % 2 ^ 52 := by
  have hbiased : exponent + Format.binary64.exponentBias +
      Format.binary64.mantissaBitsWithoutImplicit = exponent + 1075 := Int.add_assoc _ 1023 52
  have hpack : UnpackedFloat.pack Format.binary64 (.finite .positive significand exponent hpos) =
      if 2048 ≤ (exponent + 1075).toNat + 1 then packedInfinity Format.binary64 .positive
      else if significand.log2 + 1 = 53 then
        packComponents Format.binary64 .positive (BitVec.ofNat 11 (exponent + 1075).toNat)
          (BitVec.ofNat 52 significand)
      else packComponents Format.binary64 .positive 0#11 (BitVec.ofNat 52 significand) := by
    rw [← hbiased]
    rfl
  rw [hpack]
  by_cases hlarge : 971 < exponent
  · rw [if_pos hlarge, if_pos (by omega)]
    rfl
  · rw [if_neg hlarge, if_neg (by omega)]
    by_cases hlog : significand.log2 = 52
    · rw [if_pos hlog, if_pos (by omega), toNat_packComponents, BitVec.toNat_ofNat,
        BitVec.toNat_ofNat]
    · rw [if_neg hlog, if_neg (by omega), toNat_packComponents,
        BitVec.toNat_ofNat, BitVec.toNat_ofNat, Nat.zero_mod, Nat.zero_mul, Nat.zero_add]

/-- A real made from a significand and an exponent that it can hold has them. -/
theorem ofFloat_pack {significand : Nat} {exponent : Int} (hpos : 0 < significand)
    (h : Canonical significand exponent) :
    ∃ lowest, ofFloat (.ofModel (.pack (.finite .positive significand exponent hpos))) =
      ⟨false, .finite significand exponent lowest⟩ := by
  refine ofFloat_eq_finite_iff.2 ⟨h, (toNat_pack exponent hpos).trans ?_⟩
  obtain ⟨hsignificand, hleast, hgreatest, hnormal⟩ := h
  rw [if_neg (by omega)]
  by_cases hfull : 2 ^ 52 ≤ significand
  · rw [if_pos ((Nat.log2_eq_iff (by omega)).2 ⟨hfull, hsignificand⟩)]
    omega
  · have hlog : significand.log2 < 52 := (Nat.log2_lt (by omega)).2 (by omega)
    rw [if_neg (by omega)]
    omega

/-- An exponent that is too large makes an infinity. -/
theorem ofFloat_pack_infinite {significand : Nat} {exponent : Int} (hpos : 0 < significand)
    (h : 971 < exponent) :
    ofFloat (.ofModel (.pack (.finite .positive significand exponent hpos))) = ⟨false, .infinite⟩ :=
  ofFloat_eq_infinite_iff.2 ((toNat_pack exponent hpos).trans (if_pos h))

/-! ## Taking apart again -/

theorem toNat_unpackMantissa (bits : BitVec 64) :
    (@unpackMantissa Format.binary64 bits).toNat = bits.toNat % 2 ^ 52 := by
  simp [unpackMantissa]

theorem toNat_unpackExponent (bits : BitVec 64) :
    (@unpackExponent Format.binary64 bits).toNat = bits.toNat / 2 ^ 52 % 2 ^ 11 := by
  simp [unpackExponent, Nat.shiftRight_eq_div_pow]

theorem toNat_unpackSign (bits : BitVec 64) :
    (@unpackSign Format.binary64 bits).toNat = bits.toNat / 2 ^ 63 % 2 := by
  change (bits.extractLsb 63 63).toNat = _
  simp [Nat.shiftRight_eq_div_pow]

/-- Arithmetic takes a real apart into the same significand and exponent. -/
theorem unpack_of_ofFloat {x : Float} {significand : Nat} {exponent : Int} {lowest : Bool}
    (h : ofFloat x = ⟨false, .finite significand exponent lowest⟩) (hpos : 0 < significand) :
    x.toModel.unpack = .finite .positive significand exponent hpos := by
  obtain ⟨⟨hsignificand, hleast, hgreatest, hnormal⟩, hbits⟩ := ofFloat_eq_finite_iff.1 ⟨lowest, h⟩
  have hmantissa := toNat_unpackMantissa x.toBits.toBitVec
  have hexponent := toNat_unpackExponent x.toBits.toBitVec
  have hsign := toNat_unpackSign x.toBits.toBitVec
  change _ = x.toBits.toNat % 2 ^ 52 at hmantissa
  change _ = x.toBits.toNat / 2 ^ 52 % 2 ^ 11 at hexponent
  change _ = x.toBits.toNat / 2 ^ 63 % 2 at hsign
  have hpositive : Sign.ofBitVec (@unpackSign Format.binary64 x.toBits.toBitVec) = .positive := by
    have hbit : @unpackSign Format.binary64 x.toBits.toBitVec = 0#1 := by
      apply BitVec.eq_of_toNat_eq
      rw [hsign, BitVec.toNat_ofNat]
      omega
    rw [hbit, Sign.ofBitVec, if_pos rfl]
  have hfinite : @unpackExponent Format.binary64 x.toBits.toBitVec ≠ -1#_ := by
    intro heq
    rw [heq] at hexponent
    change 2047 = _ at hexponent
    omega
  change UnpackedFloat.unpack Format.binary64 x.toBits.toBitVec = _
  unfold UnpackedFloat.unpack
  rw [if_neg hfinite, hpositive]
  have hbias : (Format.binary64.exponentBias : Int) + Format.binary64.mantissaBitsWithoutImplicit =
    1075 := rfl
  by_cases hzero : @unpackExponent Format.binary64 x.toBits.toBitVec = 0#_
  · rw [hzero] at hexponent
    change 0 = _ at hexponent
    have hstored : @unpackMantissa Format.binary64 x.toBits.toBitVec ≠ 0#_ := by
      intro heq
      rw [heq] at hmantissa
      change 0 = _ at hmantissa
      omega
    rw [if_pos hzero, dif_neg hstored, UnpackedFloat.finite.injEq, hbias, hmantissa, hzero,
      BitVec.toNat_ofNat, Nat.zero_mod]
    exact ⟨rfl, by omega, by omega⟩
  · have hfield : (@unpackExponent Format.binary64 x.toBits.toBitVec).toNat ≠ 0 := by
      intro heq
      exact hzero (BitVec.eq_of_toNat_eq heq)
    have hfull : (1#1 ++ @unpackMantissa Format.binary64 x.toBits.toBitVec).toNat =
        2 ^ 52 + x.toBits.toNat % 2 ^ 52 := by
      rw [BitVec.toNat_append, ← Nat.shiftLeft_add_eq_or_of_lt (BitVec.isLt _), hmantissa]
      rfl
    rw [if_neg hzero, UnpackedFloat.finite.injEq, hbias, hfull, hexponent]
    exact ⟨rfl, by omega, by omega⟩

end UnitScript.Number.Binary
