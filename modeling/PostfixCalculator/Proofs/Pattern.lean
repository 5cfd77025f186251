import Mathlib
import PostfixCalculator.Decimal.Binary64

/-! Floats and their bit patterns: a float is taken apart into sign, exponent and significand and
put together again without loss, so its pattern gives it back. -/
namespace PostfixCalculator.Binary64

open Float.Model (Format UnpackedFloat)
open Float.Model.UnpackedFloat

abbrev Bits := BitVec Format.binary64.numBits

theorem pack_subnormal (s : Sign) {m : Nat} (hm : 0 < m) (hlt : m < 2 ^ 52) :
    pack .binary64 (.finite s m (-1074) hm) = packComponents .binary64 s 0 (BitVec.ofNat _ m) := by
  have hlog : m.log2 < 52 := (Nat.log2_lt hm.ne').mpr hlt
  have hbits : m.log2 + 1 ≠ Format.binary64.mantissaBits := by
    change m.log2 + 1 ≠ 53
    omega
  rw [pack]
  exact (if_neg (by decide)).trans (if_neg hbits)

theorem pack_normal (s : Sign) {m e : Nat} (hlt : m < 2 ^ 52) (he : e < 2047) :
    pack .binary64 (.finite s (2 ^ 52 + m) (e - 1075) (by omega)) =
      packComponents .binary64 s (BitVec.ofNat _ e) (BitVec.ofNat _ m) := by
  have hlog : (2 ^ 52 + m).log2 + 1 = Format.binary64.mantissaBits := by
    have hlow : 52 ≤ (2 ^ 52 + m).log2 := (Nat.le_log2 (by omega)).mpr (by omega)
    have hhigh : (2 ^ 52 + m).log2 < 53 := (Nat.log2_lt (by omega)).mpr (by omega)
    change (2 ^ 52 + m).log2 + 1 = 53
    omega
  have hexp : ((e : Int) - 1075 + (Format.binary64.exponentBias : Nat) +
      (Format.binary64.mantissaBitsWithoutImplicit : Nat)).toNat = e := by
    change ((e : Int) - 1075 + 1023 + 52).toNat = e
    omega
  have hman : (BitVec.ofNat 52 (2 ^ 52 + m)) = BitVec.ofNat 52 m := by
    apply BitVec.eq_of_toNat_eq
    simp only [BitVec.toNat_ofNat]
    omega
  rw [pack]
  dsimp only
  rw [hexp, if_neg (by omega), if_pos hlog]
  exact congrArg _ hman

theorem extract_append (b : BitVec 64) :
    b.extractLsb' 63 1 ++ b.extractLsb' 52 11 ++ b.extractLsb' 0 52 = b := by
  rw [BitVec.extractLsb'_append_extractLsb'_eq_extractLsb' (by decide),
    BitVec.extractLsb'_append_extractLsb'_eq_extractLsb' (by decide)]
  simp

theorem packComponents_unpack (b : Bits) : packComponents .binary64 (.ofBitVec (unpackSign b))
    (unpackExponent b) (unpackMantissa b) = b := by
  have hsign : ∀ s : BitVec 1, (Sign.ofBitVec s).toBitVec = s := by decide
  rw [packComponents, hsign]
  exact extract_append b

/-- Only what is no number has patterns that are not kept apart. -/
theorem pack_unpack {b : Bits} (h : Format.binary64.Valid b) :
    pack .binary64 (unpack .binary64 b) = b := by
  have hparts := packComponents_unpack b
  have hman : (unpackMantissa b).toNat < 2 ^ 52 := (unpackMantissa b).isLt
  unfold unpack
  dsimp only
  split
  next hexp =>
    split
    next hzero =>
      rw [hexp, hzero] at hparts
      exact hparts
    next hzero => exact (h.eq_packedNaN hexp hzero).symm
  next hexp =>
    split
    next hexp0 =>
      split
      next hzero =>
        rw [hexp0, hzero] at hparts
        exact hparts
      next hzero =>
        have hpos : 0 < (unpackMantissa b).toNat := by
          simpa [BitVec.toNat_pos, BitVec.pos_iff_ne_zero] using hzero
        have he : ((unpackExponent b).toNat : Int) - ((Format.binary64.exponentBias : Nat) +
            (Format.binary64.mantissaBitsWithoutImplicit : Nat)) + 1 = -1074 := by
          rw [hexp0]
          rfl
        simp only [he]
        rw [pack_subnormal _ hpos hman, BitVec.ofNat_toNat, BitVec.setWidth_eq]
        rw [hexp0] at hparts
        exact hparts
    next hexp0 =>
      have he : (unpackExponent b).toNat < 2047 := by
        have hlt : (unpackExponent b).toNat < 2048 := (unpackExponent b).isLt
        have hne : (unpackExponent b).toNat ≠ 2047 := fun h => hexp (BitVec.eq_of_toNat_eq h)
        omega
      have hsig : (1#1 ++ unpackMantissa b).toNat = 2 ^ 52 + (unpackMantissa b).toNat := by
        rw [BitVec.toNat_append, ← Nat.shiftLeft_add_eq_or_of_lt hman]
        rfl
      have hnormal := pack_normal (.ofBitVec (unpackSign b)) hman he
      rw [BitVec.ofNat_toNat, BitVec.ofNat_toNat, BitVec.setWidth_eq, BitVec.setWidth_eq] at hnormal
      simp only [hsig]
      exact hnormal.trans hparts

theorem ofBits_toBits (x : Float) : Float.ofBits x.toBits = x := by
  obtain ⟨⟨bits, hvalid⟩⟩ := x
  have hpack : pack .binary64 (unpack .binary64 bits.toBitVec) = bits.toBitVec := pack_unpack hvalid
  simp [Float.ofBits, Float.toBits, Float.Model.ofBits, Float.Model.pack, hpack]

theorem toNat_unpackExponent (b : Bits) : (unpackExponent b).toNat = b.toNat / 2 ^ 52 % 2 ^ 11 := by
  simp only [unpackExponent, BitVec.extractLsb, BitVec.extractLsb', BitVec.toNat_cast,
    BitVec.toNat_ofNat, Nat.shiftRight_eq_div_pow]

theorem toNat_unpackMantissa (b : Bits) : (unpackMantissa b).toNat = b.toNat % 2 ^ 52 := by
  simp [unpackMantissa]

theorem eq_packedNaN {b : Bits} (h : Format.binary64.Valid b)
    (hlt : infinity < b.toNat % signBit) : b = packedNaN .binary64 := by
  have hbits : b.toNat < 2 ^ 64 := b.isLt
  simp only [infinity, signBit] at hlt
  have hexponent : unpackExponent b = -1#11 := by
    apply BitVec.eq_of_toNat_eq
    rw [toNat_unpackExponent]
    change b.toNat / 2 ^ 52 % 2 ^ 11 = 2047
    omega
  have hmantissa : unpackMantissa b ≠ 0#52 := by
    intro hzero
    have hlow := congrArg BitVec.toNat hzero
    rw [toNat_unpackMantissa] at hlow
    change b.toNat % 2 ^ 52 = 0 at hlow
    omega
  exact h.eq_packedNaN hexponent hmantissa

theorem valid_of_le {b : Bits} (h : b.toNat ≤ infinity) : Format.binary64.Valid b where
  eq_packedNaN hexponent hmantissa := by
    simp only [infinity] at h
    have hhigh := congrArg BitVec.toNat hexponent
    rw [toNat_unpackExponent] at hhigh
    change b.toNat / 2 ^ 52 % 2 ^ 11 = 2047 at hhigh
    have hlow : b.toNat % 2 ^ 52 ≠ 0 := by
      rw [← toNat_unpackMantissa]
      exact fun hzero => hmantissa (BitVec.eq_of_toNat_eq hzero)
    omega

theorem toBits_ofBits {n : Nat} (h : n ≤ infinity) :
    (Float.ofBits (UInt64.ofNat n)).toBits.toNat = n := by
  have hn : (BitVec.ofNat 64 n).toNat = n := Nat.mod_eq_of_lt (h.trans_lt (by decide))
  have hpack : (Float.ofBits (UInt64.ofNat n)).toBits.toBitVec = BitVec.ofNat 64 n :=
    pack_unpack (valid_of_le (hn.trans_le h))
  rw [← UInt64.toNat_toBitVec, hpack, hn]

theorem eq_of_infinity_lt {x : Float} (h : infinity < magnitude x) :
    x = Float.ofBits 0x7FF8000000000000 := by
  have hpattern : x.toBits = 0x7FF8000000000000 :=
    UInt64.toBitVec_inj.mp ((eq_packedNaN x.toModel.valid h).trans (by decide))
  rw [← hpattern, ofBits_toBits]

end PostfixCalculator.Binary64
