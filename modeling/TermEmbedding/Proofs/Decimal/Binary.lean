import Mathlib
import TermEmbedding.Decimal.Layout

/-!
# The binary form of a floating-point number

A finite number other than zero is a sign, a significand and an exponent, and among all such triples
for one value exactly one is stored: the one whose significand fills its 53 bits, or, close to zero,
the one of the least exponent. Storing a triple of that form and taking it apart again gives the
triple, and storing what a number was taken apart into gives the number, so statements about numbers
can be made about triples.
-/

open Float.Model Float.Model.UnpackedFloat

namespace TermEmbedding

namespace Binary

/-- The significands and exponents of the triples that are stored. -/
structure Canonical (significand : Nat) (exponent : Int) : Prop where
  pos : 0 < significand
  lt : significand < 2 ^ 53
  least : -1074 ≤ exponent
  greatest : exponent ≤ 971
  full : 2 ^ 52 ≤ significand ∨ exponent = -1074

/-! ## The fields of the storage -/

private theorem toNat_unpackMantissa (b : BitVec Format.binary64.numBits) :
    (unpackMantissa b).toNat = b.toNat % 2 ^ 52 := by
  simp [unpackMantissa]

private theorem toNat_unpackExponent (b : BitVec Format.binary64.numBits) :
    (unpackExponent b).toNat = b.toNat / 2 ^ 52 % 2 ^ 11 := by
  simp [unpackExponent, Nat.shiftRight_eq_div_pow]

private theorem toNat_unpackSign (b : BitVec Format.binary64.numBits) :
    (unpackSign b).toNat = b.toNat / 2 ^ 63 := by
  have hb : b.toNat < 2 ^ 64 := b.isLt
  simp only [unpackSign, BitVec.toNat_cast, BitVec.extractLsb_toNat, Nat.shiftRight_eq_div_pow]
  norm_num
  omega

private theorem toNat_implicit (b : BitVec 52) : (1#1 ++ b).toNat = 2 ^ 52 + b.toNat := by
  rw [BitVec.toNat_append, ← Nat.shiftLeft_add_eq_or_of_lt b.isLt]
  rfl

private theorem packComponents_eq {b : BitVec Format.binary64.numBits} {s : Sign}
    {e : BitVec Format.binary64.exponentBits}
    {m : BitVec Format.binary64.mantissaBitsWithoutImplicit}
    (hs : s = Sign.ofBitVec (unpackSign b)) (he : e = unpackExponent b)
    (hm : m = unpackMantissa b) : packComponents Format.binary64 s e m = b := by
  have hsign : s.toBitVec = unpackSign b := by
    rw [hs]
    generalize unpackSign b = sign
    revert sign
    decide
  rw [packComponents, hsign, he, hm]
  apply BitVec.eq_of_getLsbD_eq
  intro i hi
  simp only [unpackSign, unpackExponent, unpackMantissa, BitVec.getLsbD_append]
  simp
  grind

private theorem unpackSign_packComponents (s : Sign) (e : BitVec Format.binary64.exponentBits)
    (m : BitVec Format.binary64.mantissaBitsWithoutImplicit) :
    Sign.ofBitVec (unpackSign (packComponents Format.binary64 s e m)) = s := by
  have hsign : unpackSign (packComponents Format.binary64 s e m) = s.toBitVec := by
    apply BitVec.eq_of_getLsbD_eq
    intro i hi
    obtain rfl : i = 0 := by omega
    simp only [unpackSign, packComponents, BitVec.getLsbD_cast, BitVec.getLsbD_extractLsb]
    rw [BitVec.getLsbD_append, BitVec.getLsbD_append]
    simp
  rw [hsign]
  cases s <;> rfl

/-! ## Taking a number apart -/

/-- What a triple is taken from: without the implicit bit if the exponent field is zero, and with it
otherwise. -/
theorem unpack_eq_finite {a : Float.Model} {s : Sign} {m : Nat} {e : Int} {h : 0 < m}
    (ha : a.unpack = .finite s m e h) :
    s = Sign.ofBitVec (@unpackSign Format.binary64 a.toBits.toBitVec) ∧
    (@unpackExponent Format.binary64 a.toBits.toBitVec).toNat ≠ 2047 ∧
    ((@unpackExponent Format.binary64 a.toBits.toBitVec).toNat = 0 ∧
        m = (@unpackMantissa Format.binary64 a.toBits.toBitVec).toNat ∧ e = -1074 ∨
      (@unpackExponent Format.binary64 a.toBits.toBitVec).toNat ≠ 0 ∧
        m = 2 ^ 52 + (@unpackMantissa Format.binary64 a.toBits.toBitVec).toNat ∧
        e = ((@unpackExponent Format.binary64 a.toBits.toBitVec).toNat : Int) - 1075) := by
  have hbias : (Format.binary64.exponentBias : Int) + (52 : Nat) = 1075 := by decide
  rw [Float.Model.unpack, UnpackedFloat.unpack] at ha
  simp only [hbias] at ha
  split at ha
  · split at ha <;> cases ha
  · rename_i hinf
    have hmax : (@unpackExponent Format.binary64 a.toBits.toBitVec).toNat ≠ 2047 :=
      fun hc ↦ hinf (BitVec.eq_of_toNat_eq hc)
    split at ha
    · rename_i hexp
      have hzero : (@unpackExponent Format.binary64 a.toBits.toBitVec).toNat = 0 :=
        congrArg BitVec.toNat hexp
      split at ha
      · cases ha
      · cases ha
        exact ⟨rfl, hmax, .inl ⟨hzero, rfl, by rw [hzero]; rfl⟩⟩
    · rename_i hexp
      have hne : (@unpackExponent Format.binary64 a.toBits.toBitVec).toNat ≠ 0 :=
        fun hc ↦ hexp (BitVec.eq_of_toNat_eq hc)
      cases ha
      exact ⟨rfl, hmax, .inr ⟨hne, toNat_implicit _, rfl⟩⟩

theorem unpack_eq_zero {a : Float.Model} {s : Sign} (ha : a.unpack = .zero s) :
    s = Sign.ofBitVec (@unpackSign Format.binary64 a.toBits.toBitVec) ∧
    (@unpackExponent Format.binary64 a.toBits.toBitVec).toNat = 0 ∧
    (@unpackMantissa Format.binary64 a.toBits.toBitVec).toNat = 0 := by
  rw [Float.Model.unpack, UnpackedFloat.unpack] at ha
  dsimp only at ha
  split at ha
  · split at ha <;> cases ha
  · split at ha
    · rename_i hexp
      split at ha
      · rename_i hmant
        cases ha
        exact ⟨rfl, congrArg BitVec.toNat hexp, congrArg BitVec.toNat hmant⟩
      · cases ha
    · cases ha

/-- A number that is taken apart into a triple has the stored form of it. -/
theorem canonical_of_unpack {a : Float.Model} {s : Sign} {m : Nat} {e : Int} {h : 0 < m}
    (ha : a.unpack = .finite s m e h) : Canonical m e := by
  have hm : (@unpackMantissa Format.binary64 a.toBits.toBitVec).toNat < 2 ^ 52 :=
    (@unpackMantissa Format.binary64 a.toBits.toBitVec).isLt
  have he : (@unpackExponent Format.binary64 a.toBits.toBitVec).toNat < 2 ^ 11 :=
    (@unpackExponent Format.binary64 a.toBits.toBitVec).isLt
  obtain ⟨-, hmax, ⟨-, rfl, rfl⟩ | ⟨hne, rfl, rfl⟩⟩ := unpack_eq_finite ha
  · exact ⟨h, by omega, by decide, by decide, .inr rfl⟩
  · exact ⟨h, by omega, by omega, by omega, .inl (by omega)⟩

/-! ## Storing a triple -/

private theorem pack_of_full {s : Sign} {m : Nat} {e : Int} (h : 0 < m) (hfull : 2 ^ 52 ≤ m)
    (hlt : m < 2 ^ 53) (he : e ≤ 971) :
    UnpackedFloat.pack Format.binary64 (.finite s m e h) =
      packComponents Format.binary64 s (BitVec.ofNat 11 (e + 1075).toNat) (BitVec.ofNat 52 m) := by
  have hlog : m.log2 = 52 := (Nat.log2_eq_iff (by omega)).mpr ⟨hfull, hlt⟩
  have hbias : e + 1023 + 52 = e + 1075 := by omega
  simp only [UnpackedFloat.pack, Format.exponentBias, Format.mantissaBits]
  norm_num
  rw [if_neg (by omega), if_pos (by omega), hbias]

private theorem pack_of_small {s : Sign} {m : Nat} (h : 0 < m) (hlt : m < 2 ^ 52) :
    UnpackedFloat.pack Format.binary64 (.finite s m (-1074) h) =
      packComponents Format.binary64 s (BitVec.ofNat 11 0) (BitVec.ofNat 52 m) := by
  have hlog : m.log2 < 52 := (Nat.log2_lt (by omega)).mpr hlt
  simp only [UnpackedFloat.pack, Format.exponentBias, Format.mantissaBits]
  norm_num
  omega

theorem pack_unpack_finite {bits : BitVec 64}
    (hfinite : @unpackExponent Format.binary64 bits ≠ -1#11) :
    UnpackedFloat.pack Format.binary64 (UnpackedFloat.unpack Format.binary64 bits) = bits := by
  have hm : (@unpackMantissa Format.binary64 bits).toNat < 2 ^ 52 :=
    (@unpackMantissa Format.binary64 bits).isLt
  have he : (@unpackExponent Format.binary64 bits).toNat < 2 ^ 11 :=
    (@unpackExponent Format.binary64 bits).isLt
  have hmax : (@unpackExponent Format.binary64 bits).toNat ≠ 2047 :=
    fun hc ↦ hfinite (BitVec.eq_of_toNat_eq hc)
  rw [UnpackedFloat.unpack]
  dsimp only
  rw [if_neg hfinite]
  split
  · rename_i hexp
    split
    · rename_i hzero
      exact packComponents_eq rfl hexp.symm hzero.symm
    · have hleast : ((@unpackExponent Format.binary64 bits).toNat : Int) -
          ((Format.binary64.exponentBias : Int) + (52 : Nat)) + 1 = -1074 := by
        rw [hexp]
        decide
      simp only [hleast]
      rw [pack_of_small _ hm]
      exact packComponents_eq rfl hexp.symm (by simp)
  · rename_i hexp
    have hmin : (@unpackExponent Format.binary64 bits).toNat ≠ 0 :=
      fun hc ↦ hexp (BitVec.eq_of_toNat_eq hc)
    have hbias : (Format.binary64.exponentBias : Int) + (52 : Nat) = 1075 := by decide
    simp only [hbias, toNat_implicit]
    rw [pack_of_full _ (by omega) (by omega) (by omega), sub_add_cancel, Int.toNat_natCast]
    exact packComponents_eq rfl (by simp) (by simp [BitVec.ofNat_add])

theorem pack_unpack (a : Float.Model) : Float.Model.pack a.unpack = a := by
  obtain ⟨bits, hvalid⟩ := a
  have hbits : UnpackedFloat.pack Format.binary64
      (UnpackedFloat.unpack Format.binary64 bits.toBitVec) = bits.toBitVec := by
    by_cases hinf : @unpackExponent Format.binary64 bits.toBitVec = -1#11
    · rw [UnpackedFloat.unpack]
      dsimp only
      rw [if_pos hinf]
      split
      · rename_i hzero
        exact packComponents_eq rfl hinf.symm hzero.symm
      · rename_i hnan
        exact (hvalid.eq_packedNaN hinf hnan).symm
    · exact pack_unpack_finite hinf
  rw [Float.Model.unpack, Float.Model.pack]
  congr 1
  rw [hbits]

theorem unpack_pack {s : Sign} {m : Nat} {e : Int} (hc : Canonical m e) (h : 0 < m) :
    (Float.Model.pack (.finite s m e h)).unpack = .finite s m e h := by
  obtain ⟨-, hlt, hleast, hgreatest, hfull⟩ := hc
  have hbias : (Format.binary64.exponentBias : Int) + (52 : Nat) = 1075 := by decide
  rw [Float.Model.pack, Float.Model.unpack, UInt64.toBitVec_ofBitVec]
  -- only the significands that fill all bits have an implicit first one
  by_cases hn : 2 ^ 52 ≤ m
  · have hexp : (BitVec.ofNat 11 (e + 1075).toNat).toNat = (e + 1075).toNat := by
      rw [BitVec.toNat_ofNat, Nat.mod_eq_of_lt (by omega)]
    have hmant : (BitVec.ofNat 52 m).toNat = m - 2 ^ 52 := by
      rw [BitVec.toNat_ofNat, Nat.mod_eq_sub_mod hn, Nat.mod_eq_of_lt (by omega)]
    rw [pack_of_full h hn hlt hgreatest, UnpackedFloat.unpack]
    simp only [unpackMantissa_packComponents, unpackExponent_packComponents,
      unpackSign_packComponents, toNat_implicit, hbias]
    rw [if_neg fun hc ↦ by have := congrArg BitVec.toNat hc; simp [hexp] at this; omega,
      if_neg fun hc ↦ by have := congrArg BitVec.toNat hc; simp [hexp] at this; omega]
    simp only [hexp, hmant]
    rw [UnpackedFloat.finite.injEq]
    exact ⟨rfl, by omega, by omega⟩
  · obtain rfl : e = -1074 := by omega
    have hmant : (BitVec.ofNat 52 m).toNat = m := by
      rw [BitVec.toNat_ofNat, Nat.mod_eq_of_lt (by omega)]
    rw [pack_of_small h (by omega), UnpackedFloat.unpack]
    simp only [unpackMantissa_packComponents, unpackExponent_packComponents,
      unpackSign_packComponents, hbias]
    rw [if_neg (by decide), if_pos (by decide), dif_neg fun hc ↦ by
      have := congrArg BitVec.toNat hc; simp [hmant] at this; omega]
    simp only [hmant]
    rfl

/-! ## Numbers by their fields -/

/-- The sign that a number is stored with, whatever the number is. -/
def signOf (x : Float) : Sign := Sign.ofBitVec (@unpackSign Format.binary64 x.toBits.toBitVec)

theorem shiftRight_toBits_eq_one_iff (x : Float) : x.toBits >>> 63 = 1 ↔ signOf x = .negative := by
  have hb := x.toBits.toBitVec.isLt
  have hsign := toNat_unpackSign x.toBits.toBitVec
  rw [signOf, Sign.ofBitVec, ← UInt64.toNat_inj]
  simp only [UInt64.toNat_shiftRight, UInt64.toNat_ofNat, Nat.shiftRight_eq_div_pow]
  rw [UInt64.toNat_toBitVec] at hsign
  norm_num at hsign ⊢
  rw [← hsign]
  generalize @unpackSign Format.binary64 x.toBits.toBitVec = s
  obtain rfl | rfl : s = 0#1 ∨ s = 1#1 := by
    revert s
    decide
  · simp
  · simp

theorem signOf_of_unpack_finite {x : Float} {s : Sign} {m : Nat} {e : Int} {h : 0 < m}
    (hx : x.toModel.unpack = .finite s m e h) : signOf x = s :=
  (unpack_eq_finite hx).1.symm

theorem signOf_of_unpack_zero {x : Float} {s : Sign} (hx : x.toModel.unpack = .zero s) :
    signOf x = s :=
  (unpack_eq_zero hx).1.symm

theorem binaryForm_eq (x : Float) :
    binaryForm x =
      if (@unpackExponent Format.binary64 x.toBits.toBitVec).toNat = 0 then
        ((@unpackMantissa Format.binary64 x.toBits.toBitVec).toNat, -1074)
      else (leadingBit + (@unpackMantissa Format.binary64 x.toBits.toBitVec).toNat,
        ((@unpackExponent Format.binary64 x.toBits.toBitVec).toNat : Int) - 1075) := by
  rw [toNat_unpackExponent, toNat_unpackMantissa]
  rfl

theorem binaryForm_of_unpack_finite {x : Float} {s : Sign} {m : Nat} {e : Int} {h : 0 < m}
    (hx : x.toModel.unpack = .finite s m e h) : binaryForm x = (m, e) := by
  obtain ⟨-, -, ⟨hzero, hm, he⟩ | ⟨hne, hm, he⟩⟩ := unpack_eq_finite hx
  · rw [binaryForm_eq, hm, he]
    exact if_pos hzero
  · rw [binaryForm_eq, hm, he]
    exact if_neg hne

theorem binaryForm_of_unpack_zero {x : Float} {s : Sign} (hx : x.toModel.unpack = .zero s) :
    binaryForm x = (0, -1074) := by
  obtain ⟨-, hexp, hmant⟩ := unpack_eq_zero hx
  rw [binaryForm_eq]
  exact (if_pos hexp).trans (Prod.ext hmant rfl)

theorem eq_of_unpack {x : Float} {u : UnpackedFloat} (hx : x.toModel.unpack = u) :
    x = .ofModel (.pack u) := by
  rw [← hx, pack_unpack]

end Binary

end TermEmbedding
