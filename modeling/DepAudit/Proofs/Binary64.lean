import DepAudit.Scalar
import Mathlib

/-! Doubles by their bits: which are finite, in which order they stand, and where the double nearest to a
quotient of at most one lies. -/
namespace DepAudit.Binary64
open Float.Model Float.Model.UnpackedFloat

def field (bits : Nat) : Nat := bits >>> 52 % 2048

theorem unpackExponent_toNat (bits : BitVec Format.binary64.numBits) :
    (unpackExponent bits : BitVec 11).toNat = field bits.toNat := by
  simp [unpackExponent,field]

theorem toBitVec_ofBitVec (sign : BitVec 1) : (Sign.ofBitVec sign).toBitVec = sign := by
  revert sign
  decide

/-- A double is its sign, its exponent and its mantissa. -/
theorem packComponents_unpack (bits : BitVec Format.binary64.numBits) :
    packComponents Format.binary64 (Sign.ofBitVec (unpackSign bits)) (unpackExponent bits)
      (unpackMantissa bits) = bits := by
  rw [packComponents,toBitVec_ofBitVec]
  apply BitVec.eq_of_getLsbD_eq
  intro i bound
  have width : i < 64 := bound
  simp only [BitVec.getLsbD_append,unpackSign,unpackExponent,unpackMantissa,BitVec.getLsbD_cast,
    BitVec.getLsbD_extractLsb]
  split
  · have small : i < 52 - 1 - 0 + 1 := by omega
    simp [small]
  · split
    · rename_i high low
      have place : 52 + (i - 52) = i := by omega
      simp [low,place]
    · have last : i = 63 := by omega
      subst last
      simp [-BitVec.getLsbD_eq_getElem]

/-- Taking a double apart and putting it together again leaves a finite one as it is. -/
theorem pack_unpack (bits : BitVec Format.binary64.numBits)
    (finite : (unpackExponent bits : BitVec 11) ≠ -1#11) :
    UnpackedFloat.pack Format.binary64 (UnpackedFloat.unpack Format.binary64 bits) = bits := by
  have below : (unpackExponent bits : BitVec 11).toNat < 2047 := by
    have most : (unpackExponent bits : BitVec 11).toNat < 2048 := (unpackExponent bits : BitVec 11).isLt
    have other : (unpackExponent bits : BitVec 11).toNat ≠ (-1#11).toNat := fun same =>
      finite (BitVec.eq_of_toNat_eq same)
    have top : (-1#11).toNat = 2047 := by decide
    omega
  have whole := packComponents_unpack bits
  have bias : Format.binary64.exponentBias = 1023 := by decide
  have width : Format.binary64.mantissaBits = 53 := by decide
  have short : (unpackMantissa bits : BitVec 52).toNat < 2 ^ 52 := (unpackMantissa bits : BitVec 52).isLt
  rw [UnpackedFloat.unpack]
  dsimp only
  rw [if_neg finite]
  split
  · rename_i low
    split
    · rename_i none
      rw [low,none] at whole
      exact whole
    · rename_i some_
      have positive : (unpackMantissa bits : BitVec 52).toNat ≠ 0 := fun none =>
        some_ (BitVec.eq_of_toNat_eq none)
      have subnormal : (unpackMantissa bits : BitVec 52).toNat.log2 < 52 :=
        (Nat.log2_lt positive).mpr short
      rw [UnpackedFloat.pack,low,bias,width]
      dsimp only
      rw [if_neg (by decide),if_neg (by omega),BitVec.ofNat_toNat,BitVec.setWidth_eq,← low]
      exact whole
  · have leading : (1#1 ++ (unpackMantissa bits : BitVec 52)).toNat =
        2 ^ 52 + (unpackMantissa bits : BitVec 52).toNat := by
      rw [BitVec.toNat_append,← Nat.shiftLeft_add_eq_or_of_lt short]
      rfl
    have normal : (2 ^ 52 + (unpackMantissa bits : BitVec 52).toNat).log2 = 52 := by
      rw [Nat.log2_eq_iff (by omega)]
      omega
    have mantissa : BitVec.ofNat 52 (2 ^ 52 + (unpackMantissa bits : BitVec 52).toNat) =
        (unpackMantissa bits : BitVec 52) := by
      apply BitVec.eq_of_toNat_eq
      rw [BitVec.toNat_ofNat]
      omega
    rw [UnpackedFloat.pack,leading,bias,width]
    dsimp only
    rw [normal,mantissa,if_neg (by omega),if_pos rfl]
    have exponent (e : Nat) : ((e : Int) - ((1023 : Nat) + (52 : Nat)) + (1023 : Nat) + (52 : Nat)).toNat = e := by
      omega
    rw [exponent,BitVec.ofNat_toNat,BitVec.setWidth_eq]
    exact whole

/-! Doubles made of bits. -/

theorem unpackExponent_ne {bits : BitVec Format.binary64.numBits} (finite : field bits.toNat ≠ 2047) :
    (unpackExponent bits : BitVec 11) ≠ -1#11 := by
  intro full
  have value := congrArg BitVec.toNat full
  rw [unpackExponent_toNat] at value
  exact finite value

theorem toBits_ofBits {bits : UInt64} (finite : field bits.toNat ≠ 2047) :
    (Float.ofBits bits).toBits = bits := by
  let word : BitVec Format.binary64.numBits := bits.toBitVec
  exact congrArg UInt64.ofBitVec (pack_unpack word (unpackExponent_ne finite))

theorem isFinite_ofBits {bits : UInt64} (finite : field bits.toNat ≠ 2047) :
    isFinite (Float.ofBits bits) = true := by
  rw [isFinite,toBits_ofBits finite]
  exact bne_iff_ne.mpr finite

theorem unpack_ofBits {bits : UInt64} (finite : field bits.toNat ≠ 2047) :
    (Float.ofBits bits).toModel.unpack = UnpackedFloat.unpack Format.binary64 bits.toBitVec := 
  congrArg (fun b : UInt64 => UnpackedFloat.unpack Format.binary64 b.toBitVec) (toBits_ofBits finite)

theorem unpack_ne_notANumber {bits : BitVec Format.binary64.numBits} (finite : field bits.toNat ≠ 2047) :
    UnpackedFloat.unpack Format.binary64 bits ≠ .notANumber := by
  rw [UnpackedFloat.unpack]
  dsimp only
  rw [if_neg (unpackExponent_ne finite)]
  split
  · split <;> exact nofun
  · exact nofun

theorem beq_self_of_number {x : UnpackedFloat} (number : x ≠ .notANumber) : x.beq x = true := by
  rw [UnpackedFloat.beq,beq_iff_eq]
  rcases x with (_ | _) | _ | _ | ⟨_ | _,m,e,_⟩
  case notANumber => exact absurd rfl number
  all_goals simp [UnpackedFloat.compare]
  all_goals rfl

theorem beq_self_of_isFinite {x : Float} (finite : isFinite x = true) : x == x :=
  beq_self_of_number (unpack_ne_notANumber (bne_iff_ne.mp finite))

theorem unpackMantissa_toNat (bits : BitVec Format.binary64.numBits) :
    (unpackMantissa bits : BitVec 52).toNat = bits.toNat % 2 ^ 52 := by
  simp [unpackMantissa]

theorem sign_of_nonneg {bits : BitVec Format.binary64.numBits} (positive : bits.toNat < 2 ^ 63) :
    Sign.ofBitVec (unpackSign bits) = .positive := by
  have none : unpackSign bits = 0#1 := by
    apply BitVec.eq_of_toNat_eq
    have value : (unpackSign bits : BitVec 1).toNat = bits.toNat >>> 63 % 2 := by simp [unpackSign]
    rw [value,Nat.shiftRight_eq_div_pow]
    exact congrArg (· % 2) (Nat.div_eq_of_lt positive)
  rw [none]
  rfl

/-- A positive double by its bits: how many units of which exponent it is. -/
theorem unpack_positive (bits : BitVec Format.binary64.numBits) (finite : bits.toNat < 2047 * 2 ^ 52)
    (nonzero : bits.toNat ≠ 0) : ∃ positive, UnpackedFloat.unpack Format.binary64 bits =
      .finite .positive (if bits.toNat < 2 ^ 52 then bits.toNat else 2 ^ 52 + bits.toNat % 2 ^ 52)
        (max (bits.toNat / 2 ^ 52 : Nat) 1 - 1075) positive := by
  have bias : Format.binary64.exponentBias = 1023 := by decide
  have exponent : (unpackExponent bits : BitVec 11).toNat = bits.toNat / 2 ^ 52 := by
    rw [unpackExponent_toNat,field,Nat.shiftRight_eq_div_pow]
    omega
  have notFull : (unpackExponent bits : BitVec 11) ≠ -1#11 := by
    intro full
    have value := congrArg BitVec.toNat full
    have top : (-1#11).toNat = 2047 := by decide
    omega
  have equal {m m' : Nat} {e e' : Int} (p : 0 < m) (p' : 0 < m') (sameMantissa : m = m')
      (sameExponent : e = e') : UnpackedFloat.finite .positive m e p = .finite .positive m' e' p' := by
    subst sameMantissa sameExponent
    rfl
  have positive : 0 < if bits.toNat < 2 ^ 52 then bits.toNat else 2 ^ 52 + bits.toNat % 2 ^ 52 := by
    split <;> omega
  refine ⟨positive,?_⟩
  rw [UnpackedFloat.unpack]
  dsimp only
  rw [sign_of_nonneg (by omega),if_neg notFull,bias]
  split
  · rename_i low
    have small : bits.toNat < 2 ^ 52 := by
      have value := congrArg BitVec.toNat low
      have nought : (0#11).toNat = 0 := rfl
      omega
    have some_ : (unpackMantissa bits : BitVec 52) ≠ 0#52 := by
      intro none
      have value := congrArg BitVec.toNat none
      rw [unpackMantissa_toNat,Nat.mod_eq_of_lt small] at value
      exact nonzero value
    rw [dif_neg some_]
    apply equal
    · rw [unpackMantissa_toNat,if_pos small,Nat.mod_eq_of_lt small]
    · omega
  · rename_i high
    have large : ¬bits.toNat < 2 ^ 52 := by
      intro small
      refine high (BitVec.eq_of_toNat_eq ?_)
      rw [exponent,Nat.div_eq_of_lt small]
      rfl
    apply equal
    · rw [if_neg large,BitVec.toNat_append,
        ← Nat.shiftLeft_add_eq_or_of_lt (unpackMantissa bits : BitVec 52).isLt,unpackMantissa_toNat]
      rfl
    · omega

theorem le_iff_unpack {x y : Float} : x ≤ y ↔ x.toModel.unpack.le y.toModel.unpack = true :=
  decide_eq_true_iff

/-- Of two positive doubles the one with the less exponent is less; with one exponent, the significands
decide. -/
theorem finite_compare {m m' : Nat} {e e' : Int} {p : 0 < m} {p' : 0 < m'}
    (order : e < e' ∨ (e = e' ∧ m ≤ m')) :
    ((UnpackedFloat.finite .positive m e p).compare (.finite .positive m' e' p')).any (·.isLE) = true := by
  change ((compare e e').then (compare m m')).isLE = true
  rcases order with less | ⟨rfl,less⟩
  · rw [Int.compare_eq_lt.mpr less]
    rfl
  · rw [Int.compare_eq_eq.mpr rfl]
    exact Nat.isLE_compare.mpr less

/-- Doubles that are not negative stand in the order of their bits. -/
theorem ofBits_le_ofBits {low high : UInt64} (less : low.toNat ≤ high.toNat)
    (finite : high.toNat < 2047 * 2 ^ 52) : Float.ofBits low ≤ Float.ofBits high := by
  have field_ne {bits : UInt64} (small : bits.toNat < 2047 * 2 ^ 52) : field bits.toNat ≠ 2047 := by
    rw [field,Nat.shiftRight_eq_div_pow]
    omega
  have zero {bits : UInt64} (none : bits.toNat = 0) :
      UnpackedFloat.unpack Format.binary64 bits.toBitVec = .zero .positive := by
    obtain rfl : bits = 0 := UInt64.toNat_inj.mp none
    rfl
  rw [le_iff_unpack,unpack_ofBits (field_ne (Nat.lt_of_le_of_lt less finite)),
    unpack_ofBits (field_ne finite),UnpackedFloat.le]
  by_cases highest : high.toNat = 0
  · rw [zero highest,zero (by omega)]
    rfl
  · obtain ⟨_,unpackedHigh⟩ := unpack_positive high.toBitVec finite highest
    rw [unpackedHigh]
    by_cases lowest : low.toNat = 0
    · rw [zero lowest]
      rfl
    · obtain ⟨_,unpackedLow⟩ := unpack_positive low.toBitVec
        (Nat.lt_of_le_of_lt less finite) lowest
      rw [unpackedLow]
      apply finite_compare
      have bits (word : UInt64) : word.toBitVec.toNat = word.toNat := rfl
      rw [bits low,bits high]
      split <;> split <;> omega

/-! The nearest double. -/

theorem roundHalfEven_le {numerator denominator bound : Nat} (positive : 0 < denominator)
    (most : numerator ≤ denominator * bound) : roundHalfEven numerator denominator ≤ bound := by
  have whole : numerator / denominator ≤ bound := Nat.div_le_of_le_mul most
  have parts := Nat.div_add_mod numerator denominator
  rw [roundHalfEven]
  by_cases full : numerator / denominator = bound
  · have nothing : 2 * (numerator % denominator) < denominator := by
      rw [full] at parts
      omega
    rw [if_pos nothing]
    exact whole
  · split
    · exact whole
    · split <;> omega

theorem scaled_of_nonneg {exponent : Int} (up : 0 ≤ exponent) (numerator denominator : Nat) :
    scaled numerator denominator exponent = (numerator * 2 ^ exponent.toNat,denominator) := by
  rw [scaled,if_pos up,Nat.shiftLeft_eq]

/-- The logarithm of a quotient that is at most one, and what it bounds. -/
theorem floorLog2_spec {numerator denominator : Nat} (positive : 0 < numerator)
    (small : numerator ≤ denominator) : floorLog2 numerator denominator ≤ 0 ∧
      numerator * 2 ^ (-floorLog2 numerator denominator).toNat < 2 * denominator := by
  have nonzero : numerator ≠ 0 := Nat.pos_iff_ne_zero.mp positive
  have above : numerator < 2 ^ (numerator.log2 + 1) := Nat.lt_log2_self
  have below : 2 ^ denominator.log2 ≤ denominator := Nat.log2_self_le (by omega)
  have logs : numerator.log2 ≤ denominator.log2 := by
    refine (Nat.le_log2 (by omega)).mpr (Nat.le_trans (Nat.log2_self_le nonzero) small)
  have up : 0 ≤ -((numerator.log2 : Int) - denominator.log2) := by omega
  have steps : (-((numerator.log2 : Int) - denominator.log2)).toNat =
      denominator.log2 - numerator.log2 := by omega
  rw [floorLog2,scaled_of_nonneg up]
  split
  · rename_i less
    refine ⟨by omega,?_⟩
    have one : (-((numerator.log2 : Int) - denominator.log2 - 1)).toNat =
        (-((numerator.log2 : Int) - denominator.log2)).toNat + 1 := by omega
    rw [one,Nat.pow_succ,← Nat.mul_assoc]
    omega
  · refine ⟨by omega,?_⟩
    rw [steps]
    calc numerator * 2 ^ (denominator.log2 - numerator.log2)
        < 2 ^ (numerator.log2 + 1) * 2 ^ (denominator.log2 - numerator.log2) :=
          Nat.mul_lt_mul_of_pos_right above (Nat.two_pow_pos _)
      _ = 2 * 2 ^ denominator.log2 := by
          rw [← Nat.pow_add,← Nat.pow_succ']
          congr 1
          omega
      _ ≤ 2 * denominator := Nat.mul_le_mul_left 2 below

/-- The double nearest to a quotient that is at most one is at most one. -/
theorem nearestBits_le {numerator denominator : Nat} (small : numerator ≤ denominator) :
    nearestBits numerator denominator ≤ 1023 * 2 ^ 52 := by
  rw [nearestBits]
  split
  · exact Nat.zero_le _
  · rename_i nonzero
    have positive : 0 < denominator := by omega
    obtain ⟨low,bound⟩ := floorLog2_spec (Nat.pos_iff_ne_zero.mpr nonzero) small
    generalize floorLog2 numerator denominator = log at low bound ⊢
    have up : 0 ≤ -max (log - 52) minExponent := by simp only [minExponent]; omega
    dsimp only
    rw [scaled_of_nonneg up,Nat.shiftLeft_eq]
    refine Nat.le_trans (Nat.min_le_right _ _) ?_
    rcases Int.lt_or_eq_of_le low with below | rfl
    · have steps : (-max (log - 52) minExponent).toNat ≤ (-log).toNat + 52 := by
        simp only [minExponent]
        omega
      have exponent : (max (log - 52) minExponent - minExponent).toNat ≤ 1021 := by
        simp only [minExponent]
        omega
      -- The significand may be rounded up to 53 bits: the exponent leaves room for that.
      have most : numerator * 2 ^ (-max (log - 52) minExponent).toNat ≤ denominator * 2 ^ 53 := by
        calc numerator * 2 ^ (-max (log - 52) minExponent).toNat
            ≤ numerator * 2 ^ ((-log).toNat + 52) :=
              Nat.mul_le_mul_left _ (Nat.pow_le_pow_right (by decide) steps)
          _ = numerator * 2 ^ (-log).toNat * 2 ^ 52 := by rw [Nat.pow_add,Nat.mul_assoc]
          _ ≤ 2 * denominator * 2 ^ 52 := Nat.mul_le_mul_right _ (Nat.le_of_lt bound)
          _ = denominator * (2 * 2 ^ 52) := by rw [Nat.mul_comm 2,Nat.mul_assoc]
          _ = denominator * 2 ^ 53 := congrArg (denominator * ·) (by decide)
      have shifted := Nat.mul_le_mul_right (2 ^ 52) exponent
      exact Nat.le_trans (Nat.add_le_add shifted (roundHalfEven_le positive most)) (by decide)
    · have exponent : max ((0 : Int) - 52) minExponent = -52 := by decide
      rw [exponent]
      exact Nat.add_le_add_left (roundHalfEven_le positive (Nat.mul_le_mul_right (2 ^ 52) small)) (1022 * 2 ^ 52)

theorem toNat_nearestBits {numerator denominator : Nat} (small : numerator ≤ denominator) :
    (nearestBits numerator denominator).toUInt64.toNat = nearestBits numerator denominator :=
  UInt64.toNat_ofNat_of_lt' (Nat.lt_of_le_of_lt (nearestBits_le small) (by decide))

/-- A share of at most one is finite. -/
theorem isFinite_ofQuotient {numerator denominator : Nat} (small : numerator ≤ denominator) :
    isFinite (ofQuotient false numerator denominator) = true := by
  have bound := nearestBits_le small
  refine isFinite_ofBits ?_
  rw [toNat_nearestBits small,field,Nat.shiftRight_eq_div_pow]
  omega

/-- A part of a whole has a share from zero to one. -/
theorem share_bounds {part whole : Nat} (small : part ≤ whole) :
    0.0 ≤ (Scalar.share part whole : Float) ∧ (Scalar.share part whole : Float) ≤ 1.0 := by
  have zero : (0.0 : Float) = Float.ofBits 0 := by decide +kernel
  have one : (1.0 : Float) = Float.ofBits (1023 * 2 ^ 52) := by decide +kernel
  have bounds {numerator denominator : Nat} (small : numerator ≤ denominator) :
      0.0 ≤ ofQuotient false numerator denominator ∧ ofQuotient false numerator denominator ≤ 1.0 := by
    have most : (nearestBits numerator denominator).toUInt64.toNat ≤ 1023 * 2 ^ 52 :=
      (toNat_nearestBits small).trans_le (nearestBits_le small)
    rw [zero,one]
    exact ⟨ofBits_le_ofBits (Nat.zero_le _) (Nat.lt_of_le_of_lt most (by decide)),
      ofBits_le_ofBits most (by decide)⟩
  have sign : decide ((part : Int) < 0) = false := decide_eq_false (by omega)
  rw [Scalar.share]
  split
  · exact bounds (Nat.zero_le 1)
  · have quotient : (Scalar.ofQuotient (part : Int) whole : Float) = ofQuotient false part whole := by
      change ofQuotient (decide ((part : Int) < 0)) (part : Int).natAbs whole = _
      rw [sign,Int.natAbs_natCast]
    rw [quotient]
    exact bounds small

end DepAudit.Binary64
