import Mathlib
import ScriptDebugger.Json.Number
/-!
# Doubles that stay finite

The product or quotient of two doubles is rounded to a significand of fifty-three bits. Rounding
adds at most one unit in the last place, which is no more than one part in `2 ^ 52` of the number
unless the number is tiny. So a product stays within the doubles when the factors, with this much
slack for each rounding, stay within them.

## Main results

* `roundsTo_roundWithAccuracy` — how rounding ends.
* `unpack_pack` — a number with all of its bits is the same after it was packed.
* `isFinite_mul`, `isFinite_div_powerOfTen`, `isFinite_ofNat` — results that are finite.
* `normal_mul`, `normal_ofNat`, `normal_powerOfTen` — how far rounding exceeds a result.
* `not_isInf_scaled` — a significand times a power of ten that is well within the doubles.
* `ofFloat_lt` — the significand and the exponent of a finite double.
-/

namespace ScriptDebugger.Double

open Float.Model Float.Model.UnpackedFloat

/-! ## Bounds that are computed -/

/-- A power of two. -/
def twos (k : Nat) : Nat := Nat.pow 2 k

/-- The first number beyond the doubles. -/
def capacity : Nat := twos 1024

/-- A bound that leaves room for rounding a product and its factors. -/
def bound : Nat := (twos 54 - 31) * twos 970

theorem twos_add (j k : Nat) : twos (j + k) = twos j * twos k := Nat.pow_add 2 j k

theorem two_pow_le_twos {j k : Nat} (h : j ≤ k) : 2 ^ j ≤ twos k :=
  Nat.pow_le_pow_right (by decide) h

theorem twos_mantissa : twos 54 = 2 ^ 54 := rfl

theorem bound_mul : bound * 2 ^ 54 + 31 * capacity = 2 ^ 54 * capacity := by
  have hcapacity : capacity = twos 54 * twos 970 := twos_add 54 970
  rw [bound, hcapacity, twos_mantissa]
  generalize twos 970 = t
  omega

theorem tens_lt : Decimal.tens 308 * 3 < capacity * 2 := by decide +kernel

theorem size_lt : UInt64.size * 3 < capacity := by
  have hsize : UInt64.size * 3 < 2 ^ 66 := by decide
  exact Nat.lt_of_lt_of_le hsize (two_pow_le_twos (by decide))

/-- The least exponent of the power of ten, as a double with all of its bits. -/
def leastPlace (n : Nat) : Int := if n = 0 then -52 else -49

/-- Whether a power of ten has all of its bits and is exact. -/
def isExactPower (n : Nat) : Bool :=
  match (Json.Numeral.powerOfTen n).toModel.unpack with
  | .finite .positive m e _ =>
    2 ^ 52 ≤ m ∧ m < 2 ^ 53 ∧ leastPlace n ≤ e ∧
      m * 2 ^ e.toNat = Decimal.tens n * 2 ^ (-e).toNat
  | _ => false

theorem isExactPower_of_le : (List.range 23).all isExactPower = true := by
  decide +kernel

theorem isFinite_ofNat_zero : (Float.ofNat 0).isFinite = true := rfl

/-! ## Rounding -/

/-- The shape of a double. -/
abbrev shape : Format := Format.binary64

theorem mantissa_shiftRight (m : ExtendedMantissa) (k : Nat) :
    (m >>> k).mantissa = m.mantissa / 2 ^ k := by
  show (k.repeat ExtendedMantissa.shiftRightOne m).mantissa = _
  induction k with
  | zero => exact (Nat.div_one _).symm
  | succ k ih =>
      rw [Nat.repeat, ExtendedMantissa.shiftRightOne, ih, Nat.div_div_eq_div_mul, ← Nat.pow_succ]

theorem mantissa_ofMantissaAndAccuracy (m : Nat) (accuracy : Accuracy) :
    (ExtendedMantissa.ofMantissaAndAccuracy m accuracy).mantissa = m := by
  unfold ExtendedMantissa.ofMantissaAndAccuracy
  split <;> rfl

theorem roundedMantissa_bounds (m : ExtendedMantissa) :
    m.mantissa ≤ m.roundedMantissa ∧ m.roundedMantissa ≤ m.mantissa + 1 := by
  unfold ExtendedMantissa.roundedMantissa Accuracy.roundToNearestEven
  split <;> omega

/-- The exponent that leaves fifty-three bits of a mantissa, or as many as there may be. -/
def lastPlace (m : Nat) (e : Int) : Int := max ((m.log2 : Int) + e - 52) (-1074)

theorem targetExponent_eq (m : Nat) (e : Int) :
    shape.targetExponent (totalExponent m e) = lastPlace m e := by
  have hbits : (shape.mantissaBits : Int) = 53 := rfl
  have hlow : shape.minExponent = -1074 := rfl
  rw [Format.targetExponent, totalExponent, lastPlace, hbits, hlow]
  congr 1
  omega

/-- The places that a mantissa is shifted by. -/
def shift (m : Nat) (e : Int) : Nat := (lastPlace m e - e).toNat

theorem shiftToTargetExponent_eq (m : Nat) (e : Int) (accuracy : Accuracy) :
    shiftToTargetExponent shape m e accuracy =
      (ExtendedMantissa.ofMantissaAndAccuracy m accuracy >>> shift m e, e + shift m e) := by
  rw [shiftToTargetExponent, targetExponent_eq]
  rfl

/-- What rounding makes of a mantissa of fifty-three bits or the next one behind them. -/
inductive RoundsTo (s : Sign) : Nat → Int → UnpackedFloat → Prop
  | zero (e : Int) : RoundsTo s 0 e (.zero s)
  | fits {m : Nat} {e : Int} (hpos : 0 < m) (hlt : m < 2 ^ 53) :
      RoundsTo s m e (.finite s m e hpos)
  | carry (e : Int) (hpos : 0 < 2 ^ 52) : RoundsTo s (2 ^ 53) e (.finite s (2 ^ 52) (e + 1) hpos)

theorem log2_le_of_lt {m k : Nat} (h : m < 2 ^ (k + 1)) : m.log2 ≤ k := by
  by_cases hm : m = 0
  · subst hm
    exact Nat.zero_le k
  · exact Nat.le_of_lt_succ ((Nat.log2_lt hm).2 h)

theorem lt_two_pow_log2 (m : Nat) : m < 2 ^ (m.log2 + 1) := Nat.lt_log2_self

/-- A mantissa is shifted until at most fifty-three bits are left. -/
theorem shifted_lt (m : Nat) (e : Int) : m / 2 ^ shift m e < 2 ^ 53 := by
  refine (Nat.div_lt_iff_lt_mul (Nat.two_pow_pos _)).2 ?_
  rw [← Nat.pow_add]
  refine Nat.lt_of_lt_of_le (lt_two_pow_log2 m) (Nat.pow_le_pow_right (by decide) ?_)
  unfold shift lastPlace
  omega

theorem shift_of_lt {m : Nat} {e : Int} (hm : m < 2 ^ 53) (he : -1074 ≤ e) : shift m e = 0 := by
  have hlog := log2_le_of_lt hm
  unfold shift lastPlace
  omega

theorem shift_carry {e : Int} (he : -1074 ≤ e) : shift (2 ^ 53) e = 1 := by
  have hlog : Nat.log2 (2 ^ 53) = 53 := Nat.log2_two_pow
  unfold shift lastPlace
  rw [hlog]
  omega

theorem le_add_shift (m : Nat) (e : Int) : -1074 ≤ e + shift m e := by
  unfold shift lastPlace
  omega

/-- The second shift of rounding takes back a carry, and does nothing else. -/
theorem roundsTo_finish (s : Sign) {r : Nat} {e : Int} (hr : r ≤ 2 ^ 53) (he : -1074 ≤ e) :
    RoundsTo s r e
      (if h : r / 2 ^ shift r e = 0 then .zero s
      else .finite s (r / 2 ^ shift r e) (e + shift r e) (Nat.pos_of_ne_zero h)) := by
  cases Nat.lt_or_eq_of_le hr with
  | inl hlt =>
      simp only [shift_of_lt hlt he, Nat.pow_zero, Nat.div_one, Nat.cast_zero, Int.add_zero]
      by_cases hzero : r = 0
      · subst hzero
        exact .zero e
      · rw [dif_neg hzero]
        exact .fits (Nat.pos_of_ne_zero hzero) hlt
  | inr hcarry =>
      subst hcarry
      simp only [shift_carry he]
      exact .carry e (by decide)

/-- What a mantissa is rounded to. -/
theorem roundsTo_roundWithAccuracy (s : Sign) (m : Nat) (e : Int) (accuracy : Accuracy) :
    ∃ r, m / 2 ^ shift m e ≤ r ∧ r ≤ m / 2 ^ shift m e + 1 ∧
      RoundsTo s r (e + shift m e) (roundWithAccuracy shape s m e accuracy) := by
  let shifted := ExtendedMantissa.ofMantissaAndAccuracy m accuracy >>> shift m e
  have hshifted : shifted.mantissa = m / 2 ^ shift m e := by
    rw [mantissa_shiftRight, mantissa_ofMantissaAndAccuracy]
  obtain ⟨hge, hle⟩ := roundedMantissa_bounds shifted
  rw [hshifted] at hge hle
  have hsmall : shifted.roundedMantissa ≤ 2 ^ 53 := Nat.le_trans hle (shifted_lt m e)
  have hround : roundWithAccuracy shape s m e accuracy =
      if h : shifted.roundedMantissa / 2 ^ shift shifted.roundedMantissa (e + shift m e) = 0 then
        .zero s
      else
        .finite s (shifted.roundedMantissa / 2 ^ shift shifted.roundedMantissa (e + shift m e))
          (e + shift m e + shift shifted.roundedMantissa (e + shift m e))
          (Nat.pos_of_ne_zero h) := by
    rw [roundWithAccuracy, shiftToTargetExponent_eq]
    simp only [shiftToTargetExponent_eq, mantissa_shiftRight, mantissa_ofMantissaAndAccuracy]
    rfl
  refine ⟨shifted.roundedMantissa, hge, hle, ?_⟩
  rw [hround]
  exact roundsTo_finish s hsmall (le_add_shift m e)

/-! ## Which results are finite -/

theorem isFinite_unpack (b : BitVec shape.numBits) :
    (UnpackedFloat.unpack shape b).isFinite = decide (unpackExponent b ≠ -1#_) := by
  unfold UnpackedFloat.unpack
  by_cases hall : unpackExponent b = -1#_
  · rw [decide_eq_false (not_not_intro hall)]
    simp only [hall, if_true]
    split <;> rfl
  · rw [decide_eq_true hall]
    simp only [hall, if_false]
    split
    · split <;> rfl
    · rfl

theorem isFinite_pack (u : UnpackedFloat) :
    (pack u).isFinite = decide (unpackExponent (UnpackedFloat.pack shape u) ≠ -1#_) :=
  isFinite_unpack _

/-- The exponent as it is stored. -/
theorem toNat_biased (e : Int) :
    ((e + shape.exponentBias + shape.mantissaBitsWithoutImplicit).toNat : Int) =
      max (e + 1075) 0 := by
  have hbias : (shape.exponentBias : Int) = 1023 := rfl
  have hbits : (shape.mantissaBitsWithoutImplicit : Int) = 52 := rfl
  rw [hbias, hbits]
  omega

theorem toNat_stored {biased : Nat} (h : biased < 2047) : (BitVec.ofNat 11 biased).toNat = biased :=
  (BitVec.toNat_ofNat biased 11).trans (Nat.mod_eq_of_lt (Nat.lt_trans h (by decide)))

/-- The exponent of a finite double is not the one of the infinities. -/
theorem stored_ne {biased : Nat} (h : biased < 2047) : BitVec.ofNat 11 biased ≠ -1#11 := by
  intro heq
  have hsame : biased = 2047 := (toNat_stored h).symm.trans (congrArg BitVec.toNat heq)
  omega

/-- A number whose exponent is too great is packed as an infinity. -/
theorem isInf_pack_finite {s : Sign} {m : Nat} {e : Int} {hm : 0 < m} (he : 971 < e) :
    (pack (.finite s m e hm)).isInf = true := by
  have hpack : UnpackedFloat.pack shape (.finite s m e hm) = packedInfinity shape s := by
    have hbiased := toNat_biased e
    have hcapacity : (2 : Nat) ^ shape.exponentBits = 2048 := rfl
    rw [UnpackedFloat.pack, hcapacity]
    exact if_pos (by omega)
  show (UnpackedFloat.unpack shape (UnpackedFloat.pack shape (.finite s m e hm))).isInf = true
  rw [hpack]
  cases s <;> rfl

/-- A number whose exponent is not too great is packed as a finite double. -/
theorem isFinite_pack_finite {s : Sign} {m : Nat} {e : Int} {hm : 0 < m} (he : e ≤ 971) :
    (pack (.finite s m e hm)).isFinite = true := by
  have hbiased := toNat_biased e
  have hcapacity : (2 : Nat) ^ shape.exponentBits = 2048 := rfl
  rw [isFinite_pack, UnpackedFloat.pack, hcapacity]
  generalize (e + shape.exponentBias + shape.mantissaBitsWithoutImplicit).toNat = biased at hbiased
  have hsmall : ¬2048 ≤ biased + 1 := by omega
  simp only [hsmall, if_false]
  refine decide_eq_true ?_
  split
  · rw [unpackExponent_packComponents]
    exact stored_ne (by omega)
  · rw [unpackExponent_packComponents]
    decide

theorem isFinite_pack_zero (s : Sign) : (pack (.zero s)).isFinite = true := by
  cases s <;> rfl

/-- What a double that is finite holds. -/
inductive Holds : UnpackedFloat → Prop
  | zero (s : Sign) : Holds (.zero s)
  | finite {s : Sign} {m : Nat} {e : Int} (hpos : 0 < m) (hlt : m < 2 ^ 53) (hle : e ≤ 971) :
      Holds (.finite s m e hpos)

theorem implicitBit_append (m : BitVec 52) : (1#1 ++ m).toNat = 2 ^ 52 + m.toNat := by
  rw [BitVec.toNat_append, ← Nat.shiftLeft_add_eq_or_of_lt m.isLt]
  rfl

/-- The exponent of a finite double, as it is stored. -/
theorem unpackExponent_lt {b : BitVec shape.numBits} (h : unpackExponent b ≠ -1#_) :
    (unpackExponent b).toNat < 2047 := by
  have hlt : (unpackExponent b).toNat < 2048 := (unpackExponent b).isLt
  have hne : (unpackExponent b).toNat ≠ 2047 := fun heq => h (BitVec.eq_of_toNat_eq heq)
  omega

theorem holds_unpack {b : BitVec shape.numBits} (h : unpackExponent b ≠ -1#_) :
    Holds (UnpackedFloat.unpack shape b) := by
  have hmantissa : (unpackMantissa b).toNat < 2 ^ 52 := (unpackMantissa b).isLt
  have hstored := unpackExponent_lt h
  have hbias : (shape.exponentBias : Int) + (shape.mantissaBitsWithoutImplicit : Int) = 1075 := rfl
  unfold UnpackedFloat.unpack
  simp only [h, if_false, hbias]
  split
  · rename_i hzero
    split
    · exact .zero _
    · refine .finite _ (Nat.lt_trans hmantissa (by decide)) ?_
      rw [hzero]
      decide
  · have happend : (1#1 ++ unpackMantissa b).toNat = 2 ^ 52 + (unpackMantissa b).toNat :=
      implicitBit_append (unpackMantissa b)
    refine .finite _ ?_ ?_
    · rw [happend]
      exact Nat.lt_of_lt_of_le (Nat.add_lt_add_left hmantissa _) (by decide)
    · show ((unpackExponent b).toNat : Int) - 1075 ≤ 971
      omega

/-- A finite double has fifty-three bits at most, and its exponent is not too great. -/
theorem holds_of_isFinite {x : Float} (h : x.isFinite = true) : Holds x.toModel.unpack :=
  holds_unpack (of_decide_eq_true ((isFinite_unpack x.toModel.toBits.toBitVec).symm.trans h))

/-! ## What is read of a packed number -/

theorem unpackSign_packComponents (s : Sign) (e : BitVec 11) (m : BitVec 52) :
    unpackSign (packComponents shape s e m) = s.toBitVec := by
  show (s.toBitVec ++ e ++ m).extractLsb' 63 1 = s.toBitVec
  rw [BitVec.extractLsb'_append_eq_of_le (by decide),
    BitVec.extractLsb'_append_eq_of_le (by decide)]
  cases s <;> rfl

/-- What the parts of a number with all of its bits are read as. -/
theorem unpack_packComponents (s : Sign) {e : BitVec 11} (m : BitVec 52) (hall : e ≠ -1#11)
    (hnone : e ≠ 0#11) :
    UnpackedFloat.unpack shape (packComponents shape s e m) =
      .finite s (1#1 ++ m).toNat (e.toNat - 1075) (by rw [implicitBit_append]; omega) := by
  have hsign : Sign.ofBitVec s.toBitVec = s := by cases s <;> rfl
  unfold UnpackedFloat.unpack
  simp only [unpackExponent_packComponents, unpackMantissa_packComponents,
    unpackSign_packComponents, hsign]
  rw [if_neg hall, if_neg hnone]
  rfl

/-- A number with all of its bits is the same after it was packed. -/
theorem unpack_pack {s : Sign} {m : Nat} {e : Int} {hm : 0 < m} (hge : 2 ^ 52 ≤ m)
    (hlt : m < 2 ^ 53) (hlow : -1074 ≤ e) (hhigh : e ≤ 971) :
    (pack (.finite s m e hm)).unpack = .finite s m e hm := by
  show UnpackedFloat.unpack shape (UnpackedFloat.pack shape (.finite s m e hm)) = _
  have hlog : m.log2 = 52 := (Nat.log2_eq_iff (by omega)).2 ⟨hge, hlt⟩
  have hbiased := toNat_biased e
  have hcapacity : (2 : Nat) ^ shape.exponentBits = 2048 := rfl
  have hbits : (52 + 1 = shape.mantissaBits) = True := eq_true rfl
  rw [UnpackedFloat.pack, hcapacity]
  generalize (e + shape.exponentBias + shape.mantissaBitsWithoutImplicit).toNat = biased at hbiased
  have hsmall : ¬2048 ≤ biased + 1 := by omega
  simp only [hsmall, hlog, hbits, if_false, if_true]
  have hlt' : biased < 2047 := by omega
  have hexponent := toNat_stored hlt'
  have hnone : BitVec.ofNat 11 biased ≠ 0#11 := by
    intro h
    have hsame : biased = 0 := hexponent.symm.trans (congrArg BitVec.toNat h)
    omega
  have hmantissa : (1#1 ++ BitVec.ofNat 52 m).toNat = m := by
    rw [implicitBit_append, BitVec.toNat_ofNat]
    omega
  refine (unpack_packComponents s _ (stored_ne hlt') hnone).trans ?_
  simp only [hmantissa, hexponent]
  congr 1
  omega

/-! ## Operations -/

theorem isFinite_neg {x : Float} (h : x.isFinite = true) : (-x).isFinite = true := by
  have hx := holds_of_isFinite h
  show (pack x.toModel.unpack.neg).isFinite = true
  generalize x.toModel.unpack = u at hx
  cases hx with
  | zero s => exact isFinite_pack_zero _
  | finite hpos hlt hle => exact isFinite_pack_finite hle

/-- A number is packed as a finite double unless it is packed as an infinity. -/
theorem isFinite_of_isInf {s : Sign} {m : Nat} {e : Int} {hm : 0 < m}
    (hinf : (pack (.finite s m e hm)).isInf = false) :
    (pack (.finite s m e hm)).isFinite = true := by
  by_cases he : e ≤ 971
  · exact isFinite_pack_finite he
  · rw [isInf_pack_finite (by omega)] at hinf
    cases hinf

/-- The product of finite doubles is finite unless it is infinite. -/
theorem isFinite_mul {x y : Float} (hx : x.isFinite = true) (hy : y.isFinite = true)
    (hinf : (x * y).isInf = false) : (x * y).isFinite = true := by
  have hx' := holds_of_isFinite hx
  have hy' := holds_of_isFinite hy
  change (pack (UnpackedFloat.mul shape x.toModel.unpack y.toModel.unpack)).isInf = false at hinf
  show (pack (UnpackedFloat.mul shape x.toModel.unpack y.toModel.unpack)).isFinite = true
  generalize x.toModel.unpack = u at hx' hinf
  generalize y.toModel.unpack = v at hy' hinf
  cases hx' with
  | zero s =>
      cases hy' with
      | zero t => exact isFinite_pack_zero _
      | finite hpos hlt hle => exact isFinite_pack_zero _
  | @finite s m e hpos hlt hle =>
      cases hy' with
      | zero t => exact isFinite_pack_zero _
      | @finite t n f hpos' hlt' hle' =>
          rw [UnpackedFloat.mul] at hinf ⊢
          obtain ⟨r, -, -, hround⟩ := roundsTo_roundWithAccuracy (s * t) (m * n) (e + f) .exact
          generalize roundWithAccuracy shape (s * t) (m * n) (e + f) .exact = w at hround hinf
          cases hround with
          | zero => exact isFinite_pack_zero _
          | fits => exact isFinite_of_isInf hinf
          | carry => exact isFinite_of_isInf hinf

/-! ## Values -/

/-- The number that a mantissa and an exponent stand for. -/
def value (m : Nat) (e : Int) : ℚ := m * 2 ^ e

theorem value_pos {m : Nat} (h : 0 < m) (e : Int) : 0 < value m e := by
  unfold value
  positivity

theorem value_shift (m k : Nat) (e : Int) : value (m * 2 ^ k) e = value m (e + k) := by
  unfold value
  rw [zpow_add₀ (by norm_num), zpow_natCast]
  push_cast
  ring

theorem value_mul (m n : Nat) (e f : Int) : value (m * n) (e + f) = value m e * value n f := by
  unfold value
  rw [zpow_add₀ (by norm_num)]
  push_cast
  ring

theorem value_mono {m n : Nat} (h : m ≤ n) (e : Int) : value m e ≤ value n e := by
  unfold value
  gcongr

/-- A part of the last place, by which rounding may exceed a number. -/
def slack : ℚ := 1 + 1 / 2 ^ 52

/-- A double whose significand has all of its fifty-three bits: its exponent has a lower bound, and
its value an upper one. -/
inductive Normal : UnpackedFloat → Int → ℚ → Prop
  | mk {m : Nat} {e low : Int} {high : ℚ} (hm : 0 < m) (hge : 2 ^ 52 ≤ m) (hlt : m < 2 ^ 53)
      (hlow : low ≤ e) (hvalue : value m e ≤ high) : Normal (.finite .positive m e hm) low high

theorem log2_ge {m k : Nat} (h : 2 ^ k ≤ m) : k ≤ m.log2 := by
  have hm : m ≠ 0 := by
    intro hzero
    rw [hzero] at h
    exact absurd h (Nat.not_le.2 (Nat.two_pow_pos k))
  exact (Nat.le_log2 hm).2 h

/-- Rounding exceeds a number by a small part of it only. -/
theorem value_le_slack {m r k : Nat} {e : Int} (hunit : 2 ^ 52 * 2 ^ k ≤ m)
    (hr : r ≤ m / 2 ^ k + 1) : value (r * 2 ^ k) e ≤ value m e * slack := by
  have hmantissa : r * 2 ^ k ≤ m + 2 ^ k := by
    calc r * 2 ^ k ≤ (m / 2 ^ k + 1) * 2 ^ k := Nat.mul_le_mul_right _ hr
      _ = m / 2 ^ k * 2 ^ k + 2 ^ k := by rw [Nat.add_mul, Nat.one_mul]
      _ ≤ m + 2 ^ k := Nat.add_le_add_right (Nat.div_mul_le_self _ _) _
  have hpart : ((r * 2 ^ k : Nat) : ℚ) ≤ m * slack := by
    have hunit' : (2 : ℚ) ^ 52 * 2 ^ k ≤ m := by exact_mod_cast hunit
    have hmantissa' : ((r * 2 ^ k : Nat) : ℚ) ≤ m + 2 ^ k := by exact_mod_cast hmantissa
    unfold slack
    linarith
  unfold value
  calc ((r * 2 ^ k : Nat) : ℚ) * 2 ^ e ≤ m * slack * 2 ^ e := by gcongr
    _ = m * 2 ^ e * slack := by ring

/-- Rounding a mantissa that has bits enough. -/
theorem normal_roundWithAccuracy {m : Nat} {e : Int} (hm : 2 ^ 52 ≤ m)
    (he : -1074 ≤ (m.log2 : Int) + e - 52) :
    Normal (roundWithAccuracy shape .positive m e .exact) ((m.log2 : Int) + e - 52)
      (value m e * slack) := by
  have hlog : 52 ≤ m.log2 := log2_ge hm
  have hshift : shift m e = m.log2 - 52 := by
    unfold shift lastPlace
    omega
  obtain ⟨r, hge, hle, hround⟩ := roundsTo_roundWithAccuracy .positive m e .exact
  rw [hshift] at hge hle hround
  -- the last place that is kept is no more than one part in `2 ^ 52` of the mantissa
  have hunit : 2 ^ 52 * 2 ^ (m.log2 - 52) ≤ m := by
    rw [← Nat.pow_add, Nat.add_sub_cancel' hlog]
    exact Nat.log2_self_le (by omega)
  have hbits : 2 ^ 52 ≤ r :=
    Nat.le_trans ((Nat.le_div_iff_mul_le (Nat.two_pow_pos _)).2 hunit) hge
  have hvalue : value r (e + (m.log2 - 52 : Nat)) ≤ value m e * slack := by
    rw [← value_shift]
    exact value_le_slack hunit hle
  have hlow : (m.log2 : Int) + e - 52 ≤ e + (m.log2 - 52 : Nat) := by omega
  generalize roundWithAccuracy shape .positive m e .exact = w at hround ⊢
  cases hround with
  | zero => exact absurd hbits (by decide)
  | fits hpos hlt => exact .mk hpos hbits hlt hlow hvalue
  | carry _ hpos =>
      refine .mk hpos (Nat.le_refl _) (by decide) (by omega) ?_
      rw [Nat.pow_succ, ← Nat.pow_one 2, value_shift] at hvalue
      exact hvalue

theorem one_le_slack : 1 ≤ slack := by
  unfold slack
  norm_num

theorem slack_le : slack ≤ 3 / 2 := by
  unfold slack
  norm_num

/-- A value is compared with a natural number in a common unit. -/
theorem value_eq_iff (m : Nat) (e : Int) (n : Nat) :
    value m e = n ↔ m * 2 ^ e.toNat = n * 2 ^ (-e).toNat := by
  have hunit : (2 : ℚ) ^ e = 2 ^ e.toNat / 2 ^ (-e).toNat := by
    rw [← zpow_natCast, ← zpow_natCast, ← zpow_sub₀ (by norm_num)]
    congr 1
    omega
  rw [value, hunit, ← mul_div_assoc, div_eq_iff (by positivity)]
  exact_mod_cast Iff.rfl

/-! ## Doubles with all of their bits -/

theorem Normal.mono {u : UnpackedFloat} {low low' : Int} {high high' : ℚ} (h : Normal u low high)
    (hlow : low' ≤ low) (hhigh : high ≤ high') : Normal u low' high' := by
  obtain ⟨hm, hge, hlt, hle, hvalue⟩ := h
  exact .mk hm hge hlt (hlow.trans hle) (hvalue.trans hhigh)

theorem cast_twos (k : Nat) : (twos k : ℚ) = 2 ^ (k : Int) :=
  (Nat.cast_pow 2 k).trans (zpow_natCast 2 k).symm

/-- A number with all of its bits has an exponent that its value bounds. -/
theorem exponent_le {m : Nat} {e : Int} (hge : 2 ^ 52 ≤ m) (h : value m e < capacity) :
    e ≤ 971 := by
  have hpower : (2 : ℚ) ^ (52 + e) < 2 ^ ((1024 : Nat) : Int) := by
    calc (2 : ℚ) ^ (52 + e) = value (2 ^ 52) e := by
          rw [value, zpow_add₀ (by norm_num)]
          norm_num
      _ ≤ value m e := value_mono hge e
      _ < 2 ^ ((1024 : Nat) : Int) := by rwa [← cast_twos]
  have hlt := (zpow_lt_zpow_iff_right₀ (by norm_num)).1 hpower
  omega

theorem Normal.isInf {u : UnpackedFloat} {low : Int} {high : ℚ} (h : Normal u low high) :
    u.isInf = false := by
  cases h
  rfl

theorem Normal.isFinite {u : UnpackedFloat} {low : Int} {high : ℚ} (h : Normal u low high) :
    u.isFinite = true := by
  cases h
  rfl

/-- The double that a number with all of its bits is packed as. -/
theorem Normal.unpack_pack {u : UnpackedFloat} {low : Int} {high : ℚ} (h : Normal u low high)
    (hlow : -1074 ≤ low) (hhigh : high < capacity) : (pack u).unpack = u := by
  obtain ⟨hm, hge, hlt, hle, hvalue⟩ := h
  exact Double.unpack_pack hge hlt (hlow.trans hle) (exponent_le hge (hvalue.trans_lt hhigh))

theorem Normal.isInf_pack {u : UnpackedFloat} {low : Int} {high : ℚ} (h : Normal u low high)
    (hlow : -1074 ≤ low) (hhigh : high < capacity) : (pack u).isInf = false := by
  show (pack u).unpack.isInf = false
  rw [h.unpack_pack hlow hhigh]
  exact h.isInf

/-- The product of numbers with all of their bits. -/
theorem normal_mul {u v : UnpackedFloat} {low low' : Int} {high high' : ℚ} (hu : Normal u low high)
    (hv : Normal v low' high') (hlow : -1126 ≤ low + low') :
    Normal (UnpackedFloat.mul shape u v) (low + low' + 52) (high * high' * slack) := by
  obtain @⟨m, e, _, _, hm, hge, hlt, hle, hvalue⟩ := hu
  obtain @⟨n, f, _, _, hn, hge', hlt', hle', hvalue'⟩ := hv
  have hproduct : 2 ^ 104 ≤ m * n := by
    calc 2 ^ 104 = 2 ^ 52 * 2 ^ 52 := (Nat.pow_add 2 52 52)
      _ ≤ m * n := Nat.mul_le_mul hge hge'
  have hlog : 104 ≤ (m * n).log2 := log2_ge hproduct
  refine (normal_roundWithAccuracy (Nat.le_trans (by decide) hproduct) ?_).mono ?_ ?_
  · omega
  · omega
  · rw [value_mul]
    have hpos : 0 ≤ value n f := (value_pos hn f).le
    have hpos' : 0 ≤ high := (value_pos hm e).le.trans hvalue
    unfold slack
    gcongr

/-- A natural number with fewer bits than a double has, or with more of them, is rounded to one with
all of them. -/
theorem normal_round {n : Nat} (hn : 0 < n) :
    Normal (UnpackedFloat.round shape .positive n 0) (-52) (n * slack) := by
  have htarget : shape.targetExponent (totalExponent n 0) = (n.log2 : Int) - 52 := by
    rw [targetExponent_eq, lastPlace]
    omega
  have hself := Nat.log2_self_le (Nat.ne_of_gt hn)
  have hshifted : 2 ^ 52 ≤ n <<< (52 - n.log2) := by
    rw [Nat.shiftLeft_eq]
    calc 2 ^ 52 ≤ 2 ^ (n.log2 + (52 - n.log2)) := Nat.pow_le_pow_right (by decide) (by omega)
      _ = 2 ^ n.log2 * 2 ^ (52 - n.log2) := Nat.pow_add 2 _ _
      _ ≤ n * 2 ^ (52 - n.log2) := Nat.mul_le_mul_right _ hself
  have hlog := log2_ge hshifted
  have hround : UnpackedFloat.round shape .positive n 0 =
      roundWithAccuracy shape .positive (n <<< (52 - n.log2)) (-(52 - n.log2 : Nat)) .exact := by
    have hcount : (-((n.log2 : Int) - 52)).toNat = 52 - n.log2 := by omega
    rw [UnpackedFloat.round, htarget]
    simp only [decreaseExponent, Int.zero_sub, hcount]
  rw [hround]
  refine (normal_roundWithAccuracy hshifted (by omega)).mono (by omega) (le_of_eq ?_)
  rw [Nat.shiftLeft_eq, value_shift, Int.add_left_neg, value, zpow_zero, mul_one]

/-! ## Natural numbers and powers of ten -/

theorem log2_mul_two_pow {m : Nat} (k : Nat) (hm : 0 < m) : (m * 2 ^ k).log2 = m.log2 + k := by
  have hpos : 0 < m * 2 ^ k := Nat.mul_pos hm (Nat.two_pow_pos k)
  refine (Nat.log2_eq_iff (Nat.ne_of_gt hpos)).2 ⟨?_, ?_⟩
  · rw [Nat.pow_add]
    exact Nat.mul_le_mul_right _ (Nat.log2_self_le (Nat.ne_of_gt hm))
  · rw [Nat.add_right_comm, Nat.pow_add]
    exact Nat.mul_lt_mul_of_pos_right (lt_two_pow_log2 m) (Nat.two_pow_pos k)

/-- The number that a numeral with a positive exponent is rounded to. -/
theorem normal_ofScientific {n k : Nat} (hn : 0 < n) (hk : k ≤ 308) :
    Normal (UnpackedFloat.ofScientific shape n k) (((n * Decimal.tens k).log2 : Int) - 52)
      ((n * Decimal.tens k : Nat) * slack) := by
  have hpos : 0 < n * Decimal.tens k := Nat.mul_pos hn (Nat.pow_pos (by decide))
  have hscientific : UnpackedFloat.ofScientific shape n k =
      roundWithAccuracy shape .positive (n * Decimal.tens k * 2 ^ 53) (-53) .exact := by
    have hexponentBits : (2 : Int) ^ shape.exponentBits = 2048 := rfl
    rw [UnpackedFloat.ofScientific, dif_neg (Nat.ne_of_gt hn), hexponentBits, if_neg (by omega),
      if_neg (by omega), if_pos (by omega), UnpackedFloat.mul]
    show roundWithAccuracy shape .positive (n <<< 53 * Decimal.tens k) (-53) .exact = _
    rw [Nat.shiftLeft_eq, Nat.mul_right_comm]
  have hlog := log2_mul_two_pow 53 hpos
  rw [hscientific]
  refine (normal_roundWithAccuracy ?_ ?_).mono ?_ ?_
  · exact Nat.le_trans (by decide) (Nat.le_mul_of_pos_left _ hpos)
  · omega
  · omega
  · rw [value_shift, value]
    simp

theorem tens_le {n k : Nat} (h : n ≤ k) : Decimal.tens n ≤ Decimal.tens k :=
  Nat.pow_le_pow_right (by decide) h

/-- No power of ten is rounded beyond the doubles. -/
theorem tens_mul_slack_lt {n : Nat} (hn : n ≤ 308) : (Decimal.tens n : ℚ) * slack < capacity := by
  have htens : (Decimal.tens n : ℚ) ≤ Decimal.tens 308 := by exact_mod_cast tens_le hn
  have hlast : (Decimal.tens 308 : ℚ) * 3 < capacity * 2 := by exact_mod_cast tens_lt
  calc (Decimal.tens n : ℚ) * slack ≤ Decimal.tens 308 * (3 / 2) :=
        mul_le_mul htens slack_le (zero_le_one.trans one_le_slack) (Nat.cast_nonneg _)
    _ < capacity := by linarith

/-- Powers of ten are rounded to doubles with all of their bits. -/
theorem normal_powerOfTen {n : Nat} (hn : n ≤ 308) :
    Normal (Json.Numeral.powerOfTen n).toModel.unpack (leastPlace n) (Decimal.tens n * slack) := by
  -- the first powers come from a table, the others are computed
  by_cases hsmall : n ≤ 22
  · have hexact : isExactPower n = true :=
      List.all_eq_true.1 isExactPower_of_le n (List.mem_range.2 (by omega))
    unfold isExactPower at hexact
    split at hexact
    · rename_i m e hm hunpack
      obtain ⟨hge, hlt, hlow, hexact⟩ := of_decide_eq_true hexact
      rw [hunpack]
      refine .mk hm hge hlt hlow ?_
      rw [(value_eq_iff m e _).2 hexact]
      exact le_mul_of_one_le_right (Nat.cast_nonneg _) one_le_slack
    · cases hexact
  · have hpower : Json.Numeral.powerOfTen n =
        Float.ofModel (Float.Model.ofScientific 1 n) := by
      rw [Json.Numeral.powerOfTen, Float.ofScientific, dif_neg (fun h => hsmall h.2)]
      rfl
    have hlog : 3 ≤ (Decimal.tens n).log2 := by
      have hten : Decimal.tens 1 ≤ Decimal.tens n := tens_le (by omega)
      exact log2_ge (Nat.le_trans (by decide) hten)
    have hnormal := normal_ofScientific (n := 1) Nat.one_pos hn
    rw [Nat.one_mul] at hnormal
    rw [hpower]
    show Normal (pack (UnpackedFloat.ofScientific shape 1 n)).unpack _ _
    rw [hnormal.unpack_pack (by omega) (tens_mul_slack_lt hn)]
    refine hnormal.mono ?_ le_rfl
    rw [leastPlace, if_neg (by omega)]
    omega

/-- A number that is rounded to an exponent well within the doubles is finite. -/
theorem isFinite_pack_round {s : Sign} {m : Nat} {e : Int} {accuracy : Accuracy} (he : e ≤ 970)
    (hm : (m.log2 : Int) + e ≤ 1022) :
    (pack (roundWithAccuracy shape s m e accuracy)).isFinite = true := by
  have hexponent : e + shift m e ≤ 970 := by
    unfold shift lastPlace
    omega
  obtain ⟨r, -, -, hround⟩ := roundsTo_roundWithAccuracy s m e accuracy
  generalize roundWithAccuracy shape s m e accuracy = w at hround ⊢
  generalize e + (shift m e : Int) = f at hround hexponent
  cases hround with
  | zero => exact isFinite_pack_zero s
  | fits hpos hlt => exact isFinite_pack_finite (by omega)
  | carry _ hpos => exact isFinite_pack_finite (by omega)

/-- The exponent of a quotient, before it is rounded. -/
def quotientExponent (m : Nat) (e : Int) (n : Nat) (f : Int) : Int :=
  min (e - f) (max ((m.log2 : Int) + e - n.log2 - f - 53) (-1074))

theorem div_finite (s t : Sign) {m n : Nat} {e f : Int} (hm : 0 < m) (hn : 0 < n) :
    UnpackedFloat.div shape (.finite s m e hm) (.finite t n f hn) =
      roundWithAccuracy shape (s / t)
        ((m <<< (e - f - quotientExponent m e n f).toNat) / n) (quotientExponent m e n f)
        (accuracyOfFraction ((m <<< (e - f - quotientExponent m e n f).toNat) % n) n) := by
  have htarget : min (e - f) (shape.targetExponent (totalExponent m e - totalExponent n f)) =
      quotientExponent m e n f := by
    have hbits : (shape.mantissaBits : Int) = 53 := rfl
    have hlow : shape.minExponent = -1074 := rfl
    rw [Format.targetExponent, totalExponent, totalExponent, hbits, hlow, quotientExponent]
    congr 2
    omega
  rw [UnpackedFloat.div, divCore, htarget]

/-- The quotient of a finite double by one that is not below one is finite. -/
theorem isFinite_pack_div {u v : UnpackedFloat} {high : ℚ} (hu : Holds u)
    (hv : Normal v (-49) high) :
    (pack (UnpackedFloat.div shape u v)).isFinite = true := by
  obtain @⟨n, f, _, _, hn, hge, hlt, hlow, -⟩ := hv
  cases hu with
  | zero s => exact isFinite_pack_zero _
  | @finite s m e hpos hm he =>
      have hlogm : m.log2 ≤ 52 := log2_le_of_lt hm
      have hlogn : n.log2 = 52 := (Nat.log2_eq_iff (by omega)).2 ⟨hge, hlt⟩
      rw [div_finite]
      generalize hk : (e - f - quotientExponent m e n f).toNat = k
      have hquotient : quotientExponent m e n f ≤ 970 := by
        unfold quotientExponent
        omega
      -- the divisor has fifty-three bits, so the quotient has fifty-two fewer than the dividend
      have hshift : quotientExponent m e n f ≤ e - f := Int.min_le_left _ _
      have hbits : m <<< k / n < 2 ^ (m.log2 + 1 + k - 52) := by
        refine Nat.div_lt_of_lt_mul ?_
        calc m <<< k = m * 2 ^ k := Nat.shiftLeft_eq m k
          _ < 2 ^ (m.log2 + 1) * 2 ^ k :=
            Nat.mul_lt_mul_of_pos_right (lt_two_pow_log2 m) (Nat.two_pow_pos k)
          _ = 2 ^ (m.log2 + 1 + k) := (Nat.pow_add 2 _ _).symm
          _ ≤ 2 ^ (52 + (m.log2 + 1 + k - 52)) := Nat.pow_le_pow_right (by decide) (by omega)
          _ = 2 ^ 52 * 2 ^ (m.log2 + 1 + k - 52) := Nat.pow_add 2 _ _
          _ ≤ n * 2 ^ (m.log2 + 1 + k - 52) := Nat.mul_le_mul_right _ hge
      have hlog : (m <<< k / n).log2 ≤ m.log2 + 1 + k - 52 - 1 := by
        refine log2_le_of_lt (Nat.lt_of_lt_of_le hbits ?_)
        exact Nat.pow_le_pow_right (by decide) (by omega)
      refine isFinite_pack_round hquotient ?_
      omega

/-- The quotient of a finite double by a power of ten is finite. -/
theorem isFinite_div_powerOfTen {x : Float} (hx : x.isFinite = true) {n : Nat} (hpos : 0 < n)
    (hn : n ≤ 308) : (x / Json.Numeral.powerOfTen n).isFinite = true :=
  have hplace : leastPlace n = -49 := if_neg (Nat.ne_of_gt hpos)
  isFinite_pack_div (holds_of_isFinite hx) (hplace ▸ normal_powerOfTen hn)

/-! ## Significands -/

/-- The double that stands for one. -/
theorem normal_one : Normal (Float.ofBits 0x3FF0000000000000).toModel.unpack (-52) 1 := by
  have hone : (Float.ofBits 0x3FF0000000000000).toModel.unpack =
      .finite .positive (2 ^ 52) (-52) (by decide) := rfl
  rw [hone]
  refine .mk (by decide) (Nat.le_refl _) (by decide) le_rfl (le_of_eq ?_)
  exact_mod_cast (value_eq_iff (2 ^ 52) (-52) 1).2 rfl

/-- No significand is rounded beyond the doubles. -/
theorem mul_slack_lt {n : Nat} (hn : n < UInt64.size) : (n : ℚ) * slack * slack < capacity := by
  have hn' : (n : ℚ) ≤ (UInt64.size : Nat) := by exact_mod_cast hn.le
  have hlast : ((UInt64.size : Nat) : ℚ) * 3 < capacity := by exact_mod_cast size_lt
  have hsquare : slack * slack ≤ 3 := by
    unfold slack
    norm_num
  calc (n : ℚ) * slack * slack = n * (slack * slack) := mul_assoc _ _ _
    _ ≤ (UInt64.size : Nat) * 3 :=
      mul_le_mul hn' hsquare (mul_self_nonneg slack) (Nat.cast_nonneg _)
    _ < capacity := hlast

theorem mul_slack_le (n : Nat) : (n : ℚ) * slack ≤ n * slack * slack :=
  le_mul_of_one_le_right (mul_nonneg (Nat.cast_nonneg n) (zero_le_one.trans one_le_slack))
    one_le_slack

/-- A significand of sixty-four bits is rounded to a double with all of its bits. -/
theorem normal_ofNat {n : Nat} (hpos : 0 < n) (hn : n < UInt64.size) :
    Normal (Float.ofNat n).toModel.unpack (-52) (n * slack * slack) := by
  have hsmaller : (n : ℚ) * slack < capacity := (mul_slack_le n).trans_lt (mul_slack_lt hn)
  by_cases hsmall : n < 2 ^ 53
  · have hword : n.toUInt64.toNat = n := Nat.mod_eq_of_lt hn
    have hnormalize : UnpackedFloat.normalize shape n 0 .positive =
        UnpackedFloat.round shape .positive n 0 := by
      have hcompare : compare (n : Int) 0 = .gt := Int.compare_eq_gt.2 (by omega)
      rw [UnpackedFloat.normalize, hcompare]
      rfl
    have hfactor : n.toUInt64.toFloat.toModel.unpack = UnpackedFloat.round shape .positive n 0 := by
      show (pack (UnpackedFloat.normalize shape n.toUInt64.toNat 0 .positive)).unpack = _
      rw [hword, hnormalize]
      exact (normal_round hpos).unpack_pack (by decide) hsmaller
    have hproduct : Float.ofNat n = n.toUInt64.toFloat * Float.ofBits 0x3FF0000000000000 :=
      dif_pos ⟨hsmall, by decide⟩
    have hnormal := normal_mul (normal_round hpos) normal_one (by decide)
    rw [mul_one] at hnormal
    rw [hproduct]
    show Normal (pack (UnpackedFloat.mul shape n.toUInt64.toFloat.toModel.unpack _)).unpack _ _
    rw [hfactor, hnormal.unpack_pack (by decide) (mul_slack_lt hn)]
    exact hnormal
  · have hscientific : Float.ofNat n = Float.ofModel (Float.Model.ofScientific n (0 : Nat)) :=
      dif_neg (fun h => hsmall h.1)
    have hnormal : Normal (UnpackedFloat.ofScientific shape n (0 : Nat)) (-52)
        (n * slack * slack) := by
      refine (normal_ofScientific hpos (by decide)).mono (by omega) ?_
      rw [show n * Decimal.tens 0 = n from Nat.mul_one n]
      exact mul_slack_le n
    rw [hscientific]
    show Normal (pack (UnpackedFloat.ofScientific shape n (0 : Nat))).unpack _ _
    rw [hnormal.unpack_pack (by decide) (mul_slack_lt hn)]
    exact hnormal

theorem isFinite_ofNat {n : Nat} (hn : n < UInt64.size) : (Float.ofNat n).isFinite = true := by
  cases Nat.eq_zero_or_pos n with
  | inl hzero => exact hzero ▸ isFinite_ofNat_zero
  | inr hpos => exact (normal_ofNat hpos hn).isFinite

theorem isInf_pack_zero (s : Sign) : (pack (.zero s)).isInf = false := by
  cases s <;> rfl

theorem bound_mul_slack_lt : (bound : ℚ) * slack ^ 4 < capacity := by
  have hexact (a c : Nat) (h : a * 2 ^ 54 + 31 * c = 2 ^ 54 * c) :
      (a : ℚ) * 2 ^ 54 + 31 * c = 2 ^ 54 * c := by exact_mod_cast h
  have hbound := hexact bound capacity bound_mul
  have hcapacity : (0 : ℚ) < capacity := by
    rw [capacity, cast_twos]
    positivity
  generalize (capacity : ℚ) = c at hbound hcapacity
  have hslack : (2 ^ 54 - 31) * slack ^ 4 < 2 ^ 54 := by
    unfold slack
    norm_num
  have hscaled : (bound : ℚ) * 2 ^ 54 * slack ^ 4 < c * 2 ^ 54 := by
    calc (bound : ℚ) * 2 ^ 54 * slack ^ 4 = (2 ^ 54 - 31) * slack ^ 4 * c := by
          rw [eq_sub_of_add_eq hbound]
          ring
      _ < 2 ^ 54 * c := mul_lt_mul_of_pos_right hslack hcapacity
      _ = c * 2 ^ 54 := mul_comm _ _
  rw [mul_right_comm] at hscaled
  exact lt_of_mul_lt_mul_right hscaled (by norm_num)

/-- A significand times a power of ten that is well within the doubles. -/
theorem not_isInf_scaled {n k : Nat} (hn : n < UInt64.size) (hk : k ≤ 308)
    (hsmall : n * Decimal.tens k ≤ bound) :
    (Float.ofNat n * Json.Numeral.powerOfTen k).isInf = false := by
  have hplace : -52 ≤ leastPlace k := by
    unfold leastPlace
    split <;> decide
  have hpower := normal_powerOfTen hk
  cases Nat.eq_zero_or_pos n with
  | inl hzero =>
      subst hzero
      show (pack (UnpackedFloat.mul shape (Float.ofNat 0).toModel.unpack
        (Json.Numeral.powerOfTen k).toModel.unpack)).isInf = false
      have hfactor : (Float.ofNat 0).toModel.unpack = .zero .positive := rfl
      rw [hfactor]
      generalize (Json.Numeral.powerOfTen k).toModel.unpack = power at hpower ⊢
      cases hpower
      exact isInf_pack_zero .positive
  | inr hpos =>
      have hnormal := normal_mul (normal_ofNat hpos hn) hpower (by omega)
      refine hnormal.isInf_pack (by omega) ?_
      have hsmall' : (n : ℚ) * Decimal.tens k ≤ bound := by exact_mod_cast hsmall
      have hslack : 0 ≤ slack ^ 4 := pow_nonneg (zero_le_one.trans one_le_slack) 4
      calc (n : ℚ) * slack * slack * (Decimal.tens k * slack) * slack
          = n * Decimal.tens k * slack ^ 4 := by ring
        _ ≤ bound * slack ^ 4 := mul_le_mul_of_nonneg_right hsmall' hslack
        _ < capacity := bound_mul_slack_lt

/-! ## The bits of a finite double -/

theorem toNat_unpackExponent (b : BitVec 64) :
    (@unpackExponent shape b).toNat = b.toNat / 2 ^ 52 % 2048 := by
  show (b.extractLsb' 52 11).toNat = _
  rw [BitVec.extractLsb'_toNat, Nat.shiftRight_eq_div_pow]

/-- A finite double is less than `2 ^ 53` units of its last place, and the unit is not too great. -/
theorem ofFloat_lt {x : Float} (h : x.isFinite = true) :
    (Binary.ofFloat x).bits < 2 ^ 53 ∧ (Binary.ofFloat x).exponent ≤ 971 := by
  have hfield : @unpackExponent shape x.toModel.toBits.toBitVec ≠ -1#_ :=
    of_decide_eq_true ((isFinite_unpack x.toModel.toBits.toBitVec).symm.trans h)
  have hlt := unpackExponent_lt hfield
  rw [toNat_unpackExponent] at hlt
  have hbiased : x.toBits.toNat / Binary.leadingBit % 2048 < 2047 := hlt
  have hfraction : x.toBits.toNat % Binary.leadingBit < 2 ^ 52 := Nat.mod_lt _ (by decide)
  have hleading : Binary.leadingBit = 2 ^ 52 := rfl
  simp only [Binary.ofFloat]
  split
  · constructor
    · exact Nat.lt_trans hfraction (by decide)
    · show (-1074 : Int) ≤ 971
      decide
  · constructor
    · show Binary.leadingBit + x.toBits.toNat % Binary.leadingBit < 2 ^ 53
      omega
    · show ((x.toBits.toNat / Binary.leadingBit % 2048 : Nat) : Int) - 1075 ≤ 971
      omega

end ScriptDebugger.Double
