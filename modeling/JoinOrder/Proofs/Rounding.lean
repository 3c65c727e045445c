import JoinOrder.Proofs.CostOrder
import Mathlib.Data.Nat.Log
import Mathlib.Tactic.Positivity
/-!
# Arithmetic that does not fall below one

Costs and row counts are floats, and what nested loops do to them is not exact. All that is needed of the
arithmetic is where it stays: numbers of at least one are multiplied to at least one, and numbers that are
not negative are added to what is not negative, infinity included.

## Two shapes

Both properties can be read off the form in which a float is stored. A float that is not negative is a zero,
a positive number or infinity. A float of at least one is infinity, or a number whose mantissa has its full
length and whose exponent is not below that of one. Rounding a number of at least one makes neither the
mantissa shorter than that nor the exponent smaller, and storing a float keeps its shape or makes it
infinite.
-/

namespace JoinOrder

open Float.Model Float.Model.UnpackedFloat

namespace Rounding

/-- A float of at least one: infinity, or a mantissa of full length with an exponent that is not below that
of one. -/
inductive IsAtLeastOne : UnpackedFloat → Prop
  | infinity : IsAtLeastOne (.infinity .positive)
  | finite {m : ℕ} {e : ℤ} {hm : 0 < m} (full : m.log2 = 52) (le : -52 ≤ e) :
      IsAtLeastOne (.finite .positive m e hm)

/-- A float that is not negative: a zero of either sign, a positive number or infinity. -/
inductive IsNotNegative : UnpackedFloat → Prop
  | zero (s : Sign) : IsNotNegative (.zero s)
  | finite (m : ℕ) (e : ℤ) (hm : 0 < m) : IsNotNegative (.finite .positive m e hm)
  | infinity : IsNotNegative (.infinity .positive)

theorem IsAtLeastOne.isNotNegative {x : UnpackedFloat} (h : IsAtLeastOne x) : IsNotNegative x := by
  cases h with
  | infinity => exact .infinity
  | finite => exact .finite ..

/-! ## Lengths of mantissas -/

theorem le_log2_of_pow_le {k m : ℕ} (h : 2 ^ k ≤ m) : k ≤ m.log2 :=
  (Nat.le_log2 ((Nat.two_pow_pos k).trans_le h).ne').mpr h

theorem pow_le_shiftLeft {k m : ℕ} (h : 2 ^ k ≤ m) (l : ℕ) : 2 ^ (k + l) ≤ m <<< l := by
  rw [Nat.shiftLeft_eq, pow_add]
  exact Nat.mul_le_mul_right _ h

theorem ne_zero_of_log2 {m : ℕ} (h : m.log2 = 52) : m ≠ 0 := by
  rintro rfl
  contradiction

theorem log2_div_two_pow (m k : ℕ) : (m / 2 ^ k).log2 = m.log2 - k := by
  rw [Nat.log2_eq_log_two, Nat.log2_eq_log_two, Nat.log_div_base_pow]

/-- A mantissa is stored without its leading bit. -/
theorem log2_one_append (v : BitVec 52) : (1#1 ++ v).toNat.log2 = 52 := by
  have hv := v.isLt
  have hnat : (1#1 ++ v).toNat = 2 ^ 52 + v.toNat := by
    rw [BitVec.toNat_append, ← Nat.shiftLeft_add_eq_or_of_lt hv]
    rfl
  rw [hnat, Nat.log2_eq_iff (by omega)]
  omega

/-! ## Rounding -/

theorem mantissa_shiftRight (em : ExtendedMantissa) (k : ℕ) :
    (em >>> k).mantissa = em.mantissa / 2 ^ k := by
  change (k.repeat ExtendedMantissa.shiftRightOne em).mantissa = _
  induction k with
  | zero => exact (Nat.div_one _).symm
  | succ k ih =>
    change (k.repeat ExtendedMantissa.shiftRightOne em).mantissa / 2 = _
    rw [ih, Nat.div_div_eq_div_mul, pow_succ]

theorem mantissa_ofMantissaAndAccuracy (m : ℕ) (accuracy : Accuracy) :
    (ExtendedMantissa.ofMantissaAndAccuracy m accuracy).mantissa = m := by
  unfold ExtendedMantissa.ofMantissaAndAccuracy
  split <;> rfl

theorem mantissa_le_roundedMantissa (em : ExtendedMantissa) : em.mantissa ≤ em.roundedMantissa := by
  unfold ExtendedMantissa.roundedMantissa Accuracy.roundToNearestEven
  split <;> omega

theorem targetExponent_of_one_le {m : ℕ} {e : ℤ} (hone : 0 ≤ e + m.log2) :
    Format.binary64.targetExponent (totalExponent m e) = e + m.log2 - 52 := by
  have hbits : Format.binary64.mantissaBits = 53 := rfl
  simp only [Format.targetExponent, Format.minExponent, hbits, totalExponent]
  omega

theorem shiftToTargetExponent_of_one_le {m : ℕ} {e : ℤ} (accuracy : Accuracy) (hm : 52 ≤ m.log2)
    (hone : 0 ≤ e + m.log2) :
    (shiftToTargetExponent Format.binary64 m e accuracy).1.mantissa.log2 = 52 ∧
      (shiftToTargetExponent Format.binary64 m e accuracy).2 = e + m.log2 - 52 := by
  have hshift : (e + m.log2 - 52 - e).toNat = m.log2 - 52 := by omega
  unfold shiftToTargetExponent shiftToExponent
  rw [targetExponent_of_one_le hone]
  dsimp only
  rw [mantissa_shiftRight, mantissa_ofMantissaAndAccuracy, hshift, log2_div_two_pow]
  omega

/-- **A number of at least one is rounded to a float of at least one.** -/
theorem isAtLeastOne_roundWithAccuracy {m : ℕ} {e : ℤ} (accuracy : Accuracy) (hm : 52 ≤ m.log2)
    (hone : 0 ≤ e + m.log2) :
    IsAtLeastOne (roundWithAccuracy Format.binary64 .positive m e accuracy) := by
  obtain ⟨hfirst, hexponent⟩ := shiftToTargetExponent_of_one_le accuracy hm hone
  unfold roundWithAccuracy
  generalize shiftToTargetExponent Format.binary64 m e accuracy = first at hfirst hexponent ⊢
  -- the mantissa may become longer when it is rounded, and is shifted once more
  have hrounded : 52 ≤ first.1.roundedMantissa.log2 := by
    have hpow : 2 ^ 52 ≤ first.1.mantissa := hfirst ▸ Nat.log2_self_le (ne_zero_of_log2 hfirst)
    exact le_log2_of_pow_le (hpow.trans (mantissa_le_roundedMantissa first.1))
  obtain ⟨hsecond, hexponent'⟩ := shiftToTargetExponent_of_one_le (e := first.2) .exact hrounded
    (by omega)
  dsimp only
  rw [dif_neg (ne_zero_of_log2 hsecond)]
  exact .finite hsecond (by omega)

theorem isAtLeastOne_round {m : ℕ} {e : ℤ} (hm : m ≠ 0) (hone : 0 ≤ e + m.log2) :
    IsAtLeastOne (round Format.binary64 .positive m e) := by
  have hlog := le_log2_of_pow_le
    (pow_le_shiftLeft (Nat.log2_self_le hm) (e - (e + m.log2 - 52)).toNat)
  unfold UnpackedFloat.round decreaseExponent
  rw [targetExponent_of_one_le hone]
  dsimp only
  apply isAtLeastOne_roundWithAccuracy
  · omega
  · omega

theorem isNotNegative_dite (s : Sign) {p : Prop} [Decidable p] (m : ℕ) (e : ℤ) (hm : ¬p → 0 < m) :
    IsNotNegative (if h : p then .zero s else .finite .positive m e (hm h)) := by
  by_cases h : p
  · rw [dif_pos h]
    exact .zero s
  · rw [dif_neg h]
    exact .finite m e (hm h)

theorem isNotNegative_roundWithAccuracy (spec : Format) (m : ℕ) (e : ℤ) (accuracy : Accuracy) :
    IsNotNegative (roundWithAccuracy spec .positive m e accuracy) :=
  isNotNegative_dite _ _ _ Nat.pos_of_ne_zero

/-! ## Storing -/

theorem unpackSign_packComponents (spec : Format) (s : Sign) (e : BitVec spec.exponentBits)
    (m : BitVec spec.mantissaBitsWithoutImplicit) :
    unpackSign (packComponents spec s e m) = s.toBitVec := by
  apply BitVec.eq_of_getLsbD_eq
  intro i hi
  obtain rfl : i = 0 := by omega
  delta unpackSign
  simp [packComponents, BitVec.getLsbD_append, BitVec.getElem_append]

theorem ofBitVec_toBitVec (s : Sign) : Sign.ofBitVec s.toBitVec = s := by
  cases s <;> rfl

theorem ofNat_ne_neg_one {w n : ℕ} (h : n + 1 < 2 ^ w) : BitVec.ofNat w n ≠ -1#w := by
  intro heq
  have hnat := congrArg BitVec.toNat heq
  rw [BitVec.toNat_ofNat, Nat.mod_eq_of_lt (by omega), BitVec.neg_one_eq_allOnes,
    BitVec.toNat_allOnes] at hnat
  omega

theorem unpack_pack (x : UnpackedFloat) :
    (Float.Model.pack x).unpack =
      UnpackedFloat.unpack Format.binary64 (UnpackedFloat.pack Format.binary64 x) :=
  rfl

theorem isNotNegative_unpack {spec : Format} {x : BitVec spec.numBits}
    (hsign : Sign.ofBitVec (unpackSign x) = .positive) (he : unpackExponent x ≠ -1#_) :
    IsNotNegative (UnpackedFloat.unpack spec x) := by
  unfold UnpackedFloat.unpack
  dsimp only
  rw [if_neg he, hsign]
  by_cases hzero : unpackExponent x = 0#_
  · rw [if_pos hzero]
    exact isNotNegative_dite ..
  · rw [if_neg hzero]
    exact .finite ..

theorem isNotNegative_unpack_packComponents {spec : Format} {e : BitVec spec.exponentBits}
    (he : e ≠ -1#_) (m : BitVec spec.mantissaBitsWithoutImplicit) :
    IsNotNegative (UnpackedFloat.unpack spec (packComponents spec .positive e m)) := by
  apply isNotNegative_unpack
  · rw [unpackSign_packComponents, ofBitVec_toBitVec]
  · rwa [unpackExponent_packComponents]

theorem IsNotNegative.unpack_pack {x : UnpackedFloat} (h : IsNotNegative x) :
    IsNotNegative (Float.Model.pack x).unpack := by
  cases h with
  | zero s => cases s <;> exact .zero _
  | infinity => exact .infinity
  | finite m e hm =>
    rw [Rounding.unpack_pack]
    unfold UnpackedFloat.pack
    dsimp only
    split
    · exact .infinity
    · next hfits =>
      split
      · exact isNotNegative_unpack_packComponents (ofNat_ne_neg_one (Nat.not_le.mp hfits)) _
      · exact isNotNegative_unpack_packComponents (by decide) _

theorem isAtLeastOne_unpack {x : BitVec Format.binary64.numBits}
    (hsign : Sign.ofBitVec (unpackSign x) = .positive) (hone : 1023 ≤ (unpackExponent x).toNat)
    (he : unpackExponent x ≠ -1#_) : IsAtLeastOne (UnpackedFloat.unpack Format.binary64 x) := by
  have hzero : unpackExponent x ≠ 0#_ := by
    intro heq
    rw [heq, BitVec.toNat_zero] at hone
    omega
  unfold UnpackedFloat.unpack
  dsimp only
  rw [if_neg he, if_neg hzero, hsign]
  refine .finite (log2_one_append _) ?_
  change (-52 : ℤ) ≤ (unpackExponent x).toNat - (1023 + 52)
  omega

theorem isAtLeastOne_unpack_packComponents {biased : ℕ} (hone : 1023 ≤ biased)
    (hfits : biased + 1 < 2 ^ 11) (m : BitVec 52) :
    IsAtLeastOne (UnpackedFloat.unpack Format.binary64
      (packComponents Format.binary64 .positive (BitVec.ofNat 11 biased) m)) := by
  apply isAtLeastOne_unpack
  · rw [unpackSign_packComponents, ofBitVec_toBitVec]
  · rw [unpackExponent_packComponents, BitVec.toNat_ofNat,
      Nat.mod_eq_of_lt (show biased < 2 ^ 11 by omega)]
    exact hone
  · rw [unpackExponent_packComponents]
    exact ofNat_ne_neg_one hfits

theorem IsAtLeastOne.unpack_pack {x : UnpackedFloat} (h : IsAtLeastOne x) :
    IsAtLeastOne (Float.Model.pack x).unpack := by
  cases h with
  | infinity => exact .infinity
  | @finite m e hm full le =>
    rw [Rounding.unpack_pack]
    unfold UnpackedFloat.pack
    dsimp only
    split
    · exact .infinity
    · next hfits =>
      rw [if_pos (by rw [full]; rfl)]
      refine isAtLeastOne_unpack_packComponents ?_ (Nat.not_le.mp hfits) _
      change 1023 ≤ (e + 1023 + 52).toNat
      omega

/-! ## Order -/

theorem unpack_one : (1.0 : Float).toModel.unpack = .finite .positive (2 ^ 52) (-52) (by decide) := by
  rfl

theorem isValid_iff {c : Cost} : c.isValid = true ↔ IsNotNegative c.value.toModel.unpack := by
  constructor
  · intro h
    rcases Cost.unpack_of_isValid h with ⟨s, hc⟩ | ⟨m, e, hm, hc⟩ | hc
    · exact hc ▸ .zero s
    · exact hc ▸ .finite m e hm
    · exact hc ▸ .infinity
  · intro h
    rw [Cost.isValid, decide_eq_true_iff, Cost.le_iff_compare, Cost.unpack_zero]
    generalize c.value.toModel.unpack = x at h ⊢
    cases h <;> rfl

/-- A number is stored with a mantissa of full length, or with the least exponent. -/
theorem full_or_eq_of_unpack {b : BitVec 64} {s : Sign} {m : ℕ} {e : ℤ} {hm : 0 < m}
    (h : UnpackedFloat.unpack Format.binary64 b = .finite s m e hm) : m.log2 = 52 ∨ e = -1074 := by
  unfold UnpackedFloat.unpack at h
  dsimp only at h
  by_cases hinf : @unpackExponent Format.binary64 b = -1#11
  · rw [if_pos hinf] at h
    by_cases hmantissa : @unpackMantissa Format.binary64 b = 0#52
    · rw [if_pos hmantissa] at h
      contradiction
    · rw [if_neg hmantissa] at h
      contradiction
  · rw [if_neg hinf] at h
    by_cases hzero : @unpackExponent Format.binary64 b = 0#11
    · rw [if_pos hzero] at h
      by_cases hmantissa : @unpackMantissa Format.binary64 b = 0#52
      · rw [dif_pos hmantissa] at h
        contradiction
      · rw [dif_neg hmantissa] at h
        cases h
        rw [hzero]
        exact Or.inr rfl
    · rw [if_neg hzero] at h
      cases h
      exact Or.inl (log2_one_append _)

/-- With mantissas of full length the exponent decides whether a number is below one. -/
theorem isLE_compare_one_iff {m : ℕ} {e : ℤ} (hm : 2 ^ 52 ≤ m) :
    ((compare (-52) e).then (compare (2 ^ 52) m)).isLE = true ↔ -52 ≤ e := by
  rcases lt_trichotomy (-52) e with hlt | rfl | hgt
  · rw [compare_lt_iff_lt.mpr hlt]
    exact iff_of_true rfl hlt.le
  · rw [compare_eq_iff_eq.mpr rfl]
    exact iff_of_true (Nat.isLE_compare.mpr hm) le_rfl
  · rw [compare_gt_iff_gt.mpr hgt]
    exact iff_of_false Bool.false_ne_true hgt.not_ge

theorem one_le_iff {x : Float} : 1.0 ≤ x ↔ IsAtLeastOne x.toModel.unpack := by
  have hle := Cost.le_iff_compare ⟨1.0⟩ ⟨x⟩
  have hfull {s m e hm} (hx : x.toModel.unpack = .finite s m e hm) : m.log2 = 52 ∨ e = -1074 :=
    full_or_eq_of_unpack hx
  rw [unpack_one] at hle
  refine hle.trans ?_
  generalize x.toModel.unpack = y at hfull ⊢
  constructor
  · intro h
    cases y with
    | finite s m e hm =>
      cases s with
      | negative => contradiction
      | positive =>
        rcases hfull rfl with hlog | rfl
        · refine .finite hlog ((isLE_compare_one_iff ?_).mp h)
          exact hlog ▸ Nat.log2_self_le hm.ne'
        · contradiction
    | infinity s =>
      cases s with
      | positive => exact .infinity
      | negative => contradiction
    | zero s => contradiction
    | notANumber => contradiction
  · intro h
    cases h with
    | infinity => rfl
    | @finite m e hm full le =>
      exact (isLE_compare_one_iff (full ▸ Nat.log2_self_le hm.ne')).mpr le

/-! ## Products and sums -/

theorem mul_finite (spec : Format) {m m' : ℕ} (e e' : ℤ) (hm : 0 < m) (hm' : 0 < m') :
    UnpackedFloat.mul spec (.finite .positive m e hm) (.finite .positive m' e' hm') =
      roundWithAccuracy spec .positive (m * m') (e + e') .exact :=
  rfl

theorem IsAtLeastOne.mul {x y : UnpackedFloat} (hx : IsAtLeastOne x) (hy : IsAtLeastOne y) :
    IsAtLeastOne (UnpackedFloat.mul Format.binary64 x y) := by
  cases hx with
  | infinity => cases hy <;> exact .infinity
  | @finite m e hm full le =>
    cases hy with
    | infinity => exact .infinity
    | @finite m' e' hm' full' le' =>
      have hlog : 104 ≤ (m * m').log2 := by
        apply le_log2_of_pow_le
        have h := Nat.mul_le_mul (Nat.log2_self_le hm.ne') (Nat.log2_self_le hm'.ne')
        rwa [full, full', ← pow_add] at h
      rw [mul_finite]
      apply isAtLeastOne_roundWithAccuracy
      · omega
      · omega

theorem normalize_of_pos (spec : Format) {m : ℕ} (hm : 0 < m) (e : ℤ) (s : Sign) :
    UnpackedFloat.normalize spec m e s = UnpackedFloat.round spec .positive m e := by
  have hpos : (m : ℤ) > 0 := Int.natCast_pos.mpr hm
  rw [UnpackedFloat.normalize, compare_gt_iff_gt.mpr hpos]
  rfl

theorem add_finite (spec : Format) {m m' : ℕ} (e e' : ℤ) (hm : 0 < m) (hm' : 0 < m') :
    UnpackedFloat.add spec (.finite .positive m e hm) (.finite .positive m' e' hm') =
      UnpackedFloat.round spec .positive
        (m <<< (e - min e e').toNat + m' <<< (e' - min e e').toNat) (min e e') := by
  have hpos : 0 < m <<< (e - min e e').toNat := by
    rw [Nat.shiftLeft_eq]
    positivity
  exact normalize_of_pos spec (Nat.add_pos_left hpos _) (min e e') .positive

theorem IsNotNegative.add {x y : UnpackedFloat} (hx : IsNotNegative x) (hy : IsNotNegative y) :
    IsNotNegative (UnpackedFloat.add Format.binary64 x y) := by
  cases hx with
  | zero s =>
    cases hy with
    | zero s' => cases s <;> cases s' <;> exact .zero _
    | finite => exact .finite ..
    | infinity => exact .infinity
  | infinity => cases hy <;> exact .infinity
  | finite m e hm =>
    cases hy with
    | zero => exact .finite ..
    | infinity => exact .infinity
    | finite m' e' hm' =>
      rw [add_finite]
      exact isNotNegative_roundWithAccuracy ..

theorem isAtLeastOne_one_add {x : UnpackedFloat} (hx : IsNotNegative x) :
    IsAtLeastOne (UnpackedFloat.add Format.binary64 (1.0 : Float).toModel.unpack x) := by
  rw [unpack_one]
  cases hx with
  | zero => exact .finite Nat.log2_two_pow le_rfl
  | infinity => exact .infinity
  | finite m e hm =>
    rw [add_finite]
    -- the share of one alone is long enough
    have hpow := (pow_le_shiftLeft (le_refl (2 ^ 52)) (-52 - min (-52) e).toNat).trans
      (Nat.le_add_right _ (m <<< (e - min (-52) e).toNat))
    have hlog := le_log2_of_pow_le hpow
    apply isAtLeastOne_round ((Nat.two_pow_pos _).trans_le hpow).ne'
    omega

/-! ## Floats -/

theorem one_le_mul {x y : Float} (hx : 1.0 ≤ x) (hy : 1.0 ≤ y) : 1.0 ≤ x * y :=
  one_le_iff.mpr ((one_le_iff.mp hx).mul (one_le_iff.mp hy)).unpack_pack

theorem isValid_add {a b : Cost} (ha : a.isValid = true) (hb : b.isValid = true) :
    (a + b).isValid = true :=
  isValid_iff.mpr ((isValid_iff.mp ha).add (isValid_iff.mp hb)).unpack_pack

theorem isValid_of_one_le {x : Float} (hx : 1.0 ≤ x) : (Cost.mk x).isValid = true :=
  isValid_iff.mpr (one_le_iff.mp hx).isNotNegative

theorem one_le_one_add {x : Float} (hx : (0.0 : Float) ≤ x) : 1.0 ≤ 1.0 + x := by
  have hvalid : (Cost.mk x).isValid = true := decide_eq_true hx
  exact one_le_iff.mpr (isAtLeastOne_one_add (isValid_iff.mp hvalid)).unpack_pack

theorem one_le_ofNat {n : ℕ} (hn : 0 < n) : 1.0 ≤ Float.ofNat n := by
  change 1.0 ≤ Float.ofScientific n false 0
  unfold Float.ofScientific
  split
  -- a number of up to 53 bits is converted as a word, and multiplied by the power of ten for no digits
  · have hword : n.toUInt64.toNat = n := by
      rw [Nat.toUInt64_eq, UInt64.toNat_ofNat', Nat.mod_eq_of_lt (by omega)]
    have hround : n.toUInt64.toFloat.toModel =
        Float.Model.pack (UnpackedFloat.round Format.binary64 .positive n 0) := by
      change Float.Model.pack (UnpackedFloat.normalize Format.binary64 n.toUInt64.toNat 0 .positive) = _
      rw [hword, normalize_of_pos _ hn]
    have hone : 1.0 ≤ n.toUInt64.toFloat := by
      rw [one_le_iff, hround]
      exact IsAtLeastOne.unpack_pack (isAtLeastOne_round hn.ne' (by omega))
    have hpower : 1.0 ≤ Float.exactlyRepresentablePowersOfTen[0] := by decide +kernel
    exact one_le_mul hone hpower
  -- a longer one is rounded as it is
  · refine one_le_iff.mpr (IsAtLeastOne.unpack_pack ?_)
    have hexponent : (if false = true then Int.negOfNat 0 else Int.ofNat 0) = 0 := rfl
    have hlarge : ¬(0 : ℤ) < -(2 ^ Format.binary64.exponentBits + n.log2) := by
      change ¬(0 : ℤ) < -(2 ^ 11 + n.log2)
      omega
    have hmantissa : n <<< Format.binary64.mantissaBits * 10 ^ (0 : ℤ).toNat = n <<< 53 := Nat.mul_one _
    have hbits : (-Format.binary64.mantissaBits : ℤ) + 0 = -53 := rfl
    have hlog := le_log2_of_pow_le (pow_le_shiftLeft (Nat.log2_self_le hn.ne') 53)
    unfold UnpackedFloat.ofScientific
    rw [dif_neg hn.ne']
    dsimp only
    rw [if_neg (by decide), hexponent, if_neg hlarge, if_pos le_rfl, mul_finite, hmantissa, hbits]
    apply isAtLeastOne_roundWithAccuracy
    · omega
    · omega

end Rounding

end JoinOrder
