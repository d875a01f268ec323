import Mathlib

/-!
# Bounds for binary64 arithmetic

`Float` is the type of the binary64 numbers, and its arithmetic rounds to nearest. A product of two
nonnegative numbers may come out larger than it is, by half a unit in the last place; the conversion to an
integer then drops what is behind the point. `toUInt8_mul_clamp_le` says that the two do not add up: an integer
bound of the exact product is a bound of the integer that comes out.

`clamp` is the clamp of a number to an interval, and `fixed` writes a number with a fixed number of
decimals.
-/

namespace Kyth.Binary64

open Float.Model Float.Model.UnpackedFloat

/-- `f64::clamp`. -/
def clamp (x low high : Float) : Float :=
  let y := if x < low then low else x
  if high < y then high else y

/-- `a / b`, rounded to nearest with ties to even. -/
def divRound (a b : ℕ) : ℕ :=
  if 2 * (a % b) < b then a / b
  else if 2 * (a % b) = b then a / b + a / b % 2
  else a / b + 1

/-- `format!` with the given number of decimals, for a number that is neither negative nor infinite. -/
def fixed (decimals : ℕ) (x : Float) : String :=
  let digits : ℕ :=
    match x.toModel.unpack with
    | .finite _ m e _ => divRound (m * 10 ^ decimals * 2 ^ e.toNat) (2 ^ (-e).toNat)
    | _ => 0
  if decimals = 0 then toString digits
  else
    let fraction := toString (digits % 10 ^ decimals)
    toString (digits / 10 ^ decimals) ++ "." ++
      String.ofList (List.replicate (decimals - fraction.length) '0') ++ fraction

example : fixed 0 2.5 = "2" ∧ fixed 0 3.5 = "4" ∧ fixed 1 12.0625 = "12.1" := by decide

/-! ### Rounding -/

theorem shiftRight_mantissa (em : ExtendedMantissa) (k : ℕ) :
    (em >>> k).mantissa = em.mantissa / 2 ^ k := by
  show (Nat.repeat ExtendedMantissa.shiftRightOne k em).mantissa = em.mantissa / 2 ^ k
  induction k with
  | zero => simp [Nat.repeat]
  | succ k ih =>
    show (Nat.repeat ExtendedMantissa.shiftRightOne k em).mantissa / 2 = em.mantissa / 2 ^ (k + 1)
    rw [ih, Nat.div_div_eq_div_mul, pow_succ]

theorem roundedMantissa_le (em : ExtendedMantissa) : em.roundedMantissa ≤ em.mantissa + 1 := by
  rcases em with ⟨m, _ | _, _ | _⟩ <;>
    simp only [ExtendedMantissa.roundedMantissa, ExtendedMantissa.accuracy,
      Accuracy.roundToNearestEven] <;> omega

theorem shiftToExponent_exact (m : ℕ) (e target : ℤ) :
    ((shiftToExponent m e .exact target).1).mantissa = m / 2 ^ (target - e).toNat ∧
      (shiftToExponent m e .exact target).2 = max e target := by
  constructor
  · show (ExtendedMantissa.ofMantissaAndAccuracy m .exact >>> (target - e).toNat).mantissa = _
    rw [shiftRight_mantissa]
    rfl
  · show e + ((target - e).toNat : ℤ) = max e target
    omega

/-- The exponent that the format wants for a number below `2 ^ 52`. -/
theorem targetExponent_bounds {m d : ℕ} (h : m < 2 ^ (52 + d)) :
    -1074 ≤ Format.binary64.targetExponent (totalExponent m (-d)) ∧
      Format.binary64.targetExponent (totalExponent m (-d)) ≤ -1 := by
  have hlog : m.log2 < 52 + d := by
    by_cases hm : m = 0
    · subst hm
      simp
    · exact (Nat.log2_lt hm).2 h
  simp only [Format.targetExponent, totalExponent, Format.mantissaBits, Format.minExponent]
  norm_num
  omega

/-- A mantissa that is at most one unit above the bound `n`. -/
def Fits (n m d : ℕ) : Prop := 1 ≤ d ∧ m ≤ n * 2 ^ d + 1

theorem Fits.lt {n m d : ℕ} (h : Fits n m d) (hn : n < 2 ^ 52) : m < 2 ^ (52 + d) := by
  obtain ⟨hd, hm⟩ := h
  have htwo : 2 ^ 1 ≤ 2 ^ d := Nat.pow_le_pow_right (by decide) hd
  have hbound : (n + 1) * 2 ^ d ≤ 2 ^ 52 * 2 ^ d := Nat.mul_le_mul_right _ hn
  rw [← pow_add, Nat.add_mul] at hbound
  omega

/-- The integer part of such a number is at most `n`. -/
theorem Fits.div_le {n m d : ℕ} (h : Fits n m d) : m / 2 ^ d ≤ n := by
  obtain ⟨hd, hm⟩ := h
  have htwo : 2 ^ 1 ≤ 2 ^ d := Nat.pow_le_pow_right (by decide) hd
  refine Nat.lt_succ_iff.1 ((Nat.div_lt_iff_lt_mul (by positivity)).2 ?_)
  rw [Nat.succ_mul]
  omega

/-- A shift to the target exponent, in binary digits behind the point: `k` of them are dropped and `g` are
left. -/
theorem shift_digits {m d : ℕ} (hd : 1 ≤ d) (h : m < 2 ^ (52 + d)) :
    ∃ k g, d = g + k ∧ 1 ≤ g ∧ g ≤ 1074 ∧
      (shiftToTargetExponent Format.binary64 m (-d) .exact).1.mantissa = m / 2 ^ k ∧
      (shiftToTargetExponent Format.binary64 m (-d) .exact).2 = -(g : ℤ) := by
  obtain ⟨hlow, hhigh⟩ := targetExponent_bounds h
  obtain ⟨hm, he⟩ := shiftToExponent_exact m (-d)
    (Format.binary64.targetExponent (totalExponent m (-d)))
  refine ⟨_, (-(max (-(d : ℤ)) (Format.binary64.targetExponent (totalExponent m (-d))))).toNat,
    ?_, ?_, ?_, hm, ?_⟩
  · omega
  · omega
  · omega
  · exact he.trans (by omega)

/-- Dropping digits keeps the bound. -/
theorem Fits.shift {n m g k : ℕ} (hg : 1 ≤ g) (h : m ≤ n * 2 ^ (g + k) + 1) : Fits n (m / 2 ^ k) g := by
  refine ⟨hg, ?_⟩
  have hpos : 0 < 2 ^ k := by positivity
  refine Nat.lt_succ_iff.1 ((Nat.div_lt_iff_lt_mul hpos).2 ?_)
  calc m ≤ n * 2 ^ (g + k) + 1 := h
    _ < n * 2 ^ (g + k) + 2 * 2 ^ k := by omega
    _ = (n * 2 ^ g + 1).succ * 2 ^ k := by rw [pow_add, Nat.succ_eq_add_one]; ring

/-- A number that is at most `n` is still at most `n` when it has been rounded, up to one unit in the last
place. -/
theorem round_fits {sign : Sign} {n m d : ℕ} (hn : n < 2 ^ 52) (hd : 1 ≤ d) (hm : m ≤ n * 2 ^ d) :
    roundWithAccuracy Format.binary64 sign m (-d) .exact = .zero sign ∨
      ∃ (fm g : ℕ) (hpos : 0 < fm),
        roundWithAccuracy Format.binary64 sign m (-d) .exact = .finite sign fm (-(g : ℤ)) hpos ∧ g ≤ 1074 ∧
        Fits n fm g := by
  have hfits : Fits n m d := ⟨hd, by omega⟩
  obtain ⟨k, g, rfl, hg, -, hmantissa, hexponent⟩ := shift_digits hd (hfits.lt hn)
  -- the first shift drops digits, and rounding adds at most one unit
  have hround : Fits n (shiftToTargetExponent Format.binary64 m (-(g + k : ℕ)) .exact).1.roundedMantissa g := by
    refine ⟨hg, (roundedMantissa_le _).trans ?_⟩
    rw [hmantissa, Nat.add_le_add_iff_right]
    calc m / 2 ^ k ≤ n * 2 ^ (g + k) / 2 ^ k := Nat.div_le_div_right hm
      _ = n * 2 ^ g := by rw [pow_add, ← mul_assoc, Nat.mul_div_cancel _ (by positivity)]
  generalize hr : (shiftToTargetExponent Format.binary64 m (-(g + k : ℕ)) .exact).1.roundedMantissa = r
    at hround
  -- the second one makes up for a carry
  obtain ⟨k', g', rfl, hg', hlast, hmantissa', hexponent'⟩ := shift_digits hg (hround.lt hn)
  unfold roundWithAccuracy
  simp only [hr, hexponent, hmantissa', hexponent']
  split
  next hzero => exact .inl rfl
  next hzero => exact .inr ⟨_, _, Nat.pos_of_ne_zero hzero, rfl, hlast, Fits.shift hg' hround.2⟩

/-! ### The integer part -/

/-- The integer part of a number, as a natural number. -/
def floor (u : UnpackedFloat) : ℕ := (u.toInt 0 255).toNat

theorem floor_finite_le {sign : Sign} {m d : ℕ} {e : ℤ} {hpos : 0 < m} (he : e = -(d : ℤ)) :
    floor (.finite sign m e hpos) ≤ m / 2 ^ d := by
  subst he
  have hleft : decreaseExponent m (-(d : ℤ)) 0 = (m, -(d : ℤ)) := by
    have hzero : (-(d : ℤ) - 0).toNat = 0 := by omega
    unfold decreaseExponent
    rw [hzero]
    simp
  have hright : (shiftToExponent m (-(d : ℤ)) .exact 0).1.mantissa = m / 2 ^ d := by
    have hd : (0 - -(d : ℤ)).toNat = d := by omega
    rw [(shiftToExponent_exact m (-(d : ℤ)) 0).1, hd]
  have hint : roundToInt sign m (-(d : ℤ)) = sign.apply (m / 2 ^ d : ℕ) := by
    unfold roundToInt
    rw [hleft]
    simp only [hright]
  show (roundToInt sign m (-(d : ℤ))).toNat ≤ m / 2 ^ d
  rw [hint]
  cases sign with
  | negative =>
    show (-((m / 2 ^ d : ℕ) : ℤ)).toNat ≤ m / 2 ^ d
    omega
  | positive => exact le_of_eq (Int.toNat_natCast _)

/-- The mantissa of a normal number, with the bit that is not stored. -/
theorem implicitBit {m : ℕ} (h : m.log2 = 52) : (1#1 ++ BitVec.ofNat 52 m).toNat = m := by
  have hpos : m ≠ 0 := by
    rintro rfl
    simp at h
  obtain ⟨hlow, hhigh⟩ := (Nat.log2_eq_iff hpos).1 h
  rw [BitVec.toNat_append, ← Nat.shiftLeft_add_eq_or_of_lt (BitVec.isLt _), Nat.shiftLeft_eq]
  show 1 * 2 ^ 52 + m % 2 ^ 52 = m
  omega

theorem floor_normal_le (sign : Sign) {m d : ℕ} (hd : 1 ≤ d) (hd' : d ≤ 1074) (h : m.log2 = 52) :
    floor (UnpackedFloat.unpack Format.binary64
      (packComponents Format.binary64 sign (BitVec.ofNat 11 (1075 - d)) (BitVec.ofNat 52 m))) ≤
        m / 2 ^ d := by
  have hexponent : (BitVec.ofNat 11 (1075 - d)).toNat = 1075 - d := by
    rw [BitVec.toNat_ofNat]
    omega
  have hmax : BitVec.ofNat 11 (1075 - d) ≠ -1#11 := by
    intro heq
    have hnat := congrArg BitVec.toNat heq
    rw [hexponent] at hnat
    simp at hnat
    omega
  have hzero : BitVec.ofNat 11 (1075 - d) ≠ 0#11 := by
    intro heq
    have hnat := congrArg BitVec.toNat heq
    rw [hexponent] at hnat
    simp at hnat
    omega
  have hbehind : ((1075 - d : ℕ) : ℤ) - (Format.binary64.exponentBias + (52 : ℕ)) = -(d : ℤ) := by
    show ((1075 - d : ℕ) : ℤ) - ((1023 : ℕ) + (52 : ℕ)) = -(d : ℤ)
    omega
  unfold UnpackedFloat.unpack
  simp only [unpackMantissa_packComponents, unpackExponent_packComponents, if_neg hmax, if_neg hzero,
    hexponent]
  calc _ ≤ (1#1 ++ BitVec.ofNat 52 m).toNat / 2 ^ d := floor_finite_le hbehind
    _ = m / 2 ^ d := by rw [implicitBit h]

theorem floor_subnormal (sign : Sign) (mantissa : BitVec 52) :
    floor (UnpackedFloat.unpack Format.binary64
      (packComponents Format.binary64 sign 0#11 mantissa)) = 0 := by
  unfold UnpackedFloat.unpack
  simp only [unpackMantissa_packComponents, unpackExponent_packComponents]
  rw [if_neg (by decide), if_pos trivial]
  by_cases hm : mantissa = 0#52
  · rw [dif_pos hm]
    rfl
  · rw [dif_neg hm]
    obtain ⟨d, hd⟩ : ∃ d, d = 1074 := ⟨_, rfl⟩
    have hbehind : ((0#11).toNat : ℤ) - (Format.binary64.exponentBias + (52 : ℕ)) + 1 = -(d : ℤ) := by
      rw [hd]
      rfl
    refine Nat.eq_zero_of_le_zero ((floor_finite_le hbehind).trans (le_of_eq ?_))
    exact Nat.div_eq_of_lt (mantissa.isLt.trans (Nat.pow_lt_pow_right (by decide) (by omega)))

theorem floor_pack_notANumber : floor (Float.Model.pack .notANumber).unpack = 0 := by decide

theorem floor_pack_zero (sign : Sign) : floor (Float.Model.pack (.zero sign)).unpack = 0 := by
  cases sign <;> decide

/-- Packing keeps the bound. -/
theorem floor_pack_le {sign : Sign} {n m g : ℕ} {hpos : 0 < m} (h : Fits n m g) (hg : g ≤ 1074) :
    floor (Float.Model.pack (.finite sign m (-(g : ℤ)) hpos)).unpack ≤ n := by
  have hone := h.1
  have hbiased : (-(g : ℤ) + Format.binary64.exponentBias + (52 : ℕ)).toNat = 1075 - g := by
    show (-(g : ℤ) + (1023 : ℕ) + (52 : ℕ)).toNat = 1075 - g
    omega
  have hsmall : ¬ 2 ^ Format.binary64.exponentBits ≤ 1075 - g + 1 := by
    show ¬ 2 ^ 11 ≤ 1075 - g + 1
    omega
  show floor (UnpackedFloat.unpack Format.binary64
    (UnpackedFloat.pack Format.binary64 (.finite sign m (-(g : ℤ)) hpos))) ≤ n
  unfold UnpackedFloat.pack
  simp only [hbiased, if_neg hsmall]
  have hbits : Format.binary64.mantissaBits = 53 := rfl
  by_cases hnormal : m.log2 = 52
  · rw [if_pos (by omega)]
    exact (floor_normal_le sign hone hg hnormal).trans h.div_le
  · rw [if_neg (by omega)]
    exact (le_of_eq (floor_subnormal sign _)).trans (Nat.zero_le n)

theorem toUInt8_le (x : Float) : x.toUInt8.toNat ≤ floor x.toModel.unpack := by
  show (UInt8.ofNatClamp (floor x.toModel.unpack)).toNat ≤ _
  unfold UInt8.ofNatClamp
  split
  next h => exact le_of_eq (UInt8.toNat_ofNatLT)
  next h => exact (le_of_eq (UInt8.toNat_ofNatLT)).trans ((Nat.sub_le _ _).trans (not_lt.1 h))

/-! ### Products -/

/-- A number that is read from its bits has a mantissa of at most 53 bits. -/
theorem unpack_mantissa_lt {x : Float} {sign : Sign} {m : ℕ} {e : ℤ} {hpos : 0 < m}
    (h : x.toModel.unpack = .finite sign m e hpos) : m < 2 ^ 53 := by
  unfold Float.Model.unpack UnpackedFloat.unpack at h
  simp only at h
  split at h
  · split at h <;> cases h
  · split at h
    · split at h
      · cases h
      · cases h
        exact (BitVec.isLt _).trans (by decide)
    · cases h
      exact BitVec.isLt _

theorem unpack_one : (1.0 : Float).toModel.unpack = .finite .positive (2 ^ 52) (-52) (by decide) := by
  rfl

theorem lt_iff (a b : Float) : a < b ↔ a.toModel.unpack.compare b.toModel.unpack = some .lt := by
  show decide (a.toModel < b.toModel) = true ↔ _
  rw [decide_eq_true_iff]
  show (a.toModel.unpack.compare b.toModel.unpack == some .lt) = true ↔ _
  rw [beq_iff_eq]

theorem clamp_bounds (x : Float) : ¬ clamp x 0.0 1.0 < 0.0 ∧ ¬ (1.0 : Float) < clamp x 0.0 1.0 := by
  have hone : ¬ (1.0 : Float) < 0.0 ∧ ¬ (1.0 : Float) < 1.0 := by decide
  have hzero : ¬ (0.0 : Float) < 0.0 ∧ ¬ (1.0 : Float) < 0.0 := by decide
  unfold clamp
  by_cases hlow : x < 0.0
  · rw [if_pos hlow, if_neg hzero.2]
    exact hzero
  · rw [if_neg hlow]
    by_cases hhigh : (1.0 : Float) < x
    · rw [if_pos hhigh]
      exact hone
    · rw [if_neg hhigh]
      exact ⟨hlow, hhigh⟩

/-- What a clamped number is: nothing with an integer part, or a positive number that is at most `1`. -/
theorem clamp_cases (x : Float) :
    (clamp x 0.0 1.0).toModel.unpack = .notANumber ∨
      (∃ sign, (clamp x 0.0 1.0).toModel.unpack = .zero sign) ∨
      ∃ (m d : ℕ) (hpos : 0 < m), (clamp x 0.0 1.0).toModel.unpack = .finite .positive m (-(d : ℤ)) hpos ∧
        m ≤ 2 ^ d := by
  obtain ⟨hlow, hhigh⟩ := clamp_bounds x
  generalize clamp x 0.0 1.0 = y at hlow hhigh ⊢
  rw [lt_iff, (rfl : (0.0 : Float).toModel.unpack = .zero .positive)] at hlow
  rw [lt_iff, unpack_one] at hhigh
  cases hy : y.toModel.unpack with
  | notANumber => exact .inl rfl
  | zero sign => exact .inr (.inl ⟨sign, rfl⟩)
  | infinity sign =>
    rw [hy] at hlow hhigh
    cases sign with
    | negative => exact absurd rfl hlow
    | positive => exact absurd rfl hhigh
  | finite sign m e hpos =>
    have hm := unpack_mantissa_lt hy
    rw [hy] at hlow hhigh
    cases sign with
    | negative => exact absurd rfl hlow
    | positive =>
      -- the exponent decides, and the mantissa where the exponents are equal
      have hless : ¬ ((compare (-52) e).then (compare (2 ^ 52) m)) = .lt := fun h =>
        hhigh (congrArg some h)
      rw [Ordering.then_eq_lt, Int.compare_eq_lt, Int.compare_eq_eq, Nat.compare_eq_lt] at hless
      have he : e ≤ -52 := by omega
      obtain ⟨d, rfl⟩ : ∃ d : ℕ, e = -(d : ℤ) := ⟨(-e).toNat, by omega⟩
      refine .inr (.inr ⟨m, d, hpos, rfl, ?_⟩)
      by_cases hd : d = 52
      · subst hd
        omega
      · exact hm.le.trans (Nat.pow_le_pow_right (by decide) (by omega))

/-- The integer part of a product with a clamped number. -/
theorem toUInt8_mul_clamp_le {a : Float} {n m d : ℕ} {hpos : 0 < m}
    (ha : a.toModel.unpack = .finite .positive m (-(d : ℤ)) hpos) (hd : 1 ≤ d) (hm : m ≤ n * 2 ^ d)
    (hn : n < 2 ^ 52) (x : Float) : (a * clamp x 0.0 1.0).toUInt8.toNat ≤ n := by
  refine (toUInt8_le _).trans ?_
  show floor (Float.Model.pack (UnpackedFloat.mul Format.binary64 a.toModel.unpack
    (clamp x 0.0 1.0).toModel.unpack)).unpack ≤ n
  rw [ha]
  obtain hx | ⟨sign, hx⟩ | ⟨m', d', hpos', hx, hm'⟩ := clamp_cases x
  · rw [hx]
    exact floor_pack_notANumber.le.trans (Nat.zero_le n)
  · rw [hx]
    exact (floor_pack_zero _).le.trans (Nat.zero_le n)
  · rw [hx]
    have hproduct : m * m' ≤ n * 2 ^ (d + d') := by
      calc m * m' ≤ n * 2 ^ d * 2 ^ d' := Nat.mul_le_mul hm hm'
        _ = n * 2 ^ (d + d') := by rw [pow_add, mul_assoc]
    have hexponent : -(d : ℤ) + -(d' : ℤ) = -((d + d' : ℕ) : ℤ) := by
      push_cast
      ring
    show floor (Float.Model.pack (roundWithAccuracy Format.binary64 (.positive * .positive) (m * m')
      (-(d : ℤ) + -(d' : ℤ)) .exact)).unpack ≤ n
    rw [hexponent]
    obtain hround | ⟨fm, g, hfm, hround, hg, hfits⟩ := round_fits hn (by omega) hproduct
    · rw [hround]
      exact (floor_pack_zero _).le.trans (Nat.zero_le n)
    · rw [hround]
      exact floor_pack_le hfits hg

end Kyth.Binary64
