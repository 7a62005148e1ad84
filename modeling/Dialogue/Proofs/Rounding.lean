import Dialogue.Json.Double
import Dialogue.Proofs.Digits
import Mathlib.Algebra.Order.Field.Power
import Mathlib.Algebra.Order.Field.Rat
import Mathlib.Tactic.FieldSimp
import Mathlib.Tactic.Linarith
import Mathlib.Tactic.NormNum
import Mathlib.Tactic.Positivity
import Mathlib.Tactic.Ring

/-!
# Rounding to floating-point numbers

What a fraction rounds to depends on its value alone (`ofRatio_congr`), so the zeros at the end of a
decimal may be written in its power (`ofDecimal_shift`). What is rounded to is canonical: a number
has one mantissa and one exponent (`canonical_ofDecimal`). And a canonical number is what the
shortest decimal that is looked for rounds to (`ofDecimal_shortest`).
-/

namespace Dialogue.Json.Double

/-- The value of a fraction. -/
def ratio (fraction : Nat × Nat) : ℚ := fraction.1 / fraction.2

theorem scale_pos {base : Nat} (hbase : 0 < base) (num : Nat) {den : Nat} (hden : 0 < den) :
    ∀ power : Int, 0 < (scale base num den power).2
  | .ofNat _ => hden
  | .negSucc _ => Nat.mul_pos hden (Nat.pow_pos hbase)

theorem ratio_scale {base : Nat} (hbase : 0 < base) (num den : Nat) : ∀ power : Int,
    ratio (scale base num den power) = ratio (num, den) * (base : ℚ) ^ power
  | .ofNat power => by
    simp only [ratio, scale, Int.ofNat_eq_natCast, zpow_natCast]
    push_cast
    ring
  | .negSucc power => by
    have hne : (base : ℚ) ≠ 0 := by positivity
    simp only [ratio, scale, zpow_negSucc]
    push_cast
    field_simp

/-- Two fractions of one value are the same when both are multiplied out. -/
theorem mul_eq_of_ratio {f g : Nat × Nat} (hf : 0 < f.2) (hg : 0 < g.2) (h : ratio f = ratio g) :
    f.1 * g.2 = g.1 * f.2 := by
  have hf' : (f.2 : ℚ) ≠ 0 := by positivity
  have hg' : (g.2 : ℚ) ≠ 0 := by positivity
  rw [ratio, ratio, div_eq_div_iff hf' hg'] at h
  exact_mod_cast h

/-! ## Rounding a fraction to an integer -/

theorem roundHalfEven_mul (num den : Nat) {c : Nat} (hc : 0 < c) :
    roundHalfEven (num * c) (den * c) = roundHalfEven num den := by
  have htwice : 2 * (num * c % (den * c)) = 2 * (num % den) * c := by
    rw [Nat.mul_mod_mul_right, Nat.mul_assoc]
  simp only [roundHalfEven, htwice, Nat.mul_div_mul_right num den hc, Nat.mul_lt_mul_right hc]

theorem roundHalfEven_congr {f g : Nat × Nat} (hf : 0 < f.2) (hg : 0 < g.2)
    (h : ratio f = ratio g) : roundHalfEven f.1 f.2 = roundHalfEven g.1 g.2 := by
  rw [← roundHalfEven_mul f.1 f.2 hg, ← roundHalfEven_mul g.1 g.2 hf, mul_eq_of_ratio hf hg h,
    Nat.mul_comm f.2]

theorem roundHalfEven_exact (n : Nat) {den : Nat} (hden : 0 < den) :
    roundHalfEven (n * den) den = n := by
  rw [roundHalfEven, Nat.mul_mod_left, Nat.mul_div_cancel n hden]
  simp [hden]

theorem le_roundHalfEven {n num den : Nat} (hden : 0 < den) (h : n * den ≤ num) :
    n ≤ roundHalfEven num den := by
  have := (Nat.le_div_iff_mul_le hden).2 h
  simp only [roundHalfEven]
  split_ifs <;> omega

theorem roundHalfEven_le {n num den : Nat} (hden : 0 < den) (h : num < n * den) :
    roundHalfEven num den ≤ n := by
  have := (Nat.div_lt_iff_lt_mul hden).2 h
  simp only [roundHalfEven]
  split_ifs <;> omega

/-! ## The exponent of a fraction -/

/-- The value has the exponent if its mantissa is to have all bits and no more. -/
def HasExponent (r : ℚ) (e : Int) : Prop := (2 : ℚ) ^ (e + 52) ≤ r ∧ r < (2 : ℚ) ^ (e + 53)

theorem HasExponent.unique {r : ℚ} {d e : Int} (hd : HasExponent r d) (he : HasExponent r e) :
    d = e := by
  have h1 := (zpow_lt_zpow_iff_right₀ (by norm_num : (1 : ℚ) < 2)).1 (hd.1.trans_lt he.2)
  have h2 := (zpow_lt_zpow_iff_right₀ (by norm_num : (1 : ℚ) < 2)).1 (he.1.trans_lt hd.2)
  omega

theorem log2_bounds {n : Nat} (hn : 0 < n) :
    (2 : ℚ) ^ (Nat.log2 n : Int) ≤ n ∧ (n : ℚ) < 2 ^ ((Nat.log2 n : Int) + 1) := by
  have hlt : n < 2 ^ (Nat.log2 n + 1) := Nat.lt_log2_self
  constructor
  · exact_mod_cast Nat.log2_self_le hn.ne'
  · exact_mod_cast hlt

theorem exponentOf_spec {num den : Nat} (hnum : 0 < num) (hden : 0 < den) :
    ∃ e, HasExponent (ratio (num, den)) e ∧ exponentOf num den = max minExponent e := by
  obtain ⟨hnum1, hnum2⟩ := log2_bounds hnum
  obtain ⟨hden1, hden2⟩ := log2_bounds hden
  have hden0 : (0 : ℚ) < den := by exact_mod_cast hden
  have h2 : (2 : ℚ) ≠ 0 := by norm_num
  set guess : Int := Nat.log2 num - Nat.log2 den - (precision - 1 : Nat) with hguess
  have hprecision : ((precision - 1 : Nat) : Int) = 52 := rfl
  -- the logarithms leave two exponents, and the comparison tells which one it is
  have hlow : (2 : ℚ) ^ (guess + 51) ≤ ratio (num, den) := by
    rw [ratio, le_div_iff₀ hden0]
    calc (2 : ℚ) ^ (guess + 51) * den ≤ 2 ^ (guess + 51) * 2 ^ ((Nat.log2 den : Int) + 1) := by
          gcongr
      _ = 2 ^ (Nat.log2 num : Int) := by
          rw [← zpow_add₀ h2]
          congr 1
          omega
      _ ≤ num := hnum1
  have hhigh : ratio (num, den) < (2 : ℚ) ^ (guess + 53) := by
    rw [ratio, div_lt_iff₀ hden0]
    calc (num : ℚ) < 2 ^ ((Nat.log2 num : Int) + 1) := hnum2
      _ = 2 ^ (guess + 53) * 2 ^ (Nat.log2 den : Int) := by
          rw [← zpow_add₀ h2]
          congr 1
          omega
      _ ≤ 2 ^ (guess + 53) * den := by gcongr
  have hscaled := scale_pos zero_lt_two num hden (-guess)
  have hcompare : (scale 2 num den (-guess)).1
        < 2 ^ (precision - 1) * (scale 2 num den (-guess)).2
      ↔ ratio (num, den) < (2 : ℚ) ^ (guess + 52) := by
    have hratio := ratio_scale zero_lt_two num den (-guess)
    rw [ratio, div_eq_iff (by positivity)] at hratio
    rw [← Nat.cast_lt (α := ℚ), hratio]
    push_cast
    rw [mul_lt_mul_iff_left₀ (by exact_mod_cast hscaled), zpow_neg,
      ← div_eq_mul_inv, div_lt_iff₀ (by positivity), zpow_add₀ h2, mul_comm]
    norm_num [precision]
  unfold exponentOf
  rw [← hguess]
  by_cases h : ratio (num, den) < (2 : ℚ) ^ (guess + 52)
  · refine ⟨guess - 1, ⟨?_, ?_⟩, ?_⟩
    · rwa [show guess - 1 + 52 = guess + 51 by omega]
    · rwa [show guess - 1 + 53 = guess + 52 by omega]
    · simp only [if_pos (hcompare.2 h)]
  · exact ⟨guess, ⟨le_of_not_gt h, hhigh⟩, by simp only [if_neg (mt hcompare.1 h)]⟩

theorem exponentOf_congr {f g : Nat × Nat} (hf : 0 < f.1 ∧ 0 < f.2) (hg : 0 < g.1 ∧ 0 < g.2)
    (h : ratio f = ratio g) : exponentOf f.1 f.2 = exponentOf g.1 g.2 := by
  obtain ⟨d, hd, hdeq⟩ := exponentOf_spec hf.1 hf.2
  obtain ⟨e, he, heeq⟩ := exponentOf_spec hg.1 hg.2
  rw [hdeq, heeq, hd.unique (h ▸ he)]

/-! ## Rounding a fraction -/

/-- The mantissa to which a fraction is rounded, and its exponent before a carry. -/
def rounded (num den : Nat) : Nat × Int :=
  let exponent := exponentOf num den
  let scaled := scale 2 num den (-exponent)
  (roundHalfEven scaled.1 scaled.2, exponent)

theorem rounded_congr {f g : Nat × Nat} (hf : 0 < f.1 ∧ 0 < f.2) (hg : 0 < g.1 ∧ 0 < g.2)
    (h : ratio f = ratio g) : rounded f.1 f.2 = rounded g.1 g.2 := by
  have hexp := exponentOf_congr hf hg h
  have htwo : 0 < 2 := by decide
  simp only [rounded, hexp]
  rw [roundHalfEven_congr (scale_pos htwo f.1 hf.2 _) (scale_pos htwo g.1 hg.2 _)]
  rw [ratio_scale htwo, ratio_scale htwo, h]

theorem ofRatio_eq {num : Nat} (hnum : 0 < num) (den : Nat) (negative : Bool) :
    ofRatio negative num den
      = let (mantissa, exponent) :=
          if (rounded num den).1 = 2 ^ precision then
            (2 ^ (precision - 1), (rounded num den).2 + 1)
          else rounded num den
        if maxExponent < exponent then .infinite negative
        else .finite negative mantissa exponent := by
  rw [ofRatio, if_neg hnum.ne']
  rfl

theorem ofRatio_congr (negative : Bool) {f g : Nat × Nat} (hf : 0 < f.1 ∧ 0 < f.2)
    (hg : 0 < g.1 ∧ 0 < g.2) (h : ratio f = ratio g) :
    ofRatio negative f.1 f.2 = ofRatio negative g.1 g.2 := by
  rw [ofRatio_eq hf.1, ofRatio_eq hg.1, rounded_congr hf hg h]

/-- A number with one mantissa and one exponent: all bits of the mantissa are used, unless the
exponent is the least one. -/
def Canonical : Double → Prop
  | .finite _ mantissa exponent =>
    mantissa < 2 ^ precision ∧ minExponent ≤ exponent ∧ exponent ≤ maxExponent
      ∧ (2 ^ (precision - 1) ≤ mantissa ∨ exponent = minExponent)
  | .infinite _ => True
  | .nan => True

theorem canonical_zero (negative : Bool) : (zero negative).Canonical :=
  ⟨by decide, by decide, by decide, .inr rfl⟩

/-- A mantissa is at most the one that a carry gives, and uses all bits unless the exponent is the
least one. -/
theorem rounded_bounds {num den : Nat} (hnum : 0 < num) (hden : 0 < den) :
    (rounded num den).1 ≤ 2 ^ precision ∧ minExponent ≤ (rounded num den).2
      ∧ (2 ^ (precision - 1) ≤ (rounded num den).1 ∨ (rounded num den).2 = minExponent) := by
  obtain ⟨e, ⟨hlow, hhigh⟩, hexp⟩ := exponentOf_spec hnum hden
  set exponent := exponentOf num den
  have hpos := scale_pos zero_lt_two num hden (-exponent)
  have hratio := ratio_scale zero_lt_two num den (-exponent)
  rw [ratio, zpow_neg, ← div_eq_mul_inv] at hratio
  set scaled := scale 2 num den (-exponent)
  have hpos' : (0 : ℚ) < scaled.2 := by exact_mod_cast hpos
  have hunit : (0 : ℚ) < ((2 : Nat) : ℚ) ^ exponent := by positivity
  have h2 : (2 : ℚ) ≠ 0 := by norm_num
  have hle : e ≤ exponent := hexp ▸ le_max_right _ _
  have hmin : minExponent ≤ exponent := hexp ▸ le_max_left _ _
  refine ⟨?_, hmin, ?_⟩
  · refine roundHalfEven_le hpos ?_
    have hlt : (scaled.1 : ℚ) / scaled.2 < 2 ^ precision := by
      rw [hratio, div_lt_iff₀ hunit]
      calc ratio (num, den) < (2 : ℚ) ^ (e + 53) := hhigh
        _ ≤ 2 ^ (53 + exponent) := zpow_le_zpow_right₀ (by norm_num) (by omega)
        _ = 2 ^ precision * ((2 : Nat) : ℚ) ^ exponent := by
          rw [zpow_add₀ h2]
          norm_num [precision]
    rw [div_lt_iff₀ hpos'] at hlt
    exact_mod_cast hlt
  · by_cases heq : exponent = e
    · refine .inl (le_roundHalfEven hpos ?_)
      have hge : (2 : ℚ) ^ (precision - 1) ≤ scaled.1 / scaled.2 := by
        rw [hratio, le_div_iff₀ hunit]
        calc (2 : ℚ) ^ (precision - 1) * ((2 : Nat) : ℚ) ^ exponent = 2 ^ (e + 52) := by
              rw [heq, zpow_add₀ h2, mul_comm]
              norm_num [precision]
          _ ≤ ratio (num, den) := hlow
      rw [le_div_iff₀ hpos'] at hge
      exact_mod_cast hge
    · exact .inr (by change exponent = minExponent; omega)

theorem canonical_ofRatio (negative : Bool) (num : Nat) {den : Nat} (hden : 0 < den) :
    (ofRatio negative num den).Canonical := by
  rcases Nat.eq_zero_or_pos num with rfl | hnum
  · exact canonical_zero negative
  obtain ⟨hle, hmin, hfull⟩ := rounded_bounds hnum hden
  rw [ofRatio_eq hnum]
  by_cases hcarry : (rounded num den).1 = 2 ^ precision
  · simp only [if_pos hcarry]
    split_ifs with hmax
    · trivial
    · exact ⟨by decide, by omega, by omega, .inl le_rfl⟩
  · simp only [if_neg hcarry]
    split_ifs with hmax
    · trivial
    · exact ⟨by omega, hmin, by omega, hfull⟩

/-- A fraction that is a canonical number rounds to it. -/
theorem ofRatio_of_canonical {negative : Bool} {mantissa : Nat} {exponent : Int}
    (h : Canonical (.finite negative mantissa exponent)) {num den : Nat}
    (hnum : 0 < num) (hden : 0 < den)
    (hratio : ratio (num, den) = mantissa * (2 : ℚ) ^ exponent) :
    ofRatio negative num den = .finite negative mantissa exponent := by
  obtain ⟨hlt, hmin, hmax, hfull⟩ := h
  have h2 : (2 : ℚ) ≠ 0 := by norm_num
  have hunit : (0 : ℚ) < (2 : ℚ) ^ exponent := by positivity
  obtain ⟨e, ⟨hlow, hhigh⟩, hexp⟩ := exponentOf_spec hnum hden
  have hupper : ratio (num, den) < (2 : ℚ) ^ (exponent + 53) := by
    rw [hratio, zpow_add₀ h2, mul_comm]
    have : (mantissa : ℚ) < 2 ^ precision := by exact_mod_cast hlt
    exact mul_lt_mul_of_pos_left (by norm_num [precision] at this ⊢; exact this) hunit
  have he : e ≤ exponent := by
    have := (zpow_lt_zpow_iff_right₀ (by norm_num : (1 : ℚ) < 2)).1 (hlow.trans_lt hupper)
    omega
  have hexponent : exponentOf num den = exponent := by
    rcases hfull with hfull | hleast
    · have hlower : (2 : ℚ) ^ (exponent + 52) ≤ ratio (num, den) := by
        rw [hratio, zpow_add₀ h2, mul_comm]
        have : (2 : ℚ) ^ (precision - 1) ≤ mantissa := by exact_mod_cast hfull
        exact mul_le_mul_of_nonneg_right (by norm_num [precision] at this ⊢; exact this) hunit.le
      rw [hexp, HasExponent.unique ⟨hlow, hhigh⟩ ⟨hlower, hupper⟩]
      exact max_eq_right hmin
    · rw [hexp, max_eq_left (by omega), hleast]
  have hpos := scale_pos zero_lt_two num hden (-exponent)
  have hscaled : (scale 2 num den (-exponent)).1 = mantissa * (scale 2 num den (-exponent)).2 := by
    have hvalue := ratio_scale zero_lt_two num den (-exponent)
    rw [hratio, zpow_neg, Nat.cast_ofNat, mul_inv_cancel_right₀ hunit.ne', ratio,
      div_eq_iff (by positivity)] at hvalue
    exact_mod_cast hvalue
  have hround : rounded num den = (mantissa, exponent) := by
    simp only [rounded, hexponent, hscaled, roundHalfEven_exact mantissa hpos]
  rw [ofRatio_eq hnum, hround]
  simp only [if_neg hlt.ne, if_neg (Int.not_lt.2 hmax)]

/-! ## Decimals -/

theorem ofNat_length_bounds {n : Nat} (hn : 0 < n) :
    n < 10 ^ (Text.ofNat n).length ∧ 10 ^ ((Text.ofNat n).length - 1) ≤ n
      ∧ 0 < (Text.ofNat n).length := by
  have hsize : 0 < (Text.ofNat n).length := List.length_pos_iff.2 Nat.toDigits_ne_nil
  refine ⟨(Nat.length_toDigits_le_iff (by decide) hsize).1 le_rfl, ?_, hsize⟩
  rcases Nat.eq_or_lt_of_le (Nat.succ_le_of_lt hsize) with hone | hmore
  · rw [← hone]
    exact hn
  · by_contra hlt
    have := (Nat.length_toDigits_le_iff (b := 10) (by decide) (by omega)).2 (Nat.not_le.1 hlt)
    unfold Text.ofNat at this hmore
    omega

theorem length_ofNat_mul (n k : Nat) (hn : 0 < n) :
    (Text.ofNat (n * 10 ^ k)).length = (Text.ofNat n).length + k := by
  obtain ⟨hlt, hle, hpos⟩ := ofNat_length_bounds hn
  obtain ⟨hlt', hle', hpos'⟩ := ofNat_length_bounds (n := n * 10 ^ k) (by positivity)
  have hten : 1 < 10 := by decide
  have h1 : 10 ^ ((Text.ofNat (n * 10 ^ k)).length - 1) < 10 ^ ((Text.ofNat n).length + k) := by
    rw [Nat.pow_add]
    exact hle'.trans_lt (Nat.mul_lt_mul_of_pos_right hlt (by positivity))
  have h2 : 10 ^ ((Text.ofNat n).length - 1 + k) < 10 ^ (Text.ofNat (n * 10 ^ k)).length := by
    rw [Nat.pow_add]
    exact (Nat.mul_le_mul_right _ hle).trans_lt hlt'
  have h3 := (Nat.pow_lt_pow_iff_right hten).1 h1
  have h4 := (Nat.pow_lt_pow_iff_right hten).1 h2
  omega

theorem ratio_scale_one (digits : Nat) (power : Int) :
    ratio (scale 10 digits 1 power) = digits * (10 : ℚ) ^ power := by
  rw [ratio_scale (by decide), ratio]
  norm_num

theorem scale_fst_pos {base : Nat} (hbase : 0 < base) {num : Nat} (hnum : 0 < num) (den : Nat) :
    ∀ power : Int, 0 < (scale base num den power).1
  | .ofNat _ => Nat.mul_pos hnum (Nat.pow_pos hbase)
  | .negSucc _ => hnum

/-- Zeros at the end of the digits may be written in the power. -/
theorem ofDecimal_shift (negative : Bool) {digits : Nat} (hd : 0 < digits) (k : Nat) (power : Int) :
    ofDecimal negative (digits * 10 ^ k) power = ofDecimal negative digits (power + k) := by
  have hd' : 0 < digits * 10 ^ k := by positivity
  have hsize : ((Text.ofNat (digits * 10 ^ k)).length : Int) + power
      = (Text.ofNat digits).length + (power + k) := by
    rw [length_ofNat_mul _ _ hd]
    push_cast
    ring
  have hratio : ratio (scale 10 (digits * 10 ^ k) 1 power)
      = ratio (scale 10 digits 1 (power + k)) := by
    rw [ratio_scale_one, ratio_scale_one, zpow_add₀ (by norm_num), zpow_natCast]
    push_cast
    ring
  have hten : 0 < 10 := by decide
  simp only [ofDecimal, if_neg hd.ne', if_neg hd'.ne', hsize]
  rw [ofRatio_congr negative ⟨scale_fst_pos hten hd' 1 _, scale_pos hten _ Nat.one_pos _⟩
    ⟨scale_fst_pos hten hd 1 _, scale_pos hten _ Nat.one_pos _⟩ hratio]

theorem canonical_ofDecimal (negative : Bool) (digits : Nat) (power : Int) :
    (ofDecimal negative digits power).Canonical := by
  simp only [ofDecimal]
  split_ifs
  · exact canonical_zero negative
  · trivial
  · exact canonical_zero negative
  · exact canonical_ofRatio negative _ (scale_pos (by decide) _ Nat.one_pos _)

/-- A decimal whose value is a canonical number rounds to it: the number is neither too great nor
too small for the decimal to be looked at. -/
theorem ofDecimal_of_canonical {negative : Bool} {mantissa : Nat} {exponent : Int}
    (h : Canonical (.finite negative mantissa exponent)) (hm : 0 < mantissa) {digits : Nat}
    {power : Int} (hvalue : (digits : ℚ) * 10 ^ power = mantissa * (2 : ℚ) ^ exponent) :
    ofDecimal negative digits power = .finite negative mantissa exponent := by
  have hunit : (0 : ℚ) < (2 : ℚ) ^ exponent := by positivity
  have hten : (0 : ℚ) < (10 : ℚ) ^ power := by positivity
  have hm' : (1 : ℚ) ≤ mantissa := by exact_mod_cast hm
  have hd : 0 < digits := by
    by_contra hzero
    obtain rfl : digits = 0 := by omega
    rw [Nat.cast_zero, zero_mul] at hvalue
    exact absurd hvalue.symm (by positivity)
  obtain ⟨hlt, hle, hpos⟩ := ofNat_length_bounds hd
  set size := (Text.ofNat digits).length
  have hsmall : ¬ 310 < (size : Int) + power := by
    intro hgreat
    have h1 : (10 : ℚ) ^ (310 : Int) ≤ digits * 10 ^ power := by
      calc (10 : ℚ) ^ (310 : Int) ≤ 10 ^ (((size - 1 : Nat) : Int) + power) :=
            zpow_le_zpow_right₀ (by norm_num) (by omega)
        _ = 10 ^ (size - 1) * 10 ^ power := by rw [zpow_add₀ (by norm_num), zpow_natCast]
        _ ≤ digits * 10 ^ power := by
          have : ((10 ^ (size - 1) : Nat) : ℚ) ≤ digits := by exact_mod_cast hle
          push_cast at this
          gcongr
    have h2 : mantissa * (2 : ℚ) ^ exponent ≤ 2 ^ precision * 2 ^ maxExponent := by
      have : (mantissa : ℚ) ≤ 2 ^ precision := by exact_mod_cast h.1.le
      exact mul_le_mul this (zpow_le_zpow_right₀ (by norm_num) h.2.2.1) hunit.le (by positivity)
    have h3 : (2 : ℚ) ^ precision * 2 ^ ((971 : Nat) : Int) < (10 : ℚ) ^ ((310 : Nat) : Int) := by
      have : 2 ^ precision * 2 ^ 971 < 10 ^ 310 := by decide +kernel
      rw [zpow_natCast, zpow_natCast]
      exact_mod_cast this
    have hmax : maxExponent = ((971 : Nat) : Int) := rfl
    exact absurd (h1.trans (hvalue.le.trans (hmax ▸ h2))) (not_le.2 h3)
  have hlarge : ¬ (size : Int) + power < -330 := by
    intro hlittle
    have h1 : (digits : ℚ) * 10 ^ power < 10 ^ (-330 : Int) := by
      calc (digits : ℚ) * 10 ^ power < 10 ^ size * 10 ^ power := by
            have : (digits : ℚ) < ((10 ^ size : Nat) : ℚ) := by exact_mod_cast hlt
            push_cast at this
            gcongr
        _ = 10 ^ ((size : Int) + power) := by rw [zpow_add₀ (by norm_num), zpow_natCast]
        _ ≤ 10 ^ (-330 : Int) := zpow_le_zpow_right₀ (by norm_num) (by omega)
    have h2 : (2 : ℚ) ^ minExponent ≤ mantissa * 2 ^ exponent := by
      calc (2 : ℚ) ^ minExponent ≤ 2 ^ exponent := zpow_le_zpow_right₀ (by norm_num) h.2.1
        _ ≤ mantissa * 2 ^ exponent := le_mul_of_one_le_left hunit.le hm'
    have h3 : (10 : ℚ) ^ (-((330 : Nat) : Int)) < 2 ^ (-((1074 : Nat) : Int)) := by
      have : 2 ^ 1074 < 10 ^ 330 := by decide +kernel
      rw [zpow_neg, zpow_neg, zpow_natCast, zpow_natCast]
      exact inv_strictAnti₀ (by positivity) (by exact_mod_cast this)
    exact absurd (hvalue ▸ h1) (not_lt.2 (h3.le.trans h2))
  have hbase : 0 < 10 := by decide
  simp only [ofDecimal, if_neg hd.ne']
  rw [if_neg hsmall, if_neg hlarge]
  exact ofRatio_of_canonical h (scale_fst_pos hbase hd 1 _) (scale_pos hbase _ Nat.one_pos _)
    ((ratio_scale_one digits power).trans hvalue)

theorem exact_value (mantissa : Nat) : ∀ exponent : Int,
    ((exact mantissa exponent).1 : ℚ) * 10 ^ (exact mantissa exponent).2
      = mantissa * (2 : ℚ) ^ exponent
  | .ofNat power => by
    simp only [exact, Int.ofNat_eq_natCast, zpow_natCast, zpow_zero]
    push_cast
    ring
  | .negSucc power => by
    simp only [exact, zpow_negSucc]
    push_cast
    have : (10 : ℚ) ^ (power + 1) = 5 ^ (power + 1) * 2 ^ (power + 1) := by
      rw [← mul_pow]
      norm_num
    rw [this]
    field_simp

/-- A number with the sign. -/
def withSign (negative : Bool) : Double → Double
  | .finite _ mantissa exponent => .finite negative mantissa exponent
  | .infinite _ => .infinite negative
  | .nan => .nan

theorem ofDecimal_withSign (negative : Bool) (digits : Nat) (power : Int) :
    ofDecimal negative digits power = (ofDecimal false digits power).withSign negative := by
  simp only [ofDecimal, ofRatio]
  split_ifs <;> rfl

theorem roundHalfEven_cases (num den : Nat) :
    roundHalfEven num den = num / den ∨ roundHalfEven num den = num / den + 1 := by
  simp only [roundHalfEven]
  split_ifs <;> simp

theorem ofDecimal_candidate? {mantissa : Nat} {exponent : Int} {count : Nat}
    {decimal : Nat × Int} (h : candidate? mantissa exponent count = some decimal) :
    ofDecimal false decimal.1 decimal.2 = .finite false mantissa exponent := by
  simp only [candidate?] at h
  split at h
  · rename_i hlow hhigh
    cases h
    rcases roundHalfEven_cases _ _ with heq | heq
    · rw [heq]
      exact eq_of_beq hlow
    · rw [heq]
      exact eq_of_beq hhigh
  · rename_i hlow _
    cases h
    exact eq_of_beq hlow
  · rename_i _ hhigh
    cases h
    exact eq_of_beq hhigh
  · cases h

/-- The shortest decimal of a canonical number rounds to it. -/
theorem ofDecimal_shortest {negative : Bool} {mantissa : Nat} {exponent : Int}
    (h : Canonical (.finite negative mantissa exponent)) (hm : 0 < mantissa) :
    ofDecimal false (shortest mantissa exponent).1 (shortest mantissa exponent).2
      = .finite false mantissa exponent := by
  have hpositive : Canonical (.finite false mantissa exponent) := h
  unfold shortest
  rcases hfind : (List.range 17).findSome? fun n => candidate? mantissa exponent (n + 1) with
    _ | decimal
  · exact ofDecimal_of_canonical hpositive hm (exact_value mantissa exponent)
  · obtain ⟨n, -, hcandidate⟩ := List.exists_of_findSome?_eq_some hfind
    exact ofDecimal_candidate? hcandidate

end Dialogue.Json.Double
