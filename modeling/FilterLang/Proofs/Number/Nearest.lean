import FilterLang.Proofs.Number.Bits
import Mathlib.Algebra.Order.Field.Basic
import Mathlib.Algebra.Order.Field.Power
import Mathlib.Data.Rat.Cast.Order
import Mathlib.Tactic.FieldSimp
import Mathlib.Tactic.GCongr
import Mathlib.Tactic.Linarith
import Mathlib.Tactic.Positivity
import Mathlib.Tactic.Ring
/-!
Rounding a ratio to the nearest number.

Every ratio in the interval around a finite number `m · 2^q` is rounded to that number
(`ofRatio_of_near`). The interval reaches half the distance to the neighbours: a half unit
on either side, but only a quarter below a power of two, where the numbers lie twice as
dense. Its ends belong to it when `m` is even, because a tie goes to the even mantissa.
-/

namespace FilterLang.Number

/-! ## Rounding a quotient -/

/-- A quotient is rounded to the natural that it is nearest to, a half going to the even
one. -/
theorem roundedQuotient_eq {num den m : Nat} (hden : 0 < den)
    (hlow : 2 * m * den ≤ 2 * num + den) (hhigh : 2 * num ≤ 2 * m * den + den)
    (htie : 2 * m * den = 2 * num + den ∨ 2 * num = 2 * m * den + den → m % 2 = 0) :
    roundedQuotient num den = m := by
  have hdiv := Nat.div_add_mod num den
  have hmod := Nat.mod_lt num hden
  rw [roundedQuotient]
  generalize num / den = q at hdiv ⊢
  generalize num % den = r at hdiv hmod ⊢
  -- the quotient is the natural itself or the one below it
  have hq : q ≤ m ∧ m ≤ q + 1 := by
    constructor
    · by_contra hlt
      have : den * (m + 1) ≤ den * q := Nat.mul_le_mul_left den (by omega)
      nlinarith
    · by_contra hlt
      have : den * (q + 2) ≤ den * m := Nat.mul_le_mul_left den (by omega)
      nlinarith
  obtain rfl | rfl : m = q ∨ m = q + 1 := by omega
  · have hr : 2 * r ≤ den := by nlinarith
    by_cases h : 2 * r < den
    · rw [if_pos h]
    · have heq : 2 * r = den := by omega
      have heven : m % 2 = 0 := htie (Or.inr (by nlinarith))
      rw [if_neg h, if_neg (by omega), if_pos heven]
  · have hr : den ≤ 2 * r := by nlinarith
    by_cases h : 2 * r > den
    · rw [if_neg (by omega), if_pos h]
    · have heq : 2 * r = den := by omega
      have heven : (q + 1) % 2 = 0 := htie (Or.inl (by nlinarith))
      rw [if_neg (by omega), if_neg h, if_neg (by omega)]

/-- The same for a quotient that is given by its value. -/
theorem roundedQuotient_of_near {num den m : Nat} (hden : 0 < den) {t : ℚ}
    (ht : t = (num : ℚ) / den) (hlow : (m : ℚ) - 1 / 2 ≤ t) (hhigh : t ≤ (m : ℚ) + 1 / 2)
    (htie : t = (m : ℚ) - 1 / 2 ∨ t = (m : ℚ) + 1 / 2 → m % 2 = 0) :
    roundedQuotient num den = m := by
  have hd : (0 : ℚ) < den := by exact_mod_cast hden
  have hnum : (num : ℚ) = t * den := by
    rw [ht]
    field_simp
  have hlow' : (2 * m * den : ℚ) ≤ 2 * num + den := by nlinarith
  have hhigh' : (2 * num : ℚ) ≤ 2 * m * den + den := by nlinarith
  refine roundedQuotient_eq hden (by exact_mod_cast hlow') (by exact_mod_cast hhigh') ?_
  rintro (h | h)
  · have h' : (2 * m * den : ℚ) = 2 * num + den := by exact_mod_cast h
    refine htie (Or.inl ?_)
    have : (2 * t - 2 * m + 1) * den = 0 := by nlinarith
    rcases mul_eq_zero.mp this with h0 | h0
    · linarith
    · exact absurd h0 hd.ne'
  · have h' : (2 * num : ℚ) = 2 * m * den + den := by exact_mod_cast h
    refine htie (Or.inr ?_)
    have : (2 * t - 2 * m - 1) * den = 0 := by nlinarith
    rcases mul_eq_zero.mp this with h0 | h0
    · linarith
    · exact absurd h0 hd.ne'

/-! ## The exponent of a ratio -/

theorem cast_pow2 (n : Nat) : ((pow2 n : Nat) : ℚ) = 2 ^ n := by
  rw [pow2, Nat.pow_eq]
  push_cast
  rfl

/-- A scaled ratio is positive below. -/
theorem scaledRatio_pos {num den : Nat} (hden : 0 < den) (q : Int) :
    0 < (scaledRatio num den q).2 := by
  rw [scaledRatio]
  split
  · exact Nat.mul_pos hden (Nat.pow_pos (by decide))
  · exact hden

/-- Scaling divides by the power of two. -/
theorem scaledRatio_eq (num den : Nat) (q : Int) :
    ((scaledRatio num den q).1 : ℚ) / (scaledRatio num den q).2 = (num : ℚ) / den * 2 ^ (-q) := by
  rw [scaledRatio]
  by_cases h : 0 ≤ q
  · obtain ⟨n, rfl⟩ := Int.eq_ofNat_of_zero_le h
    rw [if_pos h]
    push_cast
    rw [cast_pow2, Int.toNat_natCast, zpow_neg, zpow_natCast, div_mul_eq_div_div]
    rfl
  · obtain ⟨n, hn⟩ := Int.eq_ofNat_of_zero_le (show 0 ≤ -q by omega)
    rw [if_neg h, hn]
    push_cast
    rw [cast_pow2, Int.toNat_natCast, zpow_natCast, mul_div_right_comm]

/-- A natural lies between the powers of two around its logarithm. -/
theorem log2_bounds {n : Nat} (hn : 0 < n) :
    (2 : ℚ) ^ (n.log2 : Int) ≤ n ∧ (n : ℚ) < 2 ^ ((n.log2 : Int) + 1) := by
  have hlow : 2 ^ n.log2 ≤ n := Nat.log2_self_le (by omega)
  have hhigh : n < 2 ^ (n.log2 + 1) := Nat.lt_log2_self
  constructor
  · rw [zpow_natCast]
    exact_mod_cast hlow
  · have hcast : ((n.log2 : Int) + 1) = ((n.log2 + 1 : Nat) : Int) := by push_cast; rfl
    rw [hcast, zpow_natCast]
    exact_mod_cast hhigh

/-- The logarithms of a ratio's parts give its size up to a factor of two. -/
theorem ratio_bounds {num den : Nat} (hnum : 0 < num) (hden : 0 < den) :
    (2 : ℚ) ^ ((num.log2 : Int) - den.log2 - 1) < (num : ℚ) / den ∧
      (num : ℚ) / den < 2 ^ ((num.log2 : Int) - den.log2 + 1) := by
  obtain ⟨hn, hn'⟩ := log2_bounds hnum
  obtain ⟨hd, hd'⟩ := log2_bounds hden
  have hpos : (0 : ℚ) < den := by exact_mod_cast hden
  constructor
  · rw [lt_div_iff₀ hpos]
    calc (2 : ℚ) ^ ((num.log2 : Int) - den.log2 - 1) * den
        < 2 ^ ((num.log2 : Int) - den.log2 - 1) * 2 ^ ((den.log2 : Int) + 1) := by gcongr
      _ = 2 ^ (num.log2 : Int) := by
        rw [← zpow_add₀ (by norm_num)]
        congr 1
        ring
      _ ≤ num := hn
  · rw [div_lt_iff₀ hpos]
    calc (num : ℚ) < 2 ^ ((num.log2 : Int) + 1) := hn'
      _ = 2 ^ ((num.log2 : Int) - den.log2 + 1) * 2 ^ (den.log2 : Int) := by
        rw [← zpow_add₀ (by norm_num)]
        congr 1
        ring
      _ ≤ 2 ^ ((num.log2 : Int) - den.log2 + 1) * den := by gcongr

/-- The test on the whole part of a scaled ratio is one on its value. -/
theorem scaledRatio_lt_iff {num den : Nat} (hden : 0 < den) (q : Int) (k : Nat) :
    (scaledRatio num den q).1 / (scaledRatio num den q).2 < k ↔
      (num : ℚ) / den * 2 ^ (-q) < k := by
  have hpos := @scaledRatio_pos num den hden q
  have hpos' : (0 : ℚ) < (scaledRatio num den q).2 := by exact_mod_cast hpos
  rw [Nat.div_lt_iff_lt_mul hpos, ← scaledRatio_eq, div_lt_iff₀ hpos']
  exact_mod_cast Iff.rfl

/-- Without a least exponent, the exponent of a ratio is the one at which its mantissa
fills 53 bits. -/
theorem ratioExponent_eq {num den : Nat} (hnum : 0 < num) (hden : 0 < den) :
    ∃ x : Int, ratioExponent num den = (if x < -1074 then -1074 else x) ∧
      2 ^ 52 ≤ (num : ℚ) / den * 2 ^ (-x) ∧ (num : ℚ) / den * 2 ^ (-x) < 2 ^ 53 := by
  obtain ⟨hlow, hhigh⟩ := ratio_bounds hnum hden
  have htest := @scaledRatio_lt_iff num den hden ((num.log2 : Int) - den.log2 - 52) (pow2 52)
  rw [cast_pow2] at htest
  generalize hguess : (num.log2 : Int) - den.log2 - 52 = guess at htest
  have hlow' : 2 ^ 51 < (num : ℚ) / den * 2 ^ (-guess) := by
    rw [zpow_neg, ← div_eq_mul_inv, lt_div_iff₀ (by positivity), ← zpow_natCast,
      ← zpow_add₀ (by norm_num),
      show ((51 : Nat) : Int) + guess = (num.log2 : Int) - den.log2 - 1 by omega]
    exact hlow
  have hhigh' : (num : ℚ) / den * 2 ^ (-guess) < 2 ^ 53 := by
    rw [zpow_neg, ← div_eq_mul_inv, div_lt_iff₀ (by positivity), ← zpow_natCast,
      ← zpow_add₀ (by norm_num),
      show ((53 : Nat) : Int) + guess = (num.log2 : Int) - den.log2 + 1 by omega]
    exact hhigh
  by_cases h : (scaledRatio num den guess).1 / (scaledRatio num den guess).2 < pow2 52
  · -- the logarithms overstate the ratio by at most one power of two
    have hdouble : (num : ℚ) / den * 2 ^ (-(guess - 1)) = (num : ℚ) / den * 2 ^ (-guess) * 2 := by
      rw [show -(guess - 1) = -guess + 1 by ring, zpow_add₀ (by norm_num), zpow_one]
      ring
    have hsmall := htest.mp h
    refine ⟨guess - 1, ?_, ?_, ?_⟩
    · simp only [ratioExponent, hguess, if_pos h]
    · rw [hdouble]
      linarith
    · rw [hdouble]
      linarith
  · refine ⟨guess, ?_, ?_, hhigh'⟩
    · simp only [ratioExponent, hguess, if_neg h]
    · exact not_lt.mp fun hlt => h (htest.mpr hlt)

/-- At the exponent of a ratio its mantissa is below 53 bits, and it fills them unless
the exponent is the least one. -/
theorem ratioExponent_spec {num den : Nat} (hnum : 0 < num) (hden : 0 < den) :
    -1074 ≤ ratioExponent num den ∧
      (num : ℚ) / den * 2 ^ (-ratioExponent num den) < 2 ^ 53 ∧
      (2 ^ 52 ≤ (num : ℚ) / den * 2 ^ (-ratioExponent num den) ∨
        ratioExponent num den = -1074) := by
  obtain ⟨x, hx, hlow, hhigh⟩ := ratioExponent_eq hnum hden
  by_cases hmin : x < -1074
  · rw [if_pos hmin] at hx
    rw [hx]
    refine ⟨le_refl _, ?_, Or.inr rfl⟩
    have hpos : (0 : ℚ) < num / den := by positivity
    have hpow : (2 : ℚ) ^ (-(-1074 : Int)) ≤ 2 ^ (-x) :=
      zpow_le_zpow_right₀ (by norm_num) (by omega)
    calc (num : ℚ) / den * 2 ^ (-(-1074 : Int)) ≤ num / den * 2 ^ (-x) := by gcongr
      _ < 2 ^ 53 := hhigh
  · rw [if_neg hmin] at hx
    rw [hx]
    exact ⟨not_lt.mp hmin, hhigh, Or.inl hlow⟩

/-! ## The number nearest to a ratio -/

/-- A ratio lies in the interval around `m · 2^q`, which ends half way to the next numbers.
The ends belong to it when `m` is even. -/
structure Near (r : ℚ) (m : Nat) (q : Int) : Prop where
  low : ((m : ℚ) - 1 / 2) * 2 ^ q ≤ r
  high : r ≤ ((m : ℚ) + 1 / 2) * 2 ^ q
  power : m = 2 ^ 52 → -1074 < q → ((m : ℚ) - 1 / 4) * 2 ^ q ≤ r
  ends : r = ((m : ℚ) - 1 / 2) * 2 ^ q ∨ r = ((m : ℚ) + 1 / 2) * 2 ^ q → m % 2 = 0

theorem div_zpow_eq {r : ℚ} {q : Int} {a : ℚ} (h : r * 2 ^ (-q) = a) : r = a * 2 ^ q := by
  rw [← h, mul_assoc, ← zpow_add₀ (by norm_num)]
  simp

/-- A power of two with a larger exponent is at least so many times as large. -/
theorem zpow_mul_le {e q : Int} {k : Nat} (h : e + k ≤ q) : (2 : ℚ) ^ e * 2 ^ k ≤ 2 ^ q := by
  rw [← zpow_natCast, ← zpow_add₀ (by norm_num)]
  exact zpow_le_zpow_right₀ (by norm_num) h

/-- Near a number the exponent of a ratio is that of the number, except just below a power
of two, where it is one less. -/
theorem ratioExponent_of_near {num den m : Nat} {q : Int} (hnum : 0 < num) (hden : 0 < den)
    (hc : Canonical m q) (h : Near ((num : ℚ) / den) m q) :
    ratioExponent num den = q ∨
      m = 2 ^ 52 ∧ -1074 < q ∧ ratioExponent num den = q - 1 := by
  obtain ⟨hmin, hhigh, hlow⟩ := ratioExponent_spec hnum hden
  generalize ratioExponent num den = e at hmin hhigh hlow ⊢
  generalize (num : ℚ) / den = r at h hhigh hlow
  have hQ : (0 : ℚ) < 2 ^ q := by positivity
  have hE : (0 : ℚ) < 2 ^ e := by positivity
  have hhigh' : r < 2 ^ 53 * 2 ^ e := by
    rwa [zpow_neg, ← div_eq_mul_inv, div_lt_iff₀ hE] at hhigh
  have hq : -1074 ≤ q := by rcases hc with hc | hc <;> omega
  have hm : (m : ℚ) ≤ 2 ^ 53 - 1 := by
    have : m + 1 ≤ 2 ^ 53 := by rcases hc with hc | hc <;> omega
    have : ((m + 1 : Nat) : ℚ) ≤ (2 ^ 53 : Nat) := by exact_mod_cast this
    push_cast at this
    linarith
  have h1 := h.low
  have h2 := h.high
  rcases lt_trichotomy e q with hlt | heq | hgt
  · -- the ratio is below the power of two that starts the numbers of this exponent
    have hm52 : 2 ^ 52 ≤ m := by rcases hc with hc | hc <;> omega
    have hEQ := zpow_mul_le (show e + (1 : Nat) ≤ q by push_cast; omega)
    have hm' : m = 2 ^ 52 := by
      by_contra hne
      have : ((2 ^ 52 + 1 : Nat) : ℚ) ≤ m := by exact_mod_cast (by omega : 2 ^ 52 + 1 ≤ m)
      push_cast at this
      nlinarith
    have h3 := h.power hm' (by omega)
    refine Or.inr ⟨hm', by omega, ?_⟩
    by_contra hne
    have hEQ' := zpow_mul_le (show e + (2 : Nat) ≤ q by push_cast; omega)
    have hcast : (m : ℚ) = 2 ^ 52 := by rw [hm']; norm_num
    rw [hcast] at h3
    nlinarith
  · exact Or.inl heq
  · -- no ratio near the number fills 53 bits at a larger exponent
    have hEQ := zpow_mul_le (show q + (1 : Nat) ≤ e by push_cast; omega)
    rcases hlow with hlow | hlow
    · rw [zpow_neg, ← div_eq_mul_inv, le_div_iff₀ hE] at hlow
      nlinarith
    · omega

/-- A ratio is rounded to the number it is near to. -/
theorem ofRatio_of_near {num den m : Nat} {q : Int} (hnum : 0 < num) (hden : 0 < den)
    (hc : Canonical m q) (h : Near ((num : ℚ) / den) m q) (negative : Bool) :
    ofRatio negative num den = assemble negative m q := by
  have hne : num ≠ 0 := by omega
  have hm : m ≠ pow2 53 := by
    have hpow : pow2 53 = 2 ^ 53 := rfl
    rcases hc with hc | hc <;> omega
  have hpos := @scaledRatio_pos num den hden
  have hvalue := scaledRatio_eq num den
  rw [ofRatio, if_neg hne]
  rcases ratioExponent_of_near hnum hden hc h with he | ⟨hm', hq, he⟩
  · -- the mantissa of the ratio is the one of the number up to a half
    have hround : roundedQuotient (scaledRatio num den q).1 (scaledRatio num den q).2 = m := by
      refine roundedQuotient_of_near (hpos q) (hvalue q).symm ?_ ?_ ?_
      · rw [zpow_neg, ← div_eq_mul_inv, le_div_iff₀ (by positivity)]
        exact h.low
      · rw [zpow_neg, ← div_eq_mul_inv, div_le_iff₀ (by positivity)]
        exact h.high
      · rintro (ht | ht)
        · exact h.ends (Or.inl (div_zpow_eq ht))
        · exact h.ends (Or.inr (div_zpow_eq ht))
    simp only [he, hround, if_neg hm]
  · -- the ratio has one bit more to its mantissa, and is rounded up to the power of two
    have hround : roundedQuotient (scaledRatio num den (q - 1)).1
        (scaledRatio num den (q - 1)).2 = pow2 53 := by
      have hpow : ((pow2 53 : Nat) : ℚ) = 2 ^ 53 := cast_pow2 53
      have hlow := h.power hm' hq
      have hhigh := (ratioExponent_spec hnum hden).2.1
      rw [he] at hhigh
      refine roundedQuotient_of_near (hpos (q - 1)) (hvalue (q - 1)).symm ?_ ?_ fun _ => rfl
      · rw [zpow_neg, ← div_eq_mul_inv, le_div_iff₀ (by positivity), hpow,
          zpow_sub_one₀ (by norm_num)]
        have hcast : (m : ℚ) = 2 ^ 52 := by rw [hm']; norm_num
        rw [hcast] at hlow
        linarith
      · rw [hpow]
        linarith
    have hpow : pow2 52 = m := by rw [hm']; rfl
    simp only [he, hround, if_true, hpow, sub_add_cancel]

/-! ## Whole numbers -/

theorem near_self (m : Nat) (q : Int) : Near ((m : ℚ) * 2 ^ q) m q := by
  have hpos : (0 : ℚ) < 2 ^ q := by positivity
  refine ⟨?_, ?_, fun _ _ => ?_, ?_⟩
  · nlinarith
  · nlinarith
  · nlinarith
  · rintro (h | h) <;> nlinarith

/-- A natural of at most 53 bits is a mantissa without the zeros that fill it up. -/
theorem exists_canonical {n : Nat} (hpos : 0 < n) (h : n < 2 ^ 53) :
    ∃ m k : Nat, Canonical m (-k) ∧ m = n * 2 ^ k := by
  have hlog : n.log2 < 53 := (Nat.log2_lt (by omega)).mpr h
  have hlow : 2 ^ n.log2 ≤ n := Nat.log2_self_le (by omega)
  have hhigh : n < 2 ^ (n.log2 + 1) := Nat.lt_log2_self
  refine ⟨n * 2 ^ (52 - n.log2), 52 - n.log2, Or.inr ⟨?_, ?_, by omega, by omega⟩, rfl⟩
  · calc 2 ^ 52 = 2 ^ n.log2 * 2 ^ (52 - n.log2) := by rw [← Nat.pow_add]; congr 1; omega
      _ ≤ n * 2 ^ (52 - n.log2) := Nat.mul_le_mul_right _ hlow
  · calc n * 2 ^ (52 - n.log2) < 2 ^ (n.log2 + 1) * 2 ^ (52 - n.log2) :=
          Nat.mul_lt_mul_of_pos_right hhigh (Nat.pow_pos (by decide))
      _ = 2 ^ 53 := by rw [← Nat.pow_add]; congr 1; omega

theorem toInt?_assemble {m k n : Nat} (hc : Canonical m (-k)) (hm : m = n * 2 ^ k)
    (negative : Bool) :
    toInt? (assemble negative m (-k)) = some (if negative then -(n : Int) else n) := by
  have hpow : pow2 k = 2 ^ k := rfl
  rw [toInt?, parts_assemble hc]
  dsimp only
  cases k with
  | zero => simp [hm, pow2]
  | succ k =>
    have hneg : ¬ 0 ≤ -((k + 1 : Nat) : Int) := by omega
    have hzero : m % pow2 (k + 1) = 0 := by rw [hpow, hm, Nat.mul_mod_left]
    have hdiv : m / pow2 (k + 1) = n := by
      rw [hpow, hm, Nat.mul_div_cancel _ (Nat.pow_pos (by decide))]
    rw [if_neg hneg, neg_neg, Int.toNat_natCast, if_pos hzero, hdiv]
    rfl

/-- A whole number is the float of its sign and its mantissa. -/
theorem ofInt_eq {n : Int} {m : Nat} {q : Int} (hpos : 0 < n.natAbs) (hc : Canonical m q)
    (h : (n.natAbs : ℚ) = m * 2 ^ q) : ofInt n = assemble (n < 0) m q := by
  refine ofRatio_of_near hpos (by decide) hc ?_ _
  rw [Nat.cast_one, div_one, h]
  exact near_self m q

/-- Whole numbers of at most 53 bits are floats, and are read back as what they are. -/
theorem toInt?_ofInt {n : Int} (h : n.natAbs ≤ 2 ^ 53) : toInt? (ofInt n) = some n := by
  have hsign : (if decide (n < 0) = true then -(n.natAbs : Int) else n.natAbs) = n := by
    by_cases hn : n < 0
    · rw [if_pos (by simpa using hn)]; omega
    · rw [if_neg (by simpa using hn)]; omega
  rcases Nat.eq_zero_or_pos n.natAbs with hzero | hpos
  · -- zero is put together with the least exponent
    obtain rfl : n = 0 := by omega
    have hc : Canonical 0 (-(1074 : Nat)) := Or.inl ⟨by decide, rfl⟩
    exact toInt?_assemble (n := 0) hc (Nat.zero_mul _).symm false
  rcases Nat.lt_or_eq_of_le h with hlt | heq
  · obtain ⟨m, k, hc, hm⟩ := exists_canonical hpos hlt
    have hvalue : (n.natAbs : ℚ) = m * 2 ^ (-(k : Int)) := by
      rw [hm, zpow_neg, zpow_natCast]
      push_cast
      field_simp
    rw [ofInt_eq hpos hc hvalue, toInt?_assemble hc hm, hsign]
  · -- the bound itself has 54 bits, of which the last is zero
    have hc : Canonical (2 ^ 52) 1 := Or.inr ⟨le_refl _, by decide, by decide, by decide⟩
    have hvalue : (n.natAbs : ℚ) = (2 ^ 52 : Nat) * 2 ^ (1 : Int) := by
      rw [heq]
      norm_num
    have hwhole : 2 ^ 52 * pow2 (Int.toNat 1) = n.natAbs := by rw [heq]; rfl
    rw [ofInt_eq hpos hc hvalue, toInt?, parts_assemble hc]
    dsimp only
    rw [if_pos (by decide), hwhole, Option.map_some, hsign]

theorem pow2_63 : pow2 (64 - 1) = 2 ^ 63 := rfl

/-- Such numbers are whole for the language too. -/
theorem integral?_ofInt {n : Int} (h : n.natAbs ≤ 2 ^ 53) : integral? (ofInt n) = some n := by
  have hsmall : n.natAbs < pow2 (64 - 1) := by
    rw [pow2_63]
    omega
  rw [integral?, toInt?_ofInt h, Option.map_some, clamp_of_natAbs_lt hsmall]

/-- A whole number of more than 53 bits is rounded to one that has a positive exponent. -/
theorem exists_ofInt_eq_assemble {n : Int} (hlow : 2 ^ 53 ≤ n.natAbs) (hhigh : n.natAbs < 2 ^ 62) :
    ∃ m q : Nat, ofInt n = assemble (n < 0) m q ∧ (2 ^ 52 ≤ m ∧ m < 2 ^ 53) ∧ (1 ≤ q ∧ q ≤ 10) ∧
      m * 2 ^ q ≤ 2 * n.natAbs := by
  have hpos : 0 < n.natAbs := by omega
  obtain ⟨x, hx, hfill, hfit⟩ := ratioExponent_eq hpos Nat.one_pos
  rw [Nat.cast_one, div_one, zpow_neg, ← div_eq_mul_inv] at hfill hfit
  have hscale : (0 : ℚ) < 2 ^ x := by positivity
  rw [le_div_iff₀ hscale] at hfill
  rw [div_lt_iff₀ hscale] at hfit
  have hlow' : (2 : ℚ) ^ 53 ≤ n.natAbs := by exact_mod_cast hlow
  have hhigh' : (n.natAbs : ℚ) < 2 ^ 62 := by exact_mod_cast hhigh
  have hx1 : 0 < x := (one_lt_zpow_iff_right₀ (by norm_num : (1 : ℚ) < 2)).mp (by linarith)
  have hx2 : x < 10 := (zpow_lt_zpow_iff_right₀ (by norm_num : (1 : ℚ) < 2)).mp (by
    norm_num at *
    linarith)
  obtain ⟨k, rfl⟩ := Int.eq_ofNat_of_zero_le hx1.le
  have hfill' : 2 ^ 52 * 2 ^ k ≤ n.natAbs := by exact_mod_cast hfill
  have hfit' : n.natAbs < 2 ^ 53 * 2 ^ k := by exact_mod_cast hfit
  rw [if_neg (by omega)] at hx
  have hpow : pow2 52 = 2 ^ 52 ∧ pow2 53 = 2 ^ 53 := ⟨rfl, rfl⟩
  have hround : 2 ^ 52 ≤ roundedQuotient n.natAbs (2 ^ k) ∧
      roundedQuotient n.natAbs (2 ^ k) ≤ 2 ^ 53 := by
    have hquotient : 2 ^ 52 ≤ n.natAbs / 2 ^ k ∧ n.natAbs / 2 ^ k < 2 ^ 53 :=
      ⟨(Nat.le_div_iff_mul_le (by positivity)).mpr hfill',
        (Nat.div_lt_iff_lt_mul (by positivity)).mpr hfit'⟩
    rw [roundedQuotient]
    split_ifs <;> omega
  have hratio : scaledRatio n.natAbs 1 k = (n.natAbs, 2 ^ k) := by
    simp [scaledRatio, pow2]
  rw [ofInt, ofRatio, if_neg hpos.ne', hx]
  dsimp only
  rw [hratio]
  dsimp only
  have hdouble : roundedQuotient n.natAbs (2 ^ k) * 2 ^ k ≤ 2 * n.natAbs := by
    calc roundedQuotient n.natAbs (2 ^ k) * 2 ^ k ≤ 2 ^ 53 * 2 ^ k :=
          Nat.mul_le_mul_right _ hround.2
      _ = 2 * (2 ^ 52 * 2 ^ k) := by ring
      _ ≤ 2 * n.natAbs := Nat.mul_le_mul_left 2 hfill'
  split
  · next hcarry =>
    rw [hcarry, hpow.2] at hdouble
    refine ⟨pow2 52, k + 1, by push_cast; rfl, by rw [hpow.1]; omega, by omega, ?_⟩
    rw [hpow.1]
    calc 2 ^ 52 * 2 ^ (k + 1) = 2 ^ 53 * 2 ^ k := by ring
      _ ≤ 2 * n.natAbs := hdouble
  · exact ⟨_, k, rfl, by omega, by omega, hdouble⟩

/-- A whole number of more than 53 bits stays so large when it is rounded, and at most doubles. -/
theorem natAbs_integral?_ofInt {n : Int} (hlow : 2 ^ 53 ≤ n.natAbs) (hhigh : n.natAbs < 2 ^ 62) :
    ∃ r, integral? (ofInt n) = some r ∧ 2 ^ 53 ≤ r.natAbs ∧ r.natAbs ≤ 2 * n.natAbs := by
  obtain ⟨m, q, hassemble, hm, hq, hdouble⟩ := exists_ofInt_eq_assemble hlow hhigh
  have hcanonical : Canonical m q := Or.inr ⟨hm.1, hm.2, by omega, by omega⟩
  have hlarge : 2 ^ 53 ≤ m * 2 ^ q := by
    calc 2 ^ 53 = 2 ^ 52 * 2 ^ 1 := by norm_num
      _ ≤ m * 2 ^ q := Nat.mul_le_mul hm.1 (Nat.pow_le_pow_right (by decide) hq.1)
  have hsmall : m * 2 ^ q < 2 ^ 63 := by
    calc m * 2 ^ q < 2 ^ 53 * 2 ^ q := Nat.mul_lt_mul_of_pos_right hm.2 (by positivity)
      _ ≤ 2 ^ 53 * 2 ^ 10 := Nat.mul_le_mul_left _ (Nat.pow_le_pow_right (by decide) hq.2)
      _ = 2 ^ 63 := by norm_num
  rw [integral?, toInt?, hassemble, parts_assemble hcanonical]
  dsimp only
  rw [if_pos (by omega), Option.map_some, Option.map_some, Int.toNat_natCast]
  refine ⟨_, rfl, ?_⟩
  have hsize (negative : Bool) :
      (if negative then -((m * pow2 q : Nat) : Int) else ((m * pow2 q : Nat) : Int)).natAbs =
        m * 2 ^ q := by
    rw [show pow2 q = 2 ^ q from rfl]
    split <;> omega
  rw [clamp_of_natAbs_lt (by rw [hsize, pow2_63]; exact hsmall), hsize]
  exact ⟨hlarge, hdouble⟩

end FilterLang.Number
