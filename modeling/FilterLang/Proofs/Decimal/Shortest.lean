import FilterLang.Decimal.Shortest
import FilterLang.Proofs.Number.Nearest
/-!
The shortest decimal of a number is rounded back to it.

A decimal that is tested and taken lies in the interval around the number, so it is near
it (`near_of_contains`). The search ends with a decimal that was taken, because its last
grid is finer than a quarter of the number's unit and then the next multiple above the
number is in the interval. How fine the grids get is a comparison of powers of two with
powers of ten.
-/

namespace FilterLang.Decimal

open Number

/-! ## Decimals and intervals -/

theorem cast_pow10 (n : Nat) : ((pow10 n : Nat) : ℚ) = 10 ^ n := by
  rw [pow10, Nat.pow_eq]
  push_cast
  rfl

/-- A power with a whole exponent as a ratio of naturals. -/
theorem zpow_ratio {b : ℚ} (hb : b ≠ 0) {f : Nat → Nat} (hf : ∀ n, (f n : ℚ) = b ^ n) (k : Int) :
    ((if 0 ≤ k then f k.toNat else 1 : Nat) : ℚ) =
      b ^ k * ((if 0 ≤ k then 1 else f (-k).toNat : Nat) : ℚ) := by
  by_cases h : 0 ≤ k
  · obtain ⟨n, rfl⟩ := Int.eq_ofNat_of_zero_le h
    rw [if_pos h, if_pos h, hf, Int.toNat_natCast, Nat.cast_one, mul_one, zpow_natCast]
  · obtain ⟨n, hn⟩ := Int.eq_ofNat_of_zero_le (show 0 ≤ -k by omega)
    rw [if_neg h, if_neg h, hf, hn, Int.toNat_natCast, Nat.cast_one, show k = -(n : Int) by omega,
      zpow_neg, zpow_natCast, inv_mul_cancel₀ (pow_ne_zero n hb)]

/-- The common unit of powers of two and powers of ten. -/
theorem commonUnit_eq (p k : Int) : ∃ unit : ℚ, 0 < unit ∧
    ((commonUnit p k).1 : ℚ) = 2 ^ p * unit ∧ ((commonUnit p k).2 : ℚ) = 10 ^ k * unit := by
  have htwo := zpow_ratio (by norm_num : (2 : ℚ) ≠ 0) cast_pow2 p
  have hten := zpow_ratio (by norm_num : (10 : ℚ) ≠ 0) cast_pow10 k
  have hpow2 : ∀ n, 0 < pow2 n := fun n => Nat.pow_pos (by decide)
  have hpow10 : ∀ n, 0 < pow10 n := fun n => Nat.pow_pos (by decide)
  refine ⟨((if 0 ≤ p then 1 else pow2 (-p).toNat : Nat) : ℚ) *
    ((if 0 ≤ k then 1 else pow10 (-k).toNat : Nat) : ℚ), ?_, ?_, ?_⟩
  · refine mul_pos ?_ ?_
    · split
      · norm_num
      · exact_mod_cast hpow2 _
    · split
      · norm_num
      · exact_mod_cast hpow10 _
  · rw [commonUnit, Nat.cast_mul, htwo]
    ring
  · rw [commonUnit, Nat.cast_mul, hten]
    ring

/-- Naturals in the common unit compare as what they stand for. -/
theorem mul_commonUnit_le_iff (a b : Nat) (p k : Int) :
    a * (commonUnit p k).1 ≤ b * (commonUnit p k).2 ↔ (a : ℚ) * 2 ^ p ≤ b * 10 ^ k := by
  obtain ⟨unit, hunit, h1, h2⟩ := commonUnit_eq p k
  have hcast : ∀ m n : Nat, m ≤ n ↔ (m : ℚ) ≤ n := fun _ _ => Nat.cast_le.symm
  rw [hcast, Nat.cast_mul, Nat.cast_mul, h1, h2, ← mul_assoc, ← mul_assoc,
    mul_le_mul_iff_left₀ hunit]

theorem mul_commonUnit_le_iff' (a b : Nat) (p k : Int) :
    b * (commonUnit p k).2 ≤ a * (commonUnit p k).1 ↔ (b : ℚ) * 10 ^ k ≤ a * 2 ^ p := by
  obtain ⟨unit, hunit, h1, h2⟩ := commonUnit_eq p k
  have hcast : ∀ m n : Nat, m ≤ n ↔ (m : ℚ) ≤ n := fun _ _ => Nat.cast_le.symm
  rw [hcast, Nat.cast_mul, Nat.cast_mul, h1, h2, ← mul_assoc, ← mul_assoc,
    mul_le_mul_iff_left₀ hunit]

/-- What it means to lie in an interval. -/
theorem contains_iff (i : Interval) (d : Nat) (k : Int) :
    i.contains d k = true ↔
      (i.low : ℚ) * 2 ^ i.scale ≤ d * 10 ^ k ∧ (d : ℚ) * 10 ^ k ≤ i.high * 2 ^ i.scale ∧
        (i.closed = false → (i.low : ℚ) * 2 ^ i.scale ≠ d * 10 ^ k ∧
          (d : ℚ) * 10 ^ k ≠ i.high * 2 ^ i.scale) := by
  have hlow := mul_commonUnit_le_iff i.low d i.scale k
  have hlow' := mul_commonUnit_le_iff' i.low d i.scale k
  have hhigh := mul_commonUnit_le_iff i.high d i.scale k
  have hhigh' := mul_commonUnit_le_iff' i.high d i.scale k
  rw [Interval.contains]
  cases hclosed : i.closed with
  | true =>
    simp only [if_true, Bool.and_eq_true, decide_eq_true_eq, hlow, hhigh']
    simp
  | false =>
    simp only [Bool.false_eq_true, if_false, Bool.and_eq_true, decide_eq_true_eq, ← not_le, hlow',
      hhigh]
    simp only [not_le, lt_iff_le_and_ne]
    tauto

/-- The unit of an interval is a quarter of the number's. -/
theorem quarter_zpow (q : Int) : (2 : ℚ) ^ (q - 2) = 2 ^ q / 4 := by
  rw [zpow_sub₀ (by norm_num)]
  norm_num

/-- A decimal in the interval around a number is near it. -/
theorem near_of_contains {m d : Nat} {q k : Int} (hm : 0 < m)
    (h : (Interval.around m q).contains d k = true) : Near ((d : ℚ) * 10 ^ k) m q := by
  obtain ⟨hlow, hhigh, hends⟩ := (contains_iff _ d k).mp h
  simp only [Interval.around, quarter_zpow] at hlow hhigh hends
  have hQ : (0 : ℚ) < 2 ^ q := by positivity
  have hm' : (1 : ℚ) ≤ m := by exact_mod_cast hm
  have hhalf : ((4 * m - 2 : Nat) : ℚ) = 4 * m - 2 := by
    rw [Nat.cast_sub (by omega)]
    push_cast
    rfl
  have hquarter : ((4 * m - 1 : Nat) : ℚ) = 4 * m - 1 := by
    rw [Nat.cast_sub (by omega)]
    push_cast
    rfl
  have hhigh' : ((4 * m + 2 : Nat) : ℚ) = 4 * m + 2 := by
    push_cast
    rfl
  rw [hhigh'] at hhigh hends
  by_cases hpower : m = pow2 52 ∧ q > -1074
  · -- below a power of two the numbers are twice as dense, so the interval ends earlier
    have heven : m % 2 = 0 := by rw [hpower.1]; rfl
    rw [if_pos hpower, hquarter] at hlow
    refine ⟨?_, ?_, fun _ _ => ?_, fun _ => heven⟩ <;> nlinarith
  · rw [if_neg hpower, hhalf] at hlow hends
    refine ⟨?_, ?_, fun h52 hq => absurd ⟨h52, hq⟩ hpower, fun hend => ?_⟩
    · nlinarith
    · nlinarith
    · -- the ends of an open interval are not in it
      by_contra hodd
      obtain ⟨h1, h2⟩ := hends (by simpa using hodd)
      rcases hend with hend | hend
      · exact h1 (by rw [hend]; ring)
      · exact h2 (by rw [hend]; ring)

/-- Zero lies in no interval. -/
theorem pos_of_contains {m d : Nat} {q k : Int} (hm : 0 < m)
    (h : (Interval.around m q).contains d k = true) : 0 < d := by
  have hlow := (near_of_contains hm h).low
  have hQ : (0 : ℚ) < 2 ^ q := by positivity
  have hm' : (1 : ℚ) ≤ m := by exact_mod_cast hm
  by_contra hd
  have hd0 : d = 0 := by omega
  rw [hd0] at hlow
  norm_num at hlow
  nlinarith

/-! ## The search -/

theorem contains_of_pick {tie : Tie} {i : Interval} {k : Int} {d : Nat}
    (h : i.pick tie k = some d) : i.contains d k = true := by
  unfold Interval.pick at h
  dsimp only at h
  split at h
  · rename_i h1 h2
    have h1 : i.contains (i.below k) k = true := ((Bool.and_eq_true _ _).mp h1).1
    split at h
    · cases h; exact h1
    · split at h
      · cases h; exact h2
      · split at h
        · cases h; exact h2
        · split at h
          · cases h; exact h1
          · cases h; exact h2
  · rename_i h1 _
    cases h
    exact ((Bool.and_eq_true _ _).mp h1).1
  · rename_i h2
    cases h
    exact h2
  · cases h

/-- The multiple below a number, and the next one above it. -/
theorem below_spec (i : Interval) (k : Int) :
    (i.below k : ℚ) * 10 ^ k ≤ i.value * 2 ^ i.scale ∧
      (i.value : ℚ) * 2 ^ i.scale < ((i.below k + 1 : Nat) : ℚ) * 10 ^ k := by
  have hpos : 0 < (commonUnit i.scale k).2 := by
    obtain ⟨unit, hunit, _, h2⟩ := commonUnit_eq i.scale k
    have : (0 : ℚ) < (commonUnit i.scale k).2 := by rw [h2]; positivity
    exact_mod_cast this
  have hbelow : i.below k = i.value * (commonUnit i.scale k).1 / (commonUnit i.scale k).2 := rfl
  constructor
  · rw [← mul_commonUnit_le_iff', hbelow]
    exact Nat.div_mul_le_self _ _
  · rw [← not_le, ← mul_commonUnit_le_iff', not_le, hbelow]
    rw [Nat.add_mul, Nat.one_mul]
    exact Nat.lt_div_mul_add hpos

/-- A grid that is finer than the unit of the interval has a decimal in it. -/
theorem pick_of_fine (tie : Tie) {m : Nat} {q k : Int} (h : (10 : ℚ) ^ k < 2 ^ (q - 2)) :
    (Interval.around m q).pick tie k ≠ none := by
  -- the multiple above the number is less than a quarter of its unit away
  have hnext : (Interval.around m q).contains ((Interval.around m q).below k + 1) k = true := by
    obtain ⟨hbelow, habove⟩ := below_spec (Interval.around m q) k
    generalize (Interval.around m q).below k = d at hbelow habove
    have hstep : ((d + 1 : Nat) : ℚ) * 10 ^ k = d * 10 ^ k + 10 ^ k := by
      push_cast
      ring
    have hvalue : ((Interval.around m q).value : ℚ) = 4 * m := by simp [Interval.around]
    have hhigh : ((Interval.around m q).high : ℚ) = 4 * m + 2 := by simp [Interval.around]
    have hlow : ((Interval.around m q).low : ℚ) ≤ 4 * m := by
      have : (Interval.around m q).low ≤ 4 * m := by
        simp only [Interval.around]
        split <;> omega
      exact_mod_cast this
    have hscale : (Interval.around m q).scale = q - 2 := rfl
    have hunit : (0 : ℚ) < 2 ^ (q - 2) := by positivity
    rw [contains_iff, hhigh, hscale]
    rw [hvalue, hscale] at hbelow habove
    have h1 : ((Interval.around m q).low : ℚ) * 2 ^ (q - 2) < ((d + 1 : Nat) : ℚ) * 10 ^ k := by
      nlinarith
    have h2 : ((d + 1 : Nat) : ℚ) * 10 ^ k < (4 * m + 2) * 2 ^ (q - 2) := by
      rw [hstep]
      nlinarith
    exact ⟨h1.le, h2.le, fun _ => ⟨h1.ne, h2.ne⟩⟩
  unfold Interval.pick
  dsimp only
  rw [hnext]
  cases (Interval.around m q).contains ((Interval.around m q).below k) k &&
      decide ((Interval.around m q).below k ≠ 0) with
  | false => simp
  | true =>
    dsimp only
    split
    · simp
    · split
      · simp
      · cases tie with
        | up => simp
        | even =>
          dsimp only
          split <;> simp

/-- The search ends in the interval if one of its grids has a decimal there. -/
theorem contains_search (tie : Tie) (i : Interval) (steps : Nat) (k : Int)
    (h : ∃ j < steps, i.pick tie (k - (j : Nat)) ≠ none) :
    i.contains (i.search tie steps k).digits (i.search tie steps k).exponent = true := by
  induction steps generalizing k with
  | zero =>
    obtain ⟨j, hj, _⟩ := h
    omega
  | succ steps ih =>
    rw [Interval.search]
    cases hp : i.pick tie k with
    | some d => exact contains_of_pick hp
    | none =>
      obtain ⟨j, hj, hpick⟩ := h
      cases j with
      | zero =>
        rw [Nat.cast_zero, sub_zero] at hpick
        exact absurd hp hpick
      | succ j =>
        refine ih (k - 1) ⟨j, by omega, ?_⟩
        rw [show k - 1 - (j : Int) = k - ((j + 1 : Nat) : Int) by push_cast; ring]
        exact hpick

/-! ## Powers of two and powers of ten -/

/-- Powers compare as their exponents do, up to a ratio of logarithms that is known from
one comparison `a^p < b^r`. -/
theorem pow_lt_pow_of_ratio {a b p r : Nat} (hb : 1 ≤ b) (hbase : a ^ p < b ^ r) {x y : Nat}
    (hx : 0 < x) (h : r * x ≤ p * y) : a ^ x < b ^ y := by
  have hp : p ≠ 0 := by
    rintro rfl
    have hr : r = 0 := by
      have := Nat.le_of_mul_le_mul_right (show r * x ≤ 0 * x by simpa using h) hx
      omega
    rw [hr] at hbase
    simp at hbase
  refine lt_of_pow_lt_pow_left₀ p (Nat.zero_le _) ?_
  calc (a ^ x) ^ p = (a ^ p) ^ x := by rw [← pow_mul, ← pow_mul, Nat.mul_comm]
    _ < (b ^ r) ^ x := Nat.pow_lt_pow_left hbase (by omega)
    _ = b ^ (r * x) := by rw [← pow_mul]
    _ ≤ b ^ (p * y) := Nat.pow_le_pow_right hb h
    _ = (b ^ y) ^ p := by rw [← pow_mul, Nat.mul_comm]

/-- Small powers, from `2^93 < 10^28`. -/
theorem ten_zpow_lt_of_neg {k j : Int} (hj : j < 0) (h : 93 * k ≤ 28 * j) :
    (10 : ℚ) ^ k < 2 ^ j := by
  obtain ⟨x, hx⟩ := Int.eq_ofNat_of_zero_le (show 0 ≤ -j by omega)
  obtain ⟨y, hy⟩ := Int.eq_ofNat_of_zero_le (show 0 ≤ -k by omega)
  have hlt : 2 ^ x < 10 ^ y := by
    refine @pow_lt_pow_of_ratio 2 10 93 28 (by norm_num) (by norm_num) x y (by omega) ?_
    omega
  rw [show k = -(y : Int) by omega, show j = -(x : Int) by omega, zpow_neg, zpow_neg,
    zpow_natCast, zpow_natCast]
  refine inv_strictAnti₀ (by positivity) ?_
  exact_mod_cast hlt

/-- Large powers, from `10^59 < 2^196`. -/
theorem ten_zpow_lt_of_pos {k j : Int} (hk : 0 < k) (h : 196 * k ≤ 59 * j) :
    (10 : ℚ) ^ k < 2 ^ j := by
  obtain ⟨x, hx⟩ := Int.eq_ofNat_of_zero_le (show 0 ≤ k by omega)
  obtain ⟨y, hy⟩ := Int.eq_ofNat_of_zero_le (show 0 ≤ j by omega)
  have hlt : 10 ^ x < 2 ^ y := by
    refine @pow_lt_pow_of_ratio 10 2 59 196 (by norm_num) (by norm_num) x y (by omega) ?_
    omega
  rw [hx, hy, zpow_natCast, zpow_natCast]
  exact_mod_cast hlt

/-- The last grid of the search is finer than the interval's unit. -/
theorem last_grid_fine {m : Nat} {q : Int} (hm : 0 < m) (hc : Canonical m q) :
    (10 : ℚ) ^ (topExponent m q - 19) < 2 ^ (q - 2) := by
  have hlog : m.log2 < 53 := (Nat.log2_lt (by omega)).mpr (by rcases hc with hc | hc <;> omega)
  have hq : -1074 ≤ q ∧ q ≤ 971 := by rcases hc with hc | hc <;> omega
  rw [topExponent]
  generalize hbits : (m.log2 : Int) + 1 + q = bits
  -- one comparison of powers is used on each side of one
  by_cases hj : q - 2 < 0
  · refine ten_zpow_lt_of_neg hj ?_
    split <;> omega
  · rw [if_pos (by omega)]
    by_cases hk : 0 < bits * 30103 / 100000 + 1 - 19
    · refine ten_zpow_lt_of_pos hk ?_
      omega
    · rcases lt_or_eq_of_le (not_lt.mp hk) with hk | hk
      · calc (10 : ℚ) ^ (bits * 30103 / 100000 + 1 - 19) < 1 := zpow_lt_one_of_neg₀ (by norm_num) hk
          _ ≤ 2 ^ (q - 2) := one_le_zpow₀ (by norm_num) (by omega)
      · rw [hk, zpow_zero]
        exact one_lt_zpow₀ (by norm_num) (by omega)

/-! ## The shortest decimal -/

/-- Dropping zeros keeps the decimal's value. -/
theorem stripZeros_value (fuel : Nat) (s : Scientific) :
    ((stripZeros fuel s).digits : ℚ) * 10 ^ (stripZeros fuel s).exponent =
      s.digits * 10 ^ s.exponent := by
  induction fuel generalizing s with
  | zero => rfl
  | succ fuel ih =>
    rw [stripZeros]
    by_cases h : s.digits ≠ 0 ∧ s.digits % 10 = 0
    · rw [if_pos h, ih]
      dsimp only
      have hdiv : s.digits = s.digits / 10 * 10 := by omega
      have hcast : (s.digits : ℚ) = ((s.digits / 10 : Nat) : ℚ) * 10 := by exact_mod_cast hdiv
      rw [hcast, zpow_add_one₀ (by norm_num)]
      ring
    · rw [if_neg h]

/-- The shortest decimal of a number is positive and near the number. -/
theorem shortest_near (tie : Tie) {m : Nat} {q : Int} (hm : 0 < m) (hc : Canonical m q) :
    0 < (shortest tie m q).digits ∧
      Near (((shortest tie m q).digits : ℚ) * 10 ^ (shortest tie m q).exponent) m q := by
  have hcontains := contains_search tie (Interval.around m q) 20 (topExponent m q)
    ⟨19, by omega, pick_of_fine tie (last_grid_fine hm hc)⟩
  rw [shortest]
  generalize (Interval.around m q).search tie 20 (topExponent m q) = s at hcontains
  have hnear := near_of_contains hm hcontains
  have hvalue := stripZeros_value 20 s
  refine ⟨?_, by rw [hvalue]; exact hnear⟩
  have hpos : 0 < s.digits := pos_of_contains hm hcontains
  by_contra hzero
  have hzero : (stripZeros 20 s).digits = 0 := by omega
  rw [hzero, Nat.cast_zero, zero_mul] at hvalue
  have hs : (0 : ℚ) < s.digits * 10 ^ s.exponent := by positivity
  rw [← hvalue] at hs
  exact lt_irrefl _ hs

end FilterLang.Decimal
