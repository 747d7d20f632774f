import FilterLang.Number.Signed
import FilterLang.Proofs.Number.Nearest
/-!
The order of floating point numbers.

Without its sign bit, the word of a number counts the numbers from zero on, so that numbers
stand on a line of integers: `place`. Comparisons of floats that are numbers are comparisons
of their places (`lt_iff_place`, `le_iff_place`, `beq_iff_place`), so they form a total order
up to the two zeros, which share a place.
-/

namespace FilterLang.Number

open Float.Model (Format UnpackedFloat)
open Float.Model.UnpackedFloat

/-- Where a number stands on the line of all numbers: its bits without the sign bit,
counted downwards from zero for a negative number. -/
def place (x : Float) : Int :=
  if x.toBits.toNat < 2 ^ 63 then x.toBits.toNat else 2 ^ 63 - (x.toBits.toNat : Int)

/-! ## Words and what they stand for -/

def signed (s : Sign) (n : Int) : Int :=
  match s with
  | .positive => n
  | .negative => -n

theorem place_eq_signed (x : Float) :
    place x = signed (.ofBitVec (@unpackSign Format.binary64 x.toBits.toBitVec))
      (x.toBits.toNat % 2 ^ 63 : Nat) := by
  have hlt : x.toBits.toNat < 2 ^ 64 := x.toBits.toNat_lt
  have hsign := toNat_unpackSign x.toBits.toBitVec
  rw [UInt64.toNat_toBitVec] at hsign
  rw [place]
  rcases BitVec.eq_zero_or_eq_one (@unpackSign Format.binary64 x.toBits.toBitVec) with h | h
  · have hlow : x.toBits.toNat < 2 ^ 63 := by
      rw [h, BitVec.toNat_zero] at hsign
      omega
    rw [h, if_pos hlow, Nat.mod_eq_of_lt hlow]
    rfl
  · have hhigh : ¬ x.toBits.toNat < 2 ^ 63 := by
      rw [h, BitVec.toNat_one (by decide)] at hsign
      omega
    rw [h, if_neg hhigh]
    show _ = -(_ : Int)
    omega

/-- What an unpacked number has to do with the bits `low` below the sign bit. -/
inductive Unpacks (low : Nat) (s : Sign) : UnpackedFloat → Prop
  | infinity (h : low = 2047 * 2 ^ 52) : Unpacks low s (.infinity s)
  | zero (h : low = 0) : Unpacks low s (.zero s)
  | finite {m : Nat} {q : Int} (hm : 0 < m) (hc : Canonical m q)
      (h : (low : Int) = (q + 1074) * 2 ^ 52 + m) : Unpacks low s (.finite s m q hm)

/-- A word that does not spell a not-a-number is unpacked into its sign and the rest. -/
theorem unpacks_of_isNaN {b : BitVec 64} (h : (unpack Format.binary64 b).isNaN = false) :
    Unpacks (b.toNat % 2 ^ 63) (.ofBitVec (@unpackSign Format.binary64 b))
      (unpack Format.binary64 b) := by
  have hm := toNat_unpackMantissa b
  have he := toNat_unpackExponent b
  have hbias : ((Format.binary64.exponentBias : Nat) : Int) +
      (Format.binary64.mantissaBitsWithoutImplicit : Nat) = 1075 := rfl
  rw [unpack] at h ⊢
  by_cases h1 : @unpackExponent Format.binary64 b = -1#11
  · rw [if_pos h1] at h ⊢
    have htop : b.toNat / 2 ^ 52 % 2 ^ 11 = 2047 := by rw [← he, h1]; rfl
    by_cases h2 : @unpackMantissa Format.binary64 b = 0#52
    · rw [if_pos h2]
      refine .infinity ?_
      rw [h2, BitVec.toNat_zero] at hm
      omega
    · rw [if_neg h2] at h
      cases h
  · rw [if_neg h1]
    have hne : b.toNat / 2 ^ 52 % 2 ^ 11 ≠ 2047 := by
      intro htop
      exact h1 (BitVec.eq_of_toNat_eq (he.trans htop))
    by_cases h0 : @unpackExponent Format.binary64 b = 0#11
    · rw [if_pos h0]
      rw [h0, BitVec.toNat_zero] at he
      by_cases h2 : @unpackMantissa Format.binary64 b = 0#52
      · rw [dif_pos h2]
        refine .zero ?_
        rw [h2, BitVec.toNat_zero] at hm
        omega
      · rw [dif_neg h2]
        refine .finite _ (Or.inl ⟨?_, ?_⟩) ?_
        · rw [hm]
          omega
        · rw [h0]
          rfl
        · rw [h0, hm, hbias, BitVec.toNat_zero]
          omega
    · rw [if_neg h0]
      have hpos : b.toNat / 2 ^ 52 % 2 ^ 11 ≠ 0 := by
        intro hzero
        exact h0 (BitVec.eq_of_toNat_eq (he.trans hzero))
      -- the leading bit is not written: it stands above the 52 bits of the fraction
      have hfull : (1#1 ++ @unpackMantissa Format.binary64 b).toNat =
          2 ^ 52 + b.toNat % 2 ^ 52 := by
        rw [BitVec.toNat_append, ← Nat.shiftLeft_add_eq_or_of_lt (BitVec.isLt _), hm]
        rfl
      refine .finite _ (Or.inr ⟨?_, ?_, ?_, ?_⟩) ?_
      · rw [hfull]
        omega
      · rw [hfull]
        omega
      · rw [he, hbias]
        omega
      · rw [he, hbias]
        omega
      · rw [hfull, he, hbias]
        omega

/-! ## Comparison -/

/-- Exponent before mantissa orders finite numbers as their bits. -/
theorem compare_canonical {m m' : Nat} {q q' : Int} (hc : Canonical m q) (hc' : Canonical m' q') :
    (compare q q').then (compare m m') =
      compare ((q + 1074) * 2 ^ 52 + m) ((q' + 1074) * 2 ^ 52 + (m' : Int)) := by
  rcases lt_trichotomy q q' with hq | rfl | hq
  · rw [compare_lt_iff_lt.mpr hq, Eq.comm]
    refine compare_lt_iff_lt.mpr ?_
    rcases hc with hc | hc <;> rcases hc' with hc' | hc' <;> omega
  · rw [compare_eq_iff_eq.mpr rfl]
    rcases lt_trichotomy m m' with hm | rfl | hm
    · rw [compare_lt_iff_lt.mpr hm, Eq.comm]
      exact compare_lt_iff_lt.mpr (by omega)
    · rw [compare_eq_iff_eq.mpr rfl, compare_eq_iff_eq.mpr rfl]
      rfl
    · rw [compare_gt_iff_gt.mpr hm, Eq.comm]
      exact compare_gt_iff_gt.mpr (by omega)
  · rw [compare_gt_iff_gt.mpr hq, Eq.comm]
    refine compare_gt_iff_gt.mpr ?_
    rcases hc with hc | hc <;> rcases hc' with hc' | hc' <;> omega

theorem Unpacks.low_range {low : Nat} {s : Sign} {u : UnpackedFloat} (h : Unpacks low s u) :
    (∀ s', u ≠ .infinity s') → low < 2047 * 2 ^ 52 := by
  intro hne
  cases h with
  | infinity h => exact absurd rfl (hne s)
  | zero h => omega
  | finite hm hc h => rcases hc with hc | hc <;> omega

theorem compare_neg (a b : Int) : compare (-a) (-b) = compare b a := by
  simp only [compare, compareOfLessAndEq, neg_lt_neg_iff, neg_inj, eq_comm]

/-- Numbers are compared as the amounts of their bits with their signs. -/
theorem compare_unpacks {low low' : Nat} {s s' : Sign} {u u' : UnpackedFloat}
    (h : Unpacks low s u) (h' : Unpacks low' s' u') :
    u.compare u' = some (compare (signed s low) (signed s' low')) := by
  have hlow := h.low_range
  have hlow' := h'.low_range
  have hlt {a b : Int} (hab : a < b) : some Ordering.lt = some (compare a b) :=
    congrArg some (compare_lt_iff_lt.mpr hab).symm
  have hgt {a b : Int} (hab : b < a) : some Ordering.gt = some (compare a b) :=
    congrArg some (compare_gt_iff_gt.mpr hab).symm
  cases h with
  | infinity h =>
    cases h' with
    | infinity h' => cases s <;> cases s' <;> subst h h' <;> rfl
    | zero h' =>
      cases s with
      | positive => exact hgt (by cases s' <;> simp only [signed] <;> omega)
      | negative => exact hlt (by cases s' <;> simp only [signed] <;> omega)
    | finite hm' hc' h' =>
      have hlow' := hlow' (by simp)
      cases s with
      | positive => exact hgt (by cases s' <;> simp only [signed] <;> omega)
      | negative => exact hlt (by cases s' <;> simp only [signed] <;> omega)
  | zero h =>
    subst h
    cases h' with
    | infinity h' =>
      cases s' with
      | positive => exact hlt (by cases s <;> simp only [signed] <;> omega)
      | negative => exact hgt (by cases s <;> simp only [signed] <;> omega)
    | zero h' =>
      subst h'
      cases s <;> cases s' <;> rfl
    | finite hm' hc' h' =>
      have hpos : 0 < low' := by rcases hc' with hc' | hc' <;> omega
      cases s' with
      | positive => exact hlt (by cases s <;> simp only [signed] <;> omega)
      | negative => exact hgt (by cases s <;> simp only [signed] <;> omega)
  | finite hm hc h =>
    have hlow := hlow (by simp)
    have hpos : 0 < low := by rcases hc with hc | hc <;> omega
    cases h' with
    | infinity h' =>
      cases s' with
      | positive => exact hlt (by cases s <;> simp only [signed] <;> omega)
      | negative => exact hgt (by cases s <;> simp only [signed] <;> omega)
    | zero h' =>
      cases s with
      | positive => exact hgt (by cases s' <;> simp only [signed] <;> omega)
      | negative => exact hlt (by cases s' <;> simp only [signed] <;> omega)
    | finite hm' hc' h' =>
      have hpos' : 0 < low' := by rcases hc' with hc' | hc' <;> omega
      cases s with
      | positive =>
        cases s' with
        | positive =>
          refine congrArg some ?_
          simp only [signed, h, h']
          exact compare_canonical hc hc'
        | negative => exact hgt (by simp only [signed]; omega)
      | negative =>
        cases s' with
        | positive => exact hlt (by simp only [signed]; omega)
        | negative =>
          -- of two negative numbers the one with the larger amount is the lesser
          refine congrArg some ?_
          simp only [signed, h, h', compare_neg]
          rw [compare_canonical hc hc', ← Std.OrientedOrd.eq_swap]

/-- Floats that are numbers are compared as their places. -/
theorem compare_place {x y : Float} (hx : x.isNaN = false) (hy : y.isNaN = false) :
    (unpack Format.binary64 x.toBits.toBitVec).compare (unpack Format.binary64 y.toBits.toBitVec) =
      some (compare (place x) (place y)) := by
  rw [place_eq_signed, place_eq_signed]
  exact compare_unpacks (unpacks_of_isNaN hx) (unpacks_of_isNaN hy)

theorem lt_iff_place {x y : Float} (hx : x.isNaN = false) (hy : y.isNaN = false) :
    x < y ↔ place x < place y := by
  rw [← compare_lt_iff_lt]
  show decide (x.toModel < y.toModel) = true ↔ _
  rw [decide_eq_true_iff]
  show ((unpack Format.binary64 x.toBits.toBitVec).compare
    (unpack Format.binary64 y.toBits.toBitVec) == some .lt) = true ↔ _
  rw [compare_place hx hy, beq_iff_eq, Option.some.injEq]

theorem le_iff_place {x y : Float} (hx : x.isNaN = false) (hy : y.isNaN = false) :
    x ≤ y ↔ place x ≤ place y := by
  rw [← compare_le_iff_le]
  show decide (x.toModel ≤ y.toModel) = true ↔ _
  rw [decide_eq_true_iff]
  show ((unpack Format.binary64 x.toBits.toBitVec).compare
    (unpack Format.binary64 y.toBits.toBitVec)).any (·.isLE) = true ↔ _
  rw [compare_place hx hy, Option.any_some, Ordering.isLE_iff_ne_gt]

theorem beq_iff_place {x y : Float} (hx : x.isNaN = false) (hy : y.isNaN = false) :
    (x == y) = true ↔ place x = place y := by
  rw [← @compare_eq_iff_eq _ _ (place x)]
  show ((unpack Format.binary64 x.toBits.toBitVec).compare
    (unpack Format.binary64 y.toBits.toBitVec) == some .eq) = true ↔ _
  rw [compare_place hx hy, beq_iff_eq, Option.some.injEq]

/-! ## Numbers at one place -/

/-- Away from zero, a place has one number. -/
theorem eq_of_place {x y : Float} (h : place x = place y) (h0 : place x ≠ 0) : x = y := by
  apply eq_of_toBits
  simp only [place] at h h0
  split at h <;> split at h <;> omega

theorem beq_zero_iff_place {x : Float} (hx : x.isNaN = false) :
    (x == 0.0) = true ↔ place x = 0 :=
  beq_iff_place hx rfl

/-- Both numbers at the place of zero are the whole number zero. -/
theorem toInt?_of_place {x : Float} (h : place x = 0) : toInt? x = some 0 := by
  have hlt : x.toBits.toNat < 2 ^ 64 := x.toBits.toNat_lt
  have hbits : x.toBits.toNat = 0 ∨ x.toBits.toNat = 2 ^ 63 := by
    rw [place] at h
    split at h <;> omega
  have hexponent : x.toBits.toNat / 2 ^ 52 % 2 ^ 11 = 0 := by omega
  have hfraction : x.toBits.toNat % 2 ^ 52 = 0 := by omega
  rw [toInt?, parts_of_subnormal hexponent hfraction]
  simp

theorem isNaN_of_toInt? {x : Float} {n : Int} (h : toInt? x = some n) : x.isNaN = false := by
  rw [Float.isNaN_eq_decide_eq_nan]
  apply decide_eq_false
  rintro rfl
  cases h

/-- Whole numbers that floats hold exactly have places of their own. -/
theorem eq_of_place_ofInt {m n : Int} (hm : m.natAbs ≤ 2 ^ 53) (hn : n.natAbs ≤ 2 ^ 53)
    (h : place (ofInt m) = place (ofInt n)) : m = n := by
  apply Option.some.inj
  rw [← toInt?_ofInt hm, ← toInt?_ofInt hn]
  by_cases h0 : place (ofInt m) = 0
  · rw [toInt?_of_place h0, toInt?_of_place (h ▸ h0)]
  · rw [eq_of_place h h0]

end FilterLang.Number
