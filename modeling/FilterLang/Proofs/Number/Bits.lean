import FilterLang.Number.Binary
import Mathlib
/-!
The bits of floating point numbers.

A float is its bits, except that there is only one not-a-number. From this follow the
facts about single numbers that everything exact rests on: a finite number has the bits
that it is made from (`toBits_ofBits`), and negation flips the sign bit (`toBits_neg`).
-/

namespace FilterLang.Number

open Float.Model (Format UnpackedFloat)
open Float.Model.UnpackedFloat

/-! ## The three fields -/

theorem toNat_unpackMantissa (b : BitVec 64) :
    (@unpackMantissa Format.binary64 b).toNat = b.toNat % 2 ^ 52 := by
  simp [unpackMantissa]

theorem toNat_unpackExponent (b : BitVec 64) :
    (@unpackExponent Format.binary64 b).toNat = b.toNat / 2 ^ 52 % 2 ^ 11 := by
  simp [unpackExponent, Nat.shiftRight_eq_div_pow]

theorem toNat_unpackSign (b : BitVec 64) :
    (@unpackSign Format.binary64 b).toNat = b.toNat / 2 ^ 63 % 2 := by
  simp [unpackSign, Nat.shiftRight_eq_div_pow]

theorem toNat_packComponents (s : Sign) (e : BitVec 11) (m : BitVec 52) :
    (packComponents Format.binary64 s e m).toNat =
      s.toBitVec.toNat * 2 ^ 63 + e.toNat * 2 ^ 52 + m.toNat := by
  rw [packComponents, BitVec.toNat_append, BitVec.toNat_append,
    ← Nat.shiftLeft_add_eq_or_of_lt e.isLt, ← Nat.shiftLeft_add_eq_or_of_lt m.isLt]
  simp only [Nat.shiftLeft_eq]
  omega

/-- The exponent field of a word is the largest one. -/
theorem unpackExponent_eq_iff (b : UInt64) :
    @unpackExponent Format.binary64 b.toBitVec = -1#11 ↔ b.toNat / 2 ^ 52 % 2 ^ 11 = 2047 := by
  rw [← UInt64.toNat_toBitVec, ← toNat_unpackExponent]
  constructor
  · intro h
    rw [h]
    rfl
  · intro h
    exact BitVec.eq_of_toNat_eq h

/-- A word whose exponent field is not the largest one spells no not-a-number. -/
theorem valid_of_unpackExponent_ne {b : BitVec 64}
    (h : @unpackExponent Format.binary64 b ≠ -1#11) : Format.binary64.Valid b :=
  ⟨fun h1 _ => absurd h1 h⟩

/-- A word with its sign replaced stands for the number with its sign replaced. -/
theorem neg_unpack (b : BitVec 64) :
    (unpack Format.binary64 b).neg =
      unpack Format.binary64
        (packComponents Format.binary64 (-Sign.ofBitVec (@unpackSign Format.binary64 b))
          (@unpackExponent Format.binary64 b) (@unpackMantissa Format.binary64 b)) := by
  simp only [unpack, unpackSign_packComponents, unpackExponent_packComponents,
    unpackMantissa_packComponents, Sign.ofBitVec_toBitVec]
  split
  · split <;> rfl
  · split
    · split <;> rfl
    · rfl

/-! ## Floats and their bits -/

/-- A float is finite when its exponent field is not the largest one. -/
theorem isFinite_iff (x : Float) :
    x.isFinite = true ↔ x.toBits.toNat / 2 ^ 52 % 2 ^ 11 ≠ 2047 := by
  have hunfold : x.isFinite = (unpack Format.binary64 x.toBits.toBitVec).isFinite := rfl
  rw [hunfold, unpack, ne_eq, ← unpackExponent_eq_iff]
  by_cases h1 : @unpackExponent Format.binary64 x.toBits.toBitVec = -1#11
  · rw [if_pos h1]
    refine ⟨fun h => ?_, fun h => absurd h1 h⟩
    split at h <;> cases h
  · rw [if_neg h1]
    refine ⟨fun _ => h1, fun _ => ?_⟩
    split
    · split <;> rfl
    · rfl

theorem toBits_ofBits (b : UInt64) (h : b.toNat / 2 ^ 52 % 2 ^ 11 ≠ 2047) :
    (Float.ofBits b).toBits = b := by
  have hexponent : @unpackExponent Format.binary64 b.toBitVec ≠ -1#11 :=
    mt (unpackExponent_eq_iff b).mp h
  apply UInt64.toBitVec_inj.mp
  exact pack_unpack_of_valid (valid_of_unpackExponent_ne hexponent)

/-- Floats with the same bits are the same. -/
theorem eq_of_toBits {x y : Float} (h : x.toBits.toNat = y.toBits.toNat) : x = y :=
  Float.toBits_inj.mp (UInt64.toNat_inj.mp h)

/-- Negation flips the sign bit. -/
theorem toBits_neg (x : Float) (h : x.isFinite = true) :
    (-x).toBits.toNat = (x.toBits.toNat + 2 ^ 63) % 2 ^ 64 := by
  have h1 : @unpackExponent Format.binary64 x.toBits.toBitVec ≠ -1#11 :=
    mt (unpackExponent_eq_iff x.toBits).mp ((isFinite_iff x).mp h)
  have hneg : (-x).toBits =
      UInt64.ofBitVec (pack Format.binary64 (unpack Format.binary64 x.toBits.toBitVec).neg) := rfl
  have hsign : ∀ s : BitVec 1, (-Sign.ofBitVec s).toBitVec.toNat = 1 - s.toNat := by
    intro s
    rcases BitVec.eq_zero_or_eq_one s with rfl | rfl <;> rfl
  rw [hneg, neg_unpack, pack_unpack_of_valid (valid_of_unpackExponent_ne (by
    rwa [unpackExponent_packComponents])), UInt64.toNat_ofBitVec, toNat_packComponents, hsign,
    toNat_unpackSign, toNat_unpackExponent, toNat_unpackMantissa, UInt64.toNat_toBitVec]
  have hlt : x.toBits.toNat < 2 ^ 64 := x.toBits.toNat_lt
  omega

theorem ne_nan_of_isFinite {x : Float} (h : x.isFinite = true) : x ≠ .nan := by
  rintro rfl
  cases h

/-- A finite number is equal to itself. -/
theorem beq_self_of_isFinite {x : Float} (h : x.isFinite = true) : (x == x) = true :=
  Float.beq_self_iff.mpr (ne_nan_of_isFinite h)

theorem isNaN_of_isFinite {x : Float} (h : x.isFinite = true) : x.isNaN = false := by
  rw [Float.isNaN_eq_decide_eq_nan]
  exact decide_eq_false (ne_nan_of_isFinite h)

/-! ## Mantissa and exponent -/

/-- The mantissas and exponents of finite numbers: 53 bits that are filled, or the least
exponent. -/
def Canonical (m : Nat) (q : Int) : Prop :=
  m < 2 ^ 52 ∧ q = -1074 ∨ 2 ^ 52 ≤ m ∧ m < 2 ^ 53 ∧ -1074 ≤ q ∧ q ≤ 971

/-- The bits of a number that is put together. -/
theorem toBits_assemble {m : Nat} {q : Int} (h : Canonical m q) (negative : Bool) :
    (assemble negative m q).toBits.toNat = (if negative then 2 ^ 63 else 0) +
      (if m < 2 ^ 52 then m else (q + 1075).toNat * 2 ^ 52 + (m - 2 ^ 52)) := by
  have hpow : pow2 52 = 2 ^ 52 ∧ pow2 63 = 2 ^ 63 := ⟨rfl, rfl⟩
  rw [assemble, hpow.1, hpow.2]
  rcases h with ⟨hm, rfl⟩ | ⟨hm, hm', hq, hq'⟩
  · rw [if_pos hm, if_pos hm, toBits_ofBits] <;> rw [UInt64.toNat_ofNat']
    · cases negative <;> simp <;> omega
    · cases negative <;> simp <;> omega
  · have hlow : ¬ m < 2 ^ 52 := by omega
    have hexp : ¬ q > 971 := by omega
    rw [if_neg hlow, if_neg hexp, if_neg hlow, toBits_ofBits] <;> rw [UInt64.toNat_ofNat']
    · cases negative <;> simp <;> omega
    · cases negative <;> simp <;> omega

theorem isFinite_assemble {m : Nat} {q : Int} (h : Canonical m q) (negative : Bool) :
    (assemble negative m q).isFinite = true := by
  rw [isFinite_iff, toBits_assemble h]
  rcases h with ⟨hm, rfl⟩ | ⟨hm, hm', hq, hq'⟩
  · rw [if_pos hm]
    cases negative <;> simp <;> omega
  · rw [if_neg (by omega : ¬ m < 2 ^ 52)]
    cases negative <;> simp <;> omega

/-- The parts of a number with a filled mantissa. -/
theorem parts_of_normal {x : Float} {biased fraction : Nat} (h0 : biased ≠ 0)
    (h1 : biased ≠ 2047) (hb : x.toBits.toNat / 2 ^ 52 % 2 ^ 11 = biased)
    (hf : x.toBits.toNat % 2 ^ 52 = fraction) :
    parts x = .finite (x.toBits.toNat ≥ 2 ^ 63) (2 ^ 52 + fraction) ((biased : Int) - 1075) := by
  subst hb hf
  exact (if_neg h1).trans (if_neg h0)

/-- The parts of a number with the least exponent. -/
theorem parts_of_subnormal {x : Float} {fraction : Nat}
    (hb : x.toBits.toNat / 2 ^ 52 % 2 ^ 11 = 0) (hf : x.toBits.toNat % 2 ^ 52 = fraction) :
    parts x = .finite (x.toBits.toNat ≥ 2 ^ 63) fraction (-1074) := by
  subst hf
  have h1 : x.toBits.toNat / 2 ^ 52 % 2 ^ 11 ≠ 2047 := by omega
  exact (if_neg h1).trans (if_pos hb)

/-- The parts of a number that is put together. -/
theorem parts_assemble {m : Nat} {q : Int} (h : Canonical m q) (negative : Bool) :
    parts (assemble negative m q) = .finite negative m q := by
  have hbits := toBits_assemble h negative
  rcases h with ⟨hm, rfl⟩ | ⟨hm, hm', hq, hq'⟩
  · rw [if_pos hm] at hbits
    have hs : decide ((assemble negative m (-1074)).toBits.toNat ≥ 2 ^ 63) = negative := by
      rw [hbits]
      cases negative with
      | false => simp; omega
      | true => simp
    rw [parts_of_subnormal (by rw [hbits]; cases negative <;> simp <;> omega)
      (by rw [hbits]; cases negative <;> simp <;> omega : _ = m), hs]
  · rw [if_neg (by omega : ¬ m < 2 ^ 52)] at hbits
    have hs : decide ((assemble negative m q).toBits.toNat ≥ 2 ^ 63) = negative := by
      rw [hbits]
      cases negative with
      | false => simp; omega
      | true => simp
    rw [parts_of_normal (by omega : (q + 1075).toNat ≠ 0) (by omega)
      (by rw [hbits]; cases negative <;> simp <;> omega)
      (by rw [hbits]; cases negative <;> simp <;> omega : _ = m - 2 ^ 52), hs,
      show 2 ^ 52 + (m - 2 ^ 52) = m by omega, show ((q + 1075).toNat : Int) - 1075 = q by omega]

/-- A finite number is put together from its parts. -/
theorem parts_of_isFinite {x : Float} (h : x.isFinite = true) :
    ∃ negative m q, parts x = .finite negative m q ∧ Canonical m q ∧
      assemble negative m q = x := by
  have hfield := (isFinite_iff x).mp h
  have hlt : x.toBits.toNat < 2 ^ 64 := x.toBits.toNat_lt
  by_cases h0 : x.toBits.toNat / 2 ^ 52 % 2 ^ 11 = 0
  · have hm : x.toBits.toNat % 2 ^ 52 < 2 ^ 52 := by omega
    have hc : Canonical (x.toBits.toNat % 2 ^ 52) (-1074) := Or.inl ⟨hm, rfl⟩
    refine ⟨_, _, _, parts_of_subnormal h0 rfl, hc, ?_⟩
    apply eq_of_toBits
    rw [toBits_assemble hc, if_pos hm]
    by_cases hs : x.toBits.toNat ≥ 2 ^ 63
    · simp only [hs, decide_true, if_true]
      omega
    · simp only [hs, decide_false]
      simp
      omega
  · have hc : Canonical (2 ^ 52 + x.toBits.toNat % 2 ^ 52)
        (((x.toBits.toNat / 2 ^ 52 % 2 ^ 11 : Nat) : Int) - 1075) := Or.inr (by omega)
    refine ⟨_, _, _, parts_of_normal h0 hfield rfl rfl, hc, ?_⟩
    apply eq_of_toBits
    rw [toBits_assemble hc, if_neg (by omega : ¬ 2 ^ 52 + x.toBits.toNat % 2 ^ 52 < 2 ^ 52)]
    by_cases hs : x.toBits.toNat ≥ 2 ^ 63
    · simp only [hs, decide_true, if_true]
      omega
    · simp only [hs, decide_false]
      simp
      omega

theorem neg_assemble {m : Nat} {q : Int} (h : Canonical m q) :
    -(assemble false m q) = assemble true m q := by
  apply eq_of_toBits
  rw [toBits_neg _ (isFinite_assemble h false), toBits_assemble h, toBits_assemble h]
  rcases h with ⟨hm, rfl⟩ | ⟨hm, hm', hq, hq'⟩
  · rw [if_pos hm]
    simp
    omega
  · rw [if_neg (by omega : ¬ m < 2 ^ 52)]
    simp
    omega

end FilterLang.Number
