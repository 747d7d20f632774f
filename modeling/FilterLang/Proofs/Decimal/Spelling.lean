import FilterLang.Decimal.Layout
import FilterLang.Proofs.Decimal.Shortest
import FilterLang.Token.Lexer
/-!
The spelling of a number is read as that number.

A finite number is spelled as an optional minus sign and the digits of its shortest
decimal, with a point put among them (`plain_eq`). Reading the digits before and after
the point gives a ratio that is near the number without its sign, and so the number
itself; the minus sign is then an operator that negates it.
-/

namespace FilterLang.Decimal

open Number

/-! ## Digits -/

theorem digitsValue_eq (ds : List Char) : digitsValue ds = Nat.ofDigitChars 10 ds 0 := by
  rw [digitsValue, Nat.ofDigitChars_eq_foldl]
  congr 1
  funext n c
  rw [Nat.mul_comm]
  rfl

theorem digitsValue_natDigits (n : Nat) : digitsValue (natDigits n) = n := by
  rw [digitsValue_eq, natDigits, Nat.ofDigitChars_ten_toDigits]

theorem isDigit_natDigits {n : Nat} {c : Char} (h : c ∈ natDigits n) : c.isDigit = true :=
  Nat.isDigit_of_mem_toDigits (by decide) (by decide) h

theorem digitsValue_append_zeros (ds : List Char) (k : Nat) :
    digitsValue (ds ++ List.replicate k '0') = digitsValue ds * 10 ^ k := by
  rw [digitsValue_eq, digitsValue_eq, Nat.ofDigitChars_append, Nat.ofDigitChars_replicate_zero,
    Nat.mul_comm]

theorem digitsValue_zeros_append (ds : List Char) (k : Nat) :
    digitsValue (List.replicate k '0' ++ ds) = digitsValue ds := by
  rw [digitsValue_eq, digitsValue_eq, Nat.ofDigitChars_append, Nat.ofDigitChars_replicate_zero,
    Nat.mul_zero]

/-- Digits before and after a point: there is one before it. -/
structure Digits (whole fraction : List Char) : Prop where
  nonempty : whole ≠ []
  whole : ∀ c ∈ whole, c.isDigit = true
  fraction : ∀ c ∈ fraction, c.isDigit = true

/-- What digits before and after a point stand for. -/
def pointValue (whole fraction : List Char) : ℚ :=
  (digitsValue (whole ++ fraction) : ℚ) * 10 ^ (-(fraction.length : Int))

/-- Putting a point among the digits of a natural, zeros filling the gaps. -/
theorem positional_spec (n : Nat) (e : Int) :
    Digits (positional (natDigits n) e).1 (positional (natDigits n) e).2 ∧
      pointValue (positional (natDigits n) e).1 (positional (natDigits n) e).2 =
        (n : ℚ) * 10 ^ e := by
  have hzero : ∀ k, ∀ c ∈ List.replicate k '0', c.isDigit = true := by
    intro k c hc
    rw [List.eq_of_mem_replicate hc]
    rfl
  rw [positional]
  by_cases he : 0 ≤ e
  · -- the point comes after the digits and the zeros that fill them up
    rw [if_pos he]
    refine ⟨⟨?_, ?_, ?_⟩, ?_⟩
    · simp [natDigits, Nat.toDigits_ne_nil]
    · intro c hc
      rcases List.mem_append.mp hc with hc | hc
      · exact isDigit_natDigits hc
      · exact hzero _ c hc
    · intro c hc
      cases hc
    · obtain ⟨k, rfl⟩ := Int.eq_ofNat_of_zero_le he
      rw [pointValue, List.append_nil, digitsValue_append_zeros, digitsValue_natDigits]
      simp
  · -- the point comes among the digits, with zeros before them if they are too few
    rw [if_neg he]
    obtain ⟨places, hplaces⟩ := Int.eq_ofNat_of_zero_le (show 0 ≤ -e by omega)
    rw [hplaces, Int.toNat_natCast]
    dsimp only
    generalize hpadded : List.replicate (places + 1 - (natDigits n).length) '0' ++ natDigits n
      = padded
    have hlength : places < padded.length := by
      rw [← hpadded, List.length_append, List.length_replicate]
      omega
    have hdigit : ∀ c ∈ padded, c.isDigit = true := by
      intro c hc
      rw [← hpadded] at hc
      rcases List.mem_append.mp hc with hc | hc
      · exact hzero _ c hc
      · exact isDigit_natDigits hc
    have hvalue : digitsValue padded = n := by
      rw [← hpadded, digitsValue_zeros_append, digitsValue_natDigits]
    refine ⟨⟨?_, ?_, ?_⟩, ?_⟩
    · intro hnil
      have := congrArg List.length hnil
      rw [List.length_take, List.length_nil] at this
      omega
    · exact fun c hc => hdigit c (List.mem_of_mem_take hc)
    · exact fun c hc => hdigit c (List.mem_of_mem_drop hc)
    · rw [pointValue, List.take_append_drop, hvalue, List.length_drop,
        show padded.length - (padded.length - places) = places by omega, ← hplaces, neg_neg]

/-! ## Reading -/

/-- Digits whose value is near a number are read as that number. -/
theorem digitsNumber_of_near {whole fraction : List Char} (hd : Digits whole fraction) {m : Nat}
    {q : Int} (hpos : 0 < digitsValue (whole ++ fraction)) (hc : Canonical m q)
    (h : Near (pointValue whole fraction) m q) :
    Token.digitsNumber whole fraction = assemble false m q := by
  have hlength : 0 < whole.length := List.length_pos_iff.mpr hd.nonempty
  -- a digit before the point keeps the decimal clear of the quick way out to zero
  have hleading : ¬ (digitsValue (whole ++ fraction) = 0 ∨
      ((whole ++ fraction).length : Int) + -(fraction.length : Int) < -400) := by
    rw [List.length_append]
    push_cast
    omega
  rw [Token.digitsNumber, nearest, if_neg hleading, if_neg (by omega)]
  by_cases hnone : 0 ≤ -(fraction.length : Int)
  · have hzero : fraction.length = 0 := by omega
    rw [if_pos hnone]
    refine ofRatio_of_near ?_ (by decide) hc ?_ false
    · exact Nat.mul_pos hpos (Nat.pow_pos (by decide))
    · rw [pointValue, hzero] at h
      rw [hzero]
      convert h using 1
      simp [pow10]
  · rw [if_neg hnone, neg_neg, Int.toNat_natCast]
    refine ofRatio_of_near hpos (Nat.pow_pos (by decide)) hc ?_ false
    rw [pointValue, zpow_neg, zpow_natCast] at h
    rw [Nat.cast_pow, div_eq_mul_inv]
    exact h

/-! ## Spelling -/

/-- The text of digits before and after a point; no point is written without a digit
after it. -/
def pointText (whole fraction : List Char) : List Char :=
  whole ++ if fraction.isEmpty then [] else '.' :: fraction

/-- A finite number is spelled by a sign and by digits that are read as the number without
it. -/
theorem plain_eq {x : Float} (h : x.isFinite = true) :
    ∃ (negative : Bool) (whole fraction : List Char), Digits whole fraction ∧
      (plain x).toList = (if negative then ['-'] else []) ++ pointText whole fraction ∧
      (if negative then -(Token.digitsNumber whole fraction)
        else Token.digitsNumber whole fraction) = x := by
  obtain ⟨negative, m, q, hparts, hc, hx⟩ := parts_of_isFinite h
  have hsign : ∀ y : Float, y = assemble false m q → (if negative then -y else y) = x := by
    rintro y rfl
    rw [← hx]
    cases negative with
    | false => rfl
    | true => exact neg_assemble hc
  have htext : (signText negative).toList = if negative then ['-'] else [] := by
    cases negative <;> rfl
  rw [plain, hparts]
  dsimp only
  by_cases hm : m = 0
  · -- a zero keeps its sign
    subst hm
    refine ⟨negative, ['0'], [], ⟨by simp, by simp [Char.isDigit], by simp⟩, ?_, hsign _ rfl⟩
    rw [if_pos rfl, String.toList_append, htext]
    rfl
  · rw [if_neg hm]
    obtain ⟨hdigits, hnear⟩ := shortest_near .up (Nat.pos_of_ne_zero hm) hc
    obtain ⟨hd, hvalue⟩ := positional_spec (shortest .up m q).digits (shortest .up m q).exponent
    have hpositive : 0 < digitsValue
        ((positional (natDigits (shortest .up m q).digits) (shortest .up m q).exponent).1 ++
          (positional (natDigits (shortest .up m q).digits) (shortest .up m q).exponent).2) := by
      have hdecimal : (0 : ℚ) < (shortest .up m q).digits * 10 ^ (shortest .up m q).exponent := by
        positivity
      rw [← hvalue, pointValue] at hdecimal
      exact_mod_cast pos_of_mul_pos_left hdecimal (by positivity)
    rw [← hvalue] at hnear
    refine ⟨negative, _, _, hd, ?_, hsign _ (digitsNumber_of_near hd hpositive hc hnear)⟩
    rw [String.toList_append, htext, String.toList_ofList]
    rfl

end FilterLang.Decimal
