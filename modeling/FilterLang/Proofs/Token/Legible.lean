import FilterLang.Proofs.Number.Nearest
import FilterLang.Proofs.Text.Nested
import FilterLang.Proofs.Token.Coverage
/-!
Names and numbers of a text.

A name that is read off a text is made of letters, digits and underscores, so it is a word that
neither blanks nor parentheses interrupt. A number is the nearest one to a ratio, which may be an
infinity, but is a number (`isNaN_digitsNumber`). All tokens of a text are of this kind
(`tokenize_legible`).
-/

namespace FilterLang

/-! ## Numbers -/

namespace Number

theorem isNaN_infinity (negative : Bool) {m : Nat} {q : Int} (hm : 2 ^ 52 ≤ m) (hq : 971 < q) :
    (assemble negative m q).isNaN = false := by
  have hpow : pow2 52 = 2 ^ 52 := rfl
  have hlarge : ¬ m < 2 ^ 52 := Nat.not_lt.mpr hm
  rw [assemble, hpow]
  simp only [hlarge, if_false, gt_iff_lt, hq, if_true]
  cases negative <;> decide

/-- A mantissa that fits gives a number, or an infinity. -/
theorem isNaN_assemble (negative : Bool) {m : Nat} {q : Int} (hm : m < 2 ^ 53)
    (hq : -1074 ≤ q) : (assemble negative m q).isNaN = false := by
  by_cases hsmall : m < 2 ^ 52
  · have hleast : assemble negative m q = assemble negative m (-1074) := by
      have hpow : pow2 52 = 2 ^ 52 := rfl
      rw [assemble, assemble, hpow, if_pos hsmall, if_pos hsmall]
    rw [hleast]
    exact isNaN_of_isFinite (isFinite_assemble (Or.inl ⟨hsmall, rfl⟩) negative)
  · by_cases hlarge : 971 < q
    · exact isNaN_infinity negative (by omega) hlarge
    · exact isNaN_of_isFinite
        (isFinite_assemble (Or.inr ⟨by omega, hm, hq, by omega⟩) negative)

theorem roundedQuotient_le (num den : Nat) : roundedQuotient num den ≤ num / den + 1 := by
  rw [roundedQuotient]
  split_ifs <;> omega

/-- The nearest number to a ratio is a number. -/
theorem isNaN_ofRatio (negative : Bool) (num : Nat) {den : Nat} (hden : 0 < den) :
    (ofRatio negative num den).isNaN = false := by
  rw [ofRatio]
  by_cases hnum : num = 0
  · rw [if_pos hnum]
    exact isNaN_assemble negative (by decide) (by decide)
  · rw [if_neg hnum]
    obtain ⟨hleast, hfit, -⟩ := ratioExponent_spec (Nat.pos_of_ne_zero hnum) hden
    generalize ratioExponent num den = q at hleast hfit
    have hquotient := (scaledRatio_lt_iff hden q (2 ^ 53)).mpr (by exact_mod_cast hfit)
    have hround := roundedQuotient_le (scaledRatio num den q).1 (scaledRatio num den q).2
    have hpow : pow2 53 = 2 ^ 53 ∧ pow2 52 = 2 ^ 52 := ⟨rfl, rfl⟩
    dsimp only
    rw [hpow.1, hpow.2]
    split_ifs
    · exact isNaN_assemble negative (by decide) (by omega)
    · exact isNaN_assemble negative (by omega) hleast

end Number

theorem Decimal.isNaN_nearest (negative : Bool) (digits : List Char) (exponent : Int) :
    (nearest negative digits exponent).isNaN = false := by
  rw [nearest]
  have hpow (n : Nat) : 0 < Number.pow10 n := Nat.pow_pos (by decide)
  split_ifs
  · exact Number.isNaN_ofRatio negative _ Nat.one_pos
  · exact Number.isNaN_ofRatio negative _ Nat.one_pos
  · exact Number.isNaN_ofRatio negative _ Nat.one_pos
  · exact Number.isNaN_ofRatio negative _ (hpow _)

namespace Token

theorem isNaN_digitsNumber (whole fraction : List Char) :
    (digitsNumber whole fraction).isNaN = false :=
  Decimal.isNaN_nearest false _ _

/-! ## Tokens -/

/-- A name is a word, and a number is one. -/
def Legible : Token → Prop
  | number _ x => x.isNaN = false
  | name word => Text.IsBareWord word.toList
  | string .. | symbol _ => True

theorem legible_readNumber (s : List Char) : (readNumber s).1.Legible := by
  rw [readNumber]
  split <;> exact isNaN_digitsNumber _ _

theorem isWordChar_of_start {c : Char} (h : (c.isAlpha || c == '_') = true) :
    isWordChar c = true := by
  simp only [Bool.or_eq_true] at h
  rcases h with h | h
  · simp [isWordChar, Char.isAlphanum, h]
  · simp [isWordChar, h]

theorem not_mem_delimiters {c : Char} (h : isWordChar c = true) : c ∉ Text.delimiters := by
  intro hc
  simp only [Text.delimiters, List.mem_cons, List.not_mem_nil, or_false] at hc
  rcases hc with rfl | rfl | rfl <;> cases h

theorem legible_ofWord {word : String} (hne : word.toList ≠ [])
    (h : ∀ c ∈ word.toList, isWordChar c = true) : (ofWord word).Legible := by
  rw [ofWord]
  split
  · trivial
  · exact ⟨hne, fun c hc => not_mem_delimiters (h c hc)⟩

theorem legible_readString {mark : Option Char} {quote : Char} {s after : List Char} {t : Token}
    (h : readString? mark quote s = some (t, after)) : t.Legible := by
  rw [readString?] at h
  split at h
  · cases h
  · cases h
    trivial

theorem legible_readOperator {s after : List Char} {t : Token}
    (h : readOperator? s = some (t, after)) : t.Legible := by
  rw [readOperator?] at h
  split at h
  · cases h
  · split at h
    · cases h
    · cases h
      trivial

/-- Every token that is taken off a text is legible. -/
theorem legible_next {c : Char} {rest after : List Char} {t : Token}
    (h : next? c rest = some (t, after)) : t.Legible := by
  unfold next? at h
  split at h
  · have hread : readNumber (c :: rest) = (t, after) := Option.some.inj h
    have hlegible := legible_readNumber (c :: rest)
    rw [hread] at hlegible
    exact hlegible
  · split at h
    · split at h
      · exact legible_readString h
      · cases h
    · split at h
      · exact legible_readString h
      · split at h
        · rename_i hstart
          cases h
          refine legible_ofWord (by simp) ?_
          intro d hd
          rw [String.toList_ofList] at hd
          rcases List.mem_cons.mp hd with rfl | hd
          · exact isWordChar_of_start hstart
          · exact List.mem_takeWhile_imp hd
        · exact legible_readOperator h

theorem legible_push {acc : List Token} {t : Token} (hacc : ∀ u ∈ acc, u.Legible)
    (ht : t.Legible) : ∀ u ∈ push acc t, u.Legible := by
  rcases push_cases acc t with
    ⟨first, second, s, before, -, rfl, rfl, hpush⟩ | ⟨hpush, -⟩
  · rw [hpush]
    intro u hu
    rcases List.mem_cons.mp hu with rfl | hu
    · trivial
    · exact hacc u (List.mem_cons_of_mem _ hu)
  · rw [hpush]
    exact List.forall_mem_cons.mpr ⟨ht, hacc⟩

theorem legible_scan {text : String} (acc : List Token) (s : List Char) {ts : List Token}
    (hacc : ∀ u ∈ acc, u.Legible) (h : scan text acc s = .ok ts) : ∀ u ∈ ts, u.Legible := by
  fun_induction scan text acc s with
  | case1 acc s hs =>
    cases h
    intro u hu
    rw [List.mem_reverse] at hu
    rcases List.mem_cons.mp hu with rfl | hu
    · trivial
    · exact hacc u hu
  | case2 => cases h
  | case3 acc s c rest hs t after hnext ih => exact ih (legible_push hacc (legible_next hnext)) h

end Token

/-- The names of a text are words, and its numbers are numbers. -/
theorem tokenize_legible {text : String} {ts : List Token} (h : tokenize text = .ok ts) :
    ∀ t ∈ ts, t.Legible :=
  Token.legible_scan [] text.toList (by simp) h

end FilterLang
