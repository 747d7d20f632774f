import FilterLang.Proofs.Decimal.Spelling
import FilterLang.Proofs.Number.Order
/-!
Numbers are told apart by their spellings.

The spelling of a finite number is a sign and digits around a point, all of which can be read off
it again, and the digits are read as the number (`plain_eq`). Infinities are spelled by a sign and
a word. So two numbers with one spelling are one number (`plain_injective`), and none is spelled
like a constant of the language (`plain_ne_of_head`).
-/

namespace FilterLang

/-! ## Infinities -/

namespace Number

/-- No number has larger bits than an infinity, signs apart. -/
theorem Unpacks.low_le {low : Nat} {s : Float.Model.UnpackedFloat.Sign}
    {u : Float.Model.UnpackedFloat} (h : Unpacks low s u) : low ≤ 2047 * 2 ^ 52 := by
  cases h with
  | infinity h => omega
  | zero h => omega
  | finite hm hc h => rcases hc with hc | hc <;> omega

/-- The bits of an infinity, without its sign. -/
theorem toBits_of_infinite {x : Float} (hfinite : x.isFinite = false) (hnan : x.isNaN = false) :
    x.toBits.toNat % 2 ^ 63 = 2047 * 2 ^ 52 := by
  have hfield : x.toBits.toNat / 2 ^ 52 % 2 ^ 11 = 2047 := by
    by_contra hne
    rw [(isFinite_iff x).mpr hne] at hfinite
    cases hfinite
  have hle : x.toBits.toNat % 2 ^ 63 ≤ 2047 * 2 ^ 52 :=
    Unpacks.low_le (@unpacks_of_isNaN x.toBits.toBitVec hnan)
  omega

end Number

namespace Decimal

open Number

/-- An infinity is spelled by its sign and a word. -/
theorem plain_of_infinite {x : Float} (hfinite : x.isFinite = false) (hnan : x.isNaN = false) :
    ∃ negative : Bool, (plain x).toList = (if negative then ['-'] else []) ++ ['i', 'n', 'f'] ∧
      x.toBits.toNat = (if negative then 2 ^ 63 else 0) + 2047 * 2 ^ 52 := by
  have hlow := toBits_of_infinite hfinite hnan
  have hlt : x.toBits.toNat < 2 ^ 64 := x.toBits.toNat_lt
  have hparts : parts x = .infinite (x.toBits.toNat ≥ 2 ^ 63) := by
    have hfield : x.toBits.toNat / 2 ^ 52 % 2 ^ 11 = 2047 := by omega
    have hfraction : x.toBits.toNat % 2 ^ 52 = 0 := by omega
    exact (if_pos hfield).trans (if_pos hfraction)
  refine ⟨decide (x.toBits.toNat ≥ 2 ^ 63), ?_, ?_⟩
  · rw [plain, hparts]
    cases decide (x.toBits.toNat ≥ 2 ^ 63) <;> rfl
  · by_cases hsign : x.toBits.toNat ≥ 2 ^ 63
    · rw [if_pos (by simpa using hsign)]
      omega
    · rw [if_neg (by simpa using hsign)]
      omega

/-! ## Reading spellings off -/

/-- A sign is told from what comes after it. -/
theorem sign_append_injective {negative negative' : Bool} {body body' : List Char}
    (hbody : body.head? ≠ some '-') (hbody' : body'.head? ≠ some '-')
    (h : (if negative then ['-'] else []) ++ body = (if negative' then ['-'] else []) ++ body') :
    negative = negative' ∧ body = body' := by
  cases negative with
  | false =>
    cases negative' with
    | false => exact ⟨rfl, h⟩
    | true =>
      rw [show body = '-' :: body' from h] at hbody
      exact absurd rfl hbody
  | true =>
    cases negative' with
    | false =>
      rw [← show '-' :: body = body' from h] at hbody'
      exact absurd rfl hbody'
    | true => exact ⟨rfl, List.cons.inj h |>.2⟩

/-- Digits are read up to the point. -/
theorem takeWhile_pointText {whole fraction : List Char} (h : Digits whole fraction) :
    (pointText whole fraction).takeWhile Char.isDigit = whole ∧
      (pointText whole fraction).dropWhile Char.isDigit =
        if fraction.isEmpty then [] else '.' :: fraction := by
  rw [pointText, List.takeWhile_append_of_pos h.whole, List.dropWhile_append_of_pos h.whole]
  cases fraction with
  | nil => exact ⟨List.append_nil whole, rfl⟩
  | cons c rest => exact ⟨List.append_nil whole, rfl⟩

/-- The digits on both sides of a point are told from the text. -/
theorem pointText_injective {whole fraction whole' fraction' : List Char}
    (h : Digits whole fraction) (h' : Digits whole' fraction')
    (heq : pointText whole fraction = pointText whole' fraction') :
    whole = whole' ∧ fraction = fraction' := by
  obtain ⟨htake, hdrop⟩ := takeWhile_pointText h
  obtain ⟨htake', hdrop'⟩ := takeWhile_pointText h'
  rw [heq, htake'] at htake
  rw [heq, hdrop'] at hdrop
  refine ⟨htake.symm, ?_⟩
  cases fraction with
  | nil =>
    cases fraction' with
    | nil => rfl
    | cons c rest => cases hdrop
  | cons c rest =>
    cases fraction' with
    | nil => cases hdrop
    | cons c' rest' => exact (List.cons.inj hdrop).2.symm

/-- A text of digits begins with one. -/
theorem head_pointText {whole fraction : List Char} (h : Digits whole fraction) :
    ∃ c, (pointText whole fraction).head? = some c ∧ c.isDigit = true := by
  cases whole with
  | nil => exact absurd rfl h.nonempty
  | cons c rest => exact ⟨c, rfl, h.whole c List.mem_cons_self⟩

theorem head_pointText_ne {whole fraction : List Char} (h : Digits whole fraction) {c : Char}
    (hc : c.isDigit = false) : (pointText whole fraction).head? ≠ some c := by
  obtain ⟨d, hd, hdigit⟩ := head_pointText h
  rw [hd]
  rintro ⟨rfl⟩
  rw [hdigit] at hc
  cases hc

/-! ## Telling numbers apart -/

/-- The spelling of a finite number is not that of an infinity. -/
theorem plain_ne_of_infinite {x y : Float} (hx : x.isFinite = true) (hy : y.isFinite = false)
    (hnan : y.isNaN = false) : plain x ≠ plain y := by
  intro h
  obtain ⟨negative, whole, fraction, hd, htext, -⟩ := plain_eq hx
  obtain ⟨negative', htext', -⟩ := plain_of_infinite hy hnan
  rw [h, htext'] at htext
  obtain ⟨-, hbody⟩ := sign_append_injective (by decide) (head_pointText_ne hd (by decide)) htext
  exact head_pointText_ne hd (by decide : Char.isDigit 'i' = false) (by rw [← hbody]; rfl)

/-- Numbers with one spelling are one number. -/
theorem plain_injective {x y : Float} (hx : x.isNaN = false) (hy : y.isNaN = false)
    (h : plain x = plain y) : x = y := by
  cases hfx : x.isFinite with
  | true =>
    cases hfy : y.isFinite with
    | true =>
      obtain ⟨negative, whole, fraction, hd, htext, hread⟩ := plain_eq hfx
      obtain ⟨negative', whole', fraction', hd', htext', hread'⟩ := plain_eq hfy
      rw [h, htext'] at htext
      obtain ⟨rfl, hbody⟩ := sign_append_injective (head_pointText_ne hd' (by decide))
        (head_pointText_ne hd (by decide)) htext
      obtain ⟨rfl, rfl⟩ := pointText_injective hd' hd hbody
      exact hread.symm.trans hread'
    | false => exact absurd h (plain_ne_of_infinite hfx hfy hy)
  | false =>
    cases hfy : y.isFinite with
    | true => exact absurd h.symm (plain_ne_of_infinite hfy hfx hx)
    | false =>
      obtain ⟨negative, htext, hbits⟩ := plain_of_infinite hfx hx
      obtain ⟨negative', htext', hbits'⟩ := plain_of_infinite hfy hy
      rw [h, htext'] at htext
      obtain ⟨rfl, -⟩ := sign_append_injective (by decide) (by decide) htext
      exact eq_of_toBits (hbits.trans hbits'.symm)

/-- The spelling of a number begins with a digit, a sign, or the words for what is no finite
number. -/
theorem head_plain (x : Float) : ∃ c, (plain x).toList.head? = some c ∧
    (c.isDigit = true ∨ c = '-' ∨ c = 'i' ∨ plain x = "nan") := by
  cases hfinite : x.isFinite with
  | true =>
    obtain ⟨negative, whole, fraction, hd, htext, -⟩ := plain_eq hfinite
    rw [htext]
    cases negative with
    | false =>
      obtain ⟨c, hc, hdigit⟩ := head_pointText hd
      exact ⟨c, hc, Or.inl hdigit⟩
    | true => exact ⟨'-', rfl, Or.inr (Or.inl rfl)⟩
  | false =>
    cases hnan : x.isNaN with
    | false =>
      obtain ⟨negative, htext, -⟩ := plain_of_infinite hfinite hnan
      rw [htext]
      cases negative with
      | false => exact ⟨'i', rfl, Or.inr (Or.inr (Or.inl rfl))⟩
      | true => exact ⟨'-', rfl, Or.inr (Or.inl rfl)⟩
    | true =>
      have hword : plain x = "nan" := by
        rw [Float.isNaN_eq_decide_eq_nan] at hnan
        rw [of_decide_eq_true hnan]
        rfl
      exact ⟨'n', by rw [hword]; rfl, Or.inr (Or.inr (Or.inr hword))⟩

/-- No number is spelled like another word. -/
theorem plain_ne_of_head {x : Float} {word : String} {c : Char}
    (hhead : word.toList.head? = some c) (hc : c.isDigit = false ∧ c ≠ '-' ∧ c ≠ 'i')
    (hnan : word ≠ "nan") : plain x ≠ word := by
  rintro rfl
  obtain ⟨d, hd, hcases⟩ := head_plain x
  rw [hhead] at hd
  cases hd
  rcases hcases with hdigit | hminus | hi | hword
  · rw [hc.1] at hdigit
    cases hdigit
  · exact hc.2.1 hminus
  · exact hc.2.2 hi
  · exact hnan hword

end Decimal

end FilterLang
