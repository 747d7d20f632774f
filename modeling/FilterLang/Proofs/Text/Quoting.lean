import FilterLang.Proofs.Text.Escaping
import FilterLang.Text.Quoted
/-!
A quoted text ends at its own quote and is decoded to the text.

What stands between the quotes spells the text (`spelled_quoted`), whichever of the two quotes is
used, so it is decoded to it. The quote itself does not stand in what is written, as long as the
text does not hold both quotes (`quoteFor_notMem`).
-/

namespace FilterLang.Text

/-! ## How a character is written -/

/-- A character is written as the escape of one letter, in hexadecimal, or as itself. A
quote is the letter only of itself. -/
theorem quoteChar_cases {q : Char} (hq : q = '\'' ∨ q = '"') (c : Char) :
    (∃ e, quoteChar q c = ['\\', e] ∧ Escape.simple? e = some c ∧ (e = q → c = q)) ∨
      (c.toNat < 128 ∧ quoteChar q c = '\\' :: 'x' :: hexPair c.toNat) ∨
      (c ≠ '\\' ∧ quoteChar q c = [c]) := by
  have notLetter : ∀ e, e ≠ '\'' → e ≠ '"' → (e = q → c = q) := by
    rintro e hsingle hdouble rfl
    rcases hq with h | h
    · exact absurd h hsingle
    · exact absurd h hdouble
  by_cases hback : c = '\\'
  · subst hback
    exact .inl ⟨'\\', rfl, rfl, notLetter _ (by decide) (by decide)⟩
  by_cases hn : c = '\n'
  · subst hn
    exact .inl ⟨'n', rfl, rfl, notLetter _ (by decide) (by decide)⟩
  by_cases hr : c = '\r'
  · subst hr
    exact .inl ⟨'r', rfl, rfl, notLetter _ (by decide) (by decide)⟩
  by_cases ht : c = '\t'
  · subst ht
    exact .inl ⟨'t', rfl, rfl, notLetter _ (by decide) (by decide)⟩
  rw [quoteChar, if_neg hback, if_neg hn, if_neg hr, if_neg ht]
  by_cases hc : c = q
  · rw [if_pos hc]
    refine .inl ⟨c, rfl, ?_, fun _ => hc⟩
    rcases hq with rfl | rfl
    · rw [hc]; rfl
    · rw [hc]; rfl
  rw [if_neg hc]
  by_cases hcode : c.toNat < 0x20 ∨ c.toNat = 0x7F
  · rw [if_pos hcode]
    exact .inr (.inl ⟨by omega, rfl⟩)
  · rw [if_neg hcode]
    exact .inr (.inr ⟨hback, rfl⟩)

/-! ## Quoting is a spelling -/

theorem numeral_hexPair (n : Fin 128) :
    (hexPair n).length = 2 ∧ Escape.Numeral Escape.hexAlphabets 16 (hexPair n) n.val := by
  have htable : ∀ n : Fin 128, (hexPair n).length = 2 ∧
      Escape.hex? 2 (hexPair n) = some n.val := by decide
  obtain ⟨hlength, hread⟩ := htable n
  obtain ⟨ds, rest, hsplit, hds, hvalue⟩ := Escape.hex?_eq_some_iff.mp hread
  obtain rfl : rest = [] := by
    rw [hsplit, List.length_append] at hlength
    exact List.length_eq_zero_iff.mp (by omega)
  rw [List.append_nil] at hsplit
  exact ⟨hlength, hsplit ▸ hvalue⟩

theorem spelling_quoteChar {q : Char} (hq : q = '\'' ∨ q = '"') (c : Char) (rest : List Char) :
    Escape.Spelling false c rest (quoteChar q c) := by
  rcases quoteChar_cases hq c with ⟨e, htext, he, _⟩ | ⟨hlt, htext⟩ | ⟨hback, htext⟩
  · rw [htext]
    exact .letter (Escape.simple?_eq_some_iff.mp he)
  · obtain ⟨hlength, hvalue⟩ := numeral_hexPair ⟨c.toNat, hlt⟩
    rw [htext]
    exact .hex hlength hvalue
  · rw [htext]
    exact .itself hback

theorem spelled_quoted {q : Char} (hq : q = '\'' ∨ q = '"') (s : List Char) :
    Escape.Spelled false (s.flatMap (quoteChar q)) s := by
  induction s with
  | nil => exact .done
  | cons c s ih =>
    rw [List.flatMap_cons]
    exact .char (spelling_quoteChar hq c _) ih

theorem decodeLiteral_quoted {q : Char} (hq : q = '\'' ∨ q = '"') (s : List Char) :
    decodeLiteral (String.ofList (s.flatMap (quoteChar q))) false = .ok (String.ofList s) := by
  apply Escape.decodeLiteral_spelled
  rw [String.toList_ofList, String.toList_ofList]
  exact spelled_quoted hq s

/-! ## The quote -/

theorem quoteFor_eq (s : List Char) : quoteFor s = '\'' ∨ quoteFor s = '"' := by
  rw [quoteFor]
  split
  · exact Or.inr rfl
  · exact Or.inl rfl

/-- The chosen quote stands in a text only together with the other one. -/
theorem quoteFor_notMem {s : List Char} (h : ¬ ('\'' ∈ s ∧ '"' ∈ s)) : quoteFor s ∉ s := by
  rw [quoteFor]
  split
  · rename_i hs
    simp only [Bool.and_eq_true, Bool.not_eq_true', List.contains_eq_mem, decide_eq_true_eq,
      decide_eq_false_iff_not] at hs
    exact hs.2
  · rename_i hs
    simp only [Bool.and_eq_true, Bool.not_eq_true', List.contains_eq_mem, decide_eq_true_eq,
      decide_eq_false_iff_not] at hs
    intro hsingle
    exact hs ⟨hsingle, fun hdouble => h ⟨hsingle, hdouble⟩⟩

theorem hexPair_notQuote (n : Fin 128) : '\'' ∉ hexPair n ∧ '"' ∉ hexPair n := by
  revert n
  decide

/-- Nothing but the quote itself is written with a quote. -/
theorem quote_notMem_quoteChar {q : Char} (hq : q = '\'' ∨ q = '"') {c : Char} (hc : c ≠ q) :
    q ∉ quoteChar q c := by
  have hback : q ≠ '\\' := by rcases hq with rfl | rfl <;> decide
  rcases quoteChar_cases hq c with ⟨e, htext, _, he⟩ | ⟨hlt, htext⟩ | ⟨_, htext⟩
  · have hletter : q ≠ e := fun h => hc (he h.symm)
    simp [htext, hback, hletter]
  · have hx : q ≠ 'x' := by rcases hq with rfl | rfl <;> decide
    have hpair : q ∉ hexPair c.toNat := by
      have := hexPair_notQuote ⟨c.toNat, hlt⟩
      rcases hq with rfl | rfl
      · exact this.1
      · exact this.2
    simp [htext, hback, hx, hpair]
  · simp [htext, Ne.symm hc]

theorem quoteFor_notMem_body {s : List Char} (h : ¬ ('\'' ∈ s ∧ '"' ∈ s)) :
    quoteFor s ∉ s.flatMap (quoteChar (quoteFor s)) := by
  intro hmem
  obtain ⟨c, hc, hmem⟩ := List.mem_flatMap.mp hmem
  have hne : c ≠ quoteFor s := by
    rintro rfl
    exact quoteFor_notMem h hc
  exact quote_notMem_quoteChar (quoteFor_eq s) hne hmem

end FilterLang.Text
