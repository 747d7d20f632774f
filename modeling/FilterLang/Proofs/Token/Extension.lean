import FilterLang.Proofs.Token.Failure
/-!
Tokens are read the same when a separator comes after them.

A blank, a comma, a colon or a closing bracket goes on with no token, so neither does a rest that
starts with one (`Separated`). Where a reader takes a token off a text, it takes the same one off
when such a rest is put behind the text (`next?_append`). A text that can be read is therefore
read to the same tokens in front of any such rest (`scan_append`). The tokens before it do not
matter either, unless the last of them is a word that the first word of the text joins.
-/

namespace FilterLang.Token

/-! ## Separators -/

def separators : List Char :=
  ' ' :: enders

/-- A rest that goes on with no token. -/
def Separated (rest : List Char) : Prop :=
  ∀ c ∈ rest.head?, c ∈ separators

theorem separated_nil : Separated [] := by
  intro c h
  cases h

theorem separated_cons {c : Char} (h : c ∈ separators) (rest : List Char) :
    Separated (c :: rest) := by
  rintro d ⟨rfl⟩
  exact h

/-- A class that no separator is in does not hold of the first character of a rest. -/
theorem Separated.head {rest : List Char} (h : Separated rest) {p : Char → Bool}
    (hp : separators.any p = false) : ∀ c ∈ rest.head?, p c = false := by
  intro c hc
  simpa using List.any_eq_false.mp hp c (h c hc)

/-- A run of characters of a class that no separator is in ends where it ended. -/
theorem span_append {p : Char → Bool} (hp : separators.any p = false) {rest : List Char}
    (h : Separated rest) (s : List Char) :
    (s ++ rest).takeWhile p = s.takeWhile p ∧ (s ++ rest).dropWhile p = s.dropWhile p ++ rest := by
  induction s with
  | nil =>
    cases rest with
    | nil => exact ⟨rfl, rfl⟩
    | cons c rest =>
      have hc : ¬ p c = true := by simp [h.head hp c rfl]
      exact ⟨List.takeWhile_cons_of_neg hc, List.dropWhile_cons_of_neg hc⟩
  | cons c s ih =>
    rw [List.cons_append]
    by_cases hc : p c = true
    · rw [List.takeWhile_cons_of_pos hc, List.takeWhile_cons_of_pos hc,
        List.dropWhile_cons_of_pos hc, List.dropWhile_cons_of_pos hc, ih.1, ih.2]
      exact ⟨rfl, rfl⟩
    · rw [List.takeWhile_cons_of_neg hc, List.takeWhile_cons_of_neg hc,
        List.dropWhile_cons_of_neg hc, List.dropWhile_cons_of_neg hc]
      exact ⟨rfl, rfl⟩

/-! ## The readers -/

theorem readNumber_append {rest : List Char} (h : Separated rest) (s : List Char) :
    readNumber (s ++ rest) = ((readNumber s).1, (readNumber s).2 ++ rest) := by
  obtain ⟨htake, hdrop⟩ := span_append (p := Char.isDigit) (by decide) h s
  rw [readNumber, readNumber, htake, hdrop]
  cases s.dropWhile Char.isDigit with
  | nil =>
    cases rest with
    | nil => rfl
    | cons d rest =>
      have hpoint := h.head (p := (· == '.')) (by decide) d rfl
      have hsuffix := h.head (p := fun c => c == 'l' || c == 'L') (by decide) d rfl
      simp only [beq_eq_false_iff_ne, Bool.or_eq_false_iff] at hpoint hsuffix
      simp [hsuffix]
  | cons d tail =>
    rw [List.cons_append]
    by_cases hd : d = '.'
    · subst hd
      obtain ⟨htake, hdrop⟩ := span_append (p := Char.isDigit) (by decide) h tail
      simp only [htake, hdrop]
    · split
      · rename_i heq
        cases heq
        exact absurd rfl hd
      · rename_i c tail' _ heq
        cases heq
        by_cases hsuffix : d = 'l' ∨ d = 'L'
        · simp [hsuffix]
        · simp [hsuffix]
      · rename_i heq
        cases heq

/-- A string ends at its quote, whatever comes after. -/
theorem readString?_append {mark : Option Char} {quote : Char} {s after : List Char} {t : Token}
    (h : readString? mark quote s = some (t, after)) (rest : List Char) :
    readString? mark quote (s ++ rest) = some (t, after ++ rest) := by
  unfold readString? at h
  split at h
  · cases h
  · rename_i d tail htail
    cases h
    obtain ⟨hd, hsplit⟩ := split_of_dropWhile htail
    obtain rfl : d = quote := by simpa using hd
    have hall : ∀ c ∈ s.takeWhile (· != d), (c != d) = true := by
      intro c hc
      simpa using List.mem_takeWhile_imp hc
    have hrest : s ++ rest = s.takeWhile (· != d) ++ d :: (after ++ rest) := by
      rw [← List.cons_append, ← List.append_assoc, ← hsplit]
    have htake : (d :: (after ++ rest)).takeWhile (· != d) = [] :=
      List.takeWhile_cons_of_neg (by simp)
    have hdrop : (d :: (after ++ rest)).dropWhile (· != d) = d :: (after ++ rest) :=
      List.dropWhile_cons_of_neg (by simp)
    rw [readString?, hrest, List.dropWhile_append_of_pos hall, List.takeWhile_append_of_pos hall,
      htake, hdrop, List.append_nil]

/-- No separator goes on with a spelling. -/
theorem spellings_tail : ∀ p ∈ spellings, ∀ c ∈ p.toList.tail, c ∉ separators := by
  simp [spellings, separators, enders]

/-- A spelling that stands in front of a text and a rest stands in front of the text. -/
theorem spelling_front {p : String} (hp : p ∈ spellings) {s rest : List Char} (hs : s ≠ [])
    (h : Separated rest) (hstarts : p.toList <+: s ++ rest) : p.toList <+: s := by
  have hfront : s <+: s ++ rest := List.prefix_append s rest
  rcases Nat.le_total p.toList.length s.length with hle | hle
  · exact List.prefix_of_prefix_length_le hstarts hfront hle
  · -- otherwise the spelling is the text and something of the rest
    obtain ⟨more, hmore⟩ := List.prefix_of_prefix_length_le hfront hstarts hle
    cases more with
    | nil => rw [← hmore, List.append_nil]
    | cons d more =>
      rw [← hmore, List.prefix_append_right_inj] at hstarts
      obtain ⟨cut, rfl⟩ := hstarts
      obtain ⟨c, tail, rfl⟩ : ∃ c tail, s = c :: tail := List.exists_cons_of_ne_nil hs
      have htail := spellings_tail p hp d
      rw [← hmore] at htail
      exact absurd (h d rfl) (htail (by simp))

theorem readOperator?_append {s rest after : List Char} {t : Token} (hs : s ≠ [])
    (hrest : Separated rest) (h : readOperator? s = some (t, after)) :
    readOperator? (s ++ rest) = some (t, after ++ rest) := by
  unfold readOperator? at h
  split at h
  · cases h
  · rename_i p hp
    split at h
    · cases h
    · rename_i sym hsym
      cases h
      have hfront : p.toList <+: s :=
        List.isPrefixOf_iff_prefix.mp (by simpa using List.find?_some hp)
      have hfind : (spellings.find? fun q => q.toList.isPrefixOf (s ++ rest)) = some p := by
        refine find?_of_imp hp ?_ fun q hq hlong => ?_
        · exact List.isPrefixOf_iff_prefix.mpr (hfront.trans (List.prefix_append s rest))
        · exact List.isPrefixOf_iff_prefix.mpr
            (spelling_front hq hs hrest (List.isPrefixOf_iff_prefix.mp hlong))
      have hlength : p.length ≤ s.length := by
        rw [← String.length_toList]
        exact hfront.length_le
      rw [readOperator?, hfind]
      dsimp only
      rw [hsym, List.drop_append_of_le_length hlength]

/-! ## One token -/

theorem startsDigit_append {rest : List Char} (h : Separated rest) (s : List Char) :
    startsDigit (s ++ rest) = startsDigit s := by
  cases s with
  | cons c s => rfl
  | nil =>
    cases rest with
    | nil => rfl
    | cons c rest => exact h.head (p := Char.isDigit) (by decide) c rfl

theorem startsQuoted_append {rest : List Char} (h : Separated rest) (s : List Char) :
    startsQuoted (s ++ rest) = startsQuoted s := by
  cases s with
  | cons c s => rfl
  | nil =>
    cases rest with
    | nil => rfl
    | cons c rest => exact h.head (p := fun c => c == '\'' || c == '"') (by decide) c rfl

/-- A token is read off a text as it is when a separator comes after the text. -/
theorem next?_append {c : Char} {s after rest : List Char} {t : Token} (hrest : Separated rest)
    (h : next? c s = some (t, after)) : next? c (s ++ rest) = some (t, after ++ rest) := by
  unfold next? at h ⊢
  rw [startsDigit_append hrest, startsQuoted_append hrest]
  split at h
  · rename_i hnumber
    have hread : readNumber (c :: s) = (t, after) := Option.some.inj h
    rw [if_pos hnumber, ← List.cons_append, readNumber_append hrest, hread]
  rename_i hnumber
  rw [if_neg hnumber]
  split at h
  · rename_i hmarked
    rw [if_pos hmarked]
    split at h
    · exact readString?_append h rest
    · cases h
  rename_i hmarked
  rw [if_neg hmarked]
  split at h
  · rename_i hquote
    rw [if_pos hquote]
    exact readString?_append h rest
  rename_i hquote
  rw [if_neg hquote]
  split at h
  · rename_i hword
    obtain ⟨htake, hdrop⟩ := span_append (p := isWordChar) (by decide) hrest s
    cases h
    rw [if_pos hword, htake, hdrop]
  · rename_i hword
    rw [if_neg hword, ← List.cons_append]
    exact readOperator?_append (by simp) hrest h

/-! ## Whole texts -/

/-- Tokens, the last one first, after which no word is joined. -/
def Settled (acc : List Token) : Prop :=
  ∀ t ∈ acc.head?, t ≠ .symbol .kwNot ∧ t ≠ .symbol .kwIs

theorem push_ne_nil (acc : List Token) (t : Token) : push acc t ≠ [] := by
  rw [push.eq_def]
  split <;> simp

/-- Only the last token before a token is looked at. -/
theorem push_append {acc base : List Token} (h : acc ≠ [] ∨ Settled base) (t : Token) :
    push (acc ++ base) t = push acc t ++ base := by
  cases acc with
  | cons u acc =>
    rw [List.cons_append, push.eq_def, push.eq_def (u :: acc)]
    split <;> simp_all
  | nil =>
    have hbase : Settled base := h.resolve_left (by simp)
    rw [List.nil_append, push.eq_def]
    split
    · exact absurd rfl (hbase _ rfl).1
    · exact absurd rfl (hbase _ rfl).2
    · rfl

/-- A text that is read to its end is read to the same tokens in front of a separator. -/
theorem scan_append {text : String} {base : List Token} (acc : List Token) (s : List Char)
    {ts : List Token} (h : scan text acc s = .ok ts) (hbase : acc ≠ [] ∨ Settled base)
    {rest : List Char} (hrest : Separated rest) :
    ∃ tokens, ts = tokens.reverse ++ [stop] ∧ ∀ text',
      scan text' (acc ++ base) (s ++ rest) = scan text' (tokens ++ base) rest := by
  fun_induction scan text acc s with
  | case1 acc s hs =>
    cases h
    refine ⟨acc, by simp, fun text' => ?_⟩
    have hskip : (s ++ rest).dropWhile Text.isBlank = rest.dropWhile Text.isBlank :=
      List.dropWhile_append_of_pos (List.dropWhile_eq_nil_iff.mp hs)
    rw [scan_eq, hskip, ← scan_eq]
  | case2 => cases h
  | case3 acc s c tail hs t after hnext ih =>
    obtain ⟨tokens, hts, hread⟩ := ih h (.inl (push_ne_nil acc t))
    refine ⟨tokens, hts, fun text' => ?_⟩
    obtain ⟨hblank, hsplit⟩ := split_of_dropWhile hs
    have hskip : (s ++ rest).dropWhile Text.isBlank = c :: (tail ++ rest) := by
      rw [hsplit, List.append_assoc, List.cons_append,
        List.dropWhile_append_of_pos fun d hd => List.mem_takeWhile_imp hd]
      exact List.dropWhile_cons_of_neg (by simp [hblank])
    rw [scan_eq, hskip]
    dsimp only
    rw [next?_append hrest hnext]
    dsimp only
    rw [push_append hbase]
    exact hread text'

/-- A text that can be read, in front of a separator and after tokens that nothing joins. -/
theorem scan_tokenized {text : String} {tokens base : List Token} {rest : List Char}
    (h : tokenize text = .ok (tokens ++ [stop])) (hbase : Settled base) (hrest : Separated rest)
    (text' : String) :
    scan text' base (text.toList ++ rest) = scan text' (tokens.reverse ++ base) rest := by
  obtain ⟨tokens', hts, hread⟩ := scan_append [] text.toList h (.inr hbase) hrest
  obtain rfl : tokens = tokens'.reverse := List.append_cancel_right hts
  rw [List.reverse_reverse]
  exact hread text'

end FilterLang.Token
