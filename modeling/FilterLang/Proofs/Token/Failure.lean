import FilterLang.Proofs.Token.Scanning
/-!
Where reading a text fails, and what was read before that.

Every kind of token is read with an eye on the characters after it, so it has to be shown that
a text can be cut behind a token without changing the token. A reader takes a token off a text
*cleanly* when it takes the same token off whatever part of the rest is kept (`Cleanly`): cutting
the rest only takes characters away that the reader looked at and left. All readers do
(`next?_cleanly`), and so the text before a failure is read to its end, with the tokens that
the failure reports (`scan_eq_error`).
-/

namespace FilterLang.Token

/-- A reader takes a token off a text, and takes the same one off when the rest is cut short. -/
def Cleanly (read : List Char → Option (Token × List Char)) (s : List Char) (t : Token)
    (after : List Char) : Prop :=
  ∃ source, s = source ++ after ∧ ∀ kept, kept <+: after → read (source ++ kept) = some (t, kept)

/-! ## The readers -/

/-- A text splits where a run of characters of a class ends. -/
theorem split_of_dropWhile {p : Char → Bool} {s rest : List Char} {c : Char}
    (h : s.dropWhile p = c :: rest) : p c = false ∧ s = s.takeWhile p ++ c :: rest := by
  refine ⟨?_, ?_⟩
  · have hhead := List.head?_dropWhile_not p s
    rw [h] at hhead
    simpa using hhead
  · rw [← h, List.takeWhile_append_dropWhile]

/-- A text begins with a run of characters of a class, which may be empty. -/
theorem exists_span (p : Char → Bool) (s : List Char) :
    ∃ run rest, s = run ++ rest ∧ (∀ c ∈ run, p c = true) ∧ ∀ c ∈ rest.head?, p c = false := by
  refine ⟨s.takeWhile p, s.dropWhile p, List.takeWhile_append_dropWhile.symm,
    fun c hc => List.mem_takeWhile_imp hc, fun c hc => ?_⟩
  obtain ⟨rest, hrest⟩ := List.head?_eq_some_iff.mp hc
  exact (split_of_dropWhile hrest).1

/-- A run of characters of a class ends where it ended when what follows it is cut short. -/
theorem span_of_prefix {p : Char → Bool} {s kept : List Char} (h : kept <+: s.dropWhile p) :
    (s.takeWhile p ++ kept).takeWhile p = s.takeWhile p ∧
      (s.takeWhile p ++ kept).dropWhile p = kept := by
  have hall : ∀ c ∈ s.takeWhile p, p c = true := fun c hc => List.mem_takeWhile_imp hc
  have hkept : kept.takeWhile p = [] ∧ kept.dropWhile p = kept := by
    cases kept with
    | nil => exact ⟨rfl, rfl⟩
    | cons d kept =>
      obtain ⟨cut, hcut⟩ := h
      have hd : ¬ p d = true := by
        simp [(split_of_dropWhile hcut.symm).1]
      exact ⟨List.takeWhile_cons_of_neg hd, List.dropWhile_cons_of_neg hd⟩
  rw [List.takeWhile_append_of_pos hall, List.dropWhile_append_of_pos hall, hkept.1, hkept.2,
    List.append_nil]
  exact ⟨rfl, rfl⟩

/-- A number without a point, and what is left after its suffix. -/
theorem readNumber_whole {whole rest : List Char} (hwhole : ∀ c ∈ whole, c.isDigit = true)
    (hrest : ∀ c ∈ rest.head?, c.isDigit = false ∧ c ≠ '.') :
    readNumber (whole ++ rest) =
      (.number (String.ofList whole) (digitsNumber whole []),
        if rest.head? = some 'l' ∨ rest.head? = some 'L' then rest.tail else rest) := by
  cases rest with
  | nil =>
    rw [readNumber, List.takeWhile_append_of_pos hwhole, List.dropWhile_append_of_pos hwhole]
    simp
  | cons c rest =>
    obtain ⟨hdigit, hpoint⟩ := hrest c rfl
    have htake : (c :: rest).takeWhile Char.isDigit = [] :=
      List.takeWhile_cons_of_neg (by simp [hdigit])
    have hdrop : (c :: rest).dropWhile Char.isDigit = c :: rest :=
      List.dropWhile_cons_of_neg (by simp [hdigit])
    rw [readNumber, List.takeWhile_append_of_pos hwhole, List.dropWhile_append_of_pos hwhole, htake,
      hdrop, List.append_nil]
    split
    · rename_i heq
      cases heq
      exact absurd rfl hpoint
    · rename_i d rest' _ heq
      cases heq
      simp
    · rename_i heq
      cases heq

theorem readNumber_cleanly (s : List Char) :
    Cleanly (fun s => some (readNumber s)) s (readNumber s).1 (readNumber s).2 := by
  obtain ⟨whole, rest, rfl, hwhole, hhead⟩ := exists_span Char.isDigit s
  by_cases hpoint : rest.head? = some '.'
  · obtain ⟨rest, rfl⟩ := List.head?_eq_some_iff.mp hpoint
    rw [readNumber_point hwhole]
    refine ⟨whole ++ '.' :: rest.takeWhile Char.isDigit, ?_, fun kept hkept => ?_⟩
    · rw [List.append_assoc, List.cons_append, List.takeWhile_append_dropWhile]
    · obtain ⟨htake, hdrop⟩ := span_of_prefix hkept
      dsimp only
      rw [List.append_assoc, List.cons_append, readNumber_point hwhole, htake, hdrop]
  · have hrest : ∀ c ∈ rest.head?, c.isDigit = false ∧ c ≠ '.' := by
      intro c hc
      refine ⟨hhead c hc, ?_⟩
      rintro rfl
      exact hpoint hc
    rw [readNumber_whole hwhole hrest]
    by_cases hsuffix : rest.head? = some 'l' ∨ rest.head? = some 'L'
    · -- the suffix belongs to the number
      rw [if_pos hsuffix]
      obtain ⟨c, rest, rfl⟩ : ∃ c tail, rest = c :: tail := by
        cases rest with
        | nil => simp at hsuffix
        | cons c tail => exact ⟨c, tail, rfl⟩
      refine ⟨whole ++ [c], by simp, fun kept hkept => ?_⟩
      dsimp only
      have hkeptRest : ∀ d ∈ (c :: kept).head?, d.isDigit = false ∧ d ≠ '.' := by
        simpa using hrest
      rw [List.append_assoc, List.singleton_append, readNumber_whole hwhole hkeptRest]
      rw [if_pos (by simpa using hsuffix)]
      rfl
    · rw [if_neg hsuffix]
      refine ⟨whole, rfl, fun kept hkept => ?_⟩
      have hkeptHead : ∀ c ∈ kept.head?, c ∈ rest.head? := by
        obtain ⟨cut, rfl⟩ := hkept
        intro c hc
        obtain ⟨kept, rfl⟩ := List.head?_eq_some_iff.mp hc
        rfl
      dsimp only
      rw [readNumber_whole hwhole fun c hc => hrest c (hkeptHead c hc), if_neg]
      rintro (hl | hl)
      · exact hsuffix (.inl (hkeptHead _ hl))
      · exact hsuffix (.inr (hkeptHead _ hl))

/-- A string is read up to the quote that ends it, whatever comes after. -/
theorem readString?_cleanly {mark : Option Char} {quote : Char} {s after : List Char} {t : Token}
    (h : readString? mark quote s = some (t, after)) :
    Cleanly (readString? mark quote) s t after := by
  unfold readString? at h
  split at h
  · cases h
  · rename_i d rest hrest
    cases h
    obtain ⟨hd, hsplit⟩ := split_of_dropWhile hrest
    obtain rfl : d = quote := by simpa using hd
    have hall : ∀ c ∈ s.takeWhile (· != d), (c != d) = true := by
      intro c hc
      simpa using List.mem_takeWhile_imp hc
    refine ⟨s.takeWhile (· != d) ++ [d], ?_, fun kept _ => ?_⟩
    · rw [List.append_assoc, List.singleton_append]
      exact hsplit
    · have htake : (d :: kept).takeWhile (· != d) = [] := List.takeWhile_cons_of_neg (by simp)
      have hdrop : (d :: kept).dropWhile (· != d) = d :: kept :=
        List.dropWhile_cons_of_neg (by simp)
      rw [List.append_assoc, List.singleton_append, readString?,
        List.dropWhile_append_of_pos hall, List.takeWhile_append_of_pos hall, htake, hdrop,
        List.append_nil]

/-- The first hit of a search stays the first when other things cease to be hits. -/
theorem find?_of_imp {α : Type} {p q : α → Bool} {a : α} {l : List α} (h : l.find? p = some a)
    (hq : q a = true) (himp : ∀ b ∈ l, q b = true → p b = true) : l.find? q = some a := by
  obtain ⟨_, before, after, rfl, hbefore⟩ := List.find?_eq_some_iff_append.mp h
  refine List.find?_eq_some_iff_append.mpr ⟨hq, before, after, rfl, fun b hb => ?_⟩
  have hp := hbefore b hb
  cases hqb : q b with
  | false => rfl
  | true =>
    rw [himp b (by simp [hb]) hqb] at hp
    cases hp

/-- No longer spelling fits a text that is cut short. -/
theorem readOperator?_cleanly {s after : List Char} {t : Token}
    (h : readOperator? s = some (t, after)) : Cleanly readOperator? s t after := by
  unfold readOperator? at h
  split at h
  · cases h
  · rename_i p hp
    split at h
    · cases h
    · rename_i sym hsym
      cases h
      obtain ⟨rest, rfl⟩ : p.toList <+: s :=
        List.isPrefixOf_iff_prefix.mp (by simpa using List.find?_some hp)
      rw [← String.length_toList, List.drop_left]
      refine ⟨p.toList, rfl, fun kept hkept => ?_⟩
      have hfind : (spellings.find? fun q => q.toList.isPrefixOf (p.toList ++ kept)) = some p := by
        refine find?_of_imp hp ?_ fun b _ hb => ?_
        · exact List.isPrefixOf_iff_prefix.mpr (List.prefix_append _ _)
        · have hshort := List.isPrefixOf_iff_prefix.mp hb
          have hlong : p.toList ++ kept <+: p.toList ++ rest := by
            rwa [List.prefix_append_right_inj]
          exact List.isPrefixOf_iff_prefix.mpr (hshort.trans hlong)
      rw [readOperator?, hfind]
      dsimp only
      rw [hsym, ← String.length_toList, List.drop_left]

theorem startsDigit_of_prefix {s s' : List Char} (h : s <+: s') (hs : startsDigit s = true) :
    startsDigit s' = true := by
  obtain ⟨cut, rfl⟩ := h
  cases s with
  | nil => cases hs
  | cons c s => exact hs

theorem startsQuoted_of_prefix {s s' : List Char} (h : s <+: s') (hs : startsQuoted s = true) :
    startsQuoted s' = true := by
  obtain ⟨cut, rfl⟩ := h
  cases s with
  | nil => cases hs
  | cons c s => exact hs

/-! ## One token -/

/-- A digit starts a number. -/
theorem next?_number_cleanly {c : Char} {rest after : List Char} {t : Token}
    (hc : c.isDigit = true) (h : readNumber (c :: rest) = (t, after)) :
    Cleanly (next? c) rest t after := by
  have hread := readNumber_cleanly (c :: rest)
  rw [h] at hread
  obtain ⟨source, hsource, hread⟩ := hread
  cases source with
  | nil =>
    have hshorter : (readNumber (c :: rest)).2.length < (c :: rest).length :=
      readNumber_shorter (.inl hc)
    rw [h] at hshorter
    rw [List.nil_append] at hsource
    rw [← hsource] at hshorter
    simp at hshorter
  | cons d used =>
    obtain ⟨rfl, hrest⟩ := List.cons.inj hsource
    exact ⟨used, hrest, fun kept hkept => (next?_digit hc _).trans (hread kept hkept)⟩

/-- A point starts a number when a digit follows it. -/
theorem next?_point_cleanly {rest after : List Char} {t : Token} (hrest : startsDigit rest = true)
    (h : readNumber ('.' :: rest) = (t, after)) : Cleanly (next? '.') rest t after := by
  have hnone : ∀ c ∈ ([] : List Char), c.isDigit = true := by simp
  have hpoint : ∀ s, readNumber ('.' :: s) = _ := readNumber_point hnone
  obtain ⟨d, rest, rfl⟩ : ∃ d tail, rest = d :: tail := by
    cases rest with
    | nil => cases hrest
    | cons d tail => exact ⟨d, tail, rfl⟩
  rw [hpoint] at h
  cases h
  refine ⟨(d :: rest).takeWhile Char.isDigit, List.takeWhile_append_dropWhile.symm,
    fun kept hkept => ?_⟩
  obtain ⟨htake, hdrop⟩ := span_of_prefix hkept
  have hd : d.isDigit = true := hrest
  have hstarts : startsDigit ((d :: rest).takeWhile Char.isDigit ++ kept) = true := by
    rw [List.takeWhile_cons_of_pos hd]
    exact hd
  rw [next?.eq_def, if_pos (by simp [hstarts]), hpoint, htake, hdrop]

/-- A token is read off a text as it is when the text after it is cut short. -/
theorem next?_cleanly {c : Char} {rest after : List Char} {t : Token}
    (h : next? c rest = some (t, after)) : Cleanly (next? c) rest t after := by
  unfold next? at h
  split at h
  · rename_i hnumber
    have hread : readNumber (c :: rest) = (t, after) := Option.some.inj h
    by_cases hc : c.isDigit = true
    · exact next?_number_cleanly hc hread
    · simp only [hc, Bool.false_or, Bool.and_eq_true, beq_iff_eq] at hnumber
      obtain ⟨rfl, hrest⟩ := hnumber
      exact next?_point_cleanly hrest hread
  -- what the text does not start with, no part of its front does
  rename_i hnumber
  have notNumber : ∀ s, s <+: rest → ¬ (c.isDigit || (c == '.' && startsDigit s)) = true := by
    intro s hs hstarts
    simp only [Bool.or_eq_true, Bool.and_eq_true] at hstarts hnumber
    exact hnumber (hstarts.imp_right fun hpoint => ⟨hpoint.1, startsDigit_of_prefix hs hpoint.2⟩)
  split at h
  · rename_i hmarked
    split at h
    · rename_i quote body
      obtain ⟨source, rfl, hread⟩ := readString?_cleanly h
      refine ⟨quote :: source, rfl, fun kept hkept => ?_⟩
      have hfront : quote :: source ++ kept <+: quote :: (source ++ after) :=
        (List.prefix_append_right_inj (quote :: source)).mpr hkept
      have hquoted : ((c == 'u' || c == 'U') && startsQuoted (quote :: source ++ kept)) = true :=
        hmarked
      rw [next?.eq_def, if_neg (notNumber _ hfront), if_pos hquoted]
      exact hread kept hkept
    · cases h
  rename_i hmarked
  have notMarked : ∀ s, s <+: rest → ¬ ((c == 'u' || c == 'U') && startsQuoted s) = true := by
    intro s hs hstarts
    simp only [Bool.and_eq_true] at hstarts hmarked
    exact hmarked ⟨hstarts.1, startsQuoted_of_prefix hs hstarts.2⟩
  have hfront : ∀ {source kept : List Char}, rest = source ++ after → kept <+: after →
      source ++ kept <+: rest := by
    rintro source kept rfl hkept
    exact (List.prefix_append_right_inj source).mpr hkept
  split at h
  · rename_i hquote
    obtain ⟨source, hsource, hread⟩ := readString?_cleanly h
    refine ⟨source, hsource, fun kept hkept => ?_⟩
    rw [next?.eq_def, if_neg (notNumber _ (hfront hsource hkept)),
      if_neg (notMarked _ (hfront hsource hkept)), if_pos hquote]
    exact hread kept hkept
  · rename_i hquote
    split at h
    · rename_i hword
      cases h
      refine ⟨rest.takeWhile isWordChar, List.takeWhile_append_dropWhile.symm,
        fun kept hkept => ?_⟩
      have hcut := hfront List.takeWhile_append_dropWhile.symm hkept
      obtain ⟨htake, hdrop⟩ := span_of_prefix hkept
      rw [next?.eq_def, if_neg (notNumber _ hcut), if_neg (notMarked _ hcut), if_neg hquote,
        if_pos hword, htake, hdrop]
    · rename_i hword
      obtain ⟨source, hsource, hread⟩ := readOperator?_cleanly h
      cases source with
      | nil =>
        have hshorter := readOperator?_shorter (by simp) h
        rw [hsource] at hshorter
        simp at hshorter
      | cons d source =>
        obtain ⟨rfl, hrest⟩ := List.cons.inj hsource
        refine ⟨source, hrest, fun kept hkept => ?_⟩
        have hcut := hfront hrest hkept
        rw [next?.eq_def, if_neg (notNumber _ hcut), if_neg (notMarked _ hcut), if_neg hquote,
          if_neg hword]
        exact hread kept hkept

/-! ## Whole texts -/

/-- Reading fails at a character that is not blank and starts no token. The text before it is
read to its end, and what the failure reports are the tokens of that text. -/
theorem scan_eq_error {text : String} (acc : List Token) (s : List Char) {e : TokenizeError}
    (h : scan text acc s = .error e) :
    ∃ (done : List Char) (c : Char) (rest : List Char) (tokens : List Token),
      s = done ++ c :: rest ∧ Text.isBlank c = false ∧ next? c rest = none ∧
      e = { text, index := text.length - (rest.length + 1)
            consumed := tokens.reverse.map display } ∧
      ∀ text', scan text' acc done = .ok (tokens.reverse ++ [stop]) := by
  have hskip : ∀ (s rest : List Char), (s.takeWhile Text.isBlank ++ rest).dropWhile Text.isBlank =
      rest.dropWhile Text.isBlank := fun s rest =>
    List.dropWhile_append_of_pos fun c hc => List.mem_takeWhile_imp hc
  fun_induction scan text acc s with
  | case1 => cases h
  | case2 acc s c rest hs hnext =>
    cases h
    obtain ⟨hblank, hsplit⟩ := split_of_dropWhile hs
    refine ⟨s.takeWhile Text.isBlank, c, rest, acc, hsplit, hblank, hnext, rfl, ?_⟩
    intro text'
    have hdone := hskip s []
    rw [List.append_nil] at hdone
    rw [scan_eq, hdone]
    simp
  | case3 acc s c rest hs t after hnext ih =>
    obtain ⟨done, d, later, tokens, hafter, hd, hfail, he, hread⟩ := ih h
    obtain ⟨source, hrest, hclean⟩ := next?_cleanly hnext
    obtain ⟨hblank, hsplit⟩ := split_of_dropWhile hs
    refine ⟨s.takeWhile Text.isBlank ++ c :: (source ++ done), d, later, tokens, ?_, hd, hfail, he,
      fun text' => ?_⟩
    · rw [List.append_assoc, List.cons_append, List.append_assoc, ← hafter, ← hrest]
      exact hsplit
    · have hhead : (c :: (source ++ done)).dropWhile Text.isBlank = c :: (source ++ done) :=
        List.dropWhile_cons_of_neg (by simp [hblank])
      have hcut : next? c (source ++ done) = some (t, done) :=
        hclean done (hafter ▸ List.prefix_append _ _)
      rw [scan_eq, hskip, hhead]
      dsimp only
      rw [hcut]
      exact hread text'

/-- A failure is exact. Its index is that of a character of the text that is not blank and with
which no token starts; the text before that character is read to its end, and the tokens that the
failure reports are the tokens of that text. -/
theorem tokenize_fails_exactly {text : String} {e : TokenizeError}
    (h : tokenize text = .error e) :
    e.text = text ∧ e.index < text.length ∧
      (∃ c rest, text.toList.drop e.index = c :: rest ∧ Text.isBlank c = false ∧
        next? c rest = none) ∧
      ∃ tokens, tokenize (String.ofList (text.toList.take e.index)) = .ok (tokens ++ [stop]) ∧
        e.consumed = tokens.map display := by
  obtain ⟨done, c, rest, tokens, htext, hblank, hnext, rfl, hread⟩ :=
    scan_eq_error [] text.toList h
  have hindex : text.length - (rest.length + 1) = done.length := by
    rw [← String.length_toList, htext]
    simp
  dsimp only
  rw [hindex]
  refine ⟨rfl, ?_, ⟨c, rest, ?_, hblank, hnext⟩, tokens.reverse, ?_, rfl⟩
  · rw [← String.length_toList, htext]
    simp
  · rw [htext, List.drop_left]
  · rw [tokenize, htext, List.take_left, String.toList_ofList]
    exact hread _

/-- A text with a string that is not closed, right after two words that are joined and a point. -/
def unclosedText : String := "a not\tin .u'b"

theorem tokenize_fails_exactly_unclosedText :
    tokenize unclosedText = .error ⟨unclosedText, 10, ["(name a)", "not in", "."]⟩ ∧
      ∃ tokens, tokenize "a not\tin ." = .ok (tokens ++ [stop]) ∧
        tokens.map display = ["(name a)", "not in", "."] := by
  have hread : tokenize unclosedText =
      .error ⟨unclosedText, 10, ["(name a)", "not in", "."]⟩ := by
    with_unfolding_all rfl
  obtain ⟨_, _, _, tokens, hbefore, hconsumed⟩ := tokenize_fails_exactly hread
  exact ⟨hread, tokens, hbefore, hconsumed.symm⟩

end FilterLang.Token
