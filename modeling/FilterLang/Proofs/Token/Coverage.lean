import FilterLang.Proofs.Token.Scanning
/-!
Every character of a text that can be read is accounted for.

The tokens of a text cover it: it is their sources, one after the other, with nothing but
blanks before, between and after them (`Covers`). The source of a token is its
lexeme, but for two kinds of tokens: a whole number can have a suffix, and two words with
blanks between them can make one symbol. `scan` looks back for the latter, so what it has
read so far is described from its end (`Reached`), where the last word can still be
extended (`Reached.join`). Each round of `scan` moves that description over one more token
(`Progress.step`), and at the end of the text it is read from the front (`Reached.covers`).
-/

namespace FilterLang.Token

/-! ## Sources and coverings -/

/-- Two words that make one symbol. -/
inductive Joins : Symbol → Symbol → Symbol → Prop
  | notIn : Joins .kwNot .kwIn .kwNotIn
  | isNot : Joins .kwIs .kwNot .kwIsNot

/-- The pieces of text that a token can stand for. -/
inductive Source : Token → List Char → Prop
  /-- Every token can stand for its lexeme. -/
  | lexeme (t : Token) : Source t t.lexeme.toList
  /-- A number without a point may be marked as a long one. -/
  | long {digits : String} {value : Float} {suffix : Char} (hpoint : '.' ∉ digits.toList)
      (hsuffix : suffix = 'l' ∨ suffix = 'L') :
      Source (.number digits value) (digits.toList ++ [suffix])
  /-- Two words may stand apart from each other. -/
  | joined {first second s : Symbol} {gap : List Char} (hjoin : Joins first second s)
      (hgap : gap ≠ []) (hblank : ∀ c ∈ gap, Text.isBlank c = true) :
      Source (.symbol s) (first.text.toList ++ gap ++ second.text.toList)

/-- A text that is the sources of tokens in order, with nothing but blanks around them. -/
inductive Covers : List Token → List Char → Prop
  | stop {blanks : List Char} (hblank : ∀ c ∈ blanks, Text.isBlank c = true) : Covers [] blanks
  | next {t : Token} {ts : List Token} {blanks source rest : List Char}
      (hblank : ∀ c ∈ blanks, Text.isBlank c = true) (hsource : Source t source)
      (hrest : Covers ts rest) : Covers (t :: ts) (blanks ++ source ++ rest)

/-- Tokens that do not make one symbol when they stand side by side. -/
def Apart (a b : Token) : Prop :=
  ∀ first second s, Joins first second s → ¬ (a = .symbol first ∧ b = .symbol second)

theorem source_word {first second s : Symbol} (h : Joins first second s) {source : List Char}
    (hsource : Source (.symbol first) source) : source = first.text.toList := by
  cases hsource with
  | lexeme => cases h <;> rfl
  | joined hjoin => cases h <;> cases hjoin

/-! ## One token -/

/-- A token was read off the front of a text: its source stands there. If it is one of the
words that symbols are joined from, its source is that word and no more of it follows. -/
structure Taken (s : List Char) (t : Token) (after : List Char) : Prop where
  source : ∃ source, Source t source ∧ s = source ++ after
  notStop : t.kind ≠ .stop
  word : ∀ k ∈ Symbol.keywords, t = .symbol k →
    s = k.text.toList ++ after ∧ ∀ c ∈ after.head?, isWordChar c = false

theorem taken_readNumber (s : List Char) :
    Taken s (readNumber s).1 (readNumber s).2 := by
  have hsplit : s.takeWhile Char.isDigit ++ s.dropWhile Char.isDigit = s :=
    List.takeWhile_append_dropWhile
  have hpoint : '.' ∉ (String.ofList (s.takeWhile Char.isDigit)).toList := by
    intro hmem
    rw [String.toList_ofList] at hmem
    exact absurd (List.mem_takeWhile_imp hmem) (by decide)
  unfold readNumber
  split
  · rename_i rest hrest
    refine ⟨⟨_, .lexeme _, ?_⟩, by simp [kind], by simp⟩
    have hfraction : rest.takeWhile Char.isDigit ++ rest.dropWhile Char.isDigit = rest :=
      List.takeWhile_append_dropWhile
    rw [hrest] at hsplit
    simp only [lexeme, String.toList_ofList, List.append_assoc, List.cons_append, hfraction]
    exact hsplit.symm
  · rename_i c rest _ hrest
    rw [hrest] at hsplit
    refine ⟨?_, by simp [kind], by simp⟩
    by_cases hsuffix : c = 'l' ∨ c = 'L'
    · refine ⟨_, .long hpoint hsuffix, ?_⟩
      rw [if_pos hsuffix, String.toList_ofList, List.append_assoc]
      exact hsplit.symm
    · refine ⟨_, .lexeme _, ?_⟩
      rw [if_neg hsuffix]
      simp only [lexeme, String.toList_ofList]
      exact hsplit.symm
  · rename_i hrest
    rw [hrest] at hsplit
    refine ⟨⟨_, .lexeme _, ?_⟩, by simp [kind], by simp⟩
    simp only [lexeme, String.toList_ofList]
    exact hsplit.symm

/-- A string is its lexeme. -/
theorem readString?_lexeme {mark : Option Char} {quote : Char} {s after : List Char} {t : Token}
    (h : readString? mark quote s = some (t, after)) :
    mark.toList ++ quote :: s = t.lexeme.toList ++ after := by
  have hsplit : s.takeWhile (· != quote) ++ s.dropWhile (· != quote) = s :=
    List.takeWhile_append_dropWhile
  unfold readString? at h
  split at h
  · cases h
  · rename_i d rest hrest
    cases h
    -- the text stops at the quote that ends it
    have hd : d = quote := by
      have := List.head?_dropWhile_not (· != quote) s
      rw [hrest] at this
      simpa using this
    subst hd
    rw [hrest] at hsplit
    simp only [lexeme, String.toList_ofList, List.append_assoc, List.cons_append, List.nil_append,
      hsplit]

theorem taken_readString {mark : Option Char} {quote : Char} {s after : List Char} {t : Token}
    (h : readString? mark quote s = some (t, after)) :
    Taken (mark.toList ++ quote :: s) t after := by
  refine ⟨⟨_, .lexeme _, readString?_lexeme h⟩, ?_, ?_⟩
  all_goals
    unfold readString? at h
    split at h
    · cases h
    · cases h
      simp [kind]

theorem lexeme_ofWord (word : String) : (ofWord word).lexeme = word := by
  unfold ofWord
  split
  · rename_i s hs
    have htext : s.text = word := by simpa using List.find?_some hs
    have hmem : s ∈ Symbol.keywords := List.mem_of_find?_eq_some hs
    have hlexeme : ∀ k ∈ Symbol.keywords, (symbol k).lexeme = k.text := by decide
    rw [hlexeme s hmem, htext]
  · rfl

/-- A word is its lexeme. -/
theorem word_lexeme (c : Char) (rest : List Char) :
    c :: rest = (ofWord (String.ofList (c :: rest.takeWhile isWordChar))).lexeme.toList ++
      rest.dropWhile isWordChar := by
  rw [lexeme_ofWord, String.toList_ofList, List.cons_append, List.takeWhile_append_dropWhile]

theorem taken_word (c : Char) (rest : List Char) :
    Taken (c :: rest) (ofWord (String.ofList (c :: rest.takeWhile isWordChar)))
      (rest.dropWhile isWordChar) := by
  have hsource := word_lexeme c rest
  refine ⟨⟨_, .lexeme _, hsource⟩, ?_, ?_⟩
  · unfold ofWord
    split
    · rename_i s hs
      have hmem : s ∈ Symbol.keywords := List.mem_of_find?_eq_some hs
      show s ≠ .stop
      rintro rfl
      exact absurd hmem (by decide)
    · simp [kind]
  · intro k hk hword
    have hlexeme : ∀ k ∈ Symbol.keywords, (symbol k).lexeme = k.text := by decide
    rw [hword, hlexeme k hk] at hsource
    refine ⟨hsource, ?_⟩
    intro d hd
    have := List.head?_dropWhile_not isWordChar rest
    rw [Option.mem_def.mp hd] at this
    simpa using this

/-- Punctuation is a symbol of the grammar, and it is its lexeme. -/
theorem readOperator?_lexeme {s after : List Char} {t : Token}
    (h : readOperator? s = some (t, after)) :
    s = t.lexeme.toList ++ after ∧ ∃ sym ∈ Symbol.operators, t = .symbol sym := by
  unfold readOperator? at h
  split at h
  · cases h
  · rename_i p hp
    split at h
    · cases h
    · rename_i sym hsym
      cases h
      have htext : sym.text = p := by simpa using List.find?_some hsym
      have hmem : sym ∈ Symbol.operators := List.mem_of_find?_eq_some hsym
      have hstarts : p.toList <+: s := by
        apply List.isPrefixOf_iff_prefix.mp
        simpa using List.find?_some hp
      have hlexeme : ∀ k ∈ Symbol.operators, (symbol k).lexeme = k.text := by decide
      refine ⟨?_, sym, hmem, rfl⟩
      obtain ⟨rest, rfl⟩ := hstarts
      rw [hlexeme sym hmem, htext, ← String.length_toList, List.drop_left]

theorem taken_readOperator {s after : List Char} {t : Token}
    (h : readOperator? s = some (t, after)) : Taken s t after := by
  obtain ⟨hsource, sym, hmem, rfl⟩ := readOperator?_lexeme h
  have hspelled : ∀ k ∈ Symbol.operators, k ≠ .stop ∧ k ∉ Symbol.keywords := by decide
  obtain ⟨hstop, hword⟩ := hspelled sym hmem
  refine ⟨⟨_, .lexeme _, hsource⟩, hstop, ?_⟩
  intro k hk heq
  cases heq
  exact absurd hk hword

theorem taken_next {c : Char} {rest after : List Char} {t : Token}
    (h : next? c rest = some (t, after)) : Taken (c :: rest) t after := by
  unfold next? at h
  split at h
  · have hread : (readNumber (c :: rest)) = (t, after) := Option.some.inj h
    have htaken := taken_readNumber (c :: rest)
    rw [hread] at htaken
    exact htaken
  · split at h
    · split at h
      · exact taken_readString h
      · cases h
    · split at h
      · exact taken_readString h
      · split at h
        · cases h
          exact taken_word c rest
        · exact taken_readOperator h

/-! ## The tokens read so far -/

/-- A text up to the end of its last token; the tokens stand the last one first. -/
inductive Reached : List Token → List Char → Prop
  | start : Reached [] []
  | token {t : Token} {acc : List Token} {done blanks source : List Char}
      (hdone : Reached acc done) (hblank : ∀ c ∈ blanks, Text.isBlank c = true)
      (hsource : Source t source) : Reached (t :: acc) (done ++ (blanks ++ source))

/-- What was reached from the start covers the text together with what covers the rest. -/
theorem Reached.covers {acc : List Token} {done : List Char} (h : Reached acc done)
    {ts : List Token} {rest : List Char} (hrest : Covers ts rest) :
    Covers (acc.reverse ++ ts) (done ++ rest) := by
  induction h generalizing ts rest with
  | start => exact hrest
  | @token t acc done blanks source _ hblank hsource ih =>
    have hnext := ih (.next hblank hsource hrest)
    rw [List.reverse_cons, List.append_assoc, List.append_assoc]
    exact hnext

/-- The last word and the one after it are the source of the symbol that they make. -/
theorem Reached.join {first second s : Symbol} (hjoin : Joins first second s)
    {acc : List Token} {done gap : List Char} (h : Reached (.symbol first :: acc) done)
    (hgap : gap ≠ []) (hblank : ∀ c ∈ gap, Text.isBlank c = true) :
    Reached (.symbol s :: acc) (done ++ (gap ++ second.text.toList)) := by
  cases h with
  | @token _ _ done blanks source hdone hblanks hsource =>
    rw [source_word hjoin hsource]
    have hboth := Reached.token hdone hblanks (Source.joined hjoin hgap hblank)
    simpa only [List.append_assoc] using hboth

/-- How `scan` stands: what it has read, and what it has left. -/
structure Progress (text : List Char) (acc : List Token) (s : List Char) : Prop where
  reached : ∃ done, Reached acc done ∧ text = done ++ s
  notStop : ∀ t ∈ acc, t.kind ≠ .stop
  apart : acc.IsChain fun later earlier => Apart earlier later
  /-- No more of a word follows it. -/
  ended : ∀ k ∈ Symbol.keywords, acc.head? = some (.symbol k) → ∀ c ∈ s.head?, isWordChar c = false

theorem progress_start (text : List Char) : Progress text [] text where
  reached := ⟨[], .start, rfl⟩
  notStop := by simp
  apart := .nil
  ended := by simp

/-- A token is put on the tokens before it, or makes one symbol with the last of them. -/
theorem push_cases (acc : List Token) (t : Token) :
    (∃ first second s before, Joins first second s ∧ acc = .symbol first :: before ∧
      t = .symbol second ∧ push acc t = .symbol s :: before) ∨
    (push acc t = t :: acc ∧ ∀ prev ∈ acc.head?, Apart prev t) := by
  rw [push.eq_def]
  split
  · rename_i before
    exact .inl ⟨_, _, _, before, .notIn, rfl, rfl, rfl⟩
  · rename_i before
    exact .inl ⟨_, _, _, before, .isNot, rfl, rfl, rfl⟩
  · rename_i hin hnot
    refine .inr ⟨rfl, ?_⟩
    rintro prev hprev first second s hjoin ⟨rfl, rfl⟩
    obtain ⟨before, rfl⟩ := List.head?_eq_some_iff.mp hprev
    cases hjoin with
    | notIn => exact hin before rfl rfl
    | isNot => exact hnot before rfl rfl

/-- What two words make is not the second word of anything. -/
theorem apart_joined {first second s : Symbol} (h : Joins first second s) (t : Token) :
    Apart t (.symbol s) := by
  rintro a b r hjoin ⟨_, hb⟩
  cases h <;> cases hjoin <;> cases hb

theorem Joins.keywords {first second s : Symbol} (h : Joins first second s) :
    first ∈ Symbol.keywords ∧ second ∈ Symbol.keywords := by
  cases h <;> decide

theorem Joins.startsWord {first second s : Symbol} (h : Joins first second s) {c : Char}
    {after rest : List Char} (hword : c :: rest = second.text.toList ++ after) :
    isWordChar c = true := by
  cases h <;> cases hword <;> rfl

/-- One more token is read. -/
theorem Progress.step {text : List Char} {acc : List Token} {s : List Char}
    (h : Progress text acc s) {c : Char} {rest after : List Char} {t : Token}
    (hs : s.dropWhile Text.isBlank = c :: rest) (hnext : next? c rest = some (t, after)) :
    Progress text (push acc t) after := by
  have htaken := taken_next hnext
  obtain ⟨done, hdone, htext⟩ := h.reached
  obtain ⟨gap, hblank, hgap⟩ :
      ∃ gap, (∀ d ∈ gap, Text.isBlank d = true) ∧ s = gap ++ c :: rest := by
    refine ⟨s.takeWhile Text.isBlank, fun d hd => List.mem_takeWhile_imp hd, ?_⟩
    rw [← hs, List.takeWhile_append_dropWhile]
  rcases push_cases acc t with
    ⟨first, second, sym, before, hjoin, rfl, rfl, hpush⟩ | ⟨hpush, hapart⟩
  · -- the word before is taken back, and the blanks after it with it
    obtain ⟨hfirst, hsecond⟩ := hjoin.keywords
    obtain ⟨hword, hafter⟩ := htaken.word second hsecond rfl
    have hne : gap ≠ [] := by
      rintro rfl
      have hend := h.ended first hfirst rfl c (by rw [hgap]; rfl)
      rw [hjoin.startsWord hword] at hend
      cases hend
    have hbefore := h.apart
    rw [List.isChain_cons] at hbefore
    rw [hpush]
    refine ⟨⟨_, hdone.join hjoin hne hblank, ?_⟩, ?_, ?_, ?_⟩
    · rw [htext, hgap, hword]
      simp only [List.append_assoc]
    · intro u hu
      rcases List.mem_cons.mp hu with rfl | hu
      · cases hjoin <;> decide
      · exact h.notStop u (List.mem_cons_of_mem _ hu)
    · rw [List.isChain_cons]
      exact ⟨fun u _ => apart_joined hjoin u, hbefore.2⟩
    · intro _ _ _
      exact hafter
  · obtain ⟨source, hsource, hrest⟩ := htaken.source
    rw [hpush]
    refine ⟨⟨_, hdone.token hblank hsource, ?_⟩, ?_, ?_, ?_⟩
    · rw [htext, hgap, hrest]
      simp only [List.append_assoc]
    · intro u hu
      rcases List.mem_cons.mp hu with rfl | hu
      · exact htaken.notStop
      · exact h.notStop u hu
    · rw [List.isChain_cons]
      exact ⟨fun u hu => hapart u hu, h.apart⟩
    · intro k hk hhead
      exact (htaken.word k hk (Option.some.inj hhead)).2

/-! ## Whole texts -/

/-- A text that is read to its end was covered up to there. -/
theorem scan_progress {text : String} {whole : List Char} (acc : List Token) (s : List Char)
    {ts : List Token} (h : Progress whole acc s) (hscan : scan text acc s = .ok ts) :
    ∃ tokens rest, ts = tokens.reverse ++ [stop] ∧ Progress whole tokens rest ∧
      ∀ c ∈ rest, Text.isBlank c = true := by
  fun_induction scan text acc s with
  | case1 acc s hs =>
    cases hscan
    refine ⟨acc, s, by simp, h, ?_⟩
    exact List.dropWhile_eq_nil_iff.mp hs
  | case2 => cases hscan
  | case3 acc s c rest hs t after hnext ih => exact ih (h.step hs hnext) hscan

/-- Every character of a text that can be read belongs to one token or is a blank: the tokens
before the end marker cover the text. No two words are left side by side that make one
symbol. -/
theorem tokenize_covers {text : String} {ts : List Token} (h : tokenize text = .ok ts) :
    ∃ tokens, ts = tokens ++ [stop] ∧ (∀ t ∈ tokens, t.kind ≠ .stop) ∧
      Covers tokens text.toList ∧ ts.IsChain Apart := by
  obtain ⟨tokens, rest, rfl, hprogress, hrest⟩ :=
    scan_progress [] text.toList (progress_start text.toList) h
  obtain ⟨done, hdone, htext⟩ := hprogress.reached
  have hcovers := hdone.covers (.stop hrest)
  rw [List.append_nil, ← htext] at hcovers
  have hapart : tokens.reverse.IsChain Apart := by
    rw [List.isChain_reverse]
    exact hprogress.apart
  refine ⟨tokens.reverse, rfl, fun t ht => ?_, hcovers, ?_⟩
  · exact hprogress.notStop t (List.mem_reverse.mp ht)
  · rw [List.isChain_append]
    refine ⟨hapart, .singleton _, ?_⟩
    rintro t _ u hu first second s hjoin ⟨_, rfl⟩
    cases hu
    cases hjoin

/-- A text with blanks at either end, two words that are joined, and a long number. -/
def spacedText : String := " x not \n in [3L]\t"

def spacedTokens : List Token :=
  [.name "x", .symbol .kwNotIn, .symbol .bracketOpen, .number "3" (digitsNumber ['3'] []),
    .symbol .bracketClose]

theorem tokenize_covers_spacedText :
    tokenize spacedText = .ok (spacedTokens ++ [stop]) ∧ Covers spacedTokens spacedText.toList ∧
      (spacedTokens ++ [stop]).IsChain Apart := by
  have hread : tokenize spacedText = .ok (spacedTokens ++ [stop]) := by
    with_unfolding_all rfl
  obtain ⟨tokens, htokens, _, hcovers, hapart⟩ := tokenize_covers hread
  obtain rfl : spacedTokens = tokens := List.append_cancel_right htokens
  exact ⟨hread, hcovers, hapart⟩

end FilterLang.Token
