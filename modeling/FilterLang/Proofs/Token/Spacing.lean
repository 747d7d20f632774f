import FilterLang.Proofs.Token.Coverage
import FilterLang.Proofs.Token.Extension
/-!
Tokens do not depend on the spacing of the text they are read from.

When the lexemes of the tokens of a text are written again with a blank between any two of them,
the same tokens are read. The lexeme of a token is read as that token in front of any separator
(`next?_lexeme`); this is not its source, since a long number loses its suffix. A symbol that two
words make is written as these two words, and they are joined again because the last token before
them is the one it was when they were first read. So the statement is carried along the reading of
the text: the lexemes of what has been read so far, with blanks between them, come to what has been
read so far (`Respaced`).
-/

namespace FilterLang.Token

/-! ## One lexeme -/

/-- The lexeme of a number, without its suffix, is read as that number. -/
theorem readNumber_lexeme (s : List Char) {rest : List Char} (h : Separated rest) :
    readNumber ((readNumber s).1.lexeme.toList ++ rest) = ((readNumber s).1, rest) := by
  obtain ⟨whole, tail, rfl, hwhole, hhead⟩ := exists_span Char.isDigit s
  by_cases hpoint : tail.head? = some '.'
  · obtain ⟨tail, rfl⟩ := List.head?_eq_some_iff.mp hpoint
    have hfraction : ∀ c ∈ tail.takeWhile Char.isDigit, c.isDigit = true :=
      fun c hc => List.mem_takeWhile_imp hc
    obtain ⟨htake, hdrop⟩ :=
      span_append (p := Char.isDigit) (by decide) h (tail.takeWhile Char.isDigit)
    have htake' : (tail.takeWhile Char.isDigit).takeWhile Char.isDigit =
        tail.takeWhile Char.isDigit := List.takeWhile_eq_self_iff.mpr hfraction
    have hdrop' : (tail.takeWhile Char.isDigit).dropWhile Char.isDigit = [] :=
      List.dropWhile_eq_nil_iff.mpr hfraction
    rw [readNumber_point hwhole, lexeme, String.toList_ofList, List.append_assoc,
      List.cons_append, readNumber_point hwhole, htake, hdrop, htake', hdrop', List.nil_append]
  · have htail : ∀ c ∈ tail.head?, c.isDigit = false ∧ c ≠ '.' := by
      intro c hc
      refine ⟨hhead c hc, ?_⟩
      rintro rfl
      exact hpoint hc
    have hrest : ∀ c ∈ rest.head?, c.isDigit = false ∧ c ≠ '.' := by
      intro c hc
      refine ⟨h.head (p := Char.isDigit) (by decide) c hc, ?_⟩
      simpa using h.head (p := (· == '.')) (by decide) c hc
    have hsuffix : ¬ (rest.head? = some 'l' ∨ rest.head? = some 'L') := by
      rintro (hl | hl)
      · exact absurd (h _ hl) (by decide)
      · exact absurd (h _ hl) (by decide)
    rw [readNumber_whole hwhole htail, lexeme, String.toList_ofList,
      readNumber_whole hwhole hrest, if_neg hsuffix]

/-- What a number is read from starts its lexeme. -/
theorem lexeme_readNumber {c : Char} {s : List Char}
    (h : c.isDigit = true ∨ c = '.' ∧ startsDigit s = true) :
    ∃ cs, (readNumber (c :: s)).1.lexeme.toList = c :: cs ∧
      (c.isDigit || (c == '.' && startsDigit cs)) = true := by
  rcases h with hc | ⟨rfl, hs⟩
  · have htake : (c :: s).takeWhile Char.isDigit = c :: s.takeWhile Char.isDigit :=
      List.takeWhile_cons_of_pos hc
    unfold readNumber
    rw [htake]
    split
    · exact ⟨_, String.toList_ofList, by simp [hc]⟩
    · exact ⟨_, String.toList_ofList, by simp [hc]⟩
    · exact ⟨_, String.toList_ofList, by simp [hc]⟩
  · cases s with
    | nil => cases hs
    | cons d s =>
      have hnone : ∀ c ∈ ([] : List Char), c.isDigit = true := by simp
      have hread : readNumber ('.' :: d :: s) = _ := readNumber_point hnone (d :: s)
      have hd : d.isDigit = true := hs
      refine ⟨d :: s.takeWhile Char.isDigit, ?_, by simp [startsDigit, hd]⟩
      rw [hread, lexeme, String.toList_ofList, List.takeWhile_cons_of_pos hd]
      rfl

/-- The lexeme of a token that was read is read as that token, in front of any separator. -/
theorem next?_lexeme {c : Char} {s after : List Char} {t : Token}
    (h : next? c s = some (t, after)) :
    ∃ cs, t.lexeme.toList = c :: cs ∧
      ∀ rest, Separated rest → next? c (cs ++ rest) = some (t, rest) := by
  -- all tokens but numbers are read from their lexeme, and it may be cut off behind
  have ofSource : c :: s = t.lexeme.toList ++ after →
      ∃ cs, t.lexeme.toList = c :: cs ∧
        ∀ rest, Separated rest → next? c (cs ++ rest) = some (t, rest) := by
    intro hsource
    obtain ⟨source, rfl, hclean⟩ := next?_cleanly h
    refine ⟨source, ?_, fun rest hrest => ?_⟩
    · rw [← List.cons_append] at hsource
      exact (List.append_cancel_right hsource).symm
    · have halone : next? c source = some (t, []) := by
        have := hclean [] List.nil_prefix
        rwa [List.append_nil] at this
      exact next?_append hrest halone
  have hnext := h
  unfold next? at hnext
  split at hnext
  · rename_i hnumber
    simp only [Bool.or_eq_true, Bool.and_eq_true, beq_iff_eq] at hnumber
    have hread : readNumber (c :: s) = (t, after) := Option.some.inj hnext
    obtain ⟨cs, hlexeme, hstarts⟩ := lexeme_readNumber hnumber
    have hagain : ∀ rest, Separated rest → readNumber (t.lexeme.toList ++ rest) = (t, rest) := by
      intro rest hrest
      have := readNumber_lexeme (c :: s) hrest
      rwa [hread] at this
    rw [hread] at hlexeme
    refine ⟨cs, hlexeme, fun rest hrest => ?_⟩
    rw [next?.eq_def, startsDigit_append hrest, if_pos hstarts, ← List.cons_append, ← hlexeme,
      hagain rest hrest]
  split at hnext
  · split at hnext
    · exact ofSource (readString?_lexeme hnext)
    · cases hnext
  split at hnext
  · exact ofSource (readString?_lexeme hnext)
  split at hnext
  · cases hnext
    exact ofSource (word_lexeme c s)
  · exact ofSource (readOperator?_lexeme hnext).1

/-- A lexeme is read and put on the tokens before it as the token was. -/
theorem scan_lexeme {c : Char} {s after : List Char} {t : Token} (hblank : Text.isBlank c = false)
    (h : next? c s = some (t, after)) (text : String) (acc : List Token) {rest : List Char}
    (hrest : Separated rest) :
    scan text acc (t.lexeme.toList ++ rest) = scan text (push acc t) rest := by
  obtain ⟨cs, hlexeme, hread⟩ := next?_lexeme h
  have hskip : (c :: (cs ++ rest)).dropWhile Text.isBlank = c :: (cs ++ rest) :=
    List.dropWhile_cons_of_neg (by simp [hblank])
  rw [hlexeme, List.cons_append, scan_eq, hskip]
  dsimp only
  rw [hread rest hrest]

/-! ## Lexemes with blanks between them -/

def lexemes (ts : List Token) : String :=
  " ".intercalate (ts.map lexeme)

theorem lexemes_append {ts us : List Token} (hts : ts ≠ []) (hus : us ≠ []) :
    lexemes (ts ++ us) = lexemes ts ++ " " ++ lexemes us := by
  rw [lexemes, List.map_append, String.intercalate_append_of_ne_nil (by simpa using hts)
    (by simpa using hus)]
  rfl

theorem lexemes_singleton (t : Token) : lexemes [t] = t.lexeme :=
  String.intercalate_singleton

/-- A symbol that two words make is written as the two words. -/
theorem Joins.lexeme {first second s : Symbol} (h : Joins first second s) :
    (symbol s).lexeme = (symbol first).lexeme ++ " " ++ (symbol second).lexeme := by
  cases h <;> rfl

theorem lexemes_joined {first second s : Symbol} (h : Joins first second s) (ts : List Token) :
    lexemes (ts ++ [.symbol s]) =
      lexemes (ts ++ [.symbol first]) ++ " " ++ (symbol second).lexeme := by
  cases ts with
  | nil => rw [List.nil_append, List.nil_append, lexemes_singleton, lexemes_singleton, h.lexeme]
  | cons t ts =>
    rw [lexemes_append (by simp) (by simp), lexemes_append (by simp) (by simp),
      lexemes_singleton, lexemes_singleton, h.lexeme]
    simp only [String.append_assoc]

/-! ## Reading again -/

/-- The lexemes of tokens, which stand the last one first, come to having read the tokens. -/
def Respaced (acc : List Token) : Prop :=
  ∀ text rest, Separated rest →
    scan text [] ((lexemes acc.reverse).toList ++ rest) = scan text acc rest

theorem respaced_nil : Respaced [] :=
  fun _ _ _ => rfl

/-- One more token keeps what was read before it readable, also where it is joined to it. -/
theorem Respaced.push {acc : List Token} (h : Respaced acc) {c : Char} {s after : List Char}
    {t : Token} (hblank : Text.isBlank c = false) (hnext : next? c s = some (t, after)) :
    Respaced (push acc t) := by
  intro text rest hrest
  -- what is written for the longer list is what is written for the shorter one and the lexeme
  have behind : ∀ us : List Token, lexemes us = lexemes acc.reverse ++ " " ++ t.lexeme →
      scan text [] ((lexemes us).toList ++ rest) = scan text (Token.push acc t) rest := by
    intro us hus
    have hspace : Separated (' ' :: (t.lexeme.toList ++ rest)) :=
      separated_cons (by decide) _
    have htext : (lexemes us).toList ++ rest =
        (lexemes acc.reverse).toList ++ ' ' :: (t.lexeme.toList ++ rest) := by
      rw [hus]
      simp
    rw [htext, h text _ hspace, scan_blank, scan_lexeme hblank hnext text acc hrest]
  rcases push_cases acc t with
    ⟨first, second, sym, before, hjoin, rfl, rfl, hpush⟩ | ⟨hpush, _⟩
  · rw [hpush, List.reverse_cons, ← hpush]
    refine behind _ ?_
    rw [lexemes_joined hjoin, List.reverse_cons]
  · rw [hpush, List.reverse_cons, ← hpush]
    cases acc with
    | nil =>
      rw [List.reverse_nil, List.nil_append, lexemes_singleton]
      exact scan_lexeme hblank hnext text [] hrest
    | cons u acc =>
      refine behind _ ?_
      rw [lexemes_append (by simp) (by simp), lexemes_singleton]

theorem scan_respaced {text : String} (acc : List Token) (s : List Char) {ts : List Token}
    (h : Respaced acc) (hscan : scan text acc s = .ok ts) :
    ∃ tokens, ts = tokens.reverse ++ [stop] ∧ Respaced tokens := by
  fun_induction scan text acc s with
  | case1 acc s hs =>
    cases hscan
    exact ⟨acc, by simp, h⟩
  | case2 => cases hscan
  | case3 acc s c rest hs t after hnext ih =>
    exact ih (h.push (split_of_dropWhile hs).1 hnext) hscan

/-- The tokens of a text written again, with one blank between them: the end marker has no
lexeme. -/
def spaced (ts : List Token) : String :=
  lexemes (ts.filter fun t => t.kind ≠ .stop)

/-- The spacing of a text does not matter: with the lexemes of its tokens written one blank apart,
the same tokens are read. -/
theorem tokenize_spaced {text : String} {ts : List Token} (h : tokenize text = .ok ts) :
    tokenize (spaced ts) = .ok ts := by
  obtain ⟨tokens, hts, hrespaced⟩ := scan_respaced [] text.toList respaced_nil h
  obtain ⟨tokens', rest, hts', hprogress, _⟩ :=
    scan_progress [] text.toList (progress_start text.toList) h
  have hsame : tokens.reverse = tokens'.reverse := List.append_cancel_right (hts.symm.trans hts')
  have hwritten : spaced ts = lexemes tokens.reverse := by
    have hkept : tokens.reverse.filter (fun t => t.kind ≠ .stop) = tokens.reverse := by
      refine List.filter_eq_self.mpr fun t ht => ?_
      rw [hsame, List.mem_reverse] at ht
      simpa using hprogress.notStop t ht
    rw [spaced, hts, List.filter_append, hkept]
    simp [stop, kind]
  have hend : scan (spaced ts) tokens [] = .ok ts := by
    rw [scan_eq, hts]
    simp
  have hread := hrespaced (spaced ts) [] separated_nil
  rw [List.append_nil, ← hwritten, hend] at hread
  exact hread

/-- A text in which little is kept apart by blanks: joined words after one another, a long number,
points that belong to numbers and one that does not. -/
def crowdedText : String := "x is\tnot  not\nin[3L]is .u'b'<1..5"

theorem tokenize_spaced_crowdedText :
    ∃ ts, tokenize crowdedText = .ok ts ∧
      spaced ts = "x is not not in [ 3 ] is . u'b' < 1. .5" ∧ tokenize (spaced ts) = .ok ts := by
  obtain ⟨ts, hread, hwritten⟩ : ∃ ts, tokenize crowdedText = .ok ts ∧
      spaced ts = "x is not not in [ 3 ] is . u'b' < 1. .5" := by
    refine ⟨_, by with_unfolding_all rfl, ?_⟩
    with_unfolding_all rfl
  exact ⟨ts, hread, hwritten, tokenize_spaced hread⟩

end FilterLang.Token
