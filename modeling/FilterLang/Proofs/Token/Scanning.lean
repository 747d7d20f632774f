import FilterLang.Proofs.Decimal.Spelling
import FilterLang.Proofs.Parser.Sequences
import FilterLang.Proofs.Text.Quoting
/-!
Pieces of text and the tokens they are.

`scan` reads a text to its end, so what it does with a piece depends on what comes after
the piece. A piece scans to its tokens (`Scans`) when it does before every rest that
starts with a closing bracket, a comma or a colon. Numbers, words and quoted texts do, and
pieces with commas between them do when each of them does.
-/

namespace FilterLang.Token

/-! ## One step -/

/-- Blanks are skipped, then one token is read. -/
theorem scan_eq (text : String) (acc : List Token) (s : List Char) :
    scan text acc s =
      match s.dropWhile Text.isBlank with
      | [] => .ok (stop :: acc).reverse
      | c :: rest =>
        match next? c rest with
        | none =>
          .error { text, index := text.length - (rest.length + 1)
                   consumed := acc.reverse.map display }
        | some (t, after) => scan text (push acc t) after := by
  rw [scan]
  split
  · rename_i h; rw [h]
  · rename_i c rest h
    rw [h]
    dsimp only
    split
    · rename_i h'; rw [h']
    · rename_i t after h'; rw [h']

theorem scan_blank (text : String) (acc : List Token) (s : List Char) :
    scan text acc (' ' :: s) = scan text acc s := by
  have hskip : (' ' :: s).dropWhile Text.isBlank = s.dropWhile Text.isBlank :=
    List.dropWhile_cons_of_pos (by decide)
  rw [scan_eq, scan_eq text acc s, hskip]

/-- A token that does not join the one before it is put on the tokens read so far. -/
theorem scan_token {c : Char} {s after : List Char} {t : Token} (text : String) (acc : List Token)
    (hblank : Text.isBlank c = false) (hnext : next? c s = some (t, after))
    (hin : t ≠ .symbol .kwIn) (hnot : t ≠ .symbol .kwNot) :
    scan text acc (c :: s) = scan text (t :: acc) after := by
  have hpush : push acc t = t :: acc := by
    rw [push.eq_def]
    split
    · exact absurd rfl hin
    · exact absurd rfl hnot
    · rfl
  have hskip : (c :: s).dropWhile Text.isBlank = c :: s :=
    List.dropWhile_cons_of_neg (by simp [hblank])
  rw [scan_eq, hskip]
  dsimp only
  rw [hnext]
  dsimp only
  rw [hpush]

/-! ## Punctuation -/

/-- The punctuation of written values. -/
def marks : List (Char × Symbol) :=
  [('(', .parenOpen), (')', .parenClose), ('[', .bracketOpen), (']', .bracketClose),
    ('\x7b', .braceOpen), ('\x7d', .braceClose), (',', .comma), (':', .colon)]

/-- Punctuation is one token, whatever comes after it. -/
theorem next?_mark {c : Char} {s : Symbol} (h : (c, s) ∈ marks) (rest : List Char) :
    Text.isBlank c = false ∧ next? c rest = some (.symbol s, rest) := by
  simp only [marks, List.mem_cons, List.not_mem_nil, or_false, Prod.mk.injEq] at h
  rcases h with ⟨rfl, rfl⟩ | ⟨rfl, rfl⟩ | ⟨rfl, rfl⟩ | ⟨rfl, rfl⟩ | ⟨rfl, rfl⟩ | ⟨rfl, rfl⟩ |
    ⟨rfl, rfl⟩ | ⟨rfl, rfl⟩ <;> exact ⟨by decide, by with_unfolding_all rfl⟩

theorem scan_mark {c : Char} {s : Symbol} (h : (c, s) ∈ marks) (text : String)
    (acc : List Token) (rest : List Char) :
    scan text acc (c :: rest) = scan text (.symbol s :: acc) rest := by
  obtain ⟨hblank, hnext⟩ := next?_mark h rest
  refine scan_token text acc hblank hnext ?_ ?_
  · rintro ⟨rfl⟩
    simp [marks] at h
  · rintro ⟨rfl⟩
    simp [marks] at h

/-- A minus sign before a digit is a token of its own. -/
theorem next?_minus {d : Char} (h : d.isDigit = true) (rest : List Char) :
    next? '-' (d :: rest) = some (.symbol .minus, d :: rest) := by
  have hd : ('=' == d) = false := by
    rw [beq_eq_false_iff_ne]
    rintro rfl
    cases h
  have hfind : (spellings.find? fun p => p.toList.isPrefixOf ('-' :: d :: rest)) = some "-" := by
    simp [spellings, List.isPrefixOf, hd]
  have hread : readOperator? ('-' :: d :: rest) = some (.symbol .minus, d :: rest) := by
    rw [readOperator?, hfind]
    rfl
  rw [← hread]
  rfl

/-! ## Pieces -/

/-- The characters that can come after a piece. -/
def enders : List Char :=
  [',', ':', ')', ']', '\x7d']

/-- A rest that a piece can stand before. -/
def Ended (rest : List Char) : Prop :=
  ∀ c, rest.head? = some c → c ∈ enders

theorem ended_nil : Ended [] := by
  intro c h
  cases h

theorem ended_cons {c : Char} (h : c ∈ enders) (rest : List Char) : Ended (c :: rest) := by
  rintro d ⟨rfl⟩
  exact h

/-- A class that no ender is in stops before a rest. -/
theorem takeWhile_ended {p : Char → Bool} (hp : enders.any p = false) {rest : List Char}
    (h : Ended rest) : rest.takeWhile p = [] ∧ rest.dropWhile p = rest := by
  cases rest with
  | nil => exact ⟨rfl, rfl⟩
  | cons c rest =>
    have hc : ¬ p c = true := List.any_eq_false.mp hp c (h c rfl)
    exact ⟨List.takeWhile_cons_of_neg hc, List.dropWhile_cons_of_neg hc⟩

/-- A class that a piece is in and no ender is in takes the piece off. -/
theorem span_ended {p : Char → Bool} (hp : enders.any p = false) {cs rest : List Char}
    (hcs : ∀ c ∈ cs, p c = true) (h : Ended rest) :
    (cs ++ rest).takeWhile p = cs ∧ (cs ++ rest).dropWhile p = rest := by
  obtain ⟨htake, hdrop⟩ := takeWhile_ended hp h
  rw [List.takeWhile_append_of_pos hcs, List.dropWhile_append_of_pos hcs, htake, hdrop,
    List.append_nil]
  exact ⟨rfl, rfl⟩

/-- A piece of text whose tokens are read off before every rest that can come after it. -/
def Scans (cs : List Char) (ts : List Token) : Prop :=
  ∀ text acc rest, Ended rest → scan text acc (cs ++ rest) = scan text (ts.reverse ++ acc) rest

/-- A piece that is one token. -/
theorem scans_token {c : Char} {cs : List Char} {t : Token} (hblank : Text.isBlank c = false)
    (hnext : ∀ rest, Ended rest → next? c (cs ++ rest) = some (t, rest))
    (hin : t ≠ .symbol .kwIn) (hnot : t ≠ .symbol .kwNot) : Scans (c :: cs) [t] := by
  intro text acc rest hr
  exact scan_token text acc hblank (hnext rest hr) hin hnot

/-! ## Numbers -/

theorem not_isBlank_of_isDigit {c : Char} (h : c.isDigit = true) : Text.isBlank c = false := by
  simp only [Char.isDigit, Bool.and_eq_true, decide_eq_true_eq, ge_iff_le, UInt32.le_iff_toNat_le]
    at h
  have hlow : 48 ≤ c.toNat := h.1
  have hhigh : c.toNat ≤ 57 := h.2
  simp only [Text.isBlank, Bool.or_eq_false_iff, Bool.and_eq_false_iff, decide_eq_false_iff_not,
    beq_eq_false_iff_ne]
  omega

theorem next?_digit {c : Char} (h : c.isDigit = true) (rest : List Char) :
    next? c rest = some (readNumber (c :: rest)) := by
  rw [next?.eq_def, if_pos (by simp [h])]

/-- The digits after a point belong to the number. -/
theorem readNumber_point {whole : List Char} (hwhole : ∀ c ∈ whole, c.isDigit = true)
    (s : List Char) :
    readNumber (whole ++ '.' :: s) =
      (.number (String.ofList (whole ++ '.' :: s.takeWhile Char.isDigit))
        (digitsNumber whole (s.takeWhile Char.isDigit)), s.dropWhile Char.isDigit) := by
  have htake : ('.' :: s).takeWhile Char.isDigit = [] := List.takeWhile_cons_of_neg (by decide)
  have hdrop : ('.' :: s).dropWhile Char.isDigit = '.' :: s :=
    List.dropWhile_cons_of_neg (by decide)
  rw [readNumber, List.takeWhile_append_of_pos hwhole, List.dropWhile_append_of_pos hwhole, htake,
    hdrop, List.append_nil]
  rfl

/-- A number is read up to the end of its digits. -/
theorem readNumber_pointText {whole fraction rest : List Char}
    (hd : Decimal.Digits whole fraction) (hr : Ended rest) :
    readNumber (Decimal.pointText whole fraction ++ rest) =
      (.number (String.ofList (Decimal.pointText whole fraction))
        (digitsNumber whole fraction), rest) := by
  have hender : enders.any Char.isDigit = false := by decide
  cases fraction with
  | nil =>
    obtain ⟨htake, hdrop⟩ := span_ended hender hd.whole hr
    have htext : Decimal.pointText whole [] = whole := List.append_nil whole
    rw [htext, readNumber, htake, hdrop]
    cases rest with
    | nil => rfl
    | cons c rest =>
      have hc := hr c rfl
      have hpoint : c ≠ '.' := by rintro rfl; simp [enders] at hc
      have hsuffix : ¬ (c = 'l' ∨ c = 'L') := by rintro (rfl | rfl) <;> simp [enders] at hc
      split
      · rename_i heq
        cases heq
        exact absurd rfl hpoint
      · rename_i d rest' hne heq
        cases heq
        rw [if_neg hsuffix]
      · rename_i heq
        cases heq
  | cons d fraction =>
    obtain ⟨htake, hdrop⟩ := span_ended hender hd.fraction hr
    have htext : Decimal.pointText whole (d :: fraction) = whole ++ '.' :: d :: fraction := rfl
    rw [htext, List.append_assoc, List.cons_append, readNumber_point hd.whole, htake, hdrop]

theorem scans_number {whole fraction : List Char} (hd : Decimal.Digits whole fraction) :
    Scans (Decimal.pointText whole fraction)
      [.number (String.ofList (Decimal.pointText whole fraction))
        (digitsNumber whole fraction)] := by
  intro text acc rest hr
  have hread := readNumber_pointText hd hr
  cases whole with
  | nil => exact absurd rfl hd.nonempty
  | cons c whole =>
    have hc : c.isDigit = true := hd.whole c (by simp)
    refine scan_token text acc (not_isBlank_of_isDigit hc) ?_ (by simp) (by simp)
    exact (next?_digit hc _).trans (congrArg some hread)

theorem scans_negative {whole fraction : List Char} (hd : Decimal.Digits whole fraction) :
    Scans ('-' :: Decimal.pointText whole fraction)
      [.symbol .minus, .number (String.ofList (Decimal.pointText whole fraction))
        (digitsNumber whole fraction)] := by
  intro text acc rest hr
  have hnumber := scans_number hd text (.symbol .minus :: acc) rest hr
  rw [List.cons_append]
  cases whole with
  | nil => exact absurd rfl hd.nonempty
  | cons c whole =>
    have hc : c.isDigit = true := hd.whole c (by simp)
    exact (scan_token text acc (by decide) (next?_minus hc _) (by simp) (by simp)).trans hnumber

/-! ## Words and quoted texts -/

theorem next?_word {c : Char} (h : c ∈ ['N', 'T', 'F']) (rest : List Char) :
    next? c rest = some (ofWord (String.ofList (c :: rest.takeWhile isWordChar)),
      rest.dropWhile isWordChar) := by
  simp only [List.mem_cons, List.not_mem_nil, or_false] at h
  rcases h with rfl | rfl | rfl <;> rfl

theorem scans_word {c : Char} {cs : List Char} {s : Symbol} (hc : c ∈ ['N', 'T', 'F'])
    (hcs : cs.all isWordChar = true) (hword : ofWord (String.ofList (c :: cs)) = .symbol s)
    (hin : s ≠ .kwIn) (hnot : s ≠ .kwNot) : Scans (c :: cs) [.symbol s] := by
  have hblank : Text.isBlank c = false := by
    simp only [List.mem_cons, List.not_mem_nil, or_false] at hc
    rcases hc with rfl | rfl | rfl <;> decide
  refine scans_token hblank (fun rest hr => ?_) (by simpa using hin) (by simpa using hnot)
  obtain ⟨htake, hdrop⟩ := span_ended (by decide) (List.all_eq_true.mp hcs) hr
  rw [next?_word hc, htake, hdrop, hword]

/-- A quoted text is one token, which holds what stands between its quotes. -/
theorem scans_quoted {s : List Char} (h : ¬ ('\'' ∈ s ∧ '"' ∈ s)) :
    Scans (Text.quoted s)
      [.string none (Text.quoteFor s)
        (String.ofList (s.flatMap (Text.quoteChar (Text.quoteFor s))))] := by
  have hbody := Text.quoteFor_notMem_body h
  generalize hq : Text.quoteFor s = q at hbody
  have hquote : q = '\'' ∨ q = '"' := hq ▸ Text.quoteFor_eq s
  rw [Text.quoted, hq]
  generalize s.flatMap (Text.quoteChar q) = body at hbody
  have hother : ∀ c ∈ body, (c != q) = true := by
    intro c hc
    rw [bne_iff_ne]
    rintro rfl
    exact hbody hc
  refine scans_token ?_ (fun rest _ => ?_) (by simp) (by simp)
  · rcases hquote with rfl | rfl <;> decide
  · have hnext : next? q (body ++ [q] ++ rest) = readString? none q (body ++ q :: rest) := by
      rw [List.append_assoc, List.singleton_append]
      rcases hquote with rfl | rfl <;> rfl
    have htake : (q :: rest).takeWhile (· != q) = [] := List.takeWhile_cons_of_neg (by simp)
    have hdrop : (q :: rest).dropWhile (· != q) = q :: rest := List.dropWhile_cons_of_neg (by simp)
    rw [hnext, readString?, List.dropWhile_append_of_pos hother,
      List.takeWhile_append_of_pos hother, htake, hdrop, List.append_nil]

/-! ## Pieces out of pieces -/

theorem scans_nil : Scans [] [] :=
  fun _ _ _ _ => rfl

/-- A comma may come after a piece. -/
theorem Scans.comma {cs : List Char} {ts : List Token} (h : Scans cs ts) :
    Scans (cs ++ [',']) (ts ++ [.symbol .comma]) := by
  intro text acc rest _
  rw [List.append_assoc, List.singleton_append, h text acc _ (ended_cons (by decide) rest),
    scan_mark (s := .comma) (by decide), List.reverse_append]
  rfl

/-- Brackets may stand around a piece. -/
theorem Scans.bracketed {cs : List Char} {ts : List Token} (h : Scans cs ts) {o c : Char}
    {so sc : Symbol} (ho : (o, so) ∈ marks) (hc : (c, sc) ∈ marks) (hend : c ∈ enders) :
    Scans (o :: (cs ++ [c])) (.symbol so :: (ts ++ [.symbol sc])) := by
  intro text acc rest _
  rw [List.cons_append, List.append_assoc, List.singleton_append, scan_mark ho,
    h text _ _ (ended_cons hend rest), scan_mark hc, List.reverse_cons, List.reverse_append]
  simp

/-- A key, a colon and a value. -/
theorem Scans.entry {ks vs : List Char} {kts vts : List Token} (hk : Scans ks kts)
    (hv : Scans vs vts) : Scans (ks ++ ':' :: ' ' :: vs) (kts ++ .symbol .colon :: vts) := by
  intro text acc rest hr
  rw [List.append_assoc, List.cons_append, List.cons_append,
    hk text acc _ (ended_cons (by decide) _), scan_mark (s := .colon) (by decide), scan_blank,
    hv text _ rest hr]
  simp

/-- Pieces with commas between them. -/
theorem scans_commaJoined {parts : List (List Char)} {tss : List (List Token)}
    (h : List.Forall₂ Scans parts tss) :
    Scans (List.intercalate [',', ' '] parts) (Parser.commaJoined tss) := by
  induction h with
  | nil => exact scans_nil
  | cons hpart hparts ih =>
    cases hparts with
    | nil =>
      rw [List.intercalate_singleton, Parser.commaJoined_singleton]
      exact hpart
    | cons _ _ =>
      intro text acc rest hr
      rw [List.intercalate_cons_cons, Parser.commaJoined_cons_cons, List.append_assoc,
        List.append_assoc, List.cons_append, List.singleton_append,
        hpart text acc _ (ended_cons (by decide) _), scan_mark (s := .comma) (by decide),
        scan_blank, ih text _ rest hr]
      simp

/-- A text that is one piece has the tokens of the piece. -/
theorem tokenize_of_scans {text : String} {ts : List Token} (h : Scans text.toList ts) :
    tokenize text = .ok (ts ++ [stop]) := by
  have hall := h text [] [] ended_nil
  rw [List.append_nil] at hall
  rw [tokenize, hall, scan_eq]
  simp

end FilterLang.Token
