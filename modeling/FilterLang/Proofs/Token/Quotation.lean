import FilterLang.Proofs.Token.Scanning
import FilterLang.Proofs.Value.Literal
/-!
What is written for a text is read as that text, unless the text holds both quotes.

A text is written between quotes, and where the quote itself stands in it, it is written behind a
backslash. The reader of tokens knows nothing of that backslash: a string ends at the next quote
of its kind (`tokenize_quoted_both`). A text with one of the quotes is written between the others,
so only a text that holds both is cut in two.
-/

namespace FilterLang.Token

theorem length_push (acc : List Token) (t : Token) : acc.length ≤ (push acc t).length := by
  rw [push.eq_def]
  split <;> simp

/-- Every token that was read is still there at the end, and the end marker after it. -/
theorem length_scan {text : String} (acc : List Token) (s : List Char) {ts : List Token}
    (h : scan text acc s = .ok ts) : acc.length < ts.length := by
  fun_induction scan text acc s with
  | case1 acc s hs =>
    cases h
    simp
  | case2 => cases h
  | case3 acc s c rest hs t after hnext ih => exact (length_push acc t).trans_lt (ih h)

/-- A string is not joined with the token after it. -/
theorem push_string (mark : Option Char) (quote : Char) (content : String) (acc : List Token)
    (t : Token) :
    push (.string mark quote content :: acc) t = t :: .string mark quote content :: acc := by
  rw [push.eq_def]

/-- A text does not end with its first string when more than blanks comes after it. -/
theorem length_scan_string {text : String} {mark : Option Char} {quote : Char} {content : String}
    {s : List Char} {ts : List Token} {c : Char} (hc : c ∈ s) (hblank : Text.isBlank c = false)
    (h : scan text [.string mark quote content] s = .ok ts) : 2 < ts.length := by
  rw [scan_eq] at h
  split at h
  · rename_i hs
    have := List.dropWhile_eq_nil_iff.mp hs c hc
    rw [hblank] at this
    cases this
  · rename_i d rest hs
    split at h
    · cases h
    · rename_i t after hnext
      rw [push_string] at h
      exact length_scan _ _ h

/-- A string ends at the first quote of its kind, so a text with both quotes in it is not read as
one token. -/
theorem tokenize_quoted_both {s : List Char} (h : '\'' ∈ s ∧ '"' ∈ s) (t : Token) :
    tokenize (String.ofList (Text.quoted s)) ≠ .ok [t, stop] := by
  have hquote : Text.quoteFor s = '\'' := by
    rw [Text.quoteFor, if_neg]
    simp [h.2]
  have hmem : '\'' ∈ s.flatMap (Text.quoteChar '\'') :=
    List.mem_flatMap.mpr ⟨'\'', h.1, by decide⟩
  obtain ⟨front, back, hbody, hfront⟩ := List.eq_append_cons_of_mem hmem
  have hother : ∀ c ∈ front, (c != '\'') = true := by
    intro c hc
    rw [bne_iff_ne]
    rintro rfl
    exact hfront hc
  intro hread
  have htext : Text.quoted s = '\'' :: (front ++ '\'' :: (back ++ ['\''])) := by
    rw [Text.quoted, hquote, hbody, List.append_assoc, List.cons_append]
  have hnext : next? '\'' (front ++ '\'' :: (back ++ ['\''])) =
      some (.string none '\'' (String.ofList front), back ++ ['\'']) := by
    have hstring : next? '\'' (front ++ '\'' :: (back ++ ['\''])) =
        readString? none '\'' (front ++ '\'' :: (back ++ ['\''])) := rfl
    rw [hstring, readString?, List.dropWhile_append_of_pos hother,
      List.takeWhile_append_of_pos hother]
    simp
  rw [tokenize, String.toList_ofList, htext,
    scan_token _ [] (by decide) hnext (by simp) (by simp)] at hread
  have hlength := length_scan_string (c := '\'') (by simp) (by decide) hread
  simp at hlength

/-- What is written for a text is read as one string exactly when the text does not hold both
quotes, and where it is, the string stands for the text. -/
theorem repr_one_string_iff (host : Host) (site : Identity) (s : String) :
    ∃ text, (Value.str s).repr host site = .ok text ∧
      ((∃ mark quote content, tokenize text = .ok [.string mark quote content, stop]) ↔
        ¬ ('\'' ∈ s.toList ∧ '"' ∈ s.toList)) ∧
      ∀ mark quote content, tokenize text = .ok [.string mark quote content, stop] →
        decodeLiteral content mark.isSome = .ok s := by
  refine ⟨quotedText s, by rw [Value.repr], ?_⟩
  rw [quotedText]
  by_cases hboth : '\'' ∈ s.toList ∧ '"' ∈ s.toList
  · have hno := tokenize_quoted_both hboth
    refine ⟨⟨?_, fun hnot => absurd hboth hnot⟩, ?_⟩
    · rintro ⟨mark, quote, content, hread⟩
      exact absurd hread (hno _)
    · intro mark quote content hread
      exact absurd hread (hno _)
  · have hscans := scans_quoted hboth
    rw [← String.toList_ofList (l := Text.quoted s.toList)] at hscans
    have hread := tokenize_of_scans hscans
    refine ⟨⟨fun _ => hboth, fun _ => ⟨_, _, _, hread⟩⟩, ?_⟩
    intro mark quote content hother
    rw [hread] at hother
    cases hother
    have hdecode := Text.decodeLiteral_quoted (Text.quoteFor_eq s.toList) s.toList
    rw [String.ofList_toList] at hdecode
    exact hdecode

/-- A single quote before a double one: what is written for it ends, for the reader, at the quote
behind the backslash, and the rest opens a string that is not closed. -/
theorem repr_one_string_twoQuotes :
    (Value.str "'\"").repr .idle (.root 0) = .ok "'\\'\"'" ∧
      tokenize "'\\'\"'" = .error ⟨"'\\'\"'", 3, ["(string \\)"]⟩ ∧
      ¬ ∀ (host : Host) (site : Identity) (s : String), ∃ text mark quote content,
        (Value.str s).repr host site = .ok text ∧
          tokenize text = .ok [.string mark quote content, stop] ∧
          decodeLiteral content mark.isSome = .ok s := by
  have hwritten : (Value.str "'\"").repr .idle (.root 0) = .ok "'\\'\"'" := by
    rw [Value.repr]
    with_unfolding_all rfl
  have hread : tokenize "'\\'\"'" = .error ⟨"'\\'\"'", 3, ["(string \\)"]⟩ := by
    with_unfolding_all rfl
  refine ⟨hwritten, hread, fun hall => ?_⟩
  obtain ⟨text, mark, quote, content, htext, htokens, _⟩ := hall .idle (.root 0) "'\""
  rw [hwritten] at htext
  cases htext
  rw [hread] at htokens
  cases htokens

end FilterLang.Token
