import FilterLang.Expr.Escape
import FilterLang.Proofs.Fallible
import Mathlib.Data.List.TakeWhile
import Mathlib.Data.Nat.Digits.Lemmas
import Mathlib.Logic.Relation
/-!
Spellings of a text in a literal.

A character can be spelled as itself, by a letter or by a numeral after a backslash
(`Spelling`). The decoder takes every spelling off for its character (`decodeFrom_spelling`), so
a text is decoded from each of its spellings (`decodeFrom_spelled`). What comes after a spelling
matters to octal numerals only, which are as long as they can be.

A literal that is not a unicode one need not be made of spellings. Its scan goes over spellings,
over continued lines and over backslashes that escape nothing (`Moves`), and decoding fails
exactly when that leads to a hexadecimal escape without its two digits
(`decodeFrom_eq_error_iff`). In unicode literals the range that a failure reports begins at
the backslash and ends inside the literal (`decodeFrom_range`).
-/

namespace FilterLang.Escape

open Fallible

/-! ## Numerals -/

/-- The digits of hexadecimal escapes, small and capital, in the order of their values. -/
def hexAlphabets : List (List Char) :=
  ["0123456789abcdef".toList, "0123456789ABCDEF".toList]

def octalAlphabets : List (List Char) :=
  ["01234567".toList]

/-- A character that is the digit of a value in one of several alphabets. -/
def Digit (alphabets : List (List Char)) (d : Char) (v : Nat) : Prop :=
  ∃ a ∈ alphabets, a[v]? = some d

instance (alphabets : List (List Char)) (d : Char) (v : Nat) : Decidable (Digit alphabets d v) :=
  inferInstanceAs (Decidable (∃ a ∈ alphabets, a[v]? = some d))

/-- A numeral and its value, the first digit counting most. -/
def Numeral (alphabets : List (List Char)) (base : Nat) (ds : List Char) (n : Nat) : Prop :=
  ∃ vs, List.Forall₂ (Digit alphabets) ds vs ∧ n = Nat.ofDigits base vs.reverse

theorem toNat_ofNat_of_lt {n : Nat} (h : n < 0xD800) : (Char.ofNat n).toNat = n := by
  have hvalid : n.isValidChar := .inl h
  rw [Char.ofNat, dif_pos hvalid]
  rfl

/-- A property of a character that is below 128 may be tested on codes. -/
theorem of_ascii {P : Char → Prop} (h : ∀ n : Fin 128, P (Char.ofNat n)) {c : Char}
    (hc : c.toNat < 128) : P c := by
  have := h ⟨c.toNat, hc⟩
  rwa [Char.ofNat_toNat] at this

theorem hexValue?_eq_some_iff {d : Char} {v : Nat} :
    Text.hexValue? d = some v ↔ Digit hexAlphabets d v := by
  constructor
  · intro h
    have hascii : d.toNat < 128 := by
      rw [Text.hexValue?] at h
      grind
    have htable : ∀ n : Fin 128, ∀ v ∈ Text.hexValue? (Char.ofNat n),
        Digit hexAlphabets (Char.ofNat n) v := by decide
    exact of_ascii (P := fun d => ∀ v ∈ Text.hexValue? d, Digit hexAlphabets d v) htable hascii v h
  · rintro ⟨a, ha, hd⟩
    have hlength : ∀ a ∈ hexAlphabets, a.length = 16 := by decide
    have hv : v < 16 := by
      have := (List.getElem?_eq_some_iff.mp hd).1
      rwa [hlength a ha] at this
    have htable : ∀ v : Fin 16, ∀ a ∈ hexAlphabets,
        a[v.val]?.bind Text.hexValue? = some v.val := by decide
    have hvalue := htable ⟨v, hv⟩ a ha
    rwa [hd] at hvalue

theorem digit_of_isOctal {d : Char} (h : isOctal d = true) :
    Digit octalAlphabets d (d.toNat - 48) := by
  have hascii : d.toNat < 128 := by
    simp only [isOctal, Bool.and_eq_true, decide_eq_true_eq, Char.le_def,
      UInt32.le_iff_toNat_le] at h
    have : d.toNat ≤ 55 := h.2
    omega
  have htable : ∀ n : Fin 128, isOctal (Char.ofNat n) = true →
      Digit octalAlphabets (Char.ofNat n) ((Char.ofNat n).toNat - 48) := by decide
  exact of_ascii (P := fun d => isOctal d = true → Digit octalAlphabets d (d.toNat - 48)) htable
    hascii h

theorem octal_of_digit {d : Char} {v : Nat} (h : Digit octalAlphabets d v) :
    v < 8 ∧ d.toNat - 48 = v ∧ isOctal d = true := by
  obtain ⟨a, ha, hd⟩ := h
  have hlength : ∀ a ∈ octalAlphabets, a.length = 8 := by decide
  have hv : v < 8 := by
    have := (List.getElem?_eq_some_iff.mp hd).1
    rwa [hlength a ha] at this
  have htable : ∀ v : Fin 8, ∀ a ∈ octalAlphabets,
      a[v.val]?.map (fun d => (d.toNat - 48, isOctal d)) = some (v.val, true) := by decide
  have hvalue := htable ⟨v, hv⟩ a ha
  rw [hd, Option.map_some, Option.some.injEq, Prod.mk.injEq] at hvalue
  exact ⟨hv, hvalue⟩

/-- Reading digit by digit gives the value of the numeral. -/
theorem foldl_eq_ofDigits (base : Nat) (vs : List Nat) :
    vs.foldl (fun n d => n * base + d) 0 = Nat.ofDigits base vs.reverse := by
  rw [Nat.ofDigits_eq_foldr, List.foldr_reverse]
  congr 1
  funext n d
  rw [Nat.cast_id, Nat.mul_comm, Nat.add_comm]

theorem mapM_hexValue?_eq_some_iff {ds : List Char} {vs : List Nat} :
    ds.mapM Text.hexValue? = some vs ↔ List.Forall₂ (Digit hexAlphabets) ds vs := by
  induction ds generalizing vs with
  | nil => simp [eq_comm]
  | cons d ds ih =>
    rw [List.mapM_cons, List.forall₂_cons_left_iff]
    simp only [Option.bind_eq_bind, Option.bind_eq_some_iff, Option.pure_def, Option.some.injEq,
      hexValue?_eq_some_iff, ih]
    grind

/-- Exactly as many hexadecimal digits as asked for are read. -/
theorem hex?_eq_some_iff {width n : Nat} {s : List Char} :
    hex? width s = some n ↔
      ∃ ds rest, s = ds ++ rest ∧ ds.length = width ∧ Numeral hexAlphabets 16 ds n := by
  rw [hex?]
  constructor
  · intro h
    split at h
    · cases h
    · rename_i hlength
      obtain ⟨vs, hvs, rfl⟩ := Option.map_eq_some_iff.mp h
      refine ⟨s.take width, s.drop width, (List.take_append_drop ..).symm, ?_, vs,
        mapM_hexValue?_eq_some_iff.mp hvs, foldl_eq_ofDigits 16 vs⟩
      have := List.length_take_le width s
      omega
  · rintro ⟨ds, rest, rfl, hlength, vs, hvs, rfl⟩
    rw [List.take_left' hlength, if_neg (by omega), mapM_hexValue?_eq_some_iff.mpr hvs,
      ← foldl_eq_ofDigits]
    rfl

/-! ## Spellings -/

/-- The letters that stand for one character each after a backslash, with that character. -/
def letters : List (Char × Char) :=
  [('\\', '\\'), ('"', '"'), ('\'', '\''), ('a', Char.ofNat 7), ('b', Char.ofNat 8),
    ('f', Char.ofNat 12), ('n', '\n'), ('r', '\r'), ('t', '\t'), ('v', Char.ofNat 11)]

/-- The letters that introduce a code point in a unicode literal, with the number of its digits. -/
def codeLetters : List (Char × Nat) :=
  [('u', 4), ('U', 8)]

/-- The ways to spell the character `c` before the text `rest`. -/
inductive Spelling (unicode : Bool) (c : Char) (rest : List Char) : List Char → Prop
  | itself (h : c ≠ '\\') : Spelling unicode c rest [c]
  | letter {e : Char} (h : (e, c) ∈ letters) : Spelling unicode c rest ['\\', e]
  | hex {ds : List Char} (hlength : ds.length = 2) (h : Numeral hexAlphabets 16 ds c.toNat) :
      Spelling unicode c rest ('\\' :: 'x' :: ds)
  /-- Fewer than three digits only where no octal digit follows them. -/
  | octal {ds : List Char} (hne : ds ≠ []) (hlength : ds.length ≤ 3)
      (h : Numeral octalAlphabets 8 ds c.toNat)
      (hnext : ds.length < 3 → ∀ d ∈ rest.head?, isOctal d = false) :
      Spelling unicode c rest ('\\' :: ds)
  | codePoint {letter : Char} {width : Nat} {ds : List Char} (hunicode : unicode = true)
      (hletter : (letter, width) ∈ codeLetters) (hlength : ds.length = width)
      (h : Numeral hexAlphabets 16 ds c.toNat) : Spelling unicode c rest ('\\' :: letter :: ds)

/-- A text spelled character by character, with lines continued anywhere between them. -/
inductive Spelled (unicode : Bool) : List Char → List Char → Prop
  | done : Spelled unicode [] []
  | char {c : Char} {piece rest s : List Char} (h : Spelling unicode c rest piece)
      (hrest : Spelled unicode rest s) : Spelled unicode (piece ++ rest) (c :: s)
  | continued {rest s : List Char} (hrest : Spelled unicode rest s) :
      Spelled unicode ('\\' :: '\n' :: rest) s

/-- A text without a backslash spells itself. -/
theorem spelled_plain {unicode : Bool} {s : List Char} (h : ∀ c ∈ s, c ≠ '\\') :
    Spelled unicode s s := by
  induction s with
  | nil => exact .done
  | cons c s ih =>
    exact .char (.itself (h c List.mem_cons_self)) (ih fun d hd => h d (List.mem_cons_of_mem c hd))

theorem simple?_eq_some_iff {e c : Char} : simple? e = some c ↔ (e, c) ∈ letters := by
  constructor
  · intro h
    unfold simple? at h
    split at h <;> cases h <;> decide
  · intro h
    have htable : ∀ p ∈ letters, simple? p.1 = some p.2 := by decide
    exact htable (e, c) h

/-! ## Decoding spellings -/

section Decoding

variable {unicode : Bool} {total pos : Nat} {e : Char} {cs after rest : List Char}

/-- Decoding goes on after an escape where the escape says. -/
theorem decodeFrom_escape {used : Nat} (hone : one unicode total pos e after = .ok (cs, used)) :
    decodeFrom unicode total pos ('\\' :: e :: after) =
      decodeFrom unicode total (pos + 1 + used) ((e :: after).drop used) >>=
        fun rest => .ok (cs ++ rest) := by
  rw [decodeFrom, hone]
  rfl

theorem decodeFrom_escape_error {err : EscapeError}
    (hone : one unicode total pos e after = .error err) :
    decodeFrom unicode total pos ('\\' :: e :: after) = .error err := by
  rw [decodeFrom, hone]
  rfl

theorem decodeFrom_plain {c : Char} (h : c ≠ '\\') :
    decodeFrom unicode total pos (c :: after) =
      decodeFrom unicode total (pos + 1) after >>= fun rest => .ok (c :: rest) := by
  rw [decodeFrom]
  · rfl
  · intro e' after' he
    exact absurd he h

theorem one_letter {c : Char} (h : (e, c) ∈ letters) :
    one unicode total pos e after = .ok ([c], 1) := by
  rw [one, simple?_eq_some_iff.mpr h]

theorem one_newline : one unicode total pos '\n' after = .ok ([], 1) := rfl

theorem one_hex {n : Nat} (h : hex? 2 after = some n) :
    one unicode total pos 'x' after = .ok ([Char.ofNat n], 3) := by
  rw [one, show simple? 'x' = none from rfl]
  simp [h]

theorem one_octal (h : isOctal e = true) :
    one unicode total pos e after =
      let digits := ((e :: after).take 3).takeWhile isOctal
      .ok ([Char.ofNat (digits.foldl (fun n d => n * 8 + (d.toNat - 48)) 0)], digits.length) := by
  have hne : ∀ d, isOctal d = false → e ≠ d := by
    rintro d hd rfl
    rw [h] at hd
    cases hd
  have hsimple : simple? e = none := by
    have hletters : ∀ p ∈ letters, isOctal p.1 = false := by decide
    cases hs : simple? e with
    | none => rfl
    | some c => exact absurd rfl (hne e (hletters (e, c) (simple?_eq_some_iff.mp hs)))
  rw [one, hsimple]
  simp only [hne '\n' rfl, hne 'N' rfl, hne 'u' rfl, hne 'U' rfl, hne 'x' rfl, h, decide_false,
    Bool.false_and, if_false, if_true, Bool.false_eq_true]

theorem one_codePoint {letter : Char} {width n : Nat} (hletter : (letter, width) ∈ codeLetters)
    (h : hex? width after = some n) (hn : isCodePoint n = true) :
    one true total pos letter after = .ok ([Char.ofNat n], 1 + width) := by
  have hcode : one true total pos letter after = codePoint letter width total pos after := by
    simp only [codeLetters, List.mem_cons, Prod.mk.injEq, List.not_mem_nil, or_false] at hletter
    rcases hletter with ⟨rfl, rfl⟩ | ⟨rfl, rfl⟩ <;> rfl
  rw [hcode, codePoint, h]
  simp [hn]

/-- As many octal digits are taken as there are, up to three. -/
theorem takeWhile_octal {ds : List Char} (hlength : ds.length ≤ 3)
    (hds : ∀ d ∈ ds, isOctal d = true)
    (hnext : ds.length < 3 → ∀ d ∈ rest.head?, isOctal d = false) :
    ((ds ++ rest).take 3).takeWhile isOctal = ds := by
  rw [List.take_append, List.take_of_length_le hlength, List.takeWhile_append_of_pos hds]
  by_cases hfull : ds.length < 3
  · cases rest with
    | nil => simp
    | cons d rest =>
      have hd := hnext hfull d rfl
      obtain ⟨k, hk⟩ : ∃ k, 3 - ds.length = k + 1 := ⟨2 - ds.length, by omega⟩
      rw [hk, List.take_succ_cons, List.takeWhile_cons_of_neg (by simp [hd]), List.append_nil]
  · rw [show 3 - ds.length = 0 by omega]
    simp

theorem isCodePoint_toNat (c : Char) : isCodePoint c.toNat = true := by
  have hvalid : c.toNat.isValidChar := c.valid
  simp only [isCodePoint, Bool.or_eq_true, Bool.and_eq_true, decide_eq_true_eq]
  exact hvalid

theorem values_of_octal {ds : List Char} {vs : List Nat}
    (h : List.Forall₂ (Digit octalAlphabets) ds vs) :
    (∀ d ∈ ds, isOctal d = true) ∧ ds.map (fun d => d.toNat - 48) = vs := by
  induction h with
  | nil => simp
  | cons hd _ ih =>
    obtain ⟨_, hvalue, hoctal⟩ := octal_of_digit hd
    exact ⟨List.forall_mem_cons.mpr ⟨hoctal, ih.1⟩, by rw [List.map_cons, hvalue, ih.2]⟩

theorem foldl_octal (ds : List Char) :
    ds.foldl (fun n d => n * 8 + (d.toNat - 48)) 0 =
      (ds.map fun d => d.toNat - 48).foldl (fun n v => n * 8 + v) 0 := by
  rw [List.foldl_map]

/-- The decoder takes a spelling off for its character. -/
theorem decodeFrom_spelling {c : Char} {piece : List Char} (h : Spelling unicode c rest piece)
    (total pos : Nat) :
    decodeFrom unicode total pos (piece ++ rest) =
      decodeFrom unicode total (pos + piece.length) rest >>= fun cs => .ok (c :: cs) := by
  cases h with
  | itself h => exact decodeFrom_plain h
  | letter h => exact decodeFrom_escape (one_letter h)
  | @hex ds hlength h =>
    have hread : hex? 2 (ds ++ rest) = some c.toNat :=
      hex?_eq_some_iff.mpr ⟨ds, rest, rfl, hlength, h⟩
    rw [List.cons_append, List.cons_append, decodeFrom_escape (one_hex hread),
      List.drop_succ_cons, List.drop_left' hlength, Char.ofNat_toNat]
    simp only [List.length_cons, hlength]
    rfl
  | @octal ds hne hlength h hnext =>
    obtain ⟨vs, hvs, hvalue⟩ := h
    obtain ⟨hdigits, hmap⟩ := values_of_octal hvs
    have htake := takeWhile_octal hlength hdigits hnext
    cases ds with
    | nil => exact absurd rfl hne
    | cons d ds =>
      have hone := @one_octal unicode total pos d (ds ++ rest) (hdigits d (by simp))
      rw [← List.cons_append, htake] at hone
      dsimp only at hone
      rw [foldl_octal, hmap, foldl_eq_ofDigits, ← hvalue, Char.ofNat_toNat] at hone
      rw [List.cons_append, List.cons_append, decodeFrom_escape hone, ← List.cons_append,
        List.drop_left, List.length_cons (a := '\\'), Nat.add_assoc, Nat.add_comm 1]
      rfl
  | @codePoint letter width ds hunicode hletter hlength h =>
    subst hunicode
    have hread : hex? width (ds ++ rest) = some c.toNat :=
      hex?_eq_some_iff.mpr ⟨ds, rest, rfl, hlength, h⟩
    have hend : pos + 1 + (1 + width) = pos + (width + 1 + 1) := by omega
    rw [List.cons_append, List.cons_append,
      decodeFrom_escape (one_codePoint hletter hread (isCodePoint_toNat c)), hend,
      Nat.add_comm 1 width, List.drop_succ_cons, List.drop_left' hlength, Char.ofNat_toNat,
      List.length_cons, List.length_cons, hlength]
    rfl

/-- A text is decoded from each of its spellings. -/
theorem decodeFrom_spelled {src s : List Char} (h : Spelled unicode src s) (total pos : Nat) :
    decodeFrom unicode total pos src = .ok s := by
  induction h generalizing pos with
  | done => rw [decodeFrom]
  | char h _ ih =>
    rw [decodeFrom_spelling h, ih]
    rfl
  | continued _ ih =>
    rw [decodeFrom_escape one_newline, List.drop_one, List.tail_cons, ih]
    rfl

end Decoding

theorem decodeLiteral_spelled {unicode : Bool} {raw s : String}
    (h : Spelled unicode raw.toList s.toList) : decodeLiteral raw unicode = .ok s := by
  rw [decodeLiteral, decodeFrom_spelled h, ok_bind, String.ofList_toList]
  rfl

/-! ## Where decoding fails -/

/-- The letters that have a meaning after a backslash in every literal. -/
def Known (e : Char) : Prop :=
  (∃ c, (e, c) ∈ letters) ∨ e = '\n' ∨ e = 'x' ∨ isOctal e = true

/-- One step of the scan of a literal that is not a unicode one. A backslash that escapes nothing
is passed alone, and the letter after it is looked at for itself. -/
inductive Moves : List Char → List Char → Prop
  | spelling {c : Char} {piece rest : List Char} (h : Spelling false c rest piece) :
      Moves (piece ++ rest) rest
  | continued (rest : List Char) : Moves ('\\' :: '\n' :: rest) rest
  | unknown {e : Char} (h : ¬ Known e) (rest : List Char) :
      Moves ('\\' :: e :: rest) (e :: rest)
  | last : Moves ['\\'] []

/-- A text that starts with two hexadecimal digits. -/
def StartsHexPair (s : List Char) : Prop :=
  ∃ ds rest n, s = ds ++ rest ∧ ds.length = 2 ∧ Numeral hexAlphabets 16 ds n

/-- The scan of a text comes to a hexadecimal escape without its two digits. -/
def MeetsBrokenHex (s : List Char) : Prop :=
  ∃ rest, Relation.ReflTransGen Moves s ('\\' :: 'x' :: rest) ∧ ¬ StartsHexPair rest

theorem hex?_eq_none_iff {s : List Char} : hex? 2 s = none ↔ ¬ StartsHexPair s := by
  rw [← not_iff_not, not_not, ← ne_eq, Option.ne_none_iff_exists']
  simp only [hex?_eq_some_iff]
  constructor
  · rintro ⟨n, ds, rest, h⟩
    exact ⟨ds, rest, n, h⟩
  · rintro ⟨ds, rest, n, h⟩
    exact ⟨n, ds, rest, h⟩

theorem numeral_lt {alphabets : List (List Char)} {base n : Nat} {ds : List Char}
    (hbase : 1 < base) (halphabets : ∀ a ∈ alphabets, a.length ≤ base)
    (h : Numeral alphabets base ds n) : n < base ^ ds.length := by
  obtain ⟨vs, hvs, rfl⟩ := h
  have hsmall : ∀ v ∈ vs, v < base := by
    induction hvs with
    | nil => simp
    | cons hd _ ih =>
      obtain ⟨a, ha, hget⟩ := hd
      have hlt := (List.getElem?_eq_some_iff.mp hget).1
      exact List.forall_mem_cons.mpr ⟨lt_of_lt_of_le hlt (halphabets a ha), ih⟩
  rw [hvs.length_eq, ← List.length_reverse]
  exact Nat.ofDigits_lt_base_pow_length hbase fun v hv => hsmall v (List.mem_reverse.mp hv)

/-- Two digits are the spelling of a character. -/
theorem moves_hex {after : List Char} (h : StartsHexPair after) :
    Moves ('\\' :: 'x' :: after) (after.drop 2) := by
  obtain ⟨ds, rest, n, rfl, hlength, hn⟩ := h
  have hlt : n < 16 ^ 2 := hlength ▸ numeral_lt (by decide) (by decide) hn
  rw [← toNat_ofNat_of_lt (n := n) (by omega)] at hn
  rw [List.drop_left' hlength]
  have hspelling : Spelling false _ rest ('\\' :: 'x' :: ds) := .hex hlength hn
  exact .spelling hspelling

/-- Octal digits are the spelling of a character. -/
theorem moves_octal {e : Char} {after : List Char} (h : isOctal e = true) :
    Moves ('\\' :: e :: after)
      ((e :: after).drop (((e :: after).take 3).takeWhile isOctal).length) := by
  generalize hs : e :: after = s
  have hne : (s.take 3).takeWhile isOctal ≠ [] := by
    subst hs
    simp [h]
  have hdigits : ∀ d ∈ (s.take 3).takeWhile isOctal, isOctal d = true :=
    fun d hd => List.mem_takeWhile_imp hd
  have hlength : ((s.take 3).takeWhile isOctal).length ≤ 3 :=
    ((List.takeWhile_prefix isOctal).length_le).trans (List.length_take_le 3 s)
  have hsplit : s = (s.take 3).takeWhile isOctal ++
      ((s.take 3).dropWhile isOctal ++ s.drop 3) := by
    rw [← List.append_assoc, List.takeWhile_append_dropWhile, List.take_append_drop]
  -- the digits end before the third one where the text does or where another character comes
  have hnext : ((s.take 3).takeWhile isOctal).length < 3 →
      ∀ d ∈ ((s.take 3).dropWhile isOctal ++ s.drop 3).head?, isOctal d = false := by
    intro hshort d hd
    cases hdrop : (s.take 3).dropWhile isOctal with
    | nil =>
      have hall : (s.take 3).takeWhile isOctal = s.take 3 := by
        have := List.takeWhile_append_dropWhile (p := isOctal) (l := s.take 3)
        rwa [hdrop, List.append_nil] at this
      rw [hall, List.length_take] at hshort
      rw [hdrop, List.drop_eq_nil_of_le (by omega)] at hd
      cases hd
    | cons c rest =>
      rw [hdrop] at hd
      cases hd
      have hhead := List.head?_dropWhile_not isOctal (s.take 3)
      rw [hdrop] at hhead
      simpa using hhead
  generalize (s.take 3).takeWhile isOctal = ds at *
  generalize (s.take 3).dropWhile isOctal ++ s.drop 3 = rest at *
  have hvalues : Numeral octalAlphabets 8 ds
      (Nat.ofDigits 8 (ds.map fun d => d.toNat - 48).reverse) :=
    ⟨_, List.forall₂_map_right_iff.mpr
      (List.forall₂_same.mpr fun d hd => digit_of_isOctal (hdigits d hd)), rfl⟩
  have hlt := numeral_lt (by decide) (by decide) hvalues
  have hpow : 8 ^ ds.length ≤ 8 ^ 3 := Nat.pow_le_pow_right (by decide) hlength
  rw [← toNat_ofNat_of_lt (n := Nat.ofDigits 8 _) (by omega)] at hvalues
  rw [hsplit, List.drop_left]
  have hspelling : Spelling false _ rest ('\\' :: ds) := .octal hne hlength hvalues hnext
  exact .spelling hspelling

/-- What starts no escape is passed alone. -/
theorem moves_plain {c : Char} {rest : List Char}
    (hc : ∀ e after, c = '\\' → rest = e :: after → False) : Moves (c :: rest) rest := by
  by_cases hback : c = '\\'
  · subst hback
    cases rest with
    | nil => exact .last
    | cons e after => exact (hc e after rfl rfl).elim
  · exact .spelling (.itself hback)

theorem one_unknown {total pos : Nat} {e : Char} {after : List Char} (h : ¬ Known e) :
    one false total pos e after = .ok (['\\'], 0) := by
  simp only [Known, not_or] at h
  obtain ⟨hletter, hn, hx, hoctal⟩ := h
  have hsimple : simple? e = none := by
    cases hs : simple? e with
    | none => rfl
    | some c => exact absurd ⟨c, simple?_eq_some_iff.mp hs⟩ hletter
  rw [one, hsimple]
  simp [hn, hx, hoctal]

/-- An escape is passed, or it is a hexadecimal one without its digits. -/
theorem one_cases (total pos : Nat) (e : Char) (after : List Char) :
    (∃ cs used, one false total pos e after = .ok (cs, used) ∧
      Moves ('\\' :: e :: after) ((e :: after).drop used)) ∨
    (e = 'x' ∧ ¬ StartsHexPair after ∧ one false total pos e after = .error .invalidHex) := by
  by_cases hletter : ∃ c, (e, c) ∈ letters
  · obtain ⟨c, hc⟩ := hletter
    exact .inl ⟨[c], 1, one_letter hc, .spelling (.letter hc)⟩
  by_cases hn : e = '\n'
  · subst hn
    exact .inl ⟨[], 1, one_newline, .continued after⟩
  by_cases hx : e = 'x'
  · subst hx
    cases hhex : hex? 2 after with
    | none =>
      refine .inr ⟨rfl, hex?_eq_none_iff.mp hhex, ?_⟩
      rw [one, show simple? 'x' = none from rfl]
      simp [hhex]
    | some n =>
      obtain ⟨ds, rest, hnumeral⟩ := hex?_eq_some_iff.mp hhex
      exact .inl ⟨_, 3, one_hex hhex, moves_hex ⟨ds, rest, n, hnumeral⟩⟩
  by_cases hoctal : isOctal e = true
  · exact .inl ⟨_, _, one_octal hoctal, moves_octal hoctal⟩
  · have hknown : ¬ Known e := by simp [Known, hletter, hn, hx, hoctal]
    exact .inl ⟨['\\'], 0, one_unknown hknown, .unknown hknown after⟩

/-- A failure further on is a failure of the whole. -/
theorem decodeFrom_moves {total : Nat} {s s' : List Char} (h : Moves s s')
    (hs' : ∀ pos, decodeFrom false total pos s' = .error .invalidHex) (pos : Nat) :
    decodeFrom false total pos s = .error .invalidHex := by
  cases h with
  | spelling h =>
    rw [decodeFrom_spelling h, hs']
    rfl
  | continued =>
    rw [decodeFrom_escape one_newline, List.drop_one, List.tail_cons, hs']
    rfl
  | unknown h =>
    rw [decodeFrom_escape (one_unknown h), List.drop_zero, hs']
    rfl
  | last =>
    have hend := hs' pos
    rw [decodeFrom] at hend
    cases hend

theorem decodeFrom_of_meetsBrokenHex {total : Nat} {s : List Char} (h : MeetsBrokenHex s)
    (pos : Nat) : decodeFrom false total pos s = .error .invalidHex := by
  obtain ⟨rest, hpath, hbroken⟩ := h
  induction hpath using Relation.ReflTransGen.head_induction_on generalizing pos with
  | refl =>
    have hone : one false total pos 'x' rest = .error .invalidHex := by
      rw [one, show simple? 'x' = none from rfl]
      simp [hex?_eq_none_iff.mpr hbroken]
    exact decodeFrom_escape_error hone
  | head hmove _ ih => exact decodeFrom_moves hmove ih pos

theorem MeetsBrokenHex.of_moves {s s' : List Char} (hmove : Moves s s') (h : MeetsBrokenHex s') :
    MeetsBrokenHex s := by
  obtain ⟨rest, hpath, hbroken⟩ := h
  exact ⟨rest, .head hmove hpath, hbroken⟩

theorem meetsBrokenHex_of_decodeFrom {total pos : Nat} {s : List Char} {err : EscapeError}
    (h : decodeFrom false total pos s = .error err) : err = .invalidHex ∧ MeetsBrokenHex s := by
  fun_induction decodeFrom false total pos s with
  | case1 => cases h
  | case2 pos e after ih =>
    rcases one_cases total pos e after with ⟨cs, used, hone, hmove⟩ | ⟨rfl, hbroken, hone⟩
    · rw [hone, ok_bind, bind_eq_error] at h
      rcases h with h | ⟨_, _, h⟩
      · obtain ⟨rfl, hmeets⟩ := ih used h
        exact ⟨rfl, hmeets.of_moves hmove⟩
      · cases h
    · rw [hone, error_bind] at h
      cases h
      exact ⟨rfl, after, .refl, hbroken⟩
  | case3 pos c rest hc ih =>
    rw [bind_eq_error] at h
    rcases h with h | ⟨_, _, h⟩
    · obtain ⟨rfl, hmeets⟩ := ih h
      exact ⟨rfl, hmeets.of_moves (moves_plain hc)⟩
    · cases h

/-! ## What a failure reports -/

/-- The positions that an error names: the first and the last one of the escape. -/
def range? : EscapeError → Option (Nat × Nat)
  | .truncated _ first last => some (first, last)
  | .illegalCodePoint first last => some (first, last)
  | .invalidHex => none
  | .namedEscape => none

section Ranges

variable {unicode : Bool} {total pos : Nat} {e : Char} {after : List Char} {err : EscapeError}

theorem le_length_of_hex? {width n : Nat} (h : hex? width after = some n) :
    width ≤ after.length := by
  obtain ⟨ds, rest, rfl, hlength, _⟩ := hex?_eq_some_iff.mp h
  rw [List.length_append]
  omega

/-- The range that an error names, if it names one, begins at the backslash of the escape and ends
inside the literal. -/
def RangeFits (total pos : Nat) (err : EscapeError) : Prop :=
  ∀ first last, range? err = some (first, last) → first = pos ∧ pos < last ∧ last < total

theorem rangeFits_truncated {last : Nat} (hpos : pos < last) (htotal : last < total) :
    RangeFits total pos (.truncated e pos last) := by
  intro first last' hrange
  cases hrange
  exact ⟨rfl, hpos, htotal⟩

theorem rangeFits_illegalCodePoint {last : Nat} (hpos : pos < last) (htotal : last < total) :
    RangeFits total pos (.illegalCodePoint pos last) := by
  intro first last' hrange
  cases hrange
  exact ⟨rfl, hpos, htotal⟩

theorem rangeFits_of_none (h : range? err = none) : RangeFits total pos err := by
  intro first last hrange
  rw [h] at hrange
  cases hrange

theorem codePoint_lands {width : Nat} (htotal : total = pos + 2 + after.length)
    (hwidth : 0 < width) :
    Lands (fun r => r.2 ≤ after.length + 1) (RangeFits total pos)
      (codePoint e width total pos after) := by
  rw [codePoint]
  cases hhex : hex? width after with
  | none => exact rangeFits_truncated (by omega) (by omega)
  | some n =>
    have hlength := le_length_of_hex? hhex
    refine Lands.ite (fun _ => ?_) fun _ => ?_
    · exact Nat.add_comm 1 width ▸ Nat.succ_le_succ hlength
    · exact rangeFits_illegalCodePoint (by omega) (by omega)

/-- An escape takes no more characters than there are, and an error names a range of it. -/
theorem one_lands (htotal : total = pos + 2 + after.length) :
    Lands (fun r => r.2 ≤ after.length + 1) (RangeFits total pos)
      (one unicode total pos e after) := by
  rw [one]
  cases simple? e with
  | some c => exact Nat.le_add_left 1 after.length
  | none =>
    refine Lands.ite (fun _ => Nat.le_add_left 1 after.length) fun _ => ?_
    refine Lands.ite (fun _ => rangeFits_of_none rfl) fun _ => ?_
    refine Lands.ite (fun _ => codePoint_lands htotal (by decide)) fun _ => ?_
    refine Lands.ite (fun _ => codePoint_lands htotal (by decide)) fun _ => ?_
    refine Lands.ite (fun _ => ?_) fun _ => Lands.ite (fun _ => ?_) fun _ => Nat.zero_le _
    · cases hhex : hex? 2 after with
      | some n => exact Nat.succ_le_succ (le_length_of_hex? hhex)
      | none =>
        refine Lands.ite (fun _ => ?_) fun _ => rangeFits_of_none rfl
        exact rangeFits_truncated (by omega) (by omega)
    · have htaken := (List.takeWhile_prefix (l := (e :: after).take 3) isOctal).length_le
      exact htaken.trans (List.length_take_le' 3 (e :: after))

theorem decodeFrom_range {raw before s : List Char} {first last : Nat} (hraw : raw = before ++ s)
    (hpos : pos = before.length) (htotal : total = raw.length)
    (h : decodeFrom unicode total pos s = .error err) (hrange : range? err = some (first, last)) :
    raw[first]? = some '\\' ∧ first < last ∧ last < raw.length := by
  fun_induction decodeFrom unicode total pos s generalizing before with
  | case1 => cases h
  | case2 pos e after ih =>
    subst hraw
    have hafter : total = pos + 2 + after.length := by
      rw [htotal, hpos, List.length_append, List.length_cons, List.length_cons]
      omega
    have hlands := @one_lands unicode total pos e after hafter
    rw [bind_eq_error] at h
    rcases h with h | ⟨⟨cs, used⟩, hone, h⟩
    · rw [h] at hlands
      obtain ⟨rfl, hlt, hlast⟩ := hlands first last hrange
      refine ⟨?_, hlt, htotal ▸ hlast⟩
      rw [hpos, List.getElem?_append_right (Nat.le_refl _), Nat.sub_self]
      rfl
    · rw [bind_eq_error] at h
      rcases h with h | ⟨_, _, h⟩
      · rw [hone] at hlands
        have hused : used ≤ after.length + 1 := hlands
        have hbefore : before ++ '\\' :: e :: after =
            (before ++ '\\' :: (e :: after).take used) ++ (e :: after).drop used := by
          rw [List.append_assoc, List.cons_append, List.take_append_drop]
        refine ih used hbefore ?_ h
        rw [hpos, List.length_append, List.length_cons, List.length_take, List.length_cons]
        omega
      · cases h
  | case3 pos c rest hc ih =>
    rw [bind_eq_error] at h
    rcases h with h | ⟨_, _, h⟩
    · have hbefore : raw = (before ++ [c]) ++ rest := by simp [hraw]
      exact ih hbefore (by simp [hpos]) h
    · cases h

end Ranges

/-! ## Literals -/

theorem decodeLiteral_eq_error_iff {raw : String} {unicode : Bool} {err : EscapeError} :
    decodeLiteral raw unicode = .error err ↔
      decodeFrom unicode raw.length 0 raw.toList = .error err := by
  rw [decodeLiteral, bind_eq_error]
  simp

/-- What a literal is decoded to does not depend on how it is spelled: every spelling of a text
gives the text. A literal that is not a unicode one cannot be decoded exactly when its scan comes
to a hexadecimal escape without its two digits, and that is what the failure says. The range that
a failure names in a unicode literal is one of positions of the literal and begins at a
backslash. -/
theorem escapes_decoded :
    (∀ (unicode : Bool) (raw s : String), Spelled unicode raw.toList s.toList →
      decodeLiteral raw unicode = .ok s) ∧
    (∀ (raw : String) (err : EscapeError), decodeLiteral raw false = .error err ↔
      err = .invalidHex ∧ MeetsBrokenHex raw.toList) ∧
    (∀ (raw : String) (err : EscapeError) (first last : Nat),
      decodeLiteral raw true = .error err → range? err = some (first, last) →
        first < last ∧ last < raw.length ∧ raw.toList[first]? = some '\\') := by
  refine ⟨fun _ _ _ => decodeLiteral_spelled, fun raw err => ?_,
    fun raw err first last h hrange => ?_⟩
  · rw [decodeLiteral_eq_error_iff]
    constructor
    · exact meetsBrokenHex_of_decodeFrom
    · rintro ⟨rfl, hmeets⟩
      exact decodeFrom_of_meetsBrokenHex hmeets 0
  · obtain ⟨hback, hlt, hlast⟩ := decodeFrom_range (List.nil_append _).symm rfl
      String.length_toList.symm (decodeLiteral_eq_error_iff.mp h) hrange
    exact ⟨hlt, String.length_toList ▸ hlast, hback⟩

/-- A bell between a letter and a digit, spelled by an octal digit; the line is continued before
the other digit. -/
def bellSpelling : String := "\\u0041\\7\\\n0\\x0a"

theorem spelled_bellSpelling :
    Spelled true bellSpelling.toList ['A', Char.ofNat 7, '0', '\n'] := by
  have hcode : Numeral hexAlphabets 16 ['0', '0', '4', '1'] 'A'.toNat :=
    ⟨[0, 0, 4, 1], by decide, by decide⟩
  have hoctal : Numeral octalAlphabets 8 ['7'] (Char.ofNat 7).toNat := ⟨[7], by decide, by decide⟩
  have hhex : Numeral hexAlphabets 16 ['0', 'a'] '\n'.toNat := ⟨[0, 10], by decide, by decide⟩
  refine .char (.codePoint rfl (by decide) rfl hcode) (.char
    (.octal (by decide) (by decide) hoctal ?_)
    (.continued (.char (.itself (by decide)) (.char (.hex rfl hhex) .done))))
  intro _ d hd
  cases hd
  rfl

theorem escapes_decoded_bellSpelling :
    decodeLiteral bellSpelling true = .ok (String.ofList ['A', Char.ofNat 7, '0', '\n']) ∧
      ¬ MeetsBrokenHex "\\q\\\\x4".toList ∧ MeetsBrokenHex "\\q\\x4".toList ∧
      decodeLiteral "ab\\u12" true = .error (.truncated 'u' 2 5) ∧
      2 < 5 ∧ 5 < "ab\\u12".length ∧ "ab\\u12".toList[2]? = some '\\' := by
  obtain ⟨hspelled, hbroken, hrange⟩ := escapes_decoded
  have hcut : decodeLiteral "ab\\u12" true = .error (.truncated 'u' 2 5) := by
    with_unfolding_all rfl
  refine ⟨hspelled true _ _ ?_, ?_, ?_, hcut, hrange _ _ 2 5 hcut rfl⟩
  · rw [String.toList_ofList]
    exact spelled_bellSpelling
  · intro hmeets
    have hread : decodeLiteral "\\q\\\\x4" false = .ok "\\q\\x4" := by with_unfolding_all rfl
    rw [(hbroken _ _).mpr ⟨rfl, hmeets⟩] at hread
    cases hread
  · exact ((hbroken "\\q\\x4" .invalidHex).mp (by with_unfolding_all rfl)).2

end FilterLang.Escape
