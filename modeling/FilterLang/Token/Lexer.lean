import FilterLang.Decimal.Reader
import FilterLang.Text.Blank
import FilterLang.Text.Quoted
import FilterLang.Token.Basic
/-!
From source text to tokens.

`next?` takes one token off a text that starts with a character that is not
blank; the rest is shorter (`next?_shorter`), and `scan` repeats that to the end
of the text. Two words can make one symbol: `push` joins `not` with a following
`in`, and `is` with a following `not`.
-/

namespace FilterLang

/-- A text that is not a sequence of tokens. -/
structure TokenizeError where
  /-- The whole text. -/
  text : String
  /-- How many characters stand before the one at which no token starts. -/
  index : Nat
  /-- The tokens before that place, as they are displayed. -/
  consumed : List String
deriving DecidableEq

def TokenizeError.message (e : TokenizeError) : String :=
  "failed to tokenize <<" ++ e.text ++ ">> at index " ++ toString e.index ++
    "; parsed so far: " ++ Text.debugList e.consumed

namespace Token

/-- The number with these digits before and after the point. -/
def digitsNumber (whole fraction : List Char) : Float :=
  Decimal.nearest false (whole ++ fraction) (-(fraction.length : Int))

/-- The number at the start of a text. A whole number may end in `l` or `L`,
which is not part of its lexeme. -/
def readNumber (s : List Char) : Token × List Char :=
  let whole := s.takeWhile Char.isDigit
  match s.dropWhile Char.isDigit with
  | '.' :: rest =>
    let fraction := rest.takeWhile Char.isDigit
    (.number (String.ofList (whole ++ '.' :: fraction)) (digitsNumber whole fraction),
      rest.dropWhile Char.isDigit)
  | c :: rest =>
    (.number (String.ofList whole) (digitsNumber whole []),
      if c = 'l' ∨ c = 'L' then rest else c :: rest)
  | [] => (.number (String.ofList whole) (digitsNumber whole []), [])

/-- The string whose opening quote has been read: it ends at the next quote of
the same kind. -/
def readString? (mark : Option Char) (quote : Char) (s : List Char) :
    Option (Token × List Char) :=
  match s.dropWhile (· != quote) with
  | [] => none
  | _ :: rest => some (.string mark quote (String.ofList (s.takeWhile (· != quote))), rest)

/-- The characters of a word after its first. -/
def isWordChar (c : Char) : Bool :=
  c.isAlphanum || c == '_'

/-- The token of a word: a keyword or a name. -/
def ofWord (word : String) : Token :=
  match Symbol.keyword? word with
  | some s => .symbol s
  | none => .name word

/-- The spellings that are read as one piece of punctuation, longest first.
Some of them are no symbol of the grammar. -/
def spellings : List String :=
  ["**=", ">>=", "<<=", "//=",
    "**", ">>", "<<", "<>", "!=", "//", "+=", "-=", "*=", "/=", "%=", "&=", "|=", "^=", "==",
    "<=", ">=",
    "+", "-", "*", "/", "%", "&", "|", "^", "=", "<", ">", "~", "(", ")", "[", "]", "\x7b",
    "\x7d", ":", ";", ".", ",", "`", "@"]

def readOperator? (s : List Char) : Option (Token × List Char) :=
  match spellings.find? fun p => p.toList.isPrefixOf s with
  | none => none
  | some p =>
    match Symbol.operator? p with
    | none => none
    | some sym => some (.symbol sym, s.drop p.length)

def startsQuoted : List Char → Bool
  | c :: _ => c == '\'' || c == '"'
  | [] => false

def startsDigit : List Char → Bool
  | c :: _ => c.isDigit
  | [] => false

/-- The token that starts with the character `c`, and the text after it. -/
def next? (c : Char) (rest : List Char) : Option (Token × List Char) :=
  if c.isDigit || (c == '.' && startsDigit rest) then some (readNumber (c :: rest))
  else if (c == 'u' || c == 'U') && startsQuoted rest then
    match rest with
    | quote :: body => readString? (some c) quote body
    | [] => none
  else if c == '\'' || c == '"' then readString? none c rest
  else if c.isAlpha || c == '_' then
    some (ofWord (String.ofList (c :: rest.takeWhile isWordChar)), rest.dropWhile isWordChar)
  else readOperator? (c :: rest)

theorem length_dropWhile_le (p : Char → Bool) (s : List Char) :
    (s.dropWhile p).length ≤ s.length :=
  Text.length_dropWhile_le p s

theorem readNumber_shorter {c : Char} {rest : List Char}
    (h : c.isDigit = true ∨ c = '.') : (readNumber (c :: rest)).2.length < rest.length + 1 := by
  unfold readNumber
  rcases h with h | rfl
  · simp only [List.dropWhile_cons, h, if_true]
    have hr := length_dropWhile_le Char.isDigit rest
    split
    · rename_i r hd
      have := length_dropWhile_le Char.isDigit r
      rw [hd] at hr
      simp only [List.length_cons] at hr ⊢
      omega
    · rename_i d r _ hd
      rw [hd] at hr
      simp only [List.length_cons] at hr
      split <;> simp only [List.length_cons] <;> omega
    · simp
  · have hd : ('.' :: rest).dropWhile Char.isDigit = '.' :: rest := by
      simp [show Char.isDigit '.' = false from rfl]
    rw [hd]
    have := length_dropWhile_le Char.isDigit rest
    simp only
    omega

theorem readString?_shorter {mark : Option Char} {quote : Char} {s rest : List Char} {t : Token}
    (h : readString? mark quote s = some (t, rest)) : rest.length < s.length := by
  unfold readString? at h
  have hs := length_dropWhile_le (· != quote) s
  split at h
  · simp at h
  · rename_i d r hd
    rw [hd] at hs
    simp only [Option.some.injEq, Prod.mk.injEq] at h
    obtain ⟨_, rfl⟩ := h
    simp only [List.length_cons] at hs
    omega

theorem spellings_pos : ∀ p ∈ spellings, 0 < p.length := by decide

theorem readOperator?_shorter {s rest : List Char} {t : Token} (hs : s ≠ [])
    (h : readOperator? s = some (t, rest)) : rest.length < s.length := by
  unfold readOperator? at h
  split at h
  · simp at h
  · rename_i p hp
    split at h
    · simp at h
    · simp only [Option.some.injEq, Prod.mk.injEq] at h
      obtain ⟨_, rfl⟩ := h
      have := spellings_pos p (List.mem_of_find?_eq_some hp)
      have : 0 < s.length := List.length_pos_iff.mpr hs
      simp only [List.length_drop]
      omega

/-- A token takes at least one character. -/
theorem next?_shorter {c : Char} {rest after : List Char} {t : Token}
    (h : next? c rest = some (t, after)) : after.length < rest.length + 1 := by
  unfold next? at h
  split at h
  · rename_i hc
    have hc : c.isDigit = true ∨ c = '.' := by
      simp only [Bool.or_eq_true, Bool.and_eq_true, beq_iff_eq] at hc
      exact hc.imp id And.left
    have := @readNumber_shorter c rest hc
    simp only [Option.some.injEq] at h
    rw [h] at this
    exact this
  · split at h
    · split at h
      · have := readString?_shorter h
        simp only [List.length_cons]
        omega
      · simp at h
    · split at h
      · have := readString?_shorter h
        omega
      · split at h
        · simp only [Option.some.injEq, Prod.mk.injEq] at h
          obtain ⟨_, rfl⟩ := h
          have := length_dropWhile_le isWordChar rest
          omega
        · exact readOperator?_shorter (by simp) h

/-- Puts a token on the tokens read so far, the last one first, joining two
words that make one symbol. -/
def push : List Token → Token → List Token
  | .symbol .kwNot :: acc, .symbol .kwIn => .symbol .kwNotIn :: acc
  | .symbol .kwIs :: acc, .symbol .kwNot => .symbol .kwIsNot :: acc
  | acc, t => t :: acc

/-- Reads the tokens of the rest of a text; `acc` holds the tokens before it, the
last one first. -/
def scan (text : String) (acc : List Token) (s : List Char) :
    Except TokenizeError (List Token) :=
  match _h : s.dropWhile Text.isBlank with
  | [] => .ok (stop :: acc).reverse
  | c :: rest =>
    match _h' : next? c rest with
    | none =>
      .error { text, index := text.length - (rest.length + 1)
               consumed := acc.reverse.map display }
    | some (t, after) => scan text (push acc t) after
termination_by s.length
decreasing_by
  have h1 := length_dropWhile_le Text.isBlank s
  have h2 := next?_shorter _h'
  rw [_h] at h1
  simp only [List.length_cons] at h1
  omega

end Token

/-- The tokens of a text, with an end marker after them. -/
def tokenize (text : String) : Except TokenizeError (List Token) :=
  Token.scan text [] text.toList

end FilterLang
