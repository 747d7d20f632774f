import FilterLang.Proofs.Expr.Rendering
import FilterLang.Proofs.Parser.Runs
/-!
Parsing neither drops, invents nor reorders what was written.

The signs of a token list are what is left of it without the parentheses, the commas
and the end marker, with both spellings of the inequality read as one. A successful run
of each parsing function takes a piece off the front of its tokens whose signs are those
of the tree it gives: this is an account of the parser, closed under every way it can
succeed, and so it holds of every run. A parsed expression has the signs of the tokens
that it was parsed from.
-/

namespace FilterLang

/-- What a token says: the value of a number, the content of a string and whether it is
marked as unicode text, the word of a name, the symbol of everything else. -/
inductive Sign where
  | number (value : Float)
  | string (content : String) (unicode : Bool)
  | name (word : String)
  | symbol (s : Symbol)

/-- The sign of a token. Parentheses, commas and the end marker have none, and the two
inequality signs have the same one. -/
def Token.sign? : Token → Option Sign
  | number _ value => some (.number value)
  | string mark _ content => some (.string content mark.isSome)
  | name word => some (.name word)
  | symbol .parenOpen | symbol .parenClose | symbol .comma | symbol .stop => none
  | symbol .diamond => some (.symbol .ne)
  | symbol s => some (.symbol s)

/-- The signs of a token list, in order. -/
def signs (ts : List Token) : List Sign :=
  ts.filterMap Token.sign?

@[simp] theorem signs_nil : signs [] = [] := rfl

@[simp] theorem signs_cons (t : Token) (ts : List Token) :
    signs (t :: ts) = t.sign?.toList ++ signs ts := by
  rw [signs, List.filterMap_cons]
  cases t.sign? <;> rfl

@[simp] theorem signs_append (a b : List Token) : signs (a ++ b) = signs a ++ signs b :=
  List.filterMap_append

/-- Parentheses around a part leave its signs as they are. -/
@[simp] theorem signs_fitted (need level : Nat) (ts : List Token) :
    signs (fitted need level ts) = signs ts := by
  by_cases h : need ≤ level
  · rw [fitted_of_le h]
  · rw [fitted_of_not_le h]
    simp [Token.sign?]

/-! ## The signs of a tree -/

namespace Expr

theorem signs_moreItems (items : List Expr) :
    signs (tokensMoreItems items) = signs (tokensItems items) := by
  cases items with
  | nil => rfl
  | cons e rest => simp [Token.sign?]

theorem signs_moreEntries (entries : List (Expr × Expr)) :
    signs (tokensMoreEntries entries) = signs (tokensEntries entries) := by
  cases entries with
  | nil => rfl
  | cons e rest => simp [Token.sign?]

/-- A group has the signs of its items, whether it is a tuple or the only one of them. -/
theorem signs_group (items : List Expr) (comma : Bool) :
    signs (Parser.group items comma).tokens = signs (tokensItems items) := by
  have htuple : signs (tuple items).tokens = signs (tokensItems items) := by
    have hcomma : signs (tupleComma items) = [] := by
      rcases items with _ | ⟨e, _ | ⟨e', rest⟩⟩ <;> rfl
    simp [hcomma, Token.sign?]
  rw [Parser.group.eq_def]
  split
  · simp
  · exact htuple

theorem signs_paramTokens_cons (p : String) (ps : List String) :
    signs (paramTokens (p :: ps)) = .name p :: signs (paramTokens ps) := by
  cases ps with
  | nil => rfl
  | cons q ps => simp [paramTokens, Token.sign?]

end Expr

/-! ## The signs of single tokens -/

theorem sign?_of_isComparator {t : Token} (h : t.kind.isComparator = true) :
    t.sign? = some (.symbol (CompareOp.ofSymbol t.kind).symbol) := by
  cases t with
  | symbol s => cases s <;> first | rfl | cases h
  | number | string | name => cases h

/-- The symbol of each way of opening that has only one. -/
def Opening.symbol? : Opening → Option Symbol
  | group => some .parenOpen
  | list => some .bracketOpen
  | dict => some .braceOpen
  | lambda => some .kwLambda
  | literal | constant | operator _ => none

/-- The symbol of each way of joining that has only one. -/
def Joining.symbol? : Joining → Option Symbol
  | keywordArgument => some .assign
  | conditional => some .kwIf
  | attr => some .dot
  | call => some .parenOpen
  | subscript => some .bracketOpen
  | operator _ | comparator => none

theorem token_of_opening {t : Token} {o : Opening} {s : Symbol} (h : t.kind.opening? = some o)
    (hs : o.symbol? = some s) : t = .symbol s := by
  cases t with
  | symbol u => cases u <;> cases h <;> cases hs <;> rfl
  | number | string | name => cases h; cases hs

theorem token_of_joining {t : Token} {j : Joining} {s : Symbol} (h : t.kind.joining? = some j)
    (hs : j.symbol? = some s) : t = .symbol s := by
  cases t with
  | symbol u => cases u <;> cases h <;> cases hs <;> rfl
  | number | string | name => cases h

theorem CompareOp.sign?_symbol (op : CompareOp) :
    (Token.symbol op.symbol).sign? = some (.symbol op.symbol) := by
  cases op <;> rfl

/-- A token whose kind is not that of a literal is that symbol. -/
theorem eq_symbol_of_kind {t : Token} {s : Symbol} (h : t.kind = s)
    (hs : s.opening? ≠ some .literal) : t = .symbol s := by
  subst h
  cases t with
  | symbol u => rfl
  | number | string | name => exact absurd rfl hs

namespace Parser

/-! ## What a run reads -/

/-- A piece with these signs stands at the front of the tokens, before the rest. -/
def Reads (ts : List Token) (ss : List Sign) (rest : List Token) : Prop :=
  ∃ piece, ts = piece ++ rest ∧ signs piece = ss

theorem Reads.nil (ts : List Token) : Reads ts [] ts :=
  ⟨[], rfl, rfl⟩

theorem Reads.one (t : Token) (rest : List Token) : Reads (t :: rest) t.sign?.toList rest :=
  ⟨[t], rfl, by simp⟩

theorem Reads.append {ts mid rest : List Token} {a b : List Sign} (h : Reads ts a mid)
    (h' : Reads mid b rest) : Reads ts (a ++ b) rest := by
  obtain ⟨piece, rfl, rfl⟩ := h
  obtain ⟨piece', rfl, rfl⟩ := h'
  exact ⟨piece ++ piece', by simp, by simp⟩

/-- A piece that is read after one token. -/
theorem Reads.cons {t : Token} {ts rest : List Token} {ss : List Sign} (h : Reads ts ss rest) :
    Reads (t :: ts) (t.sign?.toList ++ ss) rest :=
  (Reads.one t ts).append h

/-- A piece before a token that is read as well. -/
theorem Reads.snoc {t : Token} {ts rest : List Token} {ss : List Sign}
    (h : Reads ts ss (t :: rest)) : Reads ts (ss ++ t.sign?.toList) rest :=
  h.append (Reads.one t rest)

theorem Reads.of_eq {ts rest : List Token} {a b : List Sign} (h : Reads ts a rest) (he : b = a) :
    Reads ts b rest :=
  he ▸ h

/-- Parameters are read with the colon after them. -/
theorem reads_params (ts : List Token) :
    ∀ ps r, forget (params ts) = .ok (ps, r) →
      Reads ts (signs (Expr.paramTokens ps) ++ [.symbol .colon]) r := by
  induction ts using params.induct with
  | case1 p rest ih =>
    intro ps r h
    rw [forget_params_more] at h
    obtain ⟨⟨more, r₁⟩, h₁, h₂⟩ := Fallible.bind_eq_ok.mp h
    cases h₂
    rw [Expr.signs_paramTokens_cons]
    exact (ih more r₁ h₁).cons.cons
  | case2 p rest hc =>
    intro ps r h
    rw [forget_params_last p rest hc] at h
    obtain ⟨r₁, h₁, h₂⟩ := Fallible.bind_eq_ok.mp h
    cases h₂
    obtain ⟨u, rfl, hu⟩ := expect_eq_ok h₁
    rw [eq_symbol_of_kind hu (by decide)]
    exact (Reads.one _ _).cons
  | case3 t rest hn hc ht =>
    intro ps r h
    rw [eq_symbol_of_kind ht (by decide)] at h ⊢
    cases h
    exact Reads.one _ rest
  | case4 t rest hn hc ht =>
    intro ps r h
    rw [params.eq_3 t rest hn hc, if_neg ht] at h
    cases h
  | case5 =>
    intro ps r h
    cases h

/-- A run reads what more there is of its result than of the expression on its left. -/
def ReadsOn (left : Expr) (ts : List Token) (e : Expr) (rest : List Token) : Prop :=
  ∃ more, signs e.tokens = signs left.tokens ++ more ∧ Reads ts more rest

/-- Each parsing function reads the signs of its result, and those that read up to a
closing symbol read that one too. -/
def spelling : Account where
  expression _ ts e r := Reads ts (signs e.tokens) r
  opened t ts e r := Reads (t :: ts) (signs e.tokens) r
  extended _ left ts e r := ReadsOn left ts e r
  joined t left ts e r := ReadsOn left (t :: ts) e r
  chain ts links r := Reads ts (signs (Expr.tokensLinks links)) r
  sequence close ts x r :=
    ∃ t : Token, t.kind = close ∧ Reads ts (signs (Expr.tokensItems x.1) ++ t.sign?.toList) r
  entries ts es r := Reads ts (signs (Expr.tokensEntries es) ++ [.symbol .braceClose]) r

/-! ## Operators and literals spell their tokens -/

theorem signs_literal {t : Token} {e : Expr} (h : literal t = .ok e) :
    signs e.tokens = t.sign?.toList := by
  cases t with
  | number digits value => cases h; rfl
  | string mark quote content =>
    cases h
    cases mark <;> rfl
  | name word => cases h; rfl
  | symbol s => cases h

theorem signs_constant {t : Token} (h : t.kind.opening? = some .constant) :
    signs (constant t.kind).tokens = t.sign?.toList := by
  cases t with
  | symbol s => cases s <;> first | rfl | cases h
  | number | string | name => cases h

theorem signs_applyPrefix {t : Token} {operand e : Expr} (h : applyPrefix t operand = .ok e) :
    signs e.tokens = t.sign?.toList ++ signs operand.tokens := by
  cases t with
  | symbol s =>
    cases s <;> first | cases h; simp [UnaryOp.symbol] | cases h
  | number | string | name => cases h

theorem signs_applyInfix {t : Token} {left right e : Expr}
    (h : applyInfix t left right = .ok e) :
    signs e.tokens = signs left.tokens ++ (t.sign?.toList ++ signs right.tokens) := by
  cases t with
  | symbol s =>
    cases s <;> first | cases h; simp [BinaryOp.symbol] | cases h
  | number | string | name => cases h

theorem keywordName_eq_ok {e : Expr} {n : String} (h : keywordName e = .ok n) :
    e = .name n := by
  cases e <;> cases h
  rfl

/-! ## The account is closed -/

theorem spelling_closed : spelling.Closed where
  expression ho hx := by
    obtain ⟨more, he, hr⟩ := hx
    exact (Reads.append ho hr).of_eq he
  literal h := (Reads.one _ _).of_eq (signs_literal h)
  constant h := (Reads.one _ _).of_eq (signs_constant h)
  prefixed _ hr he := (Reads.cons hr).of_eq (signs_applyPrefix he)
  group ht hs := by
    obtain rfl := token_of_opening ht rfl
    obtain ⟨u, hu, hr⟩ := hs
    obtain rfl := eq_symbol_of_kind hu (by decide)
    exact (Reads.cons hr).of_eq (by simp [Expr.signs_group, Token.sign?])
  list ht hs := by
    obtain rfl := token_of_opening ht rfl
    obtain ⟨u, hu, hr⟩ := hs
    obtain rfl := eq_symbol_of_kind hu (by decide)
    exact (Reads.cons hr).of_eq (by simp)
  dict ht hs := by
    obtain rfl := token_of_opening ht rfl
    exact (Reads.cons hs).of_eq (by simp [Token.sign?])
  lambda ht hp hb := by
    obtain rfl := token_of_opening ht rfl
    exact ((reads_params _ _ _ hp).append hb).cons.of_eq (by simp [Token.sign?])
  stop _ := ⟨[], by simp, Reads.nil _⟩
  extend _ hj hx := by
    obtain ⟨more, he, hr⟩ := hj
    obtain ⟨more', he', hr'⟩ := hx
    exact ⟨more ++ more', by rw [he', he, List.append_assoc], hr.append hr'⟩
  infixed _ hr he := ⟨_, signs_applyInfix he, Reads.cons hr⟩
  compare {t left ts right r links r'} ht hr hc := by
    have hs := sign?_of_isComparator (t := t) (by rw [Symbol.isComparator, ht]; rfl)
    refine ⟨_, ?_, (Reads.append hr hc).cons⟩
    simp [hs, CompareOp.sign?_symbol]
  keyword ht hn hv := by
    obtain rfl := token_of_joining ht rfl
    obtain rfl := keywordName_eq_ok hn
    exact ⟨_, by simp, Reads.cons hv⟩
  conditional ht htest hu ho := by
    obtain rfl := token_of_joining ht rfl
    obtain rfl := eq_symbol_of_kind hu (by decide)
    refine ⟨_, ?_, (Reads.append htest ho.cons).cons⟩
    simp
  attr ht := by
    obtain rfl := token_of_joining ht rfl
    refine ⟨_, ?_, (Reads.one _ _).cons⟩
    simp
  call ht hs := by
    obtain rfl := token_of_joining ht rfl
    obtain ⟨u, hu, hr⟩ := hs
    obtain rfl := eq_symbol_of_kind hu (by decide)
    refine ⟨_, ?_, Reads.cons hr⟩
    simp [Token.sign?]
  subscript ht hi hu := by
    obtain rfl := token_of_joining ht rfl
    obtain rfl := eq_symbol_of_kind hu (by decide)
    refine ⟨_, ?_, (Reads.snoc hi).cons⟩
    simp
  chainStop _ := Reads.nil _
  chainLink ht hr hc := by
    refine (Reads.append hr hc).cons.of_eq ?_
    simp [sign?_of_isComparator ht, CompareOp.sign?_symbol]
  sequenceNone h := ⟨_, h, Reads.one _ _⟩
  sequenceLast he hu := by
    refine ⟨_, hu, (Reads.snoc he).of_eq ?_⟩
    simp
  sequenceMore he hs := by
    obtain ⟨u, hu, hr⟩ := hs
    refine ⟨u, hu, (Reads.append he hr.cons).of_eq ?_⟩
    simp [Expr.signs_moreItems, Token.sign?]
  entriesNone h := by
    obtain rfl := eq_symbol_of_kind h (by decide)
    exact Reads.one _ _
  entriesLast hk hc hv hu := by
    obtain rfl := eq_symbol_of_kind hc (by decide)
    obtain rfl := eq_symbol_of_kind hu (by decide)
    refine (Reads.append hk (Reads.snoc hv).cons).of_eq ?_
    simp [Token.sign?]
  entriesMore hk hc hv he := by
    obtain rfl := eq_symbol_of_kind hc (by decide)
    refine (Reads.append hk (Reads.append hv he.cons).cons).of_eq ?_
    simp [Expr.signs_moreEntries, Token.sign?]

end Parser

theorem eq_stop_of_kind {t : Token} (h : t.kind = .stop) : t = Token.stop :=
  eq_symbol_of_kind h (by decide)

/-- What a successful parse has left over starts with the end marker, if anything. -/
theorem parse_eq_ok {ts : List Token} {e : Expr} (h : parse ts = .ok e) :
    ∃ r, Parser.forget (Parser.expression 0 ts) = .ok (e, r) ∧ Parser.peek r = .stop := by
  by_cases hend : ts.getLast?.map Token.kind = some .stop
  · rw [Parser.parse_terminated hend] at h
    obtain ⟨⟨e', r⟩, h₁, h₂⟩ := Fallible.bind_eq_ok.mp h
    dsimp only at h₂
    split at h₂
    · rename_i hp
      cases h₂
      exact ⟨r, h₁, hp⟩
    · cases h₂
  · rw [Parser.parse_missingEnd hend] at h
    cases h

/-- A parsed expression says what the tokens that it was parsed from say: their signs
are the same, in the same order. -/
theorem signs_of_parse (ts : List Token) (e : Expr) (hstop : ∀ t ∈ ts.dropLast, t.kind ≠ .stop)
    (h : parse ts = .ok e) : signs ts = signs e.tokens := by
  obtain ⟨r, hr, hp⟩ := parse_eq_ok h
  obtain ⟨piece, rfl, hs⟩ := Parser.spelling_closed.runs 0 ts e r hr
  have hrest : signs r = [] := by
    cases r with
    | nil => rfl
    | cons t rest =>
      -- the end marker stands last, so nothing follows it
      cases rest with
      | nil =>
        have ht : t = Token.stop := eq_stop_of_kind hp
        rw [ht]
        rfl
      | cons u rest =>
        refine absurd hp (hstop t ?_)
        simp [List.dropLast_append_of_ne_nil]
  rw [signs_append, hs, hrest, List.append_nil]

/-- A call with a comma after its last argument, which is an inequality in its other
spelling with parentheses that it does not need. -/
def spelledCall : List Token :=
  [.name "f", .symbol .parenOpen, .symbol .parenOpen, .name "a", .symbol .parenClose,
    .symbol .diamond, .number "1.0" 1.0, .symbol .comma, .symbol .parenClose, Token.stop]

def spelledTree : Expr :=
  .call (.name "f") [.compare (.name "a") [(.ne, .number 1.0)]]

theorem parse_spelledCall : parse spelledCall = .ok spelledTree := by
  with_unfolding_all rfl

theorem signs_of_parse_spelledCall :
    parse spelledCall = .ok spelledTree ∧ signs spelledCall = signs spelledTree.tokens :=
  ⟨parse_spelledCall,
    signs_of_parse spelledCall spelledTree (by decide) parse_spelledCall⟩

end FilterLang
