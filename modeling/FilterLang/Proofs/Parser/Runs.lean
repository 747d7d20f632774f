import FilterLang.Proofs.Parser.Steps
/-!
What holds of every successful run of the parser.

An `Account` says, for each parsing function, what its arguments have to do with its
result and its rest. It is `Closed` when every way in which a function can succeed
keeps to it, given that the calls it makes do. `Closed.runs` is the induction over the
parser's own recursion, done once: a closed account holds of every successful run.
-/

namespace FilterLang.Parser

open Fallible

/-- What the arguments of each parsing function have to do with its result and its
rest. -/
structure Account where
  expression : Nat → List Token → Expr → List Token → Prop
  opened : Token → List Token → Expr → List Token → Prop
  extended : Nat → Expr → List Token → Expr → List Token → Prop
  joined : Token → Expr → List Token → Expr → List Token → Prop
  chain : List Token → List (CompareOp × Expr) → List Token → Prop
  sequence : Symbol → List Token → List Expr × Bool → List Token → Prop
  entries : List Token → List (Expr × Expr) → List Token → Prop

/-- Every way in which a parsing function can succeed keeps to the account, given that
the calls it makes do. -/
structure Account.Closed (A : Account) : Prop where
  expression {p t rest left r e r'} : A.opened t rest left r → A.extended p left r e r' →
    A.expression p (t :: rest) e r'
  literal {t ts e} : literal t = .ok e → A.opened t ts e ts
  constant {t ts} : t.kind.opening? = some .constant → A.opened t ts (constant t.kind) ts
  prefixed {t ts p operand e r} : t.kind.opening? = some (.operator p) →
    A.expression p ts operand r → applyPrefix t operand = .ok e → A.opened t ts e r
  group {t ts x r} : t.kind.opening? = some .group → A.sequence .parenClose ts x r →
    A.opened t ts (group x.1 x.2) r
  list {t ts x r} : t.kind.opening? = some .list → A.sequence .bracketClose ts x r →
    A.opened t ts (.list x.1) r
  dict {t ts es r} : t.kind.opening? = some .dict → A.entries ts es r →
    A.opened t ts (.dict es) r
  lambda {t ts ps r body r'} : t.kind.opening? = some .lambda →
    forget (params ts) = .ok (ps, r) → A.expression 0 r body r' →
    A.opened t ts (.lambda ps body) r'
  stop {p left ts} : (peek ts).power ≤ p → A.extended p left ts left ts
  extend {p left t rest e r e' r'} : p < t.kind.power → A.joined t left rest e r →
    A.extended p e r e' r' → A.extended p left (t :: rest) e' r'
  infixed {t left ts p right e r} : t.kind.joining? = some (.operator p) →
    A.expression p ts right r → applyInfix t left right = .ok e → A.joined t left ts e r
  compare {t left ts right r links r'} : t.kind.joining? = some .comparator →
    A.expression comparatorPower ts right r → A.chain r links r' →
    A.joined t left ts (.compare left ((CompareOp.ofSymbol t.kind, right) :: links)) r'
  keyword {t left ts n value r} : t.kind.joining? = some .keywordArgument →
    keywordName left = .ok n → A.expression 0 ts value r →
    A.joined t left ts (.keyword n value) r
  conditional {t left ts test u r orelse r'} : t.kind.joining? = some .conditional →
    A.expression 0 ts test (u :: r) → u.kind = .kwElse → A.expression 0 r orelse r' →
    A.joined t left ts (.conditional left test orelse) r'
  attr {t left n rest} : t.kind.joining? = some .attr →
    A.joined t left (.name n :: rest) (.attr left n) rest
  call {t left ts x r} : t.kind.joining? = some .call → A.sequence .parenClose ts x r →
    A.joined t left ts (.call left x.1) r
  subscript {t left ts index u r} : t.kind.joining? = some .subscript →
    A.expression 0 ts index (u :: r) → u.kind = .bracketClose →
    A.joined t left ts (.subscript left index) r
  chainStop {ts} : (peek ts).isComparator = false → A.chain ts [] ts
  chainLink {t rest right r links r'} : t.kind.isComparator = true →
    A.expression comparatorPower rest right r → A.chain r links r' →
    A.chain (t :: rest) ((CompareOp.ofSymbol t.kind, right) :: links) r'
  sequenceNone {close t rest} : t.kind = close → A.sequence close (t :: rest) ([], false) rest
  sequenceLast {close ts e u r} : A.expression 0 ts e (u :: r) → u.kind = close →
    A.sequence close ts ([e], false) r
  sequenceMore {close ts e rest x r} : A.expression 0 ts e (.symbol .comma :: rest) →
    A.sequence close rest x r → A.sequence close ts (e :: x.1, true) r
  entriesNone {t rest} : t.kind = .braceClose → A.entries (t :: rest) [] rest
  entriesLast {ts k c r v u r'} : A.expression 0 ts k (c :: r) → c.kind = .colon →
    A.expression 0 r v (u :: r') → u.kind = .braceClose → A.entries ts [(k, v)] r'
  entriesMore {ts k c r v rest es r'} : A.expression 0 ts k (c :: r) → c.kind = .colon →
    A.expression 0 r v (.symbol .comma :: rest) → A.entries rest es r' →
    A.entries ts ((k, v) :: es) r'

/-! ## The bounds of a rest -/

theorem forget_bound {α : Type} {P : List Token → Prop}
    {x : Except ParseError (α × { r : List Token // P r })} {a : α} {r : List Token}
    (h : forget x = .ok (a, r)) : P r := by
  obtain ⟨⟩ | ⟨b, q, hq⟩ := x
  · cases h
  · cases h
    exact hq

theorem forgetRest_bound {P : List Token → Prop}
    {x : Except ParseError { r : List Token // P r }} {r : List Token}
    (h : forgetRest x = .ok r) : P r := by
  obtain ⟨⟩ | ⟨q, hq⟩ := x
  · cases h
  · cases h
    exact hq

/-! ## Runs

Each lemma below takes apart one way in which a function succeeds, along the equations
of the parser's steps, and hands the pieces to the account. -/

namespace Account

variable (A : Account)

/-- The account holds of `expression` at these arguments. -/
def OfExpression (p : Nat) (ts : List Token) : Prop :=
  ∀ e r, forget (Parser.expression p ts) = .ok (e, r) → A.expression p ts e r

/-- The account holds of `extended` at these arguments. -/
def OfExtended (p : Nat) (left : Expr) (ts : List Token) : Prop :=
  ∀ e r, forget (Parser.extended p left ts) = .ok (e, r) → A.extended p left ts e r

/-- The account holds of `joined` at these arguments. -/
def OfJoined (t : Token) (left : Expr) (ts : List Token) : Prop :=
  ∀ e r, forget (Parser.joined t left ts) = .ok (e, r) → A.joined t left ts e r

/-- The account holds of `sequence` at these arguments. -/
def OfSequence (close : Symbol) (ts : List Token) : Prop :=
  ∀ x r, forget (Parser.sequence close ts) = .ok (x, r) → A.sequence close ts x r

/-- The account holds of `chain` at these arguments. -/
def OfChain (ts : List Token) : Prop :=
  ∀ links r, forget (Parser.chain ts) = .ok (links, r) → A.chain ts links r

/-- The account holds of `opened` at these arguments. -/
def OfOpened (t : Token) (ts : List Token) : Prop :=
  ∀ e r, forget (Parser.opened t ts) = .ok (e, r) → A.opened t ts e r

/-- The account holds of `entries` at these arguments. -/
def OfEntries (ts : List Token) : Prop :=
  ∀ es r, forget (Parser.entries ts) = .ok (es, r) → A.entries ts es r

end Account

namespace Account.Closed

variable {A : Account} (c : A.Closed)
include c

theorem ofExpression_cons {p : Nat} {t : Token} {rest : List Token} (ho : A.OfOpened t rest)
    (he : ∀ left r, r.length ≤ rest.length → A.OfExtended p left r) :
    A.OfExpression p (t :: rest) := by
  intro e r h
  rw [forget_expression] at h
  obtain ⟨⟨left, r₁⟩, h₁, h₂⟩ := bind_eq_ok.mp h
  exact c.expression (ho left r₁ h₁) (he left r₁ (forget_bound h₁) e r h₂)

theorem ofExtended_stop {p : Nat} {left : Expr} {ts : List Token} (hp : (peek ts).power ≤ p) :
    A.OfExtended p left ts := by
  intro e r h
  rw [forget_extended_stop p left ts hp] at h
  cases h
  exact c.stop hp

theorem ofExtended_cons {p : Nat} {left : Expr} {t : Token} {rest : List Token}
    (hp : p < t.kind.power) (hj : A.OfJoined t left rest)
    (he : ∀ e r, r.length ≤ rest.length → A.OfExtended p e r) :
    A.OfExtended p left (t :: rest) := by
  intro e r h
  rw [forget_extended p left t rest hp] at h
  obtain ⟨⟨e₁, r₁⟩, h₁, h₂⟩ := bind_eq_ok.mp h
  exact c.extend hp (hj e₁ r₁ h₁) (he e₁ r₁ (forget_bound h₁) e r h₂)

section Joined

variable {t : Token} {left : Expr} {ts : List Token}

theorem ofJoined_operator {p : Nat} (ht : t.kind.joining? = some (.operator p))
    (hr : A.OfExpression p ts) : A.OfJoined t left ts := by
  intro e r h
  rw [forget_joined_operator ht] at h
  obtain ⟨⟨right, r₁⟩, h₁, h₂⟩ := bind_eq_ok.mp h
  obtain ⟨e₁, h₃, h₄⟩ := bind_eq_ok.mp h₂
  cases h₄
  exact c.infixed ht (hr right r₁ h₁) h₃

theorem ofJoined_comparator (ht : t.kind.joining? = some .comparator)
    (hr : A.OfExpression comparatorPower ts)
    (hc : ∀ r, r.length < ts.length → A.OfChain r) : A.OfJoined t left ts := by
  intro e r h
  rw [forget_joined_comparator ht] at h
  obtain ⟨⟨right, r₁⟩, h₁, h₂⟩ := bind_eq_ok.mp h
  obtain ⟨⟨links, r₂⟩, h₃, h₄⟩ := bind_eq_ok.mp h₂
  cases h₄
  exact c.compare ht (hr right r₁ h₁) (hc r₁ (forget_bound h₁) links r₂ h₃)

theorem ofJoined_keyword (ht : t.kind.joining? = some .keywordArgument)
    (hv : A.OfExpression 0 ts) : A.OfJoined t left ts := by
  intro e r h
  rw [forget_joined_keyword ht] at h
  obtain ⟨n, h₁, h₂⟩ := bind_eq_ok.mp h
  obtain ⟨⟨value, r₁⟩, h₃, h₄⟩ := bind_eq_ok.mp h₂
  cases h₄
  exact c.keyword ht h₁ (hv value r₁ h₃)

theorem ofJoined_conditional (ht : t.kind.joining? = some .conditional)
    (htest : A.OfExpression 0 ts)
    (helse : ∀ r : List Token, r.length < ts.length →
      ∀ r' : List Token, r'.length ≤ r.length → A.OfExpression 0 r') :
    A.OfJoined t left ts := by
  intro e r h
  rw [forget_joined_conditional ht] at h
  obtain ⟨⟨test, r₁⟩, h₁, h₂⟩ := bind_eq_ok.mp h
  obtain ⟨r₂, h₃, h₄⟩ := bind_eq_ok.mp h₂
  obtain ⟨⟨orelse, r₃⟩, h₅, h₆⟩ := bind_eq_ok.mp h₄
  cases h₆
  have ho := helse r₁ (forget_bound h₁) r₂ (forgetRest_bound h₃) orelse r₃ h₅
  obtain ⟨u, rfl, hu⟩ := expect_eq_ok h₃
  exact c.conditional ht (htest test _ h₁) hu ho

theorem ofJoined_attr (ht : t.kind.joining? = some .attr) : A.OfJoined t left ts := by
  intro e r h
  obtain ⟨n, rfl, rfl⟩ := joined_attr_eq_ok ht h
  exact c.attr ht

theorem ofJoined_call (ht : t.kind.joining? = some .call)
    (hs : A.OfSequence .parenClose ts) : A.OfJoined t left ts := by
  intro e r h
  rw [forget_joined_call ht] at h
  obtain ⟨⟨x, r₁⟩, h₁, h₂⟩ := bind_eq_ok.mp h
  cases h₂
  exact c.call ht (hs x r₁ h₁)

theorem ofJoined_subscript (ht : t.kind.joining? = some .subscript)
    (hi : A.OfExpression 0 ts) : A.OfJoined t left ts := by
  intro e r h
  rw [forget_joined_subscript ht] at h
  obtain ⟨⟨index, r₁⟩, h₁, h₂⟩ := bind_eq_ok.mp h
  obtain ⟨r₂, h₃, h₄⟩ := bind_eq_ok.mp h₂
  cases h₄
  obtain ⟨u, rfl, hu⟩ := expect_eq_ok h₃
  exact c.subscript ht (hi index _ h₁) hu

end Joined

section Opened

variable {t : Token} {ts : List Token}

theorem ofOpened_literal (ht : t.kind.opening? = some .literal) : A.OfOpened t ts := by
  intro e r h
  rw [forget_opened_literal ht] at h
  obtain ⟨e₁, h₁, h₂⟩ := bind_eq_ok.mp h
  cases h₂
  exact c.literal h₁

theorem ofOpened_constant (ht : t.kind.opening? = some .constant) : A.OfOpened t ts := by
  intro e r h
  rw [forget_opened_constant ht] at h
  cases h
  exact c.constant ht

theorem ofOpened_operator {p : Nat} (ht : t.kind.opening? = some (.operator p))
    (ho : A.OfExpression p ts) : A.OfOpened t ts := by
  intro e r h
  rw [forget_opened_operator ht] at h
  obtain ⟨⟨operand, r₁⟩, h₁, h₂⟩ := bind_eq_ok.mp h
  obtain ⟨e₁, h₃, h₄⟩ := bind_eq_ok.mp h₂
  cases h₄
  exact c.prefixed ht (ho operand r₁ h₁) h₃

theorem ofOpened_group (ht : t.kind.opening? = some .group)
    (hs : A.OfSequence .parenClose ts) : A.OfOpened t ts := by
  intro e r h
  rw [forget_opened_group ht] at h
  obtain ⟨⟨x, r₁⟩, h₁, h₂⟩ := bind_eq_ok.mp h
  cases h₂
  exact c.group ht (hs x r₁ h₁)

theorem ofOpened_list (ht : t.kind.opening? = some .list)
    (hs : A.OfSequence .bracketClose ts) : A.OfOpened t ts := by
  intro e r h
  rw [forget_opened_list ht] at h
  obtain ⟨⟨x, r₁⟩, h₁, h₂⟩ := bind_eq_ok.mp h
  cases h₂
  exact c.list ht (hs x r₁ h₁)

theorem ofOpened_dict (ht : t.kind.opening? = some .dict) (he : A.OfEntries ts) :
    A.OfOpened t ts := by
  intro e r h
  rw [forget_opened_dict ht] at h
  obtain ⟨⟨es, r₁⟩, h₁, h₂⟩ := bind_eq_ok.mp h
  cases h₂
  exact c.dict ht (he es r₁ h₁)

theorem ofOpened_lambda (ht : t.kind.opening? = some .lambda)
    (hb : ∀ r : List Token, r.length ≤ ts.length → A.OfExpression 0 r) : A.OfOpened t ts := by
  intro e r h
  rw [forget_opened_lambda ht] at h
  obtain ⟨⟨ps, r₁⟩, h₁, h₂⟩ := bind_eq_ok.mp h
  obtain ⟨⟨body, r₂⟩, h₃, h₄⟩ := bind_eq_ok.mp h₂
  cases h₄
  exact c.lambda ht h₁ (hb r₁ (forget_bound h₁) body r₂ h₃)

end Opened

theorem ofChain_stop {ts : List Token} (hts : (peek ts).isComparator = false) :
    A.OfChain ts := by
  intro links r h
  rw [forget_chain_stop ts hts] at h
  cases h
  exact c.chainStop hts

theorem ofChain_cons {t : Token} {rest : List Token} (ht : t.kind.isComparator = true)
    (hr : A.OfExpression comparatorPower rest)
    (hc : ∀ r : List Token, r.length < rest.length → A.OfChain r) : A.OfChain (t :: rest) := by
  intro links r h
  rw [forget_chain t rest ht] at h
  obtain ⟨⟨right, r₁⟩, h₁, h₂⟩ := bind_eq_ok.mp h
  obtain ⟨⟨more, r₂⟩, h₃, h₄⟩ := bind_eq_ok.mp h₂
  cases h₄
  exact c.chainLink ht (hr right r₁ h₁) (hc r₁ (forget_bound h₁) more r₂ h₃)

theorem ofSequence_close {ts : List Token} : A.OfSequence (peek ts) ts := by
  intro x r h
  cases ts with
  | nil =>
    rw [forget_sequence_nil] at h
    cases h
  | cons t rest =>
    have hp : t.kind = peek (t :: rest) := rfl
    rw [forget_sequence_close _ t rest hp] at h
    cases h
    exact c.sequenceNone hp

theorem ofSequence_item {close : Symbol} {ts : List Token} (hts : peek ts ≠ close)
    (he : A.OfExpression 0 ts)
    (hs : ∀ rest : List Token, (Token.symbol .comma :: rest).length < ts.length →
      A.OfSequence close rest) : A.OfSequence close ts := by
  intro x r h
  rw [forget_sequence close ts hts] at h
  obtain ⟨⟨e, r₁⟩, h₁, h₂⟩ := bind_eq_ok.mp h
  have hb := forget_bound h₁
  by_cases hr : ∃ rest, r₁ = .symbol .comma :: rest
  · obtain ⟨rest, rfl⟩ := hr
    dsimp only at h₂
    rw [sequenceTail_comma] at h₂
    obtain ⟨⟨y, r₂⟩, h₃, h₄⟩ := bind_eq_ok.mp h₂
    cases h₄
    exact c.sequenceMore (he e _ h₁) (hs rest hb y r₂ h₃)
  · dsimp only at h₂
    rw [sequenceTail_end close e r₁ fun rest hc => hr ⟨rest, hc⟩] at h₂
    obtain ⟨r₂, h₃, h₄⟩ := bind_eq_ok.mp h₂
    cases h₄
    obtain ⟨u, rfl, hu⟩ := expect_eq_ok h₃
    exact c.sequenceLast (he e _ h₁) hu

theorem ofEntries_close {ts : List Token} (hts : peek ts = .braceClose) : A.OfEntries ts := by
  intro es r h
  cases ts with
  | nil => cases hts
  | cons t rest =>
    rw [forget_entries_close t rest hts] at h
    cases h
    exact c.entriesNone hts

theorem ofEntries_entry {ts : List Token} (hts : peek ts ≠ .braceClose)
    (hk : A.OfExpression 0 ts)
    (hv : ∀ r₁ : List Token, r₁.length < ts.length → ∀ r₂ : List Token,
      r₂.length ≤ r₁.length → A.OfExpression 0 r₂)
    (hm : ∀ r₁ : List Token, r₁.length < ts.length → ∀ r₂ : List Token,
      r₂.length ≤ r₁.length → ∀ rest : List Token,
        (Token.symbol .comma :: rest).length < r₂.length → A.OfEntries rest) :
    A.OfEntries ts := by
  intro es r h
  rw [forget_entries ts hts] at h
  obtain ⟨⟨k, r₁⟩, h₁, h⟩ := bind_eq_ok.mp h
  obtain ⟨r₂, h₂, h⟩ := bind_eq_ok.mp h
  obtain ⟨⟨v, r₃⟩, h₃, h⟩ := bind_eq_ok.mp h
  have hb₁ := forget_bound h₁
  have hb₂ := forgetRest_bound h₂
  have hb₃ := forget_bound h₃
  have hvalue := hv r₁ hb₁ r₂ hb₂ v r₃ h₃
  obtain ⟨colon, rfl, hcolon⟩ := expect_eq_ok h₂
  have hkey := hk k _ h₁
  dsimp only at h
  by_cases hr : ∃ rest, r₃ = .symbol .comma :: rest
  · obtain ⟨rest, rfl⟩ := hr
    rw [entriesTail_comma] at h
    obtain ⟨⟨more, r₄⟩, h₄, h₅⟩ := bind_eq_ok.mp h
    cases h₅
    exact c.entriesMore hkey hcolon hvalue (hm _ hb₁ _ hb₂ rest hb₃ more r₄ h₄)
  · rw [entriesTail_end k v r₃ fun rest hc => hr ⟨rest, hc⟩] at h
    obtain ⟨r₄, h₄, h₅⟩ := bind_eq_ok.mp h
    cases h₅
    obtain ⟨u, rfl, hu⟩ := expect_eq_ok h₄
    exact c.entriesLast hkey hcolon hvalue hu

/-- A closed account holds of every successful run of the parser. -/
theorem runs (p : Nat) (ts : List Token) : A.OfExpression p ts := by
  -- the cases come in the order in which the functions and their branches are defined
  refine (expression.mutual_induct A.OfExpression A.OfExtended A.OfJoined A.OfSequence A.OfChain
    A.OfOpened A.OfEntries ?_ ?_ ?_ ?_ ?_ ?_ ?_ ?_ ?_ ?_ ?_ ?_ ?_ ?_ ?_ ?_ ?_ ?_ ?_ ?_ ?_ ?_ ?_
    ?_ ?_ ?_ ?_ ?_ ?_).1 p ts
  · intro p e r h
    rw [forget_expression_nil] at h
    cases h
  · intro p t rest ho he
    exact c.ofExpression_cons ho he
  · intro p left
    exact c.ofExtended_stop (Nat.zero_le p)
  · intro p left t rest hp hj he
    exact c.ofExtended_cons hp hj he
  · intro p left t rest hp
    exact c.ofExtended_stop (Nat.not_lt.mp hp)
  · intro t left ts ht e r h
    rw [forget_joined_none ht] at h
    cases h
  · intro t left ts p ht hr
    exact c.ofJoined_operator ht hr
  · intro t left ts ht hr hc
    exact c.ofJoined_comparator ht hr hc
  · intro t left ts ht hv
    exact c.ofJoined_keyword ht hv
  · intro t left ts ht htest helse
    exact c.ofJoined_conditional ht htest helse
  · intro t left ht n rest
    exact c.ofJoined_attr ht
  · intro t left ht ts _
    exact c.ofJoined_attr ht
  · intro t left ts ht hs
    exact c.ofJoined_call ht hs
  · intro t left ts ht hi
    exact c.ofJoined_subscript ht hi
  · intro ts
    exact c.ofSequence_close
  · intro close ts hts he hs
    exact c.ofSequence_item hts he fun rest hb => hs [] rest hb
  · exact c.ofChain_stop rfl
  · intro t rest ht hr hc
    exact c.ofChain_cons ht hr hc
  · intro t rest ht
    exact c.ofChain_stop (Bool.not_eq_true _ ▸ ht)
  · intro t ts ht e r h
    rw [forget_opened_none ht] at h
    cases h
  · intro t ts ht
    exact c.ofOpened_literal ht
  · intro t ts ht
    exact c.ofOpened_constant ht
  · intro t ts p ht ho
    exact c.ofOpened_operator ht ho
  · intro t ts ht hs
    exact c.ofOpened_group ht hs
  · intro t ts ht hs
    exact c.ofOpened_list ht hs
  · intro t ts ht he
    exact c.ofOpened_dict ht he
  · intro t ts ht hb
    exact c.ofOpened_lambda ht hb
  · intro ts hts
    exact c.ofEntries_close hts
  · intro ts hts hk hv hm
    exact c.ofEntries_entry hts hk hv fun r₁ hb₁ r₂ hb₂ rest hb => hm r₁ hb₁ r₂ hb₂ [] rest hb

end Account.Closed

end FilterLang.Parser
