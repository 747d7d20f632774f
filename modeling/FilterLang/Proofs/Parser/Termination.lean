import FilterLang.Proofs.Parser.Following
import FilterLang.Proofs.Parser.Framing
/-!
The cursor parser ends, and stays within its tokens.

An end marker has no binding power, joins nothing and opens nothing: the parser takes the last
token only where an expression has to begin, and fails at once. There is one lemma for each way in
which the parser goes on, and the induction is the one over the recursion of the parser over the
list of tokens.
-/

namespace FilterLang.Cursor

open Fallible
open FilterLang.Parser (forget)

/-! ## The parts of the parser -/

-- every proof below asks for these equations, so they are made here once
attribute [local simp] params expression opened extended joined chain sequence entries

section Parts

variable {ts : List Token}

/-- Parameters need no more fuel than there are tokens. -/
theorem follows_params (hend : Terminated ts) (s : List Token) :
    ∀ fuel, s.length ≤ fuel →
      Follows ts s s.length s.length (forget (Parser.params s)) (params fuel) := by
  induction s using Parser.params.induct with
  | case1 p rest ih =>
    intro fuel hfuel
    obtain _ | fuel := fuel
    · simp at hfuel
    rw [Parser.forget_params_more, params]
    refine .current_bind ?_
    rw [if_neg (by simp [Token.kind])]
    refine .turn_bind (.take_bind hend (by simp [Token.kind]) (.current_bind ?_))
    rw [if_pos (by rfl)]
    refine (Follows.take_bind hend (by simp [Token.kind]) ?_).weaken
    simp only [List.length_cons] at hfuel
    exact (ih fuel (by omega)).map (p :: ·)
  | case2 p rest hne =>
    intro fuel hfuel
    obtain _ | fuel := fuel
    · simp at hfuel
    rw [Parser.forget_params_last p rest hne, params]
    refine .current_bind ?_
    rw [if_neg (by simp [Token.kind])]
    refine .turn_bind (.take_bind hend (by simp [Token.kind]) ?_)
    cases rest with
    | nil => exact .nil
    | cons u rest =>
      refine .current_bind ?_
      have hu : u.kind ≠ .comma := fun hu =>
        hne rest (by rw [eq_symbol_of_kind hu (by decide)])
      rw [if_neg hu]
      exact .expect_last hend (by decide) [p]
  | case3 t rest _ hname ht =>
    intro fuel hfuel
    obtain _ | fuel := fuel
    · simp at hfuel
    rw [eq_symbol_of_kind ht (by decide), params]
    refine .current_bind ?_
    rw [if_pos (by rfl)]
    exact .expect_found hend (by decide) rfl []
  | case4 t rest _ hname ht =>
    intro fuel hfuel
    obtain _ | fuel := fuel
    · simp at hfuel
    rw [Parser.forget_params_other t rest hname ht, params]
    refine .current_bind ?_
    rw [if_neg ht]
    refine .turn_bind ?_
    cases t with
    | name p => exact absurd rfl (hname p)
    | number | string | symbol => exact .error _
  | case5 =>
    intro fuel hfuel
    exact .nil

/-! ### Expressions -/

/-- From the tokens `s` on, `expression` keeps to the list parser. -/
def OfExpression (ts : List Token) (p : Nat) (s : List Token) : Prop :=
  ∀ fuel, 4 * s.length ≤ fuel →
    Follows ts s s.length (s.length - 1) (forget (Parser.expression p s)) (expression fuel p)

/-- From the tokens `s` on, `extended` keeps to the list parser. -/
def OfExtended (ts : List Token) (p : Nat) (left : Expr) (s : List Token) : Prop :=
  ∀ fuel, 4 * s.length ≤ fuel →
    Follows ts s s.length s.length (forget (Parser.extended p left s)) (extended fuel p left)

/-- From the tokens `s` on, `joined` keeps to the list parser. -/
def OfJoined (ts : List Token) (t : Token) (left : Expr) (s : List Token) : Prop :=
  ∀ fuel, 4 * s.length + 2 ≤ fuel →
    Follows ts s s.length s.length (forget (Parser.joined t left s)) (joined (fuel + 1) t left)

/-- From the tokens `s` on, `sequence` keeps to the list parser. -/
def OfSequence (ts : List Token) (close : Symbol) (s : List Token) : Prop :=
  close ≠ .stop → ∀ fuel, 4 * s.length + 2 ≤ fuel →
    Follows ts s s.length s.length (forget (Parser.sequence close s)) (sequence fuel close)

/-- From the tokens `s` on, `chain` keeps to the list parser. -/
def OfChain (ts : List Token) (s : List Token) : Prop :=
  ∀ fuel, 4 * s.length ≤ fuel →
    Follows ts s s.length s.length (forget (Parser.chain s)) (chain fuel)

/-- From the tokens `s` on, `opened` keeps to the list parser. -/
def OfOpened (ts : List Token) (t : Token) (s : List Token) : Prop :=
  ∀ fuel, 4 * s.length + 2 ≤ fuel →
    Follows ts s s.length s.length (forget (Parser.opened t s)) (opened (fuel + 1) t)

/-- From the tokens `s` on, `entries` keeps to the list parser. -/
def OfEntries (ts : List Token) (s : List Token) : Prop :=
  ∀ fuel, 4 * s.length + 2 ≤ fuel →
    Follows ts s s.length s.length (forget (Parser.entries s)) (entries fuel)

theorem ofExpression_cons (hend : Terminated ts) {p : Nat} {t : Token} {rest : List Token} (ho : OfOpened ts t rest)
    (he : ∀ left r, r.length ≤ rest.length → OfExtended ts p left r) :
    OfExpression ts p (t :: rest) := by
  intro fuel hfuel
  simp only [List.length_cons] at hfuel
  obtain _ | fuel := fuel
  · omega
  obtain _ | fuel := fuel
  · omega
  rw [Parser.forget_expression, expression]
  refine .entered ?_
  -- only a token that opens nothing can be the last one, where the cursor stands still
  by_cases ht : t.kind.opening? = none
  · rw [Parser.forget_opened_none ht]
    refine .advance_fails fun pos => ?_
    rw [opened, ht]
    rfl
  · refine .advance_bind hend (Parser.ne_stop_of_opening ht) ?_
    refine (ho fuel (by omega)).bind fun left r hr => ?_
    have hlen := Parser.forget_bound hr
    exact he left r hlen (fuel + 1) (by omega)

theorem ofExtended_stop {p : Nat} {left : Expr} {s : List Token}
    (hp : (Parser.peek s).power ≤ p) : OfExtended ts p left s := by
  intro fuel hfuel
  cases s with
  | nil => exact .nil
  | cons t rest =>
    simp only [List.length_cons] at hfuel
    obtain _ | fuel := fuel
    · omega
    rw [Parser.forget_extended_stop p left _ hp, extended]
    refine .current_bind ?_
    rw [if_neg (show ¬ p < t.kind.power from Nat.not_lt.mpr hp)]
    exact .ok left

theorem ofExtended_cons (hend : Terminated ts) {p : Nat} {left : Expr} {t : Token} {rest : List Token}
    (hp : p < t.kind.power) (hj : OfJoined ts t left rest)
    (he : ∀ e r, r.length ≤ rest.length → OfExtended ts p e r) :
    OfExtended ts p left (t :: rest) := by
  intro fuel hfuel
  simp only [List.length_cons] at hfuel
  obtain _ | fuel := fuel
  · omega
  obtain _ | fuel := fuel
  · omega
  rw [Parser.forget_extended p left t rest hp, extended]
  refine .current_bind ?_
  rw [if_pos hp]
  refine .turn_bind (.take_bind hend (Parser.ne_stop_of_power hp) ?_)
  refine (hj fuel (by omega)).bind fun e r hr => ?_
  have hlen := Parser.forget_bound hr
  exact he e r hlen (fuel + 1) (by omega)

section Joined

variable {t : Token} {left : Expr} {s : List Token}

theorem ofJoined_none (ht : t.kind.joining? = none) : OfJoined ts t left s := by
  intro fuel hfuel
  rw [Parser.forget_joined_none ht, joined, ht]
  exact .error _

theorem ofJoined_operator {p : Nat} (ht : t.kind.joining? = some (.operator p))
    (hr : OfExpression ts p s) : OfJoined ts t left s := by
  intro fuel hfuel
  rw [Parser.forget_joined_operator ht, joined, ht]
  exact (hr fuel (by omega)).weaken.bind fun right r _ => .settled _

theorem ofJoined_comparator (ht : t.kind.joining? = some .comparator)
    (hr : OfExpression ts comparatorPower s)
    (hc : ∀ r, r.length < s.length → OfChain ts r) : OfJoined ts t left s := by
  intro fuel hfuel
  rw [Parser.forget_joined_comparator ht, joined, ht]
  refine (hr fuel (by omega)).weaken.bind fun right r hread => ?_
  have hlen := Parser.forget_bound hread
  exact (hc r hlen fuel (by omega)).map fun links =>
    Expr.compare left ((CompareOp.ofSymbol t.kind, right) :: links)

theorem ofJoined_keyword (ht : t.kind.joining? = some .keywordArgument)
    (hv : OfExpression ts 0 s) : OfJoined ts t left s := by
  intro fuel hfuel
  rw [Parser.forget_joined_keyword ht, joined, ht]
  exact .settled_bind fun n _ => (hv fuel (by omega)).weaken.map (Expr.keyword n)

theorem ofJoined_conditional (hend : Terminated ts) (ht : t.kind.joining? = some .conditional)
    (htest : OfExpression ts 0 s)
    (helse : ∀ r : List Token, r.length < s.length →
      ∀ r' : List Token, r'.length ≤ r.length → OfExpression ts 0 r') :
    OfJoined ts t left s := by
  intro fuel hfuel
  rw [Parser.forget_joined_conditional ht, joined, ht]
  refine (htest fuel (by omega)).weaken.bind fun test r hread => ?_
  refine .expect_bind hend (by decide) fun r' hr' => ?_
  have hlen := Parser.forget_bound hread
  have hlen' := Parser.forgetRest_bound hr'
  exact (helse r hlen r' hlen' fuel (by omega)).weaken.map (Expr.conditional left test)

theorem ofJoined_attr_name (hend : Terminated ts) {n : String} {rest : List Token}
    (ht : t.kind.joining? = some .attr) : OfJoined ts t left (.name n :: rest) := by
  intro fuel hfuel
  rw [Parser.forget_joined_attr n rest ht, joined, ht]
  refine .current_bind (Follows.weaken (.take_bind hend ?_ (.ok _)))
  simp [Token.kind]

theorem ofJoined_attr_other (ht : t.kind.joining? = some .attr)
    (hs : ∀ n rest, s ≠ .name n :: rest) : OfJoined ts t left s := by
  intro fuel hfuel
  cases s with
  | nil => exact .nil
  | cons u rest =>
    rw [Parser.forget_joined_attr_other ht hs, joined, ht]
    refine .current_bind ?_
    cases u with
    | name n => exact absurd rfl (hs n rest)
    | number | string | symbol => exact .error _

theorem ofJoined_call (ht : t.kind.joining? = some .call)
    (hs : OfSequence ts .parenClose s) : OfJoined ts t left s := by
  intro fuel hfuel
  rw [Parser.forget_joined_call ht, joined, ht]
  exact (hs (by decide) fuel (by omega)).map fun x => Expr.call left x.1

theorem ofJoined_subscript (hend : Terminated ts) (ht : t.kind.joining? = some .subscript)
    (hi : OfExpression ts 0 s) : OfJoined ts t left s := by
  intro fuel hfuel
  rw [Parser.forget_joined_subscript ht, joined, ht]
  refine (hi fuel (by omega)).weaken.bind fun index r _ => ?_
  exact .expect_last hend (by decide) (Expr.subscript left index)

end Joined

section Opened

variable {t : Token} {s : List Token}

theorem ofOpened_none (ht : t.kind.opening? = none) : OfOpened ts t s := by
  intro fuel hfuel
  rw [Parser.forget_opened_none ht, opened, ht]
  exact .error _

theorem ofOpened_literal (ht : t.kind.opening? = some .literal) : OfOpened ts t s := by
  intro fuel hfuel
  rw [Parser.forget_opened_literal ht, opened, ht]
  exact .settled _

theorem ofOpened_constant (ht : t.kind.opening? = some .constant) : OfOpened ts t s := by
  intro fuel hfuel
  rw [Parser.forget_opened_constant ht, opened, ht]
  exact .ok _

theorem ofOpened_operator {p : Nat} (ht : t.kind.opening? = some (.operator p))
    (ho : OfExpression ts p s) : OfOpened ts t s := by
  intro fuel hfuel
  rw [Parser.forget_opened_operator ht, opened, ht]
  exact (ho fuel (by omega)).weaken.bind fun operand r _ => .settled _

theorem ofOpened_group (ht : t.kind.opening? = some .group)
    (hs : OfSequence ts .parenClose s) : OfOpened ts t s := by
  intro fuel hfuel
  rw [Parser.forget_opened_group ht, opened, ht]
  exact (hs (by decide) fuel (by omega)).map fun x => Parser.group x.1 x.2

theorem ofOpened_list (ht : t.kind.opening? = some .list)
    (hs : OfSequence ts .bracketClose s) : OfOpened ts t s := by
  intro fuel hfuel
  rw [Parser.forget_opened_list ht, opened, ht]
  exact (hs (by decide) fuel (by omega)).map fun x => Expr.list x.1

theorem ofOpened_dict (ht : t.kind.opening? = some .dict) (he : OfEntries ts s) :
    OfOpened ts t s := by
  intro fuel hfuel
  rw [Parser.forget_opened_dict ht, opened, ht]
  exact (he fuel (by omega)).map Expr.dict

theorem ofOpened_lambda (hend : Terminated ts) (ht : t.kind.opening? = some .lambda)
    (hb : ∀ r : List Token, r.length ≤ s.length → OfExpression ts 0 r) : OfOpened ts t s := by
  intro fuel hfuel
  rw [Parser.forget_opened_lambda ht, opened, ht]
  refine (follows_params hend s fuel (by omega)).bind fun ps r hr => ?_
  have hlen := Parser.forget_bound hr
  exact (hb r hlen fuel (by omega)).weaken.map (Expr.lambda ps)

end Opened

theorem ofChain_stop {s : List Token} (hs : (Parser.peek s).isComparator = false) :
    OfChain ts s := by
  intro fuel hfuel
  cases s with
  | nil => exact .nil
  | cons t rest =>
    simp only [List.length_cons] at hfuel
    obtain _ | fuel := fuel
    · omega
    rw [Parser.forget_chain_stop _ hs, chain]
    refine .current_bind ?_
    rw [if_neg (by rw [show t.kind.isComparator = false from hs]; decide)]
    exact .ok []

theorem ofChain_cons (hend : Terminated ts) {t : Token} {rest : List Token} (ht : t.kind.isComparator = true)
    (hr : OfExpression ts comparatorPower rest)
    (hc : ∀ r : List Token, r.length < rest.length → OfChain ts r) : OfChain ts (t :: rest) := by
  intro fuel hfuel
  simp only [List.length_cons] at hfuel
  obtain _ | fuel := fuel
  · omega
  have hstop : t.kind ≠ .stop := by
    intro h
    rw [h] at ht
    cases ht
  rw [Parser.forget_chain t rest ht, chain]
  refine .current_bind ?_
  rw [if_pos ht]
  refine .turn_bind (.take_bind hend hstop ?_)
  refine (hr fuel (by omega)).weaken.bind fun right r hread => ?_
  have hlen := Parser.forget_bound hread
  exact (hc r hlen fuel (by omega)).map ((CompareOp.ofSymbol t.kind, right) :: ·)

theorem ofSequence_close (hend : Terminated ts) {close : Symbol} {s : List Token}
    (hs : Parser.peek s = close) : OfSequence ts close s := by
  intro hclose fuel hfuel
  obtain _ | fuel := fuel
  · omega
  cases s with
  | nil => exact .nil
  | cons t rest =>
    have ht : t.kind = close := hs
    rw [Parser.forget_sequence_close _ t rest ht, sequence]
    refine .current_bind ?_
    rw [if_pos ht]
    exact .expect_found hend hclose ht ([], false)

theorem ofSequence_item (hend : Terminated ts) {close : Symbol} {s : List Token} (hs : Parser.peek s ≠ close)
    (he : OfExpression ts 0 s)
    (hmore : ∀ rest : List Token, (Token.symbol .comma :: rest).length < s.length →
      OfSequence ts close rest) : OfSequence ts close s := by
  intro hclose fuel hfuel
  obtain _ | fuel := fuel
  · omega
  cases s with
  | nil => exact .nil
  | cons t rest =>
    have ht : t.kind ≠ close := hs
    rw [Parser.forget_sequence close _ hs, sequence]
    refine .current_bind ?_
    rw [if_neg ht]
    -- the first token of the item pays for the turn
    refine .turn_bind ((he fuel (by omega)).bind fun e r hread => ?_)
    have hlen := Parser.forget_bound hread
    cases r with
    | nil => exact .nil
    | cons u rest =>
      refine .current_bind ?_
      by_cases hu : u.kind = .comma
      · obtain rfl := eq_symbol_of_kind hu (by decide)
        rw [if_pos hu, Parser.sequenceTail_comma]
        refine (Follows.take_bind hend (by simp [Token.kind]) ?_).weaken
        have hfuel' : 4 * rest.length + 2 ≤ fuel := by
          simp only [List.length_cons] at hlen hfuel
          omega
        exact (hmore rest hlen hclose fuel hfuel').map fun x => (e :: x.1, true)
      · rw [if_neg hu, Parser.sequenceTail_end close e _ (by rintro rest' ⟨⟩; exact hu rfl)]
        exact .expect_last hend hclose ([e], false)

theorem ofEntries_close (hend : Terminated ts) {s : List Token} (hs : Parser.peek s = .braceClose) : OfEntries ts s := by
  intro fuel hfuel
  obtain _ | fuel := fuel
  · omega
  cases s with
  | nil => exact .nil
  | cons t rest =>
    have ht : t.kind = .braceClose := hs
    rw [Parser.forget_entries_close t rest ht, entries]
    refine .current_bind ?_
    rw [if_pos ht]
    exact .expect_found hend (by decide) ht []

theorem ofEntries_entry (hend : Terminated ts) {s : List Token} (hs : Parser.peek s ≠ .braceClose)
    (hk : OfExpression ts 0 s)
    (hv : ∀ r₁ : List Token, r₁.length < s.length → ∀ r₂ : List Token,
      r₂.length ≤ r₁.length → OfExpression ts 0 r₂)
    (hm : ∀ r₁ : List Token, r₁.length < s.length → ∀ r₂ : List Token,
      r₂.length ≤ r₁.length → ∀ rest : List Token,
        (Token.symbol .comma :: rest).length < r₂.length → OfEntries ts rest) :
    OfEntries ts s := by
  intro fuel hfuel
  obtain _ | fuel := fuel
  · omega
  cases s with
  | nil => exact .nil
  | cons t rest =>
    have ht : t.kind ≠ .braceClose := hs
    rw [Parser.forget_entries _ hs, entries]
    refine .current_bind ?_
    rw [if_neg ht]
    refine .turn_bind ((hk fuel (by omega)).bind fun key r₁ hkey => ?_)
    refine .expect_bind hend (by decide) fun r₂ hcolon => ?_
    have hlen₁ := Parser.forget_bound hkey
    have hlen₂ := Parser.forgetRest_bound hcolon
    refine (hv r₁ hlen₁ r₂ hlen₂ fuel (by omega)).weaken.bind fun value r₃ hvalue => ?_
    have hlen₃ := Parser.forget_bound hvalue
    cases r₃ with
    | nil => exact .nil
    | cons u rest =>
      refine .current_bind ?_
      by_cases hu : u.kind = .comma
      · obtain rfl := eq_symbol_of_kind hu (by decide)
        rw [if_pos hu, Parser.entriesTail_comma]
        refine (Follows.take_bind hend (by simp [Token.kind]) ?_).weaken
        have hfuel' : 4 * rest.length + 2 ≤ fuel := by
          simp only [List.length_cons] at hlen₃
          omega
        exact (hm r₁ hlen₁ r₂ hlen₂ rest hlen₃ fuel hfuel').map ((key, value) :: ·)
      · rw [if_neg hu, Parser.entriesTail_end key value _ (by rintro rest' ⟨⟩; exact hu rfl)]
        exact .expect_last hend (by decide) [(key, value)]

/-- The cursor parser keeps to the parser over the list of tokens. -/
theorem ofExpression (hend : Terminated ts) (p : Nat) (s : List Token) : OfExpression ts p s := by
  -- the cases come in the order in which the functions and their branches are defined
  refine (Parser.expression.mutual_induct (OfExpression ts) (OfExtended ts) (OfJoined ts)
    (OfSequence ts) (OfChain ts) (OfOpened ts) (OfEntries ts) ?_ ?_ ?_ ?_ ?_ ?_ ?_ ?_ ?_ ?_ ?_ ?_
    ?_ ?_ ?_ ?_ ?_ ?_ ?_ ?_ ?_ ?_ ?_ ?_ ?_ ?_ ?_ ?_ ?_).1 p s
  · intro p fuel _
    exact .nil
  · intro p t rest ho he
    exact ofExpression_cons hend ho he
  · intro p left
    exact ofExtended_stop (Nat.zero_le p)
  · intro p left t rest hp hj he
    exact ofExtended_cons hend hp hj he
  · intro p left t rest hp
    exact ofExtended_stop (Nat.not_lt.mp hp)
  · intro t left s ht
    exact ofJoined_none ht
  · intro t left s p ht hr
    exact ofJoined_operator ht hr
  · intro t left s ht hr hc
    exact ofJoined_comparator ht hr hc
  · intro t left s ht hv
    exact ofJoined_keyword ht hv
  · intro t left s ht htest helse
    exact ofJoined_conditional hend ht htest helse
  · intro t left ht n rest
    exact ofJoined_attr_name hend ht
  · intro t left ht s hs
    exact ofJoined_attr_other ht hs
  · intro t left s ht hs
    exact ofJoined_call ht hs
  · intro t left s ht hi
    exact ofJoined_subscript hend ht hi
  · intro s
    exact ofSequence_close hend rfl
  · intro close s hs he hmore
    exact ofSequence_item hend hs he fun rest hb => hmore [] rest hb
  · exact ofChain_stop rfl
  · intro t rest ht hr hc
    exact ofChain_cons hend ht hr hc
  · intro t rest ht
    exact ofChain_stop (Bool.not_eq_true _ ▸ ht)
  · intro t s ht
    exact ofOpened_none ht
  · intro t s ht
    exact ofOpened_literal ht
  · intro t s ht
    exact ofOpened_constant ht
  · intro t s p ht ho
    exact ofOpened_operator ht ho
  · intro t s ht hs
    exact ofOpened_group ht hs
  · intro t s ht hs
    exact ofOpened_list ht hs
  · intro t s ht he
    exact ofOpened_dict ht he
  · intro t s ht hb
    exact ofOpened_lambda hend ht hb
  · intro s hs
    exact ofEntries_close hend hs
  · intro s hs hk hv hm
    exact ofEntries_entry hend hs hk hv fun r₁ hb₁ r₂ hb₂ rest hb => hm r₁ hb₁ r₂ hb₂ [] rest hb

/-- So does the parser of whole lists. -/
theorem follows_parse (hend : Terminated ts) (fuel : Nat) (hfuel : 4 * ts.length ≤ fuel) :
    ∃ x, x.map (·.1) = FilterLang.parse ts ∧
      Follows ts ts ts.length ts.length x (parse fuel) := by
  refine ⟨forget (Parser.expression 0 ts) >>= fun x =>
    if Parser.peek x.2 = .stop then .ok x
    else .error (.trailingInput (Parser.current x.2).display), ?_, ?_⟩
  · rw [Parser.parse_terminated hend]
    cases forget (Parser.expression 0 ts) with
    | error e => rfl
    | ok x =>
      simp only [ok_bind]
      split <;> rfl
  · intro pos hpos
    rw [parse, if_pos hend]
    refine (ofExpression hend 0 ts fuel hfuel).weaken.bind (fun e r hr => ?_) pos hpos
    cases r with
    | nil => exact .nil
    | cons t rest =>
      refine .current_bind ?_
      by_cases ht : t.kind = .stop
      · rw [if_pos ht, if_pos (show Parser.peek (t :: rest) = .stop from ht)]
        exact .ok e
      · rw [if_neg ht, if_neg (show Parser.peek (t :: rest) ≠ .stop from ht)]
        exact .error _

end Parts

/-! ## The parser ends -/

/-- A cost of no more than `n` expressions, none deeper than `n`, and no more than `n` turns. -/
structure Cost.Within (c : Cost) (n : Nat) : Prop where
  depth : c.depth ≤ n
  calls : c.calls ≤ n
  turns : c.turns ≤ n

theorem Cost.Leaves.within {c : Cost} {m l left n : Nat} (h : c.Leaves m l left) (hm : m ≤ n)
    (hl : l ≤ n) : c.Within n where
  depth := by
    have := h.depth
    have := h.calls
    omega
  calls := by
    have := h.calls
    omega
  turns := by
    have := h.turns
    omega

/-- A run that keeps to the list parser ends. -/
theorem Keeps.ends {α : Type} {ts : List Token} {m l n : Nat}
    {x : Except ParseError (α × List Token)} {run : Option (Trace α)} (h : Keeps ts m l x run)
    (hm : m ≤ n) (hl : l ≤ n) :
    ∃ result cursor cost, run = some ⟨result, cursor, cost⟩ ∧
      (result.map fun a => (a, ts.drop cursor)) = x ∧ cost.Within n ∧
      ∀ a, result = .ok a → cursor < ts.length ∧ ts.length - cursor ≤ l := by
  cases h with
  | @failed e pos c hc =>
    exact ⟨.error e, pos, c, rfl, rfl, hc.within hm hl, fun a ha => nomatch ha⟩
  | @read a r pos c hr hc =>
    refine ⟨.ok a, pos, c, rfl, ?_, hc.within hm hl, fun _ _ => ⟨hr.lt_length, ?_⟩⟩
    · rw [Except.map, hr.1]
    · rw [hr.length_eq]
      have := hc.turns
      omega

/-- Parsing ends whatever the tokens are. A list whose last token is no end marker is refused. In
any other list, from every cursor in it, the reader of an expression comes to an end when the fuel
is four times the number of tokens from there on; it has then begun at most as many expressions as
there are such tokens, so that none stands deeper, and no loop has turned more often than that;
and if it has read an expression, the cursor has moved and is not past the last token. What it
reads, and the error when it fails, are those of the parser over the list of tokens, which has no
fuel. -/
theorem parse_terminates (ts : List Token) :
    (¬ Terminated ts → FilterLang.parse ts = .error .missingEnd ∧
      ∀ fuel, parse fuel ts 0 = some ⟨.error .missingEnd, 0, .zero⟩) ∧
    (Terminated ts →
      (∀ fuel p pos, pos < ts.length → 4 * (ts.length - pos) ≤ fuel →
        ∃ result cursor cost, expression fuel p ts pos = some ⟨result, cursor, cost⟩ ∧
          (result.map fun e => (e, ts.drop cursor)) =
            forget (Parser.expression p (ts.drop pos)) ∧
          cost.Within (ts.length - pos) ∧
          ∀ e, result = .ok e → pos < cursor ∧ cursor < ts.length) ∧
      ∀ fuel, 4 * ts.length ≤ fuel → ∃ cursor cost,
        parse fuel ts 0 = some ⟨FilterLang.parse ts, cursor, cost⟩ ∧ cost.Within ts.length) := by
  refine ⟨fun hend => ⟨Parser.parse_missingEnd hend, fun fuel => ?_⟩,
    fun hend => ⟨fun fuel p pos hpos hfuel => ?_, fun fuel hfuel => ?_⟩⟩
  · rw [parse, if_neg hend]
  · have hat : At ts pos (ts.drop pos) := ⟨rfl, by simpa using hpos⟩
    have hlen := hat.length_eq
    rw [hlen] at hfuel
    obtain ⟨result, cursor, cost, hrun, hx, hcost, hok⟩ :=
      (ofExpression hend p _ fuel hfuel pos hat).ends (Nat.le_of_eq hlen.symm)
        (Nat.le_trans (Nat.sub_le _ _) (Nat.le_of_eq hlen.symm))
    refine ⟨result, cursor, cost, hrun, hx, hcost, fun e he => ?_⟩
    obtain ⟨hcursor, hmoved⟩ := hok e he
    exact ⟨by omega, hcursor⟩
  · have hne : ts ≠ [] := by
      rintro rfl
      cases hend
    obtain ⟨x, hparse, hfollows⟩ := follows_parse hend fuel hfuel
    obtain ⟨result, cursor, cost, hrun, hx, hcost, _⟩ :=
      (hfollows 0 ⟨rfl, hne⟩).ends (Nat.le_refl _) (Nat.le_refl _)
    refine ⟨cursor, cost, ?_, hcost⟩
    rw [hrun, ← hparse, ← hx]
    cases result <;> rfl

/-- A list that an end marker breaks off, so that the parser asks for an item where the cursor is
about to stand still, and one whose end marker is missing. -/
theorem parse_terminates_unfinished :
    (Terminated [.symbol .bracketOpen, .name "a", .symbol .comma, Token.stop] ∧
      ∃ cursor cost,
        parse 16 [.symbol .bracketOpen, .name "a", .symbol .comma, Token.stop] 0 =
          some ⟨.error (.undefinedPrefix "(end)"), cursor, cost⟩ ∧ cost.Within 4) ∧
    ¬ Terminated [.name "a", Token.stop, .symbol .plus] ∧
      FilterLang.parse [.name "a", Token.stop, .symbol .plus] = .error .missingEnd := by
  have hparse : FilterLang.parse [.symbol .bracketOpen, .name "a", .symbol .comma, Token.stop] =
      .error (.undefinedPrefix "(end)") := by
    with_unfolding_all rfl
  have hend := ((parse_terminates
    [.symbol .bracketOpen, .name "a", .symbol .comma, Token.stop]).2 (by decide)).2 16 (by decide)
  rw [hparse] at hend
  exact ⟨⟨by decide, hend⟩, by decide, ((parse_terminates _).1 (by decide)).1⟩

end FilterLang.Cursor
