import FilterLang.Proofs.Expr.Rendering
import FilterLang.Proofs.Parser.Sequences
/-!
The parser reads every tree back from its tokens.

The statement that carries the induction is about an expression that stands before
any rest and is asked for with any power (`Readable`): reading its tokens comes to
the same as having read it and going on. Two numbers say when that holds. `grip` is
the power that the symbol joining the parts has, so the power asked for has to stay
below it; `reach` is the power with which the last part was asked for, so the symbol
after the expression may not bind more strongly.
-/

namespace FilterLang

open Fallible FilterLang.Parser

/-! ## The levels of binary operators -/

namespace BinaryOp

theorem le_level (op : BinaryOp) : 70 ≤ op.level := by
  cases op <;> decide

theorem le_leftNeed (op : BinaryOp) : op.level ≤ op.leftNeed := by
  cases op <;> decide

theorem le_rightNeed (op : BinaryOp) : op.level ≤ op.rightNeed := by
  cases op <;> decide

/-- An operator that can stand in the left operand of another has a right operand
that the other operator leaves alone. -/
theorem left_le_right (op op' : BinaryOp) (h : op.leftNeed ≤ op'.level) :
    op.level ≤ op'.rightNeed - 1 := by
  revert h
  cases op <;> cases op' <;> decide

end BinaryOp

namespace Expr

/-- The power of the symbol that joins the parts of an expression. Nothing keeps an
expression apart that its first token opens. -/
@[simp] def grip : Expr → Nat
  | name _ | number _ | str .. | const _ | tuple _ | list _ | dict _ | unary .. | not _
  | lambda .. => 160
  | e => e.level

/-- The power with which the last part of an expression is asked for. An expression
that ends in a bracket or a name is left alone by every symbol. -/
@[simp] def reach : Expr → Nat
  | unary .. => 130
  | binary op _ _ => op.rightNeed - 1
  | compare .. => 59
  | not _ => 50
  | and .. => 39
  | or .. => 29
  | conditional .. | lambda .. | keyword .. => 0
  | _ => 160

/-- Every chain of comparisons in an expression has a link. -/
inductive Linked : Expr → Prop
  | node {e : Expr} (links : e.links? ≠ some []) (parts : ∀ c ∈ e.children, Linked c) : Linked e

theorem Linked.child {e c : Expr} (h : Linked e) (hc : c ∈ e.children) : Linked c := by
  cases h with
  | node _ parts => exact parts c hc

/-! ## Levels, grips and reaches -/

theorem level_pos (e : Expr) : 0 < e.level := by
  cases e with
  | binary op => exact Nat.lt_of_lt_of_le (by decide) op.le_level
  | _ => simp

theorem level_le_grip (e : Expr) : e.level ≤ e.grip := by
  cases e <;> simp

theorem grip_pos (e : Expr) : 0 < e.grip :=
  Nat.lt_of_lt_of_le e.level_pos e.level_le_grip

/-- An expression of a level above that of lambdas reaches at least one below its
level. -/
theorem le_reach_of_lt_level {e : Expr} {q : Nat} (hq : 20 ≤ q) (h : q < e.level) :
    q ≤ e.reach := by
  cases e with
  | binary op =>
    have := op.le_rightNeed
    simp only [level, reach] at h ⊢
    omega
  | _ => simp only [level, reach] at h ⊢; omega

theorem level_le_reach_of_leftNeed {e : Expr} (op : BinaryOp) (h : op.leftNeed ≤ e.level) :
    op.level ≤ e.reach := by
  have hop := op.le_level
  have hneed := op.le_leftNeed
  cases e with
  | binary op' => exact op.left_le_right op' h
  | _ => simp only [level, reach] at h ⊢; omega

/-- Every expression that can be the operand of a sign takes it as a whole. -/
theorem fits_sign {e : Expr} (h : 130 ≤ e.level) : 130 < e.grip ∧ 130 ≤ e.reach := by
  cases e with
  | binary op => cases op <;> simp [BinaryOp.level, BinaryOp.rightNeed] at h ⊢
  | _ => simp at h ⊢

/-- Every expression that can be the operand of a negation takes it as a whole. -/
theorem fits_not {e : Expr} (h : 50 ≤ e.level) : 50 < e.grip ∧ 50 ≤ e.reach := by
  cases e with
  | binary op =>
    have := op.le_level
    exact ⟨by simp only [grip, level]; omega, le_reach_of_lt_level (by omega) (by simp only [level]; omega)⟩
  | _ => simp at h ⊢

/-- Every expression that brackets or a point can follow leaves them alone. -/
theorem postfix_le_reach {e : Expr} (h : 150 ≤ e.level) : 150 ≤ e.reach := by
  cases e with
  | binary op => cases op <;> simp [BinaryOp.level] at h
  | _ => simp at h ⊢

/-- An expression of a level above a power fits where that power is asked for. -/
theorem fits_of_lt_level {e : Expr} {q : Nat} (hq : 20 ≤ q) (h : q < e.level) :
    q < e.grip ∧ q ≤ e.reach :=
  ⟨Nat.lt_of_lt_of_le h e.level_le_grip, le_reach_of_lt_level hq h⟩

/-! ## Reading an expression back -/

/-- Reading the tokens of an expression comes to the same as having read it and going
on, where its position asks for no more than its grip and the symbol after it is within
its reach. -/
def Readable (e : Expr) : Prop :=
  ∀ p rest, p < e.grip → (peek rest).power ≤ e.reach →
    forget (expression p (e.tokens ++ rest)) = forget (extended p e rest)

namespace Readable

variable {e left right : Expr} {t : Token} {need p : Nat} {ts rest : List Token}

/-- Before a symbol that joins nothing an expression is read whole. -/
theorem readsAs (h : e.Readable) : ReadsAs e.tokens e := by
  intro rest hr
  rw [h 0 rest e.grip_pos (by omega)]
  exact forget_extended_stop 0 e rest (by omega)

/-- Parentheses make an expression readable everywhere; without them its level
decides. -/
theorem fitted (h : e.Readable)
    (hfit : need ≤ e.level → p < e.grip ∧ (peek rest).power ≤ e.reach) :
    forget (expression p (fitted need e.level e.tokens ++ rest)) = forget (extended p e rest) := by
  by_cases hn : need ≤ e.level
  · rw [fitted_of_le hn]
    exact h p rest (hfit hn).1 (hfit hn).2
  · -- inside the parentheses the expression is read whole, whatever its level
    have hclose : forget (sequence .parenClose (e.tokens ++ .symbol .parenClose :: rest)) =
        .ok (([e], false), rest) := by
      exact sequence_last (h.readsAs.peek_ne rfl rfl) (h.readsAs _ rfl) rfl (by decide)
    rw [fitted_of_not_le hn, List.cons_append, List.append_assoc, List.singleton_append,
      forget_expression, forget_opened_group rfl, hclose]
    rfl

/-- An operand is read up to a symbol that binds no more strongly than the power with
which it is asked for. -/
theorem operand (h : e.Readable) (need p : Nat)
    (hfit : need ≤ e.level → p < e.grip ∧ p ≤ e.reach) (hr : (peek rest).power ≤ p) :
    forget (expression p (FilterLang.fitted need e.level e.tokens ++ rest)) = .ok (e, rest) := by
  rw [h.fitted fun hn => ⟨(hfit hn).1, Nat.le_trans hr (hfit hn).2⟩]
  exact forget_extended_stop p e rest hr

/-- A left operand is read up to the symbol that joins it to what follows. -/
theorem joins (h : left.Readable) (hp : p < t.kind.power)
    (hfit : need ≤ left.level → t.kind.power ≤ left.level ∧ t.kind.power ≤ left.reach)
    (hj : forget (joined t left ts) = .ok (e, rest)) :
    forget (expression p (FilterLang.fitted need left.level left.tokens ++ t :: ts)) =
      forget (extended p e rest) := by
  have hfit' : need ≤ left.level → p < left.grip ∧ (peek (t :: ts)).power ≤ left.reach := by
    intro hn
    have hl := left.level_le_grip
    have := (hfit hn).1
    exact ⟨by omega, (hfit hn).2⟩
  rw [h.fitted hfit', forget_extended p left t ts hp, hj]
  rfl

end Readable

/-! ## Lists of expressions -/

section Lists

variable {close : Symbol} {rest : List Token}

theorem tokensItems_eq (items : List Expr) : tokensItems items = commaJoined (items.map tokens) := by
  have hmore : ∀ (e : Expr) more,
      e.tokens ++ tokensMoreItems more = commaJoined ((e :: more).map tokens) := by
    intro e more
    induction more generalizing e with
    | nil => rw [tokensMoreItems, List.append_nil]; exact (commaJoined_singleton _).symm
    | cons c more ih => rw [tokensMoreItems, ih c]; exact (commaJoined_cons_cons _ _ _).symm
  cases items with
  | nil => rfl
  | cons e more => exact hmore e more

theorem tokensEntries_eq (ens : List (Expr × Expr)) :
    tokensEntries ens = commaJoined (ens.map tokensEntry) := by
  have hmore : ∀ (e : Expr × Expr) more,
      tokensEntry e ++ tokensMoreEntries more = commaJoined ((e :: more).map tokensEntry) := by
    intro e more
    induction more generalizing e with
    | nil => rw [tokensMoreEntries, List.append_nil]; exact (commaJoined_singleton _).symm
    | cons c more ih => rw [tokensMoreEntries, ih c]; exact (commaJoined_cons_cons _ _ _).symm
  cases ens with
  | nil => rfl
  | cons e more => exact hmore e more

theorem readsAs_items {items : List Expr} (h : ∀ c ∈ items, c.Readable) :
    List.Forall₂ ReadsAs (items.map tokens) items := by
  rw [List.forall₂_map_left_iff, List.forall₂_same]
  exact fun c hc => (h c hc).readsAs

theorem readsAs_entries {ens : List (Expr × Expr)}
    (h : ∀ e ∈ ens, e.1.Readable ∧ e.2.Readable) :
    List.Forall₂ ReadsAsEntry (ens.map tokensEntry) ens := by
  rw [List.forall₂_map_left_iff, List.forall₂_same]
  rintro ⟨k, v⟩ he
  exact ⟨k.tokens, v.tokens, by rw [tokensEntry], (h _ he).1.readsAs, (h _ he).2.readsAs⟩

theorem isComparator_of_power_lt {s : Symbol} (h : s.power < comparatorPower) :
    s.isComparator = false := by
  revert h
  cases s <;> decide

theorem power_links_le (links : List (CompareOp × Expr))
    (hr : (peek rest).power < comparatorPower) :
    (peek (tokensLinks links ++ rest)).power ≤ comparatorPower := by
  cases links with
  | nil => exact Nat.le_of_lt hr
  | cons l links =>
    obtain ⟨op, e⟩ := l
    rw [tokensLinks, tokensLink]
    exact Nat.le_of_eq op.power_symbol

/-- The links of a chain are read up to a symbol that is no comparison. -/
theorem chain_links {links : List (CompareOp × Expr)} (h : ∀ l ∈ links, l.2.Readable)
    (hr : (peek rest).power < comparatorPower) :
    forget (chain (tokensLinks links ++ rest)) = .ok (links, rest) := by
  induction links with
  | nil => exact forget_chain_stop rest (isComparator_of_power_lt hr)
  | cons l links ih =>
    obtain ⟨op, e⟩ := l
    have hlinks := ih fun l hl => h l (by simp [hl])
    have hnext : (peek (tokensLinks links ++ rest)).power ≤ comparatorPower :=
      power_links_le links hr
    have he : e.Readable := h (op, e) (by simp)
    have hop : forget (expression comparatorPower (FilterLang.fitted 61 e.level e.tokens ++
        (tokensLinks links ++ rest))) = .ok (e, tokensLinks links ++ rest) :=
      he.operand 61 comparatorPower (fits_of_lt_level (by decide)) hnext
    rw [tokensLinks, tokensLink, List.cons_append, List.cons_append, List.append_assoc,
      forget_chain (.symbol op.symbol) _ op.isComparator_symbol, hop, ok_bind, hlinks, ok_bind]
    simp only [Token.kind, op.ofSymbol_symbol]

/-- Parameters with commas between them are read up to the colon. -/
theorem params_all (ps : List String) :
    forget (params (paramTokens ps ++ .symbol .colon :: rest)) = .ok (ps, rest) := by
  induction ps with
  | nil => exact forget_params_none rest
  | cons p ps ih =>
    cases ps with
    | nil =>
      rw [paramTokens, List.singleton_append, forget_params_last p _ (by simp),
        forgetRest_expect .colon _ rest rfl, ok_bind]
    | cons q ps =>
      rw [paramTokens, List.cons_append, List.cons_append, forget_params_more, ih, ok_bind]
      simp

end Lists

/-! ## Every kind of expression -/

section Kinds

variable {a b c : Expr}

theorem readable_of_opened {e : Expr} {t : Token} {ts : List Token} (htok : e.tokens = t :: ts)
    (h : ∀ rest, (peek rest).power ≤ e.reach → forget (opened t (ts ++ rest)) = .ok (e, rest)) :
    e.Readable := by
  intro p rest _ hr
  rw [htok, List.cons_append, forget_expression, h rest hr]
  rfl

theorem readable_name (n : String) : (name n).Readable :=
  readable_of_opened rfl fun _ _ => forget_opened_literal rfl

theorem readable_number (x : Float) : (number x).Readable :=
  readable_of_opened rfl fun _ _ => forget_opened_literal rfl

theorem readable_str (raw : String) (unicode : Bool) : (str raw unicode).Readable :=
  readable_of_opened rfl fun _ _ => by
    rw [forget_opened_literal rfl]
    cases unicode <;> rfl

theorem readable_const (k : Constant) : (const k).Readable :=
  readable_of_opened rfl fun _ _ => by
    rw [forget_opened_constant (by cases k <;> rfl)]
    cases k <;> rfl

theorem readable_unary (op : UnaryOp) (ha : a.Readable) : (unary op a).Readable :=
  readable_of_opened (by rw [tokens]) fun rest hr => by
    rw [forget_opened_operator (p := 130) (by cases op <;> rfl), ha.operand 130 130 fits_sign hr, ok_bind]
    cases op <;> rfl

theorem readable_not (ha : a.Readable) : (not a).Readable :=
  readable_of_opened (by rw [tokens]) fun rest hr => by
    rw [forget_opened_operator (p := 50) rfl, ha.operand 50 50 fits_not hr]
    rfl

theorem readable_tuple {items : List Expr} (h : ∀ c ∈ items, c.Readable) :
    (tuple items).Readable := by
  refine readable_of_opened (by rw [tokens]) fun rest _ => ?_
  rw [List.append_assoc, List.append_assoc, List.singleton_append, tokensItems_eq]
  match items with
  | [] => exact opened_tuple (readsAs_items h) (by simp)
  | [e] =>
    -- without the comma this would be the item itself
    rw [List.map_singleton, commaJoined_singleton, tupleComma, List.singleton_append]
    exact opened_single (h e (by simp)).readsAs
  | e :: d :: more => exact opened_tuple (readsAs_items h) (by simp)

theorem readable_list {items : List Expr} (h : ∀ c ∈ items, c.Readable) :
    (list items).Readable := by
  refine readable_of_opened (by rw [tokens]) fun rest _ => ?_
  rw [List.append_assoc, List.singleton_append, tokensItems_eq]
  exact opened_list (readsAs_items h)

theorem readable_dict {ens : List (Expr × Expr)}
    (h : ∀ e ∈ ens, e.1.Readable ∧ e.2.Readable) : (dict ens).Readable := by
  refine readable_of_opened (by rw [tokens]) fun rest _ => ?_
  rw [List.append_assoc, List.singleton_append, tokensEntries_eq]
  exact opened_dict (readsAs_entries h)

theorem readable_lambda (ps : List String) (ha : a.Readable) : (lambda ps a).Readable := by
  refine readable_of_opened (by rw [tokens]) fun rest hr => ?_
  have hbody := ha.readsAs _ (Nat.le_zero.mp hr)
  rw [forget_opened_lambda rfl, List.append_assoc, List.cons_append, params_all, ok_bind, hbody]
  rfl

theorem readable_binary (op : BinaryOp) (ha : a.Readable) (hb : b.Readable) :
    (binary op a b).Readable := by
  intro p rest hp hr
  have hop := op.le_level
  have hneed := op.le_rightNeed
  have hb' := hb.operand op.rightNeed (op.rightNeed - 1)
    (fun hn => fits_of_lt_level (by omega) (by omega)) hr
  rw [tokens, List.append_assoc, List.cons_append]
  refine ha.joins (by rw [Token.kind, op.power_symbol]; exact hp) (fun hn => ?_) ?_
  · have hl := op.le_leftNeed
    rw [Token.kind, op.power_symbol]
    exact ⟨Nat.le_trans hl hn, level_le_reach_of_leftNeed op hn⟩
  · rw [forget_joined_operator (p := op.rightNeed - 1) (by cases op <;> rfl), hb', ok_bind]
    cases op <;> rfl

theorem readable_and (ha : a.Readable) (hb : b.Readable) : (and a b).Readable := by
  intro p rest hp hr
  rw [tokens, List.append_assoc, List.cons_append]
  refine ha.joins hp (fun hn => ⟨Nat.le_of_lt hn, le_reach_of_lt_level (by decide) hn⟩) ?_
  rw [forget_joined_operator (p := 39) rfl,
    hb.operand 40 39 (fits_of_lt_level (by decide)) hr]
  rfl

theorem readable_or (ha : a.Readable) (hb : b.Readable) : (or a b).Readable := by
  intro p rest hp hr
  rw [tokens, List.append_assoc, List.cons_append]
  refine ha.joins hp (fun hn => ⟨Nat.le_of_lt hn, le_reach_of_lt_level (by decide) hn⟩) ?_
  rw [forget_joined_operator (p := 29) rfl,
    hb.operand 30 29 (fits_of_lt_level (by decide)) hr]
  rfl

theorem readable_compare {links : List (CompareOp × Expr)} (hne : links ≠ [])
    (ha : a.Readable) (h : ∀ l ∈ links, l.2.Readable) : (compare a links).Readable := by
  intro p rest hp hr
  match links with
  | (op, e) :: links =>
    have he : e.Readable := h (op, e) (by simp)
    have hstop : (peek rest).power < comparatorPower := Nat.lt_succ_of_le hr
    have hop := he.operand 61 comparatorPower (fits_of_lt_level (by decide))
      (power_links_le links hstop)
    have hlinks : forget (chain (tokensLinks links ++ rest)) = .ok (links, rest) :=
      chain_links (fun l hl => h l (by simp [hl])) hstop
    rw [tokens, tokensLinks, tokensLink, List.cons_append, List.append_assoc, List.cons_append,
      List.append_assoc]
    refine ha.joins (by rw [Token.kind, op.power_symbol]; exact hp) (fun hn => ?_) ?_
    · rw [Token.kind, op.power_symbol]
      exact ⟨Nat.le_of_lt hn, le_reach_of_lt_level (by decide) hn⟩
    · rw [forget_joined_comparator (by cases op <;> rfl), hop, ok_bind, hlinks,
        ok_bind, Token.kind, op.ofSymbol_symbol]

theorem readable_call {args : List Expr} (ha : a.Readable) (h : ∀ c ∈ args, c.Readable) :
    (call a args).Readable := by
  intro p rest hp _
  rw [tokens, List.append_assoc, List.cons_append, List.append_assoc, List.singleton_append]
  refine ha.joins hp (fun hn => ⟨hn, postfix_le_reach hn⟩) ?_
  rw [forget_joined_call rfl, tokensItems_eq,
    sequence_commaJoined rfl rfl (by decide) (readsAs_items h)]
  rfl

theorem readable_attr (n : String) (ha : a.Readable) : (attr a n).Readable := by
  intro p rest hp _
  rw [tokens, List.append_assoc, List.cons_append, List.singleton_append]
  exact ha.joins hp (fun hn => ⟨hn, postfix_le_reach hn⟩) (forget_joined_attr n rest rfl)

theorem readable_subscript (ha : a.Readable) (hb : b.Readable) : (subscript a b).Readable := by
  intro p rest hp _
  rw [tokens, List.append_assoc, List.cons_append, List.append_assoc, List.singleton_append]
  refine ha.joins hp (fun hn => ⟨hn, postfix_le_reach hn⟩) ?_
  rw [forget_joined_subscript rfl, hb.readsAs _ rfl, ok_bind,
    forgetRest_expect .bracketClose _ rest rfl]
  rfl

theorem readable_conditional (ha : a.Readable) (hb : b.Readable) (hc : c.Readable) :
    (conditional a b c).Readable := by
  intro p rest hp hr
  have horelse := hc.readsAs _ (Nat.le_zero.mp hr)
  rw [tokens, List.append_assoc, List.cons_append, List.append_assoc, List.cons_append]
  refine ha.joins hp (fun hn => ⟨Nat.le_of_lt hn, le_reach_of_lt_level (by decide) hn⟩) ?_
  rw [forget_joined_conditional rfl, hb.readsAs _ rfl, ok_bind, forgetRest_expect .kwElse _ _ rfl,
    ok_bind, horelse]
  rfl

theorem readable_keyword (n : String) (ha : a.Readable) : (keyword n a).Readable := by
  intro p rest hp hr
  have hvalue := ha.readsAs _ (Nat.le_zero.mp hr)
  rw [tokens, List.cons_append, List.cons_append, forget_expression, forget_opened_literal rfl]
  have hj : forget (joined (.symbol .assign) (name n) (a.tokens ++ rest)) =
      .ok (keyword n a, rest) := by
    rw [forget_joined_keyword rfl]
    simp only [keywordName, ok_bind, hvalue]
  -- the name is read first, and the sign after it makes it a keyword
  change forget (extended p (name n) (.symbol .assign :: (a.tokens ++ rest))) = _
  rw [forget_extended p (name n) (.symbol .assign) _ hp, hj]
  rfl

end Kinds

/-- Every expression whose chains have links is readable. -/
theorem readable_of_linked (e : Expr) (h : e.Linked) : e.Readable := by
  induction e using inductionOnChildren with
  | step e ih =>
    have part : ∀ c ∈ e.children, c.Readable := fun c hc => ih c hc (h.child hc)
    cases e with
    | name n => exact readable_name n
    | number x => exact readable_number x
    | str raw unicode => exact readable_str raw unicode
    | const k => exact readable_const k
    | unary op a => exact readable_unary op (part a (by simp [children]))
    | not a => exact readable_not (part a (by simp [children]))
    | binary op a b =>
      exact readable_binary op (part a (by simp [children])) (part b (by simp [children]))
    | and a b => exact readable_and (part a (by simp [children])) (part b (by simp [children]))
    | or a b => exact readable_or (part a (by simp [children])) (part b (by simp [children]))
    | compare a links =>
      cases h with
      | node hlinks _ =>
        refine readable_compare (fun hnil => hlinks (by rw [hnil]; rfl))
          (part a (by simp [children])) fun l hl => part l.2 ?_
        simp only [children, List.mem_cons, List.mem_map]
        exact .inr ⟨l, hl, rfl⟩
    | call a args =>
      exact readable_call (part a (by simp [children])) fun c hc => part c (by simp [children, hc])
    | keyword n a => exact readable_keyword n (part a (by simp [children]))
    | attr a n => exact readable_attr n (part a (by simp [children]))
    | subscript a b =>
      exact readable_subscript (part a (by simp [children])) (part b (by simp [children]))
    | tuple items => exact readable_tuple fun c hc => part c hc
    | list items => exact readable_list fun c hc => part c hc
    | dict ens =>
      refine readable_dict fun e he => ⟨part e.1 ?_, part e.2 ?_⟩
      · exact List.mem_flatMap.mpr ⟨e, he, by simp⟩
      · exact List.mem_flatMap.mpr ⟨e, he, by simp⟩
    | conditional a b c =>
      exact readable_conditional (part a (by simp [children])) (part b (by simp [children]))
        (part c (by simp [children]))
    | lambda ps a => exact readable_lambda ps (part a (by simp [children]))

end Expr

/-- The tokens of an expression with an end marker after them are read as that
expression. -/
theorem parse_tokens (e : Expr) (h : e.Linked) : parse (e.tokens ++ [Token.stop]) = .ok e :=
  parse_of_readsAs (e.readable_of_linked h).readsAs

/-- A negated base, a lambda and a tuple of one item in a chain. -/
def mixedChain : Expr :=
  .compare (.binary .pow (.unary .negate (.name "a")) (.name "b"))
    [(.lt, .lambda ["x"] (.name "x")), (.notIn, .tuple [.name "c"])]

theorem linked_mixedChain : mixedChain.Linked := by
  have leaf : ∀ n, (Expr.name n).Linked := fun n =>
    .node (by simp [Expr.links?]) (by simp [Expr.children])
  have base : (Expr.binary .pow (.unary .negate (.name "a")) (.name "b")).Linked :=
    .node (by simp [Expr.links?]) (by
      simpa [Expr.children] using
        ⟨.node (by simp [Expr.links?]) (by simpa [Expr.children] using leaf "a"), leaf "b"⟩)
  have body : (Expr.lambda ["x"] (.name "x")).Linked :=
    .node (by simp [Expr.links?]) (by simpa [Expr.children] using leaf "x")
  have items : (Expr.tuple [.name "c"]).Linked :=
    .node (by simp [Expr.links?]) (by simpa [Expr.children] using leaf "c")
  exact .node (by simp [mixedChain, Expr.links?])
    (by simpa [mixedChain, Expr.children] using ⟨base, body, items⟩)

theorem parse_tokens_mixedChain :
    mixedChain.Linked ∧ parse (mixedChain.tokens ++ [Token.stop]) = .ok mixedChain :=
  ⟨linked_mixedChain, parse_tokens mixedChain linked_mixedChain⟩

end FilterLang
