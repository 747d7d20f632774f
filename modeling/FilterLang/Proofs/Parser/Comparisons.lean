import Mathlib.Logic.Relation
import FilterLang.Proofs.Expr.Children
import FilterLang.Proofs.Expr.Comparison
import FilterLang.Proofs.Parser.Framing
/-!
The comparisons of a parsed tree.

`compared` reads a chain of comparisons onto two lists: it starts from the operands on both sides
of the first operator, and its loop (`grow`) pushes an operator, parses an operand and pushes that,
as long as there is another comparator. Step by step the lists stay paired. What the parser makes
of a comparator is the tree of these lists (`comparison?_joined`), and no other of its functions
makes a comparison. Along the account of the parser by frames, which gives each run back, every
comparison at any depth of a parsed tree has the lists of such a run.
-/

namespace FilterLang

open Fallible

/-! ## Everywhere in a tree -/

namespace Expr

/-- A property holds of an expression and of everything in it. -/
def Everywhere (P : Expr → Prop) (e : Expr) : Prop :=
  ∀ node, Relation.ReflTransGen (fun whole part => part ∈ whole.children) e node → P node

theorem everywhere_iff {P : Expr → Prop} {e : Expr} :
    e.Everywhere P ↔ P e ∧ ∀ c ∈ e.children, c.Everywhere P := by
  constructor
  · intro h
    exact ⟨h e .refl, fun c hc node hnode => h node (.head hc hnode)⟩
  · rintro ⟨he, hchildren⟩ node hnode
    rcases hnode.cases_head with rfl | ⟨c, hc, hnode⟩
    · exact he
    · exact hchildren c hc node hnode

end Expr

namespace Parser

/-! ## The loop over two lists -/

/-- Pushes an operator and the operand after it for every comparator at hand. -/
def grow (v : Comparison) (ts : List Token) : AtMost Comparison ts.length :=
  match ts with
  | [] => .ok (v, ⟨[], Nat.le_refl _⟩)
  | t :: rest =>
    if t.kind.isComparator then do
      let v := v.pushOperator (CompareOp.ofSymbol t.kind)
      let (right, ⟨r, hr⟩) ← expression comparatorPower rest
      let (v', ⟨r', hr'⟩) ← grow (v.pushOperand right) r
      return (v', ⟨r', by simp only [List.length_cons]; omega⟩)
    else .ok (v, ⟨t :: rest, Nat.le_refl _⟩)
termination_by ts.length
decreasing_by simp only [List.length_cons]; omega

/-- The two lists of the chain of comparisons that a comparator makes of the expression on its
left and the tokens after it. -/
def compared (t : Token) (left : Expr) (ts : List Token) :
    Except ParseError (Comparison × List Token) :=
  forget (expression comparatorPower ts) >>= fun x =>
    forget (grow ⟨[left, x.1], [CompareOp.ofSymbol t.kind]⟩ x.2)

theorem forget_grow_cons (v : Comparison) (t : Token) (rest : List Token)
    (h : t.kind.isComparator = true) :
    forget (grow v (t :: rest)) =
      forget (expression comparatorPower rest) >>= fun x =>
        forget (grow ((v.pushOperator (CompareOp.ofSymbol t.kind)).pushOperand x.1) x.2) := by
  rw [grow, if_pos h]
  rcases expression comparatorPower rest with _ | ⟨right, r, hr⟩
  · rfl
  · simp only [forget, Except.map, bind, Except.bind]
    rcases grow ((v.pushOperator (CompareOp.ofSymbol t.kind)).pushOperand right) r with
      _ | ⟨v', r', hr'⟩ <;> rfl

theorem forget_grow_stop (v : Comparison) (ts : List Token)
    (h : (peek ts).isComparator = false) : forget (grow v ts) = .ok (v, ts) := by
  cases ts with
  | nil => rw [grow]; rfl
  | cons t rest =>
    have ht : ¬ t.kind.isComparator = true := by
      simp only [peek, current] at h
      simp [h]
    rw [grow, if_neg ht]; rfl

/-- The loop pushes the links of the chain. -/
theorem forget_grow (v : Comparison) (ts : List Token) :
    forget (grow v ts) = forget (chain ts) >>= fun x => .ok (v.pushed x.1, x.2) := by
  by_cases hts : (peek ts).isComparator = true
  · cases ts with
    | nil => cases hts
    | cons t rest =>
      rw [forget_grow_cons v t rest hts, forget_chain t rest hts, bind_assoc]
      refine bind_congr_ok fun ⟨right, r⟩ hr => ?_
      have hlen : r.length < rest.length := forget_bound hr
      rw [forget_grow _ r, bind_assoc]
      rfl
  · have hstop := Bool.not_eq_true _ ▸ hts
    rw [forget_grow_stop v ts hstop, forget_chain_stop ts hstop]
    rfl
termination_by ts.length
decreasing_by simp only [List.length_cons]; omega

/-- The lists stay paired along the loop. -/
theorem paired_of_grow {v v' : Comparison} {ts r : List Token} (hv : v.Paired)
    (h : forget (grow v ts) = .ok (v', r)) : v'.Paired := by
  rw [forget_grow] at h
  obtain ⟨⟨links, r'⟩, _, h⟩ := bind_eq_ok.mp h
  cases h
  exact hv.pushed links

theorem paired_of_compared {t : Token} {left : Expr} {ts r : List Token} {v : Comparison}
    (h : compared t left ts = .ok (v, r)) : v.Paired := by
  obtain ⟨⟨right, r'⟩, _, hgrow⟩ := bind_eq_ok.mp h
  exact paired_of_grow (Comparison.paired_two left right _) hgrow

/-- What the parser makes of a comparator has the two lists that the loop makes of it, and both
fail alike. -/
theorem comparison?_joined {t : Token} (h : t.kind.joining? = some .comparator) (left : Expr)
    (ts : List Token) :
    (forget (joined t left ts) >>= fun x => .ok (x.1.comparison?, x.2)) =
      compared t left ts >>= fun x => .ok (some x.1, x.2) := by
  rw [forget_joined_comparator h, compared, bind_assoc, bind_assoc]
  refine bind_congr_ok fun ⟨right, r⟩ _ => ?_
  rw [forget_grow, bind_assoc, bind_assoc]
  refine bind_congr_ok fun ⟨links, r'⟩ _ => ?_
  rw [Comparison.pushed_eq]
  rfl

/-! ## Every comparison of a tree -/

/-- A comparison has the two lists of a run of the parser. -/
def Grown (node : Expr) : Prop :=
  ∀ v, node.comparison? = some v →
    ∃ t left ts r, t.kind.joining? = some .comparator ∧
      forget (joined t left ts) = .ok (node, r) ∧ compared t left ts = .ok (v, r)

/-- An expression that is not a comparison is made of its children. -/
theorem grown_of_children {e : Expr} (he : e.comparison? = none)
    (hchildren : ∀ c ∈ e.children, c.Everywhere Grown) : e.Everywhere Grown :=
  Expr.everywhere_iff.mpr ⟨fun v hv => absurd (he.symm.trans hv) (by simp), hchildren⟩

/-- A comparison is made by a run, of the operands that the run reads. -/
theorem grown_of_joined {t : Token} {left : Expr} {ts r : List Token} {e : Expr}
    (ht : t.kind.joining? = some .comparator) (h : forget (joined t left ts) = .ok (e, r))
    (hchildren : ∀ c ∈ e.children, c.Everywhere Grown) : e.Everywhere Grown := by
  refine Expr.everywhere_iff.mpr ⟨fun v hv => ?_, hchildren⟩
  have hlists := comparison?_joined ht left ts
  rw [h, ok_bind, hv] at hlists
  obtain ⟨⟨v', r'⟩, hcompared, hsame⟩ := bind_eq_ok.mp hlists.symm
  cases hsame
  exact ⟨t, left, ts, r, ht, h, hcompared⟩

theorem grown_literal {t : Token} {e : Expr} (h : literal t = .ok e) : e.Everywhere Grown := by
  cases t with
  | symbol s => cases h
  | number | string | name =>
    cases h
    exact grown_of_children rfl (by simp [Expr.children])

theorem grown_constant (s : Symbol) : (constant s).Everywhere Grown := by
  rw [constant.eq_def]
  split <;> exact grown_of_children rfl (by simp [Expr.children])

theorem grown_applyPrefix {t : Token} {operand e : Expr} (h : applyPrefix t operand = .ok e)
    (ho : operand.Everywhere Grown) : e.Everywhere Grown := by
  cases t with
  | symbol s =>
    cases s <;> first | cases h; exact grown_of_children rfl (by simpa [Expr.children]) | cases h
  | number | string | name => cases h

theorem grown_applyInfix {t : Token} {left right e : Expr} (h : applyInfix t left right = .ok e)
    (hl : left.Everywhere Grown) (hr : right.Everywhere Grown) : e.Everywhere Grown := by
  cases t with
  | symbol s =>
    cases s <;>
      first | cases h; exact grown_of_children rfl (by simp [Expr.children, hl, hr]) | cases h
  | number | string | name => cases h

theorem grown_group {items : List Expr} (h : ∀ e ∈ items, e.Everywhere Grown) (comma : Bool) :
    (group items comma).Everywhere Grown := by
  rw [group.eq_def]
  split
  · exact h _ (List.mem_singleton_self _)
  · exact grown_of_children rfl h

/-- Each parsing function makes every comparison by a run, given that those on its left are made
so. The frames give back the runs. -/
def growing : Account where
  expression p ts e r := framing.expression p ts e r ∧ e.Everywhere Grown
  opened t ts e r := framing.opened t ts e r ∧ e.Everywhere Grown
  extended p left ts e r :=
    framing.extended p left ts e r ∧ (left.Everywhere Grown → e.Everywhere Grown)
  joined t left ts e r :=
    framing.joined t left ts e r ∧ (left.Everywhere Grown → e.Everywhere Grown)
  chain ts links r := framing.chain ts links r ∧ ∀ l ∈ links, l.2.Everywhere Grown
  sequence close ts x r := framing.sequence close ts x r ∧ ∀ e ∈ x.1, e.Everywhere Grown
  entries ts es r :=
    framing.entries ts es r ∧ ∀ x ∈ es, x.1.Everywhere Grown ∧ x.2.Everywhere Grown

theorem growing_closed : growing.Closed where
  expression ho hx := ⟨framing_closed.expression ho.1 hx.1, hx.2 ho.2⟩
  literal h := ⟨framing_closed.literal h, grown_literal h⟩
  constant ht := ⟨framing_closed.constant ht, grown_constant _⟩
  prefixed ht hr he := ⟨framing_closed.prefixed ht hr.1 he, grown_applyPrefix he hr.2⟩
  group ht hs := ⟨framing_closed.group ht hs.1, grown_group hs.2 _⟩
  list ht hs := ⟨framing_closed.list ht hs.1, grown_of_children rfl hs.2⟩
  dict ht he := by
    refine ⟨framing_closed.dict ht he.1, grown_of_children rfl fun c hc => ?_⟩
    obtain ⟨x, hx, hc⟩ := List.mem_flatMap.mp hc
    rcases List.mem_pair.mp hc with rfl | rfl
    · exact (he.2 x hx).1
    · exact (he.2 x hx).2
  lambda ht hp hb := ⟨framing_closed.lambda ht hp hb.1,
    grown_of_children rfl (by simpa [Expr.children] using hb.2)⟩
  stop hp := ⟨framing_closed.stop hp, id⟩
  extend hp hj hx := ⟨framing_closed.extend hp hj.1 hx.1, fun hl => hx.2 (hj.2 hl)⟩
  infixed ht hr he :=
    ⟨framing_closed.infixed ht hr.1 he, fun hl => grown_applyInfix he hl hr.2⟩
  compare {t left ts right r links r'} ht hr hc := by
    have hframed : framing.joined t left ts
        (.compare left ((CompareOp.ofSymbol t.kind, right) :: links)) r' :=
      framing_closed.compare ht hr.1 hc.1
    refine ⟨hframed, fun hl => grown_of_joined ht hframed.run fun e he => ?_⟩
    rcases List.mem_cons.mp he with rfl | he
    · exact hl
    · rw [List.map_cons] at he
      rcases List.mem_cons.mp he with rfl | he
      · exact hr.2
      · obtain ⟨l, hlink, rfl⟩ := List.mem_map.mp he
        exact hc.2 l hlink
  keyword ht hn hv := ⟨framing_closed.keyword ht hn hv.1,
    fun _ => grown_of_children rfl (by simpa [Expr.children] using hv.2)⟩
  conditional ht htest hu ho := ⟨framing_closed.conditional ht htest.1 hu ho.1,
    fun hl => grown_of_children rfl (by simp [Expr.children, hl, htest.2, ho.2])⟩
  attr ht := ⟨framing_closed.attr ht,
    fun hl => grown_of_children rfl (by simpa [Expr.children] using hl)⟩
  call ht hs := ⟨framing_closed.call ht hs.1,
    fun hl => grown_of_children rfl (List.forall_mem_cons.mpr ⟨hl, hs.2⟩)⟩
  subscript ht hi hu := ⟨framing_closed.subscript ht hi.1 hu,
    fun hl => grown_of_children rfl (by simp [Expr.children, hl, hi.2])⟩
  chainStop h := ⟨framing_closed.chainStop h, by simp⟩
  chainLink ht hr hc := ⟨framing_closed.chainLink ht hr.1 hc.1,
    List.forall_mem_cons.mpr ⟨hr.2, hc.2⟩⟩
  sequenceNone h := ⟨framing_closed.sequenceNone h, by simp⟩
  sequenceLast he hu := ⟨framing_closed.sequenceLast he.1 hu, by simpa using he.2⟩
  sequenceMore he hs := ⟨framing_closed.sequenceMore he.1 hs.1,
    List.forall_mem_cons.mpr ⟨he.2, hs.2⟩⟩
  entriesNone h := ⟨framing_closed.entriesNone h, by simp⟩
  entriesLast hk hc hv hu := ⟨framing_closed.entriesLast hk.1 hc hv.1 hu,
    by simpa using ⟨hk.2, hv.2⟩⟩
  entriesMore hk hc hv he := ⟨framing_closed.entriesMore hk.1 hc hv.1 he.1,
    List.forall_mem_cons.mpr ⟨⟨hk.2, hv.2⟩, he.2⟩⟩

end Parser

/-! ## Parsed trees -/

/-- Every comparison at any depth of a parsed tree has the two lists that the loop of the parser
grows. There is an operator, and one operand more than operators, so the display finds every
operator that it looks up, and every operator and every operand after the first is in a link. The
evaluation of the two lists is that of the comparison, whatever would come of a chain without
operands and of an operator that is no rich comparison. -/
theorem comparisons_of_parse (ts : List Token) (e : Expr) (h : parse ts = .ok e) :
    e.Everywhere fun node => ∀ v, node.comparison? = some v →
      (∃ t left ts' r, t.kind.joining? = some .comparator ∧
        Parser.forget (Parser.joined t left ts') = .ok (node, r) ∧
          Parser.compared t left ts' = .ok (v, r)) ∧
      (v.operators ≠ [] ∧ v.operands.length = v.operators.length + 1) ∧
      ((∀ i, 0 < i → i < v.operands.length → i - 1 < v.operators.length) ∧
        v.display? = some node.display) ∧
      (v.links.map (·.1) = v.operators ∧ v.links.map (·.2) = v.operands.tail) ∧
      ∀ (empty : Outcome Value) (notRich : CompareOp → Outcome Value) (host : Host)
        (call : Expr.Caller) (c : Context) (site : Identity),
        v.evalOr empty notRich host call c site = node.evalWith host call c site := by
  obtain ⟨r, hr, _⟩ := parse_eq_ok h
  have hgrown := (Parser.growing_closed.runs 0 ts e r hr).2
  intro node hnode v hv
  obtain ⟨t, left, ts', r', ht, hjoined, hcompared⟩ := hgrown node hnode v hv
  have hpaired := Parser.paired_of_compared hcompared
  refine ⟨⟨t, left, ts', r', ht, hjoined, hcompared⟩,
    ⟨hpaired.operators_ne_nil, hpaired.length_operands⟩,
    ⟨fun i => hpaired.place_lt, Comparison.display?_of_comparison? hv⟩,
    ⟨hpaired.links_operators, hpaired.links_operands⟩, ?_⟩
  intro empty notRich host call c site
  exact Comparison.evalOr_of_comparison? empty notRich host call c site hv

def chainTokens : List Token :=
  [.symbol .kwLambda, .name "x", .symbol .colon, .name "a", .symbol .lt, .name "x",
    .symbol .kwIsNot, .name "b", Token.stop]

def chainBody : Expr :=
  .compare (.name "a") [(.lt, .name "x"), (.notSame, .name "b")]

theorem parse_chainTokens : parse chainTokens = .ok (.lambda ["x"] chainBody) := by
  with_unfolding_all rfl

theorem comparisons_of_parse_lambda :
    parse chainTokens = .ok (.lambda ["x"] chainBody) ∧
      Comparison.display? ⟨[.name "a", .name "x", .name "b"], [.lt, .notSame]⟩ =
        some chainBody.display ∧
      ∀ (empty : Outcome Value) (notRich : CompareOp → Outcome Value) (host : Host)
        (call : Expr.Caller) (c : Context) (site : Identity),
        Comparison.evalOr empty notRich host call c site
            ⟨[.name "a", .name "x", .name "b"], [.lt, .notSame]⟩ =
          chainBody.evalWith host call c site := by
  have hbody : Relation.ReflTransGen (fun whole part => part ∈ Expr.children whole)
      (.lambda ["x"] chainBody) chainBody :=
    .single (List.mem_singleton_self _)
  obtain ⟨_, _, ⟨_, hdisplay⟩, _, heval⟩ :=
    comparisons_of_parse chainTokens _ parse_chainTokens chainBody hbody _ rfl
  exact ⟨parse_chainTokens, hdisplay, heval⟩

end FilterLang
