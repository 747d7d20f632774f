import FilterLang.Proofs.Value.Calling
import FilterLang.Proofs.Value.Literal
import FilterLang.Source
/-!
Evaluation reads the names of an expression and nothing else of its context.

Two contexts that agree on the names that an expression reads give it values that agree.
A lambda keeps its whole context, so the two values need not be the same; they agree,
because what the lambda keeps agrees under the names of its body, and those are among the
names of the expression. One induction goes over the parts of an expression, given calls
that go alike; the other over the number of lambda bodies inside each other, which ties
the calls back to evaluation. The native form of values that agree is the same, so names
that a text does not hold have no influence on what comes back.
-/

namespace FilterLang

open Fallible Value

variable {host : Host}

/-! ## Single steps -/

theorem Context.lookup_agrees {n : String} {c d : Context}
    (h : (Table.get? c n).map prune = (Table.get? d n).map prune) :
    Consistent (c.lookup n) (d.lookup n) := by
  rw [lookup, lookup]
  cases hc : Table.get? c n with
  | none =>
    cases hd : Table.get? d n with
    | none => exact .refl _
    | some w => rw [hc, hd] at h; cases h
  | some v =>
    cases hd : Table.get? d n with
    | none => rw [hc, hd] at h; cases h
    | some w =>
      rw [hc, hd] at h
      exact .succeeded (Option.some.inj h)

theorem CompareOp.holds_prune (hhost : host.Uniform) (site : Identity) (op : CompareOp)
    (a b : Value) : op.holds host site a.prune b.prune = op.holds host site a b := by
  have hcompare : ∀ op : CompareOp,
      (a.prune.compareBy host site op b.prune >>= fun v => v.isTruthy host site) =
        (a.compareBy host site op b >>= fun v => v.isTruthy host site) := by
    intro op
    exact (compareBy_prune hhost site op a b).bind_eq fun v w hvw =>
      hvw.observe (isTruthy host site) (isTruthy_prune hhost site)
  cases op with
  | same | notSame => simp only [holds, identical_prune]
  | isIn | notIn => simp only [holds, contains_prune hhost]
  | _ => exact hcompare _

theorem Dict.insert_agrees (hhost : host.Uniform) (site : Identity) {d d' : Dict}
    {k k' v v' : Value} (hd : d.map prune = d'.map prune) (hk : k.Agrees k')
    (hv : v.Agrees v') :
    Related (fun e e' => Dict.map prune e = Dict.map prune e') (d.insert host site k v)
      (d'.insert host site k' v') := by
  have hinsert : (d.insert host site k v).map (Dict.map prune) =
      (d'.insert host site k' v').map (Dict.map prune) := by
    rw [← insert_prune hhost, ← insert_prune hhost, hd, hk, hv]
  exact (Related.of_map_eq hinsert).imp fun _ _ h => h.2

namespace Expr

/-- Calls that go alike on values and arguments that agree. -/
def CallsAlike (call : Caller) : Prop :=
  ∀ {site : Identity} {f f' : Value} {args args' : List Value}
    {keywords keywords' : List (String × Value)}, f.Agrees f' →
    args.map prune = args'.map prune → pruneNamed keywords = pruneNamed keywords' →
    Consistent (call site f args keywords) (call site f' args' keywords')

/-- An expression has values that agree in contexts that agree on the names it reads. -/
def ReadsNames (host : Host) (call : Caller) (e : Expr) : Prop :=
  ∀ {c d : Context} (site : Identity), AgreeOn e.names c d →
    Consistent (evalWith host call c site e) (evalWith host call d site e)

section Parts

variable {call : Caller} {c d : Context}

theorem agreeOn_child {e x : Expr} (h : AgreeOn e.names c d) (hx : x ∈ e.children) :
    AgreeOn x.names c d :=
  h.mono fun _ hn => mem_names_of_child hx hn

theorem evalItems_agrees {items : List Expr} (h : ∀ e ∈ items, ReadsNames host call e)
    (hnames : ∀ e ∈ items, AgreeOn e.names c d) (site : Identity) (i : Nat) :
    Related (fun vs ws => vs.map prune = ws.map prune) (evalItems host call c site i items)
      (evalItems host call d site i items) := by
  induction items generalizing i with
  | nil => exact .succeeded rfl
  | cons e rest ih =>
    rw [evalItems, evalItems]
    refine (h e (by simp) (site.operand i) (hnames e (by simp))).bind fun v w hvw => ?_
    have hrest := ih (fun x hx => h x (by simp [hx])) (fun x hx => hnames x (by simp [hx])) (i + 1)
    refine hrest.bind fun vs ws hvs => .succeeded ?_
    rw [List.map_cons, List.map_cons, hvw, hvs]

def ArgumentsAgree (x y : List Value × List (String × Value)) : Prop :=
  x.1.map prune = y.1.map prune ∧ pruneNamed x.2 = pruneNamed y.2

theorem evalArgs_agrees {args : List Expr} (h : ∀ e ∈ args, ReadsNames host call e)
    (hkeyword : ∀ n v, keyword n v ∈ args → ReadsNames host call v)
    (hnames : ∀ e ∈ args, AgreeOn e.names c d) (site : Identity) (i : Nat) :
    Related ArgumentsAgree (evalArgs host call c site i args) (evalArgs host call d site i args) := by
  induction args generalizing i with
  | nil => exact .succeeded ⟨rfl, rfl⟩
  | cons e rest ih =>
    have hrest := ih (fun x hx => h x (by simp [hx])) (fun n v hx => hkeyword n v (by simp [hx]))
      (fun x hx => hnames x (by simp [hx])) (i + 1)
    -- a keyword is no expression of its own: its value is evaluated in its place
    by_cases he : ∃ n v, e = keyword n v
    · obtain ⟨n, value, rfl⟩ := he
      have hvalue : AgreeOn value.names c d :=
        agreeOn_child (hnames (keyword n value) (by simp)) (by simp [children])
      rw [evalArgs, evalArgs]
      refine (hkeyword n value (by simp) (site.operand i) hvalue).bind fun v w hvw => ?_
      refine hrest.bind fun x y hxy => .succeeded ⟨hxy.1, ?_⟩
      rw [pruneNamed, pruneNamed, pruneMember, pruneMember, hvw, hxy.2]
    · have hne : ∀ n v, e ≠ keyword n v := fun n v heq => he ⟨n, v, heq⟩
      rw [evalArgs_positional hne, evalArgs_positional hne]
      refine (h e (by simp) (site.operand i) (hnames e (by simp))).bind fun v w hvw => ?_
      refine hrest.bind fun x y hxy => .succeeded ⟨?_, hxy.2⟩
      rw [List.map_cons, List.map_cons, hvw, hxy.1]

theorem evalLinks_agrees (hhost : host.Uniform) {links : List (CompareOp × Expr)}
    (h : ∀ l ∈ links, ReadsNames host call l.2) (hnames : ∀ l ∈ links, AgreeOn l.2.names c d)
    (site : Identity) {left left' : Value} (hleft : left.Agrees left') :
    evalLinks host call c site left links = evalLinks host call d site left' links := by
  -- the right operand of one link is the left operand of the next
  induction links generalizing site left left' with
  | nil => rfl
  | cons l rest ih =>
    obtain ⟨op, e⟩ := l
    rw [evalLinks, evalLinks, evalLink, evalLink]
    refine (h (op, e) (by simp) _ (hnames (op, e) (by simp))).bind_eq fun right right' hright => ?_
    rw [hleft.observe₂ hright (op.holds host (site.link rest)) (op.holds_prune hhost _),
      ih (fun x hx => h x (by simp [hx])) (fun x hx => hnames x (by simp [hx])) _ hright]

theorem evalEntries_agrees (hhost : host.Uniform) {entries : List (Expr × Expr)}
    (h : ∀ p ∈ entries, ReadsNames host call p.1 ∧ ReadsNames host call p.2)
    (hnames : ∀ p ∈ entries, AgreeOn p.1.names c d ∧ AgreeOn p.2.names c d) (site : Identity)
    (i : Nat) {x y : Dict} (hxy : x.map prune = y.map prune) :
    Related (fun e e' => Dict.map prune e = Dict.map prune e')
      (evalEntries host call c site i x entries) (evalEntries host call d site i y entries) := by
  induction entries generalizing i x y with
  | nil => exact .succeeded hxy
  | cons p rest ih =>
    obtain ⟨key, value⟩ := p
    obtain ⟨hkey, hvalue⟩ := h (key, value) (by simp)
    obtain ⟨hkeyNames, hvalueNames⟩ := hnames (key, value) (by simp)
    rw [evalEntries, evalEntries, evalEntry, evalEntry]
    simp only [bind_assoc, pure_eq, ok_bind]
    refine (hkey _ hkeyNames).bind fun k k' hk => ?_
    refine (hvalue _ hvalueNames).bind fun v v' hv => ?_
    refine (Dict.insert_agrees hhost site hxy hk hv).bind fun x' y' hxy' => ?_
    exact ih (fun q hq => h q (by simp [hq])) (fun q hq => hnames q (by simp [hq])) (i + 1) hxy'

end Parts

/-! ## Whole expressions -/

/-- A choice by the truth of values that agree. -/
theorem choice_agrees (hhost : host.Uniform) (site : Identity) {v w : Value} (h : v.Agrees w)
    {x x' y y' : Outcome Value} (hx : Consistent x x') (hy : Consistent y y') :
    Consistent (v.isTruthy host site >>= fun truthy => if truthy then x else y)
      (w.isTruthy host site >>= fun truthy => if truthy then x' else y') := by
  rw [h.observe (isTruthy host site) (isTruthy_prune hhost site)]
  refine Related.bind_same _ fun truthy => ?_
  cases truthy with
  | true => exact hx
  | false => exact hy

/-- An expression reads its names and nothing else. -/
theorem readsNames (hhost : host.Uniform) {call : Caller} (hcall : CallsAlike call) (e : Expr) :
    ReadsNames host call e ∧ ∀ n v, e = keyword n v → ReadsNames host call v := by
  -- the value of a keyword argument is evaluated by the call that it stands in
  induction e using inductionOnChildren with
  | step e ih =>
    refine ⟨?_, fun n v he => (ih v (by simp [he, children])).1⟩
    intro c d site hnames
    have hreads : ∀ x ∈ e.children, ReadsNames host call x := fun x hx => (ih x hx).1
    have hchild : ∀ x ∈ e.children, AgreeOn x.names c d := fun x hx => agreeOn_child hnames hx
    have hpart : ∀ x ∈ e.children, ∀ place : Identity,
        Consistent (evalWith host call c place x) (evalWith host call d place x) :=
      fun x hx place => hreads x hx place (hchild x hx)
    cases e with
    | name n => exact Context.lookup_agrees (hnames n (by simp))
    | number | str | const | keyword => exact .refl _
    | unary op operand =>
      rw [evalWith, evalWith]
      exact Consistent.apply (hpart operand (by simp [children]) _) (Value.unary host site op)
        (unary_prune hhost site op)
    | not operand =>
      rw [evalWith, evalWith]
      refine (hpart operand (by simp [children]) _).bind fun v w hvw => ?_
      rw [hvw.observe (isTruthy host site) (isTruthy_prune hhost site)]
      exact Consistent.refl _
    | binary op left right =>
      rw [evalWith, evalWith]
      exact Consistent.apply₂ (hpart left (by simp [children]) _)
        (hpart right (by simp [children]) _) (Value.binary host site op)
        (binary_prune hhost site op)
    | and left right =>
      rw [evalWith, evalWith]
      refine (hpart left (by simp [children]) _).bind fun a a' ha => ?_
      exact choice_agrees hhost site ha (hpart right (by simp [children]) _) (.succeeded ha)
    | or left right =>
      rw [evalWith, evalWith]
      refine (hpart left (by simp [children]) _).bind fun a a' ha => ?_
      exact choice_agrees hhost site ha (.succeeded ha) (hpart right (by simp [children]) _)
    | conditional body test orelse =>
      rw [evalWith, evalWith]
      refine (hpart test (by simp [children]) _).bind fun a a' ha => ?_
      exact choice_agrees hhost site ha (hpart body (by simp [children]) _)
        (hpart orelse (by simp [children]) _)
    | compare first links =>
      have hmem : ∀ l ∈ links, l.2 ∈ (compare first links).children :=
        fun l hl => List.mem_cons_of_mem _ (List.mem_map_of_mem hl)
      rw [evalWith, evalWith]
      refine (hpart first (by simp [children]) _).bind fun left left' hleft => ?_
      rw [evalLinks_agrees hhost (fun l hl => hreads _ (hmem l hl))
        (fun l hl => hchild _ (hmem l hl)) site hleft]
      exact Consistent.refl _
    | call callee args =>
      have hmem : ∀ a ∈ args, a ∈ (Expr.call callee args).children :=
        fun a ha => List.mem_cons_of_mem _ ha
      have hargs := evalArgs_agrees (fun a ha => hreads a (hmem a ha))
        (fun n v ha => (ih _ (hmem _ ha)).2 n v rfl) (fun a ha => hchild a (hmem a ha)) site 1
      rw [evalWith, evalWith]
      refine (hpart callee (by simp [children]) _).bind fun f f' hf => ?_
      exact hargs.bind fun x y hxy => hcall hf hxy.1 hxy.2
    | attr object n =>
      rw [evalWith, evalWith]
      exact Consistent.apply (hpart object (by simp [children]) _)
        (fun v => v.getAttr host site n) fun v => getAttr_prune hhost site v n
    | subscript object index =>
      rw [evalWith, evalWith]
      exact Consistent.apply₂ (hpart object (by simp [children]) _)
        (hpart index (by simp [children]) _) (Value.getItem host site) (getItem_prune hhost site)
    | tuple items | list items =>
      rw [evalWith, evalWith]
      refine (evalItems_agrees hreads hchild site 0).bind fun vs ws hvs => .succeeded ?_
      simp only [Agrees, prune, pruneItems_eq_map, hvs]
    | dict entries =>
      have hmem : ∀ p ∈ entries,
          p.1 ∈ (dict entries).children ∧ p.2 ∈ (dict entries).children := by
        intro p hp
        constructor <;> exact List.mem_flatMap.mpr ⟨p, hp, by simp⟩
      have hpairs : ∀ p ∈ entries, ReadsNames host call p.1 ∧ ReadsNames host call p.2 :=
        fun p hp => ⟨hreads _ (hmem p hp).1, hreads _ (hmem p hp).2⟩
      have hpairNames : ∀ p ∈ entries, AgreeOn p.1.names c d ∧ AgreeOn p.2.names c d :=
        fun p hp => ⟨hchild _ (hmem p hp).1, hchild _ (hmem p hp).2⟩
      rw [evalWith, evalWith]
      refine (evalEntries_agrees hhost hpairs hpairNames site 0 rfl).bind
        fun x y hxy => .succeeded ?_
      rw [Agrees, prune_dict, prune_dict, hxy]
    | lambda params body =>
      -- the two lambdas keep different contexts and read the same names of them
      exact .succeeded (agrees_lambda site params (hchild body (by simp [children])))

/-- Under any bound on the lambda bodies inside each other, an expression reads its names
and nothing else. -/
theorem evalWithin_agrees (hhost : host.Uniform) (depth : Nat) {e : Expr} {c d : Context}
    (site : Identity) (hnames : AgreeOn e.names c d) :
    Consistent (evalWithin host depth c site e) (evalWithin host depth d site e) := by
  induction depth generalizing e c d site with
  | zero => exact .refl _
  | succ depth ih =>
    -- calls at this depth run bodies at the depth below, where the statement holds
    refine (readsNames hhost ?_ e).1 site hnames
    intro site f f' args args' keywords keywords' hf hargs hkeywords
    have hrun : BodiesAlike fun body scope => evalWithin host depth scope (site.child 0) body :=
      fun h => ih (site.child 0) h
    have hcall := callWith_prune hhost site hrun
    have hcall' := hcall f' args' keywords'
    rw [← hf, ← hargs, ← hkeywords] at hcall'
    exact (hcall f args keywords).symm.trans hcall'

/-- The native outcome of an expression is decided by the names that it reads. -/
theorem native_evalWithin_congr (hhost : host.Uniform) (depth : Nat) {e : Expr}
    {c d : Context} (site : Identity) (hnames : AgreeOn e.names c d) :
    (evalWithin host depth c site e >>= toNative host site) =
      (evalWithin host depth d site e >>= toNative host site) :=
  (evalWithin_agrees hhost depth site hnames).bind_eq fun _ _ h =>
    h.observe (toNative host site) (toNative_prune hhost site)

/-- Contexts agree on a call of a name when they do on the name and on its arguments. -/
theorem agreeOn_call {f : String} {args : List Expr} {c d : Context}
    (hf : (Table.get? c f).map prune = (Table.get? d f).map prune)
    (hargs : ∀ a ∈ args, ∀ w ∈ a.names, w ≠ f → Table.get? c w = Table.get? d w) :
    AgreeOn (call (name f) args).names c d := by
  intro n hn
  by_cases hnf : n = f
  · rw [hnf, hf]
  · rcases mem_names_cases hn with heq | ⟨a, ha, hn⟩
    · cases heq
    · rcases List.mem_cons.mp ha with rfl | ha
      · exact absurd (by simpa using hn) hnf
      · rw [hargs a ha n hn hnf]

end Expr

theorem compile_eq_ok {text : String} {e : Expr} (h : compile text = .ok e) :
    ∃ tokens, tokenize text = .ok tokens ∧ parse tokens = .ok e := by
  obtain ⟨tokens, htokens, h⟩ := bind_eq_ok.mp h
  refine ⟨tokens, ?_, ?_⟩
  · cases ht : tokenize text with
    | error e => rw [ht] at htokens; cases htokens
    | ok ts => rw [ht] at htokens; cases htokens; rfl
  · cases hp : parse tokens with
    | error e => rw [hp] at h; cases h
    | ok e' => rw [hp] at h; cases h; rfl

/-- Names that are not read have no influence. A text has one native outcome in all
contexts that have the same under each name among its tokens. And a call of a lambda by
its name has one native outcome, wherever it is called and wherever the lambda was written,
as long as what the lambda keeps is the same under the names of its body and what the
arguments read is the same. -/
theorem evalText_congr_names (host : Host) (hhost : host.Uniform) :
    (∀ (site : Identity) (text : String) (c d : Context),
      (∀ tokens, tokenize text = .ok tokens →
        ∀ w, Token.name w ∈ tokens → Table.get? c w = Table.get? d w) →
      evalText host c site text = evalText host d site text) ∧
    (∀ (depth : Nat) (site id : Identity) (f : String) (params : List String) (body : Expr)
      (args : List Expr) (kept kept' here here' : Context),
      Table.get? here f = some (.lambda id params body kept) →
      Table.get? here' f = some (.lambda id params body kept') →
      (∀ w ∈ body.names, Table.get? kept w = Table.get? kept' w) →
      (∀ a ∈ args, ∀ w ∈ a.names, w ≠ f → Table.get? here w = Table.get? here' w) →
      ((Expr.call (.name f) args).evalWithin host depth here site >>= toNative host site) =
        ((Expr.call (.name f) args).evalWithin host depth here' site >>= toNative host site)) := by
  constructor
  · intro site text c d hnames
    simp only [evalText, evalValue, bind_assoc]
    refine bind_congr_ok fun e he => ?_
    -- every name that the parsed expression reads is one of the tokens
    obtain ⟨tokens, htokens, hparse⟩ := compile_eq_ok he
    refine Expr.native_evalWithin_congr hhost Expr.maxDepth site (AgreeOn.of_get? fun n hn => ?_)
    exact hnames tokens htokens n (token_of_mem_names hparse hn)
  · intro depth site id f params body args kept kept' here here' hf hf' hkept hargs
    refine Expr.native_evalWithin_congr hhost depth site (Expr.agreeOn_call ?_ hargs)
    rw [hf, hf']
    exact congrArg some (agrees_lambda id params (AgreeOn.of_get? hkept))

/-! ## A lambda in two contexts -/

/-- A lambda that appends a name of its context, called on another. -/
def appending : String := "(lambda x: x + y)(z)"

def appendingTokens : List Token :=
  [.symbol .parenOpen, .symbol .kwLambda, .name "x", .symbol .colon, .name "x", .symbol .plus,
    .name "y", .symbol .parenClose, .symbol .parenOpen, .name "z", .symbol .parenClose, Token.stop]

def narrowContext : Context := [("y", .str "b"), ("z", .str "a")]

def wideContext : Context := [("unused", .str "c"), ("y", .str "b"), ("z", .str "a")]

/-- A place from which the lambda is called, where the names of its body may mean something
else. -/
def callingContext (kept : Context) (y : String) : Context :=
  [("f", .lambda .origin ["x"] (.binary .add (.name "x") (.name "y")) kept), ("y", .str y),
    ("z", .str "a")]

theorem tokenize_appending : tokenize appending = .ok appendingTokens := by
  with_unfolding_all rfl

theorem evalText_appending : evalText .idle narrowContext .origin appending = .ok (.str "ab") := by
  with_unfolding_all rfl

theorem evalText_congr_names_appending :
    evalText .idle narrowContext .origin appending = .ok (.str "ab") ∧
      evalText .idle narrowContext .origin appending =
        evalText .idle wideContext .origin appending ∧
      ((Expr.call (.name "f") [.name "z"]).evalWithin .idle 2
          (callingContext narrowContext "here") .origin >>= toNative .idle .origin) =
        ((Expr.call (.name "f") [.name "z"]).evalWithin .idle 2
          (callingContext wideContext "there") .origin >>= toNative .idle .origin) := by
  have huniform : Host.idle.Uniform := Host.uniform_plain _ _
  refine ⟨evalText_appending, ?_, ?_⟩
  · refine (evalText_congr_names .idle huniform).1 _ _ _ _ fun tokens htokens w hw => ?_
    rw [tokenize_appending] at htokens
    cases htokens
    simp [appendingTokens, Token.stop] at hw
    rcases hw with rfl | rfl | rfl <;> rfl
  · refine (evalText_congr_names .idle huniform).2 2 .origin .origin "f" ["x"]
      (.binary .add (.name "x") (.name "y")) [.name "z"] narrowContext wideContext _ _ rfl rfl ?_ ?_
    · intro w hw
      simp [Expr.names, Expr.children] at hw
      rcases hw with rfl | rfl <;> rfl
    · intro a ha w hw _
      cases List.mem_singleton.mp ha
      simp at hw
      subst hw
      rfl

/-! ## Why the host has to be uniform -/

/-- A host with a function that tells the first name that a lambda keeps. -/
def Host.peeking : Host :=
  { Host.idle with
    functions := fun _ => some (.ofNames ["f"])
    callFunction := fun _ _ b =>
      match b.get "f" with
      | .lambda _ _ _ (kept :: _) => .ok (.str kept.1)
      | _ => .ok .null }

/-- Such a host shows names that the text does not hold, so uniformity cannot be left out. -/
theorem evalText_peeking :
    evalText .peeking [("peek", .function (.host "peek"))] .origin "peek(lambda: None)" =
        .ok (.str "peek") ∧
      evalText .peeking [("ahead", .null), ("peek", .function (.host "peek"))] .origin
        "peek(lambda: None)" = .ok (.str "ahead") := by
  constructor <;> with_unfolding_all rfl

end FilterLang
