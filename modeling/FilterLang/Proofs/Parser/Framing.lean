import FilterLang.Proofs.Parser.Sequences
import FilterLang.Proofs.Parser.Soundness
/-!
What comes after an expression does not change it, and brackets around it do not either.

A run takes some tokens and leaves a rest, of which it has looked at the first symbol only, and
at that only to see how strongly it binds. So it takes the same tokens and gives the same result
before every rest whose first symbol binds as strongly (`Framed`). Along the way no run takes an
end marker. Both are one account of the parser, closed under every way in which it can succeed.
An end marker joins nothing, and neither do a comma and the closing brackets: tokens that are an
expression before the one are read as that expression before the others (`readsAs_of_parse`).
-/

namespace FilterLang.Parser

open Fallible

/-! ## Frames -/

/-- Rests that an expression goes on with alike: their first symbols bind equally strongly. -/
def GoesOnAs (r r' : List Token) : Prop :=
  (peek r').power = (peek r).power

theorem GoesOnAs.append {r r' : List Token} (h : GoesOnAs r r') (used : List Token) :
    GoesOnAs (used ++ r) (used ++ r') := by
  cases used with
  | nil => exact h
  | cons t used => rfl

/-- A reader takes some tokens off a rest, no end marker among them, and takes them off every
rest that goes on alike, with the same result. -/
structure Framed {α : Type} (read : List Token → Except ParseError (α × List Token))
    (ts : List Token) (a : α) (r : List Token) : Prop where
  taken : ∃ used, ts = used ++ r ∧ (∀ t ∈ used, t.kind ≠ .stop) ∧
    ∀ r', GoesOnAs r r' → read (used ++ r') = .ok (a, r')

namespace Framed

variable {α β : Type} {f g : List Token → Except ParseError (α × List Token)}
  {ts r r₂ : List Token} {a : α} {b : β}

/-- A result that takes nothing. -/
theorem nothing (h : ∀ r', GoesOnAs r r' → f r' = .ok (a, r')) : Framed f r a r :=
  ⟨[], rfl, by simp, h⟩

/-- One reader after the other. -/
theorem bind {k : α → List Token → Except ParseError (β × List Token)}
    (h : Framed f ts a r) (hnext : Framed (k a) r b r₂) :
    Framed (fun ts => f ts >>= fun x => k x.1 x.2) ts b r₂ := by
  obtain ⟨used, rfl, hstop, hread⟩ := h.taken
  obtain ⟨used₂, rfl, hstop₂, hread₂⟩ := hnext.taken
  refine ⟨used ++ used₂, by rw [List.append_assoc], fun t ht => ?_, fun r' hr' => ?_⟩
  · rcases List.mem_append.mp ht with ht | ht
    · exact hstop t ht
    · exact hstop₂ t ht
  · rw [List.append_assoc, hread (used₂ ++ r') (hr'.append used₂), ok_bind]
    exact hread₂ r' hr'

/-- A token that is taken first. -/
theorem cons {t : Token} (ht : t.kind ≠ .stop) (hread : ∀ ts, g (t :: ts) = f ts)
    (h : Framed f ts a r) : Framed g (t :: ts) a r := by
  obtain ⟨used, rfl, hstop, hframed⟩ := h.taken
  refine ⟨t :: used, rfl, ?_, fun r' hr' => ?_⟩
  · rintro u (_ | ⟨_, hu⟩)
    · exact ht
    · exact hstop u hu
  · rw [List.cons_append, hread]
    exact hframed r' hr'

/-- A reader that succeeds wherever another does, and in the same way. -/
theorem imp (h : Framed f ts a r) (himp : ∀ ts y, f ts = .ok y → g ts = .ok y) :
    Framed g ts a r := by
  obtain ⟨used, hts, hstop, hread⟩ := h.taken
  exact ⟨used, hts, hstop, fun r' hr' => himp _ _ (hread r' hr')⟩

theorem congr (h : Framed f ts a r) (heq : ∀ ts, g ts = f ts) : Framed g ts a r :=
  h.imp fun ts _ hy => (heq ts).trans hy

/-- A result that is made of what was read. -/
theorem map (h : Framed f ts a r) (m : α → β) :
    Framed (fun ts => f ts >>= fun x => .ok (m x.1, x.2)) ts (m a) r :=
  h.bind (k := fun a ts => .ok (m a, ts)) (.nothing fun _ _ => rfl)

/-- A framed run, with the rest that it was left with. -/
theorem run (h : Framed f ts a r) : f ts = .ok (a, r) := by
  obtain ⟨used, rfl, _, hread⟩ := h.taken
  exact hread r rfl

end Framed

/-! ## Symbols -/

theorem ne_stop_of_power {t : Token} {p : Nat} (h : p < t.kind.power) : t.kind ≠ .stop := by
  intro hstop
  rw [hstop] at h
  exact absurd h (Nat.not_lt_zero p)

theorem isComparator_eq_of_power {s s' : Symbol} (h : s'.power = s.power) :
    s'.isComparator = s.isComparator := by
  have hpower : ∀ s : Symbol, s.isComparator = decide (s.power = comparatorPower) := by
    intro s
    cases s <;> rfl
  rw [hpower, hpower, h]

theorem opening_of_literal {t : Token} {e : Expr} (h : literal t = .ok e) :
    t.kind.opening? = some .literal := by
  cases t with
  | symbol s => cases h
  | number | string | name => rfl

theorem ne_stop_of_opening {t : Token} (h : t.kind.opening? ≠ none) : t.kind ≠ .stop := by
  intro hstop
  exact h (by rw [hstop]; rfl)

/-! ## Parameters -/

theorem framed_params (ts : List Token) :
    ∀ ps r, forget (params ts) = .ok (ps, r) → Framed (fun ts => forget (params ts)) ts ps r := by
  induction ts using params.induct with
  | case1 p rest ih =>
    intro ps r h
    rw [forget_params_more] at h
    obtain ⟨⟨more, r₁⟩, h₁, h₂⟩ := bind_eq_ok.mp h
    cases h₂
    have hmore := (ih more r₁ h₁).map (p :: ·)
    have hcomma := hmore.cons (t := .symbol .comma)
      (g := fun ts => forget (params (.name p :: ts))) (by decide)
      fun ts => forget_params_more p ts
    exact hcomma.cons (by simp [Token.kind]) fun ts => rfl
  | case2 p rest hc =>
    intro ps r h
    rw [forget_params_last p rest hc] at h
    obtain ⟨r₁, h₁, h₂⟩ := bind_eq_ok.mp h
    cases h₂
    obtain ⟨u, rfl, hu⟩ := expect_eq_ok h₁
    rw [eq_symbol_of_kind hu (by decide)]
    refine ⟨[.name p, .symbol .colon], rfl, by simp [Token.kind], fun r' _ => ?_⟩
    have hlast := forget_params_last p (.symbol .colon :: r') (by simp)
    rwa [forgetRest_expect .colon _ r' rfl, ok_bind] at hlast
  | case3 t rest hn hc ht =>
    intro ps r h
    rw [eq_symbol_of_kind ht (by decide)] at h ⊢
    cases h
    exact ⟨[.symbol .colon], rfl, by simp [Token.kind], fun r' _ => forget_params_none r'⟩
  | case4 t rest hn hc ht =>
    intro ps r h
    rw [params.eq_3 t rest hn hc, if_neg ht] at h
    cases h
  | case5 =>
    intro ps r h
    cases h

/-! ## The account -/

/-- Symbols that close a sequence. -/
structure Closing (close : Symbol) : Prop where
  opening : close.opening? = none
  comma : close ≠ .comma
  stop : close ≠ .stop

/-- Each parsing function is framed. -/
def framing : Account where
  expression p ts e r := Framed (fun ts => forget (expression p ts)) ts e r
  opened t ts e r := t.kind.opening? ≠ none ∧ Framed (fun ts => forget (opened t ts)) ts e r
  extended p left ts e r := Framed (fun ts => forget (extended p left ts)) ts e r
  joined t left ts e r := Framed (fun ts => forget (joined t left ts)) ts e r
  chain ts links r := Framed (fun ts => forget (chain ts)) ts links r
  sequence close ts x r := Closing close → Framed (fun ts => forget (sequence close ts)) ts x r
  entries ts es r := Framed (fun ts => forget (entries ts)) ts es r

theorem closing_parenClose : Closing .parenClose :=
  ⟨rfl, by decide, by decide⟩

theorem closing_bracketClose : Closing .bracketClose :=
  ⟨rfl, by decide, by decide⟩

/-- A reader whose first token is one that is expected. -/
theorem framed_expect {α : Type} {s : Symbol} {u : Token} (hu : u.kind = s) (hs : s ≠ .stop)
    {next : List Token → Except ParseError (α × List Token)} {ts r : List Token} {a : α}
    (h : Framed next ts a r) :
    Framed (fun ts => forgetRest (expect s ts) >>= next) (u :: ts) a r := by
  refine h.cons (by rw [hu]; exact hs) fun ts => ?_
  rw [forgetRest_expect s u ts hu, ok_bind]

section Closed

variable {close : Symbol} {ts r : List Token}

/-- A sequence that begins with an expression goes on behind it. -/
theorem framed_sequence (hclose : Closing close) {x : List Expr × Bool}
    (h : Framed (fun ts => forget (expression 0 ts) >>= fun x => sequenceTail close x.1 x.2) ts x
      r) : Framed (fun ts => forget (sequence close ts)) ts x r := by
  refine h.imp fun ts y hy => ?_
  obtain ⟨y', hread, _⟩ := bind_eq_ok.mp hy
  have hpeek : peek ts ≠ close := by
    rintro rfl
    exact opens_of_expression hread hclose.opening
  rw [forget_sequence close ts hpeek]
  exact hy

/-- Entries that begin with an expression go on behind it. -/
theorem framed_entries {es : List (Expr × Expr)}
    (h : Framed (fun ts => forget (expression 0 ts) >>= fun x =>
      forgetRest (expect .colon x.2) >>= fun r =>
        forget (expression 0 r) >>= fun y => entriesTail x.1 y.1 y.2) ts es r) :
    Framed (fun ts => forget (entries ts)) ts es r := by
  refine h.imp fun ts y hy => ?_
  obtain ⟨y', hread, _⟩ := bind_eq_ok.mp hy
  have hpeek : peek ts ≠ .braceClose := by
    intro hbrace
    exact opens_of_expression hread (by rw [hbrace]; rfl)
  rw [forget_entries ts hpeek]
  exact hy

theorem framing_closed : framing.Closed where
  expression {p t _ _ _ _ _} ho hx :=
    (Framed.bind (k := fun left ts => forget (extended p left ts)) ho.2 hx).cons
      (ne_stop_of_opening ho.1) fun ts => forget_expression p t ts
  literal h := by
    have ht := opening_of_literal h
    refine ⟨by rw [ht]; simp, .nothing fun r' _ => ?_⟩
    rw [forget_opened_literal ht, h, ok_bind]
  constant ht := ⟨by rw [ht]; simp, .nothing fun _ _ => forget_opened_constant ht⟩
  prefixed {t _ _ _ _ _} ht hr he := by
    refine ⟨by rw [ht]; simp, ?_⟩
    refine (Framed.bind (k := fun a ts => applyPrefix t a >>= fun e => .ok (e, ts)) hr
      (.nothing fun r' _ => ?_)).congr fun ts => forget_opened_operator ht
    rw [he, ok_bind]
  group ht hs := ⟨by rw [ht]; simp,
    ((hs closing_parenClose).map fun x => group x.1 x.2).congr fun _ => forget_opened_group ht⟩
  list ht hs := ⟨by rw [ht]; simp,
    ((hs closing_bracketClose).map fun x => Expr.list x.1).congr fun _ => forget_opened_list ht⟩
  dict ht hs := ⟨by rw [ht]; simp, (Framed.map hs Expr.dict).congr fun _ => forget_opened_dict ht⟩
  lambda ht hp hb := ⟨by rw [ht]; simp,
    (Framed.bind (k := fun ps ts => forget (expression 0 ts) >>= fun y =>
      .ok (.lambda ps y.1, y.2)) (framed_params _ _ _ hp) (Framed.map hb _)).congr
      fun _ => forget_opened_lambda ht⟩
  stop {p left ts} hp := by
    refine .nothing fun r' hr' => forget_extended_stop p left r' ?_
    have hpower : (peek r').power = (peek ts).power := hr'
    rwa [hpower]
  extend {p left t _ _ _ _ _} hp hj hx :=
    (Framed.bind (k := fun e ts => forget (extended p e ts)) hj hx).cons (ne_stop_of_power hp)
      fun ts => forget_extended p left t ts hp
  infixed {t left _ _ _ _ _} ht hr he := by
    refine (Framed.bind (k := fun a ts => applyInfix t left a >>= fun e => .ok (e, ts)) hr
      (.nothing fun r' _ => ?_)).congr fun ts => forget_joined_operator ht
    rw [he, ok_bind]
  compare {t left _ right _ _ _} ht hr hc :=
    (Framed.bind (k := fun right ts => forget (chain ts) >>= fun y =>
      .ok (Expr.compare left ((CompareOp.ofSymbol t.kind, right) :: y.1), y.2)) hr
      (Framed.map hc fun links =>
        Expr.compare left ((CompareOp.ofSymbol t.kind, right) :: links))).congr
      fun _ => forget_joined_comparator ht
  keyword ht hn hv := by
    refine (Framed.map hv _).congr fun ts => ?_
    rw [forget_joined_keyword ht, hn, ok_bind]
  conditional {t left _ _ _ _ _ _} ht htest hu ho :=
    (Framed.bind (k := fun test ts => forgetRest (expect .kwElse ts) >>= fun r =>
      forget (expression 0 r) >>= fun y => .ok (Expr.conditional left test y.1, y.2)) htest
      (framed_expect hu (by decide) (Framed.map ho _))).congr fun _ => forget_joined_conditional ht
  attr {t left n rest} ht := by
    refine ⟨[.name n], rfl, by simp [Token.kind], fun r' _ => ?_⟩
    exact forget_joined_attr n r' ht
  call {t left _ _ _} ht hs :=
    ((hs closing_parenClose).map fun x => Expr.call left x.1).congr fun _ => forget_joined_call ht
  subscript {t left _ _ _ _} ht hi hu :=
    (Framed.bind (k := fun index ts => forgetRest (expect .bracketClose ts) >>= fun r =>
      .ok (Expr.subscript left index, r)) hi
      (framed_expect hu (by decide) (.nothing fun _ _ => rfl))).congr
      fun _ => forget_joined_subscript ht
  chainStop {ts} h := by
    refine .nothing fun r' hr' => forget_chain_stop r' ?_
    have hpower : (peek r').power = (peek ts).power := hr'
    rw [isComparator_eq_of_power hpower, h]
  chainLink {t _ _ _ _ _} ht hr hc := by
    have hstop : t.kind ≠ .stop := by
      intro hstop
      rw [hstop] at ht
      cases ht
    exact (Framed.bind (k := fun right ts => forget (chain ts) >>= fun y =>
      .ok ((CompareOp.ofSymbol t.kind, right) :: y.1, y.2)) hr (Framed.map hc _)).cons hstop
      fun ts => forget_chain t ts ht
  sequenceNone {close t rest} h hclose :=
    Framed.cons (f := fun ts => .ok (([], false), ts)) (by rw [h]; exact hclose.stop)
      (fun ts => forget_sequence_close close t ts h) (.nothing fun _ _ => rfl)
  sequenceLast {close ts e u r} he hu hclose := by
    refine framed_sequence hclose (Framed.bind (k := sequenceTail close) he ?_)
    refine Framed.cons (f := fun ts => .ok (([e], false), ts)) (by rw [hu]; exact hclose.stop)
      (fun ts => ?_) (.nothing fun _ _ => rfl)
    rw [sequenceTail_end close e (u :: ts), forgetRest_expect close u ts hu, ok_bind]
    rintro rest h
    cases h
    exact hclose.comma hu.symm
  sequenceMore {close ts e rest x r} he hs hclose := by
    refine framed_sequence hclose (Framed.bind (k := sequenceTail close) he ?_)
    exact ((hs hclose).map fun x => (e :: x.1, true)).cons (by decide)
      fun ts => sequenceTail_comma close e ts
  entriesNone {t rest} h :=
    Framed.cons (f := fun ts => .ok ([], ts)) (by rw [h]; decide)
      (fun ts => forget_entries_close t ts h) (.nothing fun _ _ => rfl)
  entriesLast {ts k c r v u r'} hk hc hv hu := by
    refine framed_entries (Framed.bind (k := fun k ts => forgetRest (expect .colon ts) >>=
      fun r => forget (expression 0 r) >>= fun y => entriesTail k y.1 y.2) hk ?_)
    refine framed_expect hc (by decide) (Framed.bind (k := entriesTail k) hv ?_)
    refine Framed.cons (f := fun ts => .ok ([(k, v)], ts)) (by rw [hu]; decide)
      (fun ts => ?_) (.nothing fun _ _ => rfl)
    rw [entriesTail_end k v (u :: ts), forgetRest_expect .braceClose u ts hu, ok_bind]
    rintro rest h
    cases h
    cases hu
  entriesMore {ts k c r v rest es r'} hk hc hv he := by
    refine framed_entries (Framed.bind (k := fun k ts => forgetRest (expect .colon ts) >>=
      fun r => forget (expression 0 r) >>= fun y => entriesTail k y.1 y.2) hk ?_)
    refine framed_expect hc (by decide) (Framed.bind (k := entriesTail k) hv ?_)
    exact (Framed.map he ((k, v) :: ·)).cons (by decide) fun ts => entriesTail_comma k v ts

end Closed

/-! ## Before an end marker, and elsewhere -/

/-- Tokens that are an expression before an end marker are read as that expression before every
symbol that joins nothing. -/
theorem readsAs_of_parse {ts : List Token} {e : Expr} (hstop : ∀ t ∈ ts, t.kind ≠ .stop)
    (h : parse (ts ++ [Token.stop]) = .ok e) : ReadsAs ts e := by
  obtain ⟨r, hr, hp⟩ := parse_eq_ok h
  obtain ⟨used, hts, hused, hread⟩ := (framing_closed.runs 0 _ e r hr).taken
  have hsplit : used = ts ∧ r = [Token.stop] := by
    rcases List.append_eq_append_iff.mp hts with ⟨more, rfl, hmore⟩ | ⟨more, rfl, hmore⟩
    · -- the end marker cannot be among the tokens that were taken
      cases more with
      | nil => exact ⟨List.append_nil ts, hmore.symm⟩
      | cons u more =>
        have hu : u = Token.stop := by simpa using (List.cons.inj hmore).1.symm
        exact absurd rfl (hused Token.stop (by simp [hu]))
    · -- and nothing before it stops the expression
      cases more with
      | nil => exact ⟨(List.append_nil used).symm, hmore⟩
      | cons u more =>
        rw [hmore] at hp
        exact absurd hp (hstop u (by simp))
  obtain ⟨rfl, rfl⟩ := hsplit
  intro rest hrest
  exact hread rest hrest

/-- Brackets are neutral. Tokens that are an expression are that expression in parentheses, the
only item of a list in brackets, the only item of a tuple in parentheses with a comma, and the
only argument of a call. -/
theorem parse_bracketed {ts : List Token} {e : Expr} (hstop : ∀ t ∈ ts, t.kind ≠ .stop)
    (h : parse (ts ++ [Token.stop]) = .ok e) :
    parse (.symbol .parenOpen :: ts ++ [.symbol .parenClose, Token.stop]) = .ok e ∧
      parse (.symbol .bracketOpen :: ts ++ [.symbol .bracketClose, Token.stop]) =
        .ok (.list [e]) ∧
      parse (.symbol .parenOpen :: ts ++ [.symbol .comma, .symbol .parenClose, Token.stop]) =
        .ok (.tuple [e]) ∧
      ∀ f, parse (.name f :: .symbol .parenOpen :: ts ++ [.symbol .parenClose, Token.stop]) =
        .ok (.call (.name f) [e]) := by
  have hreads := readsAs_of_parse hstop h
  have hitem : ∀ rest,
      forget (sequence .parenClose (ts ++ .symbol .parenClose :: rest)) = .ok (([e], false), rest) :=
    fun rest => sequence_last (hreads.peek_ne rfl rfl) (hreads _ rfl) rfl (by decide)
  have hgroup : ReadsAs (.symbol .parenOpen :: (ts ++ [.symbol .parenClose])) e := by
    refine readsAs_of_opened fun rest _ => ?_
    rw [List.append_assoc, List.singleton_append, forget_opened_group rfl, hitem rest]
    rfl
  have hlist : ReadsAs (.symbol .bracketOpen :: (ts ++ [.symbol .bracketClose])) (.list [e]) := by
    refine readsAs_of_opened fun rest _ => ?_
    have hsingle : forget (opened (.symbol .bracketOpen) (commaJoined [ts] ++
        .symbol .bracketClose :: rest)) = .ok (.list [e], rest) :=
      opened_list (.cons hreads .nil)
    rw [commaJoined_singleton] at hsingle
    rwa [List.append_assoc, List.singleton_append]
  have htuple : ReadsAs (.symbol .parenOpen :: (ts ++ [.symbol .comma, .symbol .parenClose]))
      (.tuple [e]) := by
    refine readsAs_of_opened fun rest _ => ?_
    rw [List.append_assoc]
    exact opened_single hreads
  have hcall : ∀ f, ReadsAs (.name f :: .symbol .parenOpen :: (ts ++ [.symbol .parenClose]))
      (.call (.name f) [e]) := by
    intro f
    refine readsAs_of_joined (by decide) fun rest _ => ?_
    rw [List.append_assoc, List.singleton_append, forget_joined_call rfl, hitem rest]
    rfl
  refine ⟨?_, ?_, ?_, fun f => ?_⟩
  · simpa using parse_of_readsAs hgroup
  · simpa using parse_of_readsAs hlist
  · simpa using parse_of_readsAs htuple
  · simpa using parse_of_readsAs (hcall f)

/-- A keyword argument whose value is a lambda with a comma after its parameter, and a conditional
that ends in a comparison. -/
def openEnded : List Token :=
  [.name "k", .symbol .assign, .symbol .kwLambda, .name "x", .symbol .comma, .symbol .colon,
    .name "a", .symbol .kwIf, .symbol .parenOpen, .name "b", .symbol .comma, .symbol .parenClose,
    .symbol .kwElse, .name "x", .symbol .kwIs, .name "c"]

def openEndedTree : Expr :=
  .keyword "k" (.lambda ["x"] (.conditional (.name "a") (.tuple [.name "b"])
    (.compare (.name "x") [(.same, .name "c")])))

theorem parse_bracketed_openEnded :
    parse (openEnded ++ [Token.stop]) = .ok openEndedTree ∧
      parse (.name "f" :: .symbol .parenOpen :: openEnded ++ [.symbol .parenClose, Token.stop]) =
        .ok (.call (.name "f") [openEndedTree]) := by
  have hparse : parse (openEnded ++ [Token.stop]) = .ok openEndedTree := by
    with_unfolding_all rfl
  exact ⟨hparse, (parse_bracketed (by decide) hparse).2.2.2 "f"⟩

end FilterLang.Parser
