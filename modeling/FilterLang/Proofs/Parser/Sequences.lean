import FilterLang.Proofs.Parser.Steps
import Mathlib.Data.List.Forall2
/-!
Items and entries with commas between them.

Tokens are read as an expression when they are, whatever symbol that joins nothing comes
after them (`ReadsAs`). Such pieces with commas between them are read item by item up to
the bracket that closes them, whoever wrote the pieces.
-/

namespace FilterLang.Parser

open Fallible

variable {close : Symbol} {t : Token} {e k v : Expr} {es : List Expr} {comma : Bool}
  {ens : List (Expr × Expr)} {ts us rest : List Token}

/-! ## One item at a time -/

theorem sequence_last (hp : peek ts ≠ close) (he : forget (expression 0 ts) = .ok (e, t :: rest))
    (ht : t.kind = close) (hc : t.kind ≠ .comma) :
    forget (sequence close ts) = .ok (([e], false), rest) := by
  rw [forget_sequence close ts hp, he, ok_bind, sequenceTail_end close e (t :: rest)]
  · rw [forgetRest_expect close t rest ht]; rfl
  · rintro rest' h
    cases h
    exact hc rfl

theorem sequence_more (hp : peek ts ≠ close)
    (he : forget (expression 0 ts) = .ok (e, .symbol .comma :: us))
    (hs : forget (sequence close us) = .ok ((es, comma), rest)) :
    forget (sequence close ts) = .ok ((e :: es, true), rest) := by
  rw [forget_sequence close ts hp, he, ok_bind, sequenceTail_comma, hs]
  rfl

theorem entries_last (hp : peek ts ≠ .braceClose)
    (hk : forget (expression 0 ts) = .ok (k, .symbol .colon :: us))
    (hv : forget (expression 0 us) = .ok (v, .symbol .braceClose :: rest)) :
    forget (entries ts) = .ok ([(k, v)], rest) := by
  rw [forget_entries ts hp, hk, ok_bind, forgetRest_expect .colon _ us rfl, ok_bind, hv, ok_bind,
    entriesTail_end k v _ (by simp), forgetRest_expect .braceClose _ rest rfl]
  rfl

theorem entries_more {us' : List Token} (hp : peek ts ≠ .braceClose)
    (hk : forget (expression 0 ts) = .ok (k, .symbol .colon :: us))
    (hv : forget (expression 0 us) = .ok (v, .symbol .comma :: us'))
    (hs : forget (entries us') = .ok (ens, rest)) :
    forget (entries ts) = .ok ((k, v) :: ens, rest) := by
  rw [forget_entries ts hp, hk, ok_bind, forgetRest_expect .colon _ us rfl, ok_bind, hv, ok_bind,
    entriesTail_comma, hs]
  rfl

/-! ## All items -/

/-- Tokens that are read as an expression wherever a symbol that joins nothing comes after
them. -/
def ReadsAs (ts : List Token) (e : Expr) : Prop :=
  ∀ rest, (peek rest).power = 0 → forget (expression 0 (ts ++ rest)) = .ok (e, rest)

/-- Where an expression can be read, its first token opens it. -/
theorem opens_of_expression {p : Nat} {ts : List Token} {y : Expr × List Token}
    (h : forget (expression p ts) = .ok y) : (peek ts).opening? ≠ none := by
  intro hnone
  cases ts with
  | nil =>
    rw [forget_expression_nil] at h
    cases h
  | cons t rest =>
    rw [forget_expression, forget_opened_none (t := t) hnone] at h
    cases h

/-- Tokens that are read as an expression do not start with a symbol that opens nothing. -/
theorem ReadsAs.peek_ne (h : ReadsAs ts e) {s : Symbol} (hs : s.opening? = none)
    (ht : t.kind.power = 0) : peek (ts ++ t :: us) ≠ s := by
  rintro rfl
  exact opens_of_expression (h (t :: us) ht) hs

def commaJoined (tss : List (List Token)) : List Token :=
  List.intercalate [.symbol .comma] tss

theorem commaJoined_singleton (ts : List Token) : commaJoined [ts] = ts :=
  List.intercalate_singleton

theorem commaJoined_cons_cons (ts us : List Token) (tss : List (List Token)) :
    commaJoined (ts :: us :: tss) = ts ++ .symbol .comma :: commaJoined (us :: tss) := by
  rw [commaJoined, List.intercalate_cons_cons, List.append_assoc]
  rfl

/-- Items with commas between them are read up to the closing symbol. -/
theorem sequence_commaJoined (ho : close.opening? = none) (hp : close.power = 0)
    (hc : close ≠ .comma) {tss : List (List Token)} (h : List.Forall₂ ReadsAs tss es) :
    forget (sequence close (commaJoined tss ++ .symbol close :: rest)) =
      .ok ((es, !es.tail.isEmpty), rest) := by
  induction h with
  | nil => exact forget_sequence_close close _ rest rfl
  | @cons ts e tss es he hes ih =>
    cases hes with
    | nil =>
      rw [commaJoined_singleton]
      exact sequence_last (he.peek_ne ho hp) (he _ hp) rfl hc
    | cons _ _ =>
      rw [commaJoined_cons_cons, List.append_assoc, List.cons_append]
      exact sequence_more (he.peek_ne ho rfl) (he _ rfl) ih

/-- Tokens that are read as an entry: those of a key, a colon and those of a value. -/
def ReadsAsEntry (ts : List Token) (entry : Expr × Expr) : Prop :=
  ∃ kts vts, ts = kts ++ .symbol .colon :: vts ∧ ReadsAs kts entry.1 ∧ ReadsAs vts entry.2

/-- Entries with commas between them are read up to the closing brace. -/
theorem entries_commaJoined {tss : List (List Token)} (h : List.Forall₂ ReadsAsEntry tss ens) :
    forget (entries (commaJoined tss ++ .symbol .braceClose :: rest)) = .ok (ens, rest) := by
  induction h with
  | nil => exact forget_entries_close _ rest rfl
  | @cons ts entry tss ens he hes ih =>
    obtain ⟨kts, vts, rfl, hk, hv⟩ := he
    cases hes with
    | nil =>
      rw [commaJoined_singleton, List.append_assoc, List.cons_append]
      exact entries_last (hk.peek_ne rfl rfl) (hk _ rfl) (hv _ rfl)
    | cons _ _ =>
      rw [commaJoined_cons_cons, List.append_assoc, List.append_assoc, List.cons_append,
        List.cons_append]
      exact entries_more (hk.peek_ne rfl rfl) (hk _ rfl) (hv _ rfl) ih

/-- Before an end marker the expression is the whole. -/
theorem parse_of_readsAs (h : ReadsAs ts e) : parse (ts ++ [Token.stop]) = .ok e := by
  have hend : (ts ++ [Token.stop]).getLast?.map Token.kind = some .stop := by
    rw [List.getLast?_concat]
    rfl
  rw [parse_terminated hend, h [Token.stop] rfl, ok_bind, if_pos (by rfl)]

/-! ## Brackets -/

/-- What a first token opens, whatever symbol that joins nothing comes after it, is read
whole. -/
theorem readsAs_of_opened
    (h : ∀ rest, (peek rest).power = 0 → forget (opened t (ts ++ rest)) = .ok (e, rest)) :
    ReadsAs (t :: ts) e := by
  intro rest hr
  rw [List.cons_append, forget_expression, h rest hr, ok_bind]
  exact forget_extended_stop 0 e rest (Nat.le_of_eq hr)

theorem readsAs_literal {t : Token} {e : Expr} (ho : t.kind.opening? = some .literal)
    (h : literal t = .ok e) : ReadsAs [t] e :=
  readsAs_of_opened fun rest _ => by
    rw [List.nil_append, forget_opened_literal ho, h, ok_bind]

/-- What a token joins to a name, whatever symbol that joins nothing comes after it, is read
whole. -/
theorem readsAs_of_joined {n : String} (ht : 0 < t.kind.power)
    (h : ∀ rest, (peek rest).power = 0 →
      forget (joined t (.name n) (ts ++ rest)) = .ok (e, rest)) :
    ReadsAs (.name n :: t :: ts) e := by
  intro rest hr
  have hname : forget (opened (.name n) (t :: (ts ++ rest))) = .ok (.name n, t :: (ts ++ rest)) :=
    forget_opened_literal rfl
  rw [List.cons_append, List.cons_append, forget_expression, hname, ok_bind,
    forget_extended 0 _ t _ ht, h rest hr, ok_bind]
  exact forget_extended_stop 0 e rest (Nat.le_of_eq hr)

/-- A single item in parentheses is a tuple when a comma comes after it. -/
theorem opened_single (h : ReadsAs ts e) :
    forget (opened (.symbol .parenOpen) (ts ++ .symbol .comma :: .symbol .parenClose :: rest)) =
      .ok (.tuple [e], rest) := by
  have hseq : forget (sequence .parenClose (ts ++ .symbol .comma :: .symbol .parenClose :: rest)) =
      .ok (([e], true), rest) :=
    sequence_more (h.peek_ne rfl rfl) (h _ rfl) (forget_sequence_close _ _ rest rfl)
  rw [forget_opened_group rfl, hseq]
  rfl

/-- No items in parentheses, or more than one, are a tuple. -/
theorem opened_tuple {tss : List (List Token)} (h : List.Forall₂ ReadsAs tss es)
    (hlen : es.length ≠ 1) :
    forget (opened (.symbol .parenOpen) (commaJoined tss ++ .symbol .parenClose :: rest)) =
      .ok (.tuple es, rest) := by
  rw [forget_opened_group rfl, sequence_commaJoined rfl rfl (by decide) h, ok_bind]
  match es with
  | [] => rfl
  | [e] => exact absurd rfl hlen
  | e :: d :: more => rfl

theorem opened_list {tss : List (List Token)} (h : List.Forall₂ ReadsAs tss es) :
    forget (opened (.symbol .bracketOpen) (commaJoined tss ++ .symbol .bracketClose :: rest)) =
      .ok (.list es, rest) := by
  rw [forget_opened_list rfl, sequence_commaJoined rfl rfl (by decide) h]
  rfl

theorem opened_dict {tss : List (List Token)} (h : List.Forall₂ ReadsAsEntry tss ens) :
    forget (opened (.symbol .braceOpen) (commaJoined tss ++ .symbol .braceClose :: rest)) =
      .ok (.dict ens, rest) := by
  rw [forget_opened_dict rfl, entries_commaJoined h]
  rfl

end FilterLang.Parser
