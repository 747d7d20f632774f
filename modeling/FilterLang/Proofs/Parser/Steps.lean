import FilterLang.Expr.Parser
import FilterLang.Proofs.Fallible
/-!
What one step of the parser does, without the bounds that its results carry.

The parsing functions return their rest in a type that bounds its length. `forget`
drops the bound, and each lemma here is one equation of one function in that form:
`expression` opens and extends, `extended` joins while the next symbol binds more
strongly, `sequence` and `entries` repeat over commas. Everything that is proved
about the parser goes through these equations.
-/

namespace FilterLang.Parser

open Fallible

variable {α : Type}

/-- A result with the tokens left over, the bound on them dropped. -/
def forget {P : List Token → Prop} (x : Except ParseError (α × { r : List Token // P r })) :
    Except ParseError (α × List Token) :=
  x.map fun y => (y.1, y.2.1)

/-- A rest, the bound on it dropped. -/
def forgetRest {P : List Token → Prop} (x : Except ParseError { r : List Token // P r }) :
    Except ParseError (List Token) :=
  x.map (·.1)

@[simp] theorem forget_ok {P : List Token → Prop} (a : α) (r : { r : List Token // P r }) :
    forget (.ok (a, r)) = .ok (a, r.1) := rfl

@[simp] theorem forgetRest_ok {P : List Token → Prop} (r : { r : List Token // P r }) :
    forgetRest (.ok r) = .ok r.1 := rfl

/-! ## Single symbols -/

theorem forgetRest_expect (s : Symbol) (t : Token) (rest : List Token) (h : t.kind = s) :
    forgetRest (expect s (t :: rest)) = .ok rest := by
  simp [expect, h, forgetRest, Except.map]

theorem expect_eq_ok {s : Symbol} {ts r : List Token}
    (h : forgetRest (expect s ts) = .ok r) : ∃ t, ts = t :: r ∧ t.kind = s := by
  cases ts with
  | nil => simp [expect, forgetRest, Except.map] at h
  | cons t rest =>
    simp only [expect] at h
    split at h
    · rename_i ht
      simp only [forgetRest, Except.map, Except.ok.injEq] at h
      exact ⟨t, by rw [h], ht⟩
    · simp [forgetRest, Except.map] at h

/-! ## Parameters -/

theorem forget_params_more (p : String) (rest : List Token) :
    forget (params (.name p :: .symbol .comma :: rest)) =
      forget (params rest) >>= fun x => .ok (p :: x.1, x.2) := by
  rw [params]
  rcases params rest with _ | ⟨ps, r, hr⟩ <;> rfl

theorem forget_params_last (p : String) (ts : List Token)
    (h : ∀ rest, ts ≠ .symbol .comma :: rest) :
    forget (params (.name p :: ts)) =
      forgetRest (expect .colon ts) >>= fun r => .ok ([p], r) := by
  rw [params]
  · rcases expect .colon ts with _ | ⟨r, hr⟩ <;> rfl
  · exact h

theorem forget_params_none (rest : List Token) :
    forget (params (.symbol .colon :: rest)) = .ok ([], rest) := rfl

theorem forget_params_other (t : Token) (rest : List Token) (hname : ∀ p, t ≠ .name p)
    (ht : t.kind ≠ .colon) :
    forget (params (t :: rest)) = .error (.expected "parameter name" t.display) := by
  rw [params]
  · rw [if_neg ht]; rfl
  · exact fun p _ hp _ => hname p hp
  · exact fun p hp => hname p hp

/-! ## Expressions -/

theorem forget_expression_nil (p : Nat) :
    forget (expression p []) = .error (.undefinedPrefix Token.stop.display) := by
  rw [expression]; rfl

theorem forget_expression (p : Nat) (t : Token) (rest : List Token) :
    forget (expression p (t :: rest)) =
      forget (opened t rest) >>= fun x => forget (extended p x.1 x.2) := by
  rw [expression]
  rcases opened t rest with _ | ⟨left, r, hr⟩
  · rfl
  · simp only [forget, Except.map, bind, Except.bind]
    rcases extended p left r with _ | ⟨e, r', hr'⟩ <;> rfl

theorem forget_extended (p : Nat) (left : Expr) (t : Token) (rest : List Token)
    (h : p < t.kind.power) :
    forget (extended p left (t :: rest)) =
      forget (joined t left rest) >>= fun x => forget (extended p x.1 x.2) := by
  rw [extended, if_pos h]
  rcases joined t left rest with _ | ⟨e, r, hr⟩
  · rfl
  · simp only [forget, Except.map, bind, Except.bind]
    rcases extended p e r with _ | ⟨e', r', hr'⟩ <;> rfl

/-- A symbol that binds no more strongly than the power asked for ends the
expression. -/
theorem forget_extended_stop (p : Nat) (left : Expr) (ts : List Token)
    (h : (peek ts).power ≤ p) : forget (extended p left ts) = .ok (left, ts) := by
  cases ts with
  | nil => rw [extended]; rfl
  | cons t rest =>
    have ht : ¬ p < t.kind.power := Nat.not_lt.mpr h
    rw [extended, if_neg ht]; rfl

/-! ## What a token opens -/

section Opened

variable {t : Token} {ts : List Token}

theorem forget_opened_none (h : t.kind.opening? = none) :
    forget (opened t ts) = .error (.undefinedPrefix t.display) := by
  rw [opened, h]; rfl

theorem forget_opened_literal (h : t.kind.opening? = some .literal) :
    forget (opened t ts) = literal t >>= fun e => .ok (e, ts) := by
  rw [opened, h]
  cases literal t <;> rfl

theorem forget_opened_constant (h : t.kind.opening? = some .constant) :
    forget (opened t ts) = .ok (constant t.kind, ts) := by
  rw [opened, h]; rfl

theorem forget_opened_operator {p : Nat} (h : t.kind.opening? = some (.operator p)) :
    forget (opened t ts) =
      forget (expression p ts) >>= fun x => applyPrefix t x.1 >>= fun e => .ok (e, x.2) := by
  rw [opened, h]
  dsimp only
  rcases expression p ts with _ | ⟨operand, r, hr⟩
  · rfl
  · simp only [forget, Except.map, bind, Except.bind]
    cases applyPrefix t operand <;> rfl

theorem forget_opened_group (h : t.kind.opening? = some .group) :
    forget (opened t ts) =
      forget (sequence .parenClose ts) >>= fun x => .ok (group x.1.1 x.1.2, x.2) := by
  rw [opened, h]
  dsimp only
  rcases sequence .parenClose ts with _ | ⟨⟨items, comma⟩, r, hr⟩ <;> rfl

theorem forget_opened_list (h : t.kind.opening? = some .list) :
    forget (opened t ts) =
      forget (sequence .bracketClose ts) >>= fun x => .ok (.list x.1.1, x.2) := by
  rw [opened, h]
  dsimp only
  rcases sequence .bracketClose ts with _ | ⟨⟨items, comma⟩, r, hr⟩ <;> rfl

theorem forget_opened_dict (h : t.kind.opening? = some .dict) :
    forget (opened t ts) = forget (entries ts) >>= fun x => .ok (.dict x.1, x.2) := by
  rw [opened, h]
  dsimp only
  rcases entries ts with _ | ⟨es, r, hr⟩ <;> rfl

theorem forget_opened_lambda (h : t.kind.opening? = some .lambda) :
    forget (opened t ts) =
      forget (params ts) >>= fun x =>
        forget (expression 0 x.2) >>= fun y => .ok (.lambda x.1 y.1, y.2) := by
  rw [opened, h]
  dsimp only
  rcases params ts with _ | ⟨ps, r, hr⟩
  · rfl
  · simp only [forget, Except.map, bind, Except.bind]
    rcases expression 0 r with _ | ⟨body, r', hr'⟩ <;> rfl

end Opened

/-! ## What a token joins -/

section Joined

variable {t : Token} {left : Expr} {ts : List Token}

theorem forget_joined_none (h : t.kind.joining? = none) :
    forget (joined t left ts) = .error (.undefinedInfix t.display) := by
  rw [joined.eq_def, h]; rfl

theorem forget_joined_operator {p : Nat} (h : t.kind.joining? = some (.operator p)) :
    forget (joined t left ts) =
      forget (expression p ts) >>= fun x => applyInfix t left x.1 >>= fun e => .ok (e, x.2) := by
  rw [joined.eq_def, h]
  dsimp only
  rcases expression p ts with _ | ⟨right, r, hr⟩
  · rfl
  · simp only [forget, Except.map, bind, Except.bind]
    cases applyInfix t left right <;> rfl

theorem forget_joined_comparator (h : t.kind.joining? = some .comparator) :
    forget (joined t left ts) =
      forget (expression comparatorPower ts) >>= fun x =>
        forget (chain x.2) >>= fun y =>
          .ok (.compare left ((CompareOp.ofSymbol t.kind, x.1) :: y.1), y.2) := by
  rw [joined.eq_def, h]
  dsimp only
  rcases expression comparatorPower ts with _ | ⟨right, r, hr⟩
  · rfl
  · simp only [forget, Except.map, bind, Except.bind]
    rcases chain r with _ | ⟨links, r', hr'⟩ <;> rfl

theorem forget_joined_keyword (h : t.kind.joining? = some .keywordArgument) :
    forget (joined t left ts) =
      keywordName left >>= fun n =>
        forget (expression 0 ts) >>= fun x => .ok (.keyword n x.1, x.2) := by
  rw [joined.eq_def, h]
  dsimp only
  cases keywordName left with
  | error e => rfl
  | ok n =>
    simp only [forget, Except.map, bind, Except.bind]
    rcases expression 0 ts with _ | ⟨value, r, hr⟩ <;> rfl

theorem forget_joined_conditional (h : t.kind.joining? = some .conditional) :
    forget (joined t left ts) =
      forget (expression 0 ts) >>= fun x =>
        forgetRest (expect .kwElse x.2) >>= fun r =>
          forget (expression 0 r) >>= fun y => .ok (.conditional left x.1 y.1, y.2) := by
  rw [joined.eq_def, h]
  dsimp only
  rcases expression 0 ts with _ | ⟨test, r, hr⟩
  · rfl
  · simp only [forget, forgetRest, Except.map, bind, Except.bind]
    rcases expect .kwElse r with _ | ⟨r', hr'⟩
    · rfl
    · dsimp only
      rcases expression 0 r' with _ | ⟨orelse, r'', hr''⟩ <;> rfl

theorem forget_joined_attr (n : String) (rest : List Token)
    (h : t.kind.joining? = some .attr) :
    forget (joined t left (.name n :: rest)) = .ok (.attr left n, rest) := by
  rw [joined.eq_def, h]; rfl

theorem forget_joined_attr_other (h : t.kind.joining? = some .attr)
    (hts : ∀ n rest, ts ≠ .name n :: rest) :
    forget (joined t left ts) = .error (.attributeName (current ts).display) := by
  rw [joined.eq_def, h]
  dsimp only
  split
  · exact absurd rfl (hts _ _)
  · rfl

theorem joined_attr_eq_ok (h : t.kind.joining? = some .attr) {e : Expr} {r : List Token}
    (ho : forget (joined t left ts) = .ok (e, r)) :
    ∃ n, ts = .name n :: r ∧ e = .attr left n := by
  rw [joined.eq_def, h] at ho
  dsimp only at ho
  split at ho
  · rename_i n rest
    simp only [forget, Except.map, Except.ok.injEq, Prod.mk.injEq] at ho
    exact ⟨n, by rw [ho.2], ho.1.symm⟩
  · simp [forget, Except.map] at ho

theorem forget_joined_call (h : t.kind.joining? = some .call) :
    forget (joined t left ts) =
      forget (sequence .parenClose ts) >>= fun x => .ok (.call left x.1.1, x.2) := by
  rw [joined.eq_def, h]
  dsimp only
  rcases sequence .parenClose ts with _ | ⟨⟨args, comma⟩, r, hr⟩ <;> rfl

theorem forget_joined_subscript (h : t.kind.joining? = some .subscript) :
    forget (joined t left ts) =
      forget (expression 0 ts) >>= fun x =>
        forgetRest (expect .bracketClose x.2) >>= fun r => .ok (.subscript left x.1, r) := by
  rw [joined.eq_def, h]
  dsimp only
  rcases expression 0 ts with _ | ⟨index, r, hr⟩
  · rfl
  · simp only [forget, forgetRest, Except.map, bind, Except.bind]
    rcases expect .bracketClose r with _ | ⟨r', hr'⟩ <;> rfl

end Joined

/-! ## Chains, sequences and entries -/

theorem forget_chain (t : Token) (rest : List Token) (h : t.kind.isComparator = true) :
    forget (chain (t :: rest)) =
      forget (expression comparatorPower rest) >>= fun x =>
        forget (chain x.2) >>= fun y =>
          .ok ((CompareOp.ofSymbol t.kind, x.1) :: y.1, y.2) := by
  rw [chain, if_pos h]
  rcases expression comparatorPower rest with _ | ⟨right, r, hr⟩
  · rfl
  · simp only [forget, Except.map, bind, Except.bind]
    rcases chain r with _ | ⟨links, r', hr'⟩ <;> rfl

theorem forget_chain_stop (ts : List Token) (h : (peek ts).isComparator = false) :
    forget (chain ts) = .ok ([], ts) := by
  cases ts with
  | nil => rw [chain]; rfl
  | cons t rest =>
    have ht : ¬ t.kind.isComparator = true := by
      simp only [peek, current] at h
      simp [h]
    rw [chain, if_neg ht]; rfl

theorem forget_sequence_nil :
    forget (sequence (peek []) []) =
      .error (.expected (peek []).text Token.stop.display) := by
  rw [sequence, if_pos rfl]; rfl

theorem forget_sequence_close (close : Symbol) (t : Token) (rest : List Token)
    (h : t.kind = close) : forget (sequence close (t :: rest)) = .ok (([], false), rest) := by
  have hp : peek (t :: rest) = close := h
  rw [sequence, if_pos hp]
  simp [expect, h, forget, Except.map, bind, Except.bind, pure, Except.pure]

/-- What follows an item of a sequence: a comma and more items, or the end. -/
def sequenceTail (close : Symbol) (e : Expr) (ts : List Token) :
    Except ParseError ((List Expr × Bool) × List Token) :=
  match ts with
  | .symbol .comma :: rest =>
    forget (sequence close rest) >>= fun x => .ok ((e :: x.1.1, true), x.2)
  | ts => forgetRest (expect close ts) >>= fun r => .ok (([e], false), r)

theorem sequenceTail_comma (close : Symbol) (e : Expr) (rest : List Token) :
    sequenceTail close e (.symbol .comma :: rest) =
      forget (sequence close rest) >>= fun x => .ok ((e :: x.1.1, true), x.2) := rfl

theorem sequenceTail_end (close : Symbol) (e : Expr) (ts : List Token)
    (h : ∀ rest, ts ≠ .symbol .comma :: rest) :
    sequenceTail close e ts =
      forgetRest (expect close ts) >>= fun r => .ok (([e], false), r) := by
  rw [sequenceTail.eq_def]
  split
  · rename_i rest
    exact absurd rfl (h rest)
  · rfl

theorem forget_sequence (close : Symbol) (ts : List Token) (h : peek ts ≠ close) :
    forget (sequence close ts) =
      forget (expression 0 ts) >>= fun x => sequenceTail close x.1 x.2 := by
  rw [sequence, if_neg h]
  rcases expression 0 ts with _ | ⟨e, r, hr⟩
  · rfl
  · simp only [ok_bind, forget_ok]
    split
    · rename_i rest _
      rw [sequenceTail_comma]
      rcases sequence close rest with _ | ⟨⟨es, comma⟩, r', hr'⟩ <;> rfl
    · rename_i hne
      rw [sequenceTail_end close e r (fun rest he => by subst he; exact hne rest hr rfl HEq.rfl)]
      rcases expect close r with _ | ⟨r', hr'⟩ <;> rfl

theorem forget_entries_close (t : Token) (rest : List Token) (h : t.kind = .braceClose) :
    forget (entries (t :: rest)) = .ok ([], rest) := by
  have hp : peek (t :: rest) = .braceClose := h
  rw [entries, if_pos hp]
  simp [expect, h, forget, Except.map, bind, Except.bind, pure, Except.pure]

/-- What follows an entry of a dict: a comma and more entries, or the end. -/
def entriesTail (k v : Expr) (ts : List Token) :
    Except ParseError (List (Expr × Expr) × List Token) :=
  match ts with
  | .symbol .comma :: rest => forget (entries rest) >>= fun x => .ok ((k, v) :: x.1, x.2)
  | ts => forgetRest (expect .braceClose ts) >>= fun r => .ok ([(k, v)], r)

theorem entriesTail_comma (k v : Expr) (rest : List Token) :
    entriesTail k v (.symbol .comma :: rest) =
      forget (entries rest) >>= fun x => .ok ((k, v) :: x.1, x.2) := rfl

theorem entriesTail_end (k v : Expr) (ts : List Token)
    (h : ∀ rest, ts ≠ .symbol .comma :: rest) :
    entriesTail k v ts =
      forgetRest (expect .braceClose ts) >>= fun r => .ok ([(k, v)], r) := by
  rw [entriesTail.eq_def]
  split
  · rename_i rest
    exact absurd rfl (h rest)
  · rfl

theorem forget_entries (ts : List Token) (h : peek ts ≠ .braceClose) :
    forget (entries ts) =
      forget (expression 0 ts) >>= fun x =>
        forgetRest (expect .colon x.2) >>= fun r =>
          forget (expression 0 r) >>= fun y => entriesTail x.1 y.1 y.2 := by
  rw [entries, if_neg h]
  rcases expression 0 ts with _ | ⟨k, r₁, hr₁⟩
  · rfl
  · simp only [ok_bind, forget_ok]
    rcases expect .colon r₁ with _ | ⟨r₂, hr₂⟩
    · rfl
    · simp only [ok_bind, forgetRest_ok]
      rcases expression 0 r₂ with _ | ⟨v, r, hr⟩
      · rfl
      · simp only [ok_bind, forget_ok]
        split
        · rename_i rest _
          rw [entriesTail_comma]
          rcases entries rest with _ | ⟨es, r', hr'⟩ <;> rfl
        · rename_i hne
          rw [entriesTail_end k v r (fun rest he => by subst he; exact hne rest hr rfl HEq.rfl)]
          rcases expect .braceClose r with _ | ⟨r', hr'⟩ <;> rfl

/-! ## Whole token lists -/

theorem parse_missingEnd {ts : List Token} (h : ts.getLast?.map Token.kind ≠ some .stop) :
    parse ts = .error .missingEnd := by
  rw [parse]
  cases hlast : ts.getLast? with
  | none => rfl
  | some t =>
    rw [hlast] at h
    dsimp only
    rw [if_neg fun ht => h (congrArg some ht)]
    rfl

/-- Before an end marker at the end of the list stands one expression, and behind it another end
marker or that one. -/
theorem parse_terminated {ts : List Token} (h : ts.getLast?.map Token.kind = some .stop) :
    parse ts = forget (expression 0 ts) >>= fun x =>
      if peek x.2 = .stop then .ok x.1 else .error (.trailingInput (current x.2).display) := by
  rw [parse]
  cases hlast : ts.getLast? with
  | none => rw [hlast] at h; cases h
  | some t =>
    rw [hlast] at h
    dsimp only
    rw [if_pos (Option.some.inj h)]
    rcases expression 0 ts with _ | ⟨e, r, hr⟩ <;> rfl

end FilterLang.Parser
