import FilterLang.Expr.Eval
/-!
The parts of an expression, and induction over them.

Expressions nest through lists of arguments, links and entries. `children` lists the
expressions directly inside one, whatever the list they stand in, so that a statement
about every expression needs one step: from the children to the whole
(`inductionOnChildren`).
-/

namespace FilterLang.Expr

/-- The expressions directly inside an expression, from left to right. -/
def children : Expr → List Expr
  | name _ | number _ | str .. | const _ => []
  | unary _ e | not e | keyword _ e | attr e _ | lambda _ e => [e]
  | binary _ l r | and l r | or l r | subscript l r => [l, r]
  | compare first links => first :: links.map (·.2)
  | call callee args => callee :: args
  | tuple items | list items => items
  | dict entries => entries.flatMap fun e => [e.1, e.2]
  | conditional body test orelse => [body, test, orelse]

def links? : Expr → Option (List (CompareOp × Expr))
  | compare _ links => some links
  | _ => none

theorem sizeOf_snd_lt {α : Type} [SizeOf α] {l : List (α × Expr)} {x : α × Expr} (h : x ∈ l) :
    sizeOf x.2 < sizeOf l := by
  have hx := List.sizeOf_lt_of_mem h
  obtain ⟨a, e⟩ := x
  simp only [Prod.mk.sizeOf_spec] at hx ⊢
  omega

theorem sizeOf_fst_lt {α : Type} [SizeOf α] {l : List (Expr × α)} {x : Expr × α} (h : x ∈ l) :
    sizeOf x.1 < sizeOf l := by
  have hx := List.sizeOf_lt_of_mem h
  obtain ⟨e, a⟩ := x
  simp only [Prod.mk.sizeOf_spec] at hx ⊢
  omega

theorem sizeOf_lt_of_mem_children {e c : Expr} (h : c ∈ e.children) : sizeOf c < sizeOf e := by
  cases e with
  | name | number | str | const => simp [children] at h
  | unary _ e | not e | keyword _ e | attr e _ | lambda _ e =>
    simp only [children, List.mem_singleton] at h
    subst h
    simp <;> omega
  | binary _ l r | and l r | or l r | subscript l r =>
    simp only [children, List.mem_cons, List.not_mem_nil, or_false] at h
    simp only [binary.sizeOf_spec, and.sizeOf_spec, or.sizeOf_spec, subscript.sizeOf_spec]
    rcases h with rfl | rfl <;> omega
  | compare first links =>
    simp only [children, List.mem_cons, List.mem_map] at h
    rcases h with rfl | ⟨l, hl, rfl⟩
    · simp; omega
    · have := sizeOf_snd_lt hl
      simp; omega
  | call callee args =>
    simp only [children, List.mem_cons] at h
    rcases h with rfl | hc
    · simp; omega
    · have := List.sizeOf_lt_of_mem hc
      simp; omega
  | tuple items | list items =>
    have := List.sizeOf_lt_of_mem h
    simp [children] at this ⊢; omega
  | dict entries =>
    simp only [children, List.mem_flatMap, List.mem_cons, List.not_mem_nil, or_false] at h
    obtain ⟨x, hx, rfl | rfl⟩ := h
    · have := sizeOf_fst_lt hx
      simp; omega
    · have := sizeOf_snd_lt hx
      simp; omega
  | conditional body test orelse =>
    simp only [children, List.mem_cons, List.not_mem_nil, or_false] at h
    rcases h with rfl | rfl | rfl <;> simp <;> omega

/-- What holds of an expression whenever it holds of its children holds of every
expression. -/
theorem inductionOnChildren {motive : Expr → Prop}
    (step : ∀ e, (∀ c ∈ e.children, motive c) → motive e) (e : Expr) : motive e := by
  induction h : sizeOf e using Nat.strongRecOn generalizing e with
  | _ n ih =>
    apply step
    intro c hc
    exact ih (sizeOf c) (h ▸ sizeOf_lt_of_mem_children hc) c rfl

/-- A positional argument is evaluated like any expression. -/
theorem evalArgs_positional {e : Expr} (he : ∀ n v, e ≠ keyword n v) (host : Host)
    (call : Caller) (c : Context) (site : Identity) (i : Nat) (rest : List Expr) :
    evalArgs host call c site i (e :: rest) =
      evalWith host call c (site.operand i) e >>= fun v =>
        evalArgs host call c site (i + 1) rest >>= fun x => .ok (v :: x.1, x.2) := by
  rw [evalArgs]
  · rfl
  · exact fun n v h => he n v h

end FilterLang.Expr
