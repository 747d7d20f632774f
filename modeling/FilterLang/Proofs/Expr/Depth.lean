import FilterLang.Expr.Eval
import FilterLang.Proofs.Expr.Children
import FilterLang.Proofs.Fallible
/-!
A deeper bound keeps the outcomes that a bound leaves room for.

The number of lambda bodies inside each other is bounded. An outcome under a bound approximates
one under a deeper bound: they are the same, unless the bound was reached (`evalWithin_deepen`).
One induction over the parts of an expression carries this from the calls to the whole, and
another over the bound makes the calls so. Hence an expression *settles* on one outcome at most,
whatever the bound (`Settles.unique`).
-/

namespace FilterLang

open Fallible

/-- An outcome is another one, unless it tells of calls nested too deep. -/
def Approximates {α : Type} (x y : Outcome α) : Prop :=
  x = .error .tooDeep ∨ x = y

namespace Approximates

variable {α β : Type} {x y : Outcome α}

theorem refl (x : Outcome α) : Approximates x x :=
  Or.inr rfl

theorem bind (h : Approximates x y) {f g : α → Outcome β} (hfg : ∀ a, Approximates (f a) (g a)) :
    Approximates (x >>= f) (y >>= g) := by
  rcases h with rfl | rfl
  · exact Or.inl rfl
  · cases x with
    | error e => exact refl _
    | ok a => exact hfg a

/-- What goes on the same keeps the relation. -/
theorem next (h : Approximates x y) (f : α → Outcome β) : Approximates (x >>= f) (y >>= f) :=
  h.bind fun a => refl (f a)

theorem trans {z : Outcome α} (h : Approximates x y) (h' : Approximates y z) :
    Approximates x z := by
  rcases h with rfl | rfl
  · exact Or.inl rfl
  · exact h'

end Approximates

namespace Expr

variable {host : Host}

/-- An expression has outcomes by one way to call values that approximate those by another. -/
def Deepens (host : Host) (call call' : Caller) (e : Expr) : Prop :=
  ∀ (c : Context) (site : Identity),
    Approximates (evalWith host call c site e) (evalWith host call' c site e)

section Parts

variable {call call' : Caller}

theorem evalItems_deepen {items : List Expr} (h : ∀ e ∈ items, Deepens host call call' e)
    (c : Context) (site : Identity) (i : Nat) :
    Approximates (evalItems host call c site i items) (evalItems host call' c site i items) := by
  induction items generalizing i with
  | nil => exact .refl _
  | cons e rest ih =>
    rw [evalItems, evalItems]
    exact (h e (by simp) c _).bind fun v => (ih (fun x hx => h x (by simp [hx])) (i + 1)).next _

theorem evalArgs_deepen {args : List Expr} (h : ∀ e ∈ args, Deepens host call call' e)
    (hkeyword : ∀ n v, keyword n v ∈ args → Deepens host call call' v) (c : Context)
    (site : Identity) (i : Nat) :
    Approximates (evalArgs host call c site i args) (evalArgs host call' c site i args) := by
  induction args generalizing i with
  | nil => exact .refl _
  | cons e rest ih =>
    have hrest := ih (fun x hx => h x (by simp [hx])) (fun n v hx => hkeyword n v (by simp [hx]))
      (i + 1)
    by_cases he : ∃ n v, e = keyword n v
    · obtain ⟨n, value, rfl⟩ := he
      rw [evalArgs, evalArgs]
      exact (hkeyword n value (by simp) c _).bind fun v => hrest.next _
    · have hne : ∀ n v, e ≠ keyword n v := fun n v heq => he ⟨n, v, heq⟩
      rw [evalArgs_positional hne, evalArgs_positional hne]
      exact (h e (by simp) c _).bind fun v => hrest.next _

theorem evalLinks_deepen {links : List (CompareOp × Expr)}
    (h : ∀ l ∈ links, Deepens host call call' l.2) (c : Context) (site : Identity) (left : Value) :
    Approximates (evalLinks host call c site left links)
      (evalLinks host call' c site left links) := by
  induction links generalizing site left with
  | nil => exact .refl _
  | cons l rest ih =>
    obtain ⟨op, e⟩ := l
    rw [evalLinks, evalLinks, evalLink, evalLink]
    refine (h (op, e) (by simp) c _).bind fun right => (Approximates.refl _).bind fun holds => ?_
    cases holds with
    | false => exact .refl _
    | true => exact ih (fun x hx => h x (by simp [hx])) _ right

theorem evalEntries_deepen {entries : List (Expr × Expr)}
    (h : ∀ p ∈ entries, Deepens host call call' p.1 ∧ Deepens host call call' p.2) (c : Context)
    (site : Identity) (i : Nat) (d : Dict) :
    Approximates (evalEntries host call c site i d entries)
      (evalEntries host call' c site i d entries) := by
  induction entries generalizing i d with
  | nil => exact .refl _
  | cons p rest ih =>
    obtain ⟨key, value⟩ := p
    obtain ⟨hkey, hvalue⟩ := h (key, value) (by simp)
    rw [evalEntries, evalEntries, evalEntry, evalEntry]
    refine ((hkey c _).bind fun k => (hvalue c _).next _).bind fun kv => ?_
    refine (Approximates.refl _).bind fun d' => ?_
    exact ih (fun q hq => h q (by simp [hq])) (i + 1) d'

end Parts

/-- A choice by the truth of a value. -/
theorem choice_deepen {site : Identity} (v : Value) {x x' y y' : Outcome Value}
    (hx : Approximates x x') (hy : Approximates y y') :
    Approximates (v.isTruthy host site >>= fun truthy => if truthy then x else y)
      (v.isTruthy host site >>= fun truthy => if truthy then x' else y') := by
  refine (Approximates.refl _).bind fun truthy => ?_
  cases truthy with
  | true => exact hx
  | false => exact hy

/-- Where calls approximate calls, so do the outcomes of every expression. -/
theorem deepens {call call' : Caller}
    (hcall : ∀ site f args keywords,
      Approximates (call site f args keywords) (call' site f args keywords)) (e : Expr) :
    Deepens host call call' e ∧ ∀ n v, e = keyword n v → Deepens host call call' v := by
  induction e using inductionOnChildren with
  | step e ih =>
    refine ⟨fun c site => ?_, fun n v he => (ih v (by simp [he, children])).1⟩
    have hpart : ∀ x ∈ e.children, Deepens host call call' x := fun x hx => (ih x hx).1
    cases e with
    | name | number | str | const | keyword | lambda =>
      rw [evalWith, evalWith]
      exact .refl _
    | unary op operand | not operand | attr operand n =>
      rw [evalWith, evalWith]
      exact (hpart operand (by simp [children]) c _).next _
    | binary op left right | subscript left right =>
      rw [evalWith, evalWith]
      exact (hpart left (by simp [children]) c _).bind fun a =>
        (hpart right (by simp [children]) c _).next _
    | and left right =>
      rw [evalWith, evalWith]
      exact (hpart left (by simp [children]) c _).bind fun a =>
        choice_deepen a (hpart right (by simp [children]) c _) (.refl _)
    | or left right =>
      rw [evalWith, evalWith]
      exact (hpart left (by simp [children]) c _).bind fun a =>
        choice_deepen a (.refl _) (hpart right (by simp [children]) c _)
    | conditional body test orelse =>
      rw [evalWith, evalWith]
      exact (hpart test (by simp [children]) c _).bind fun a =>
        choice_deepen a (hpart body (by simp [children]) c _)
          (hpart orelse (by simp [children]) c _)
    | compare first links =>
      rw [evalWith, evalWith]
      refine (hpart first (by simp [children]) c _).bind fun left => ?_
      exact (evalLinks_deepen (fun l hl => hpart l.2 (List.mem_cons_of_mem _
        (List.mem_map_of_mem hl))) c site left).next _
    | call callee args =>
      have hmem : ∀ a ∈ args, a ∈ (Expr.call callee args).children :=
        fun a ha => List.mem_cons_of_mem _ ha
      rw [evalWith, evalWith]
      refine (hpart callee (by simp [children]) c _).bind fun f => ?_
      exact (evalArgs_deepen (fun a ha => hpart a (hmem a ha))
        (fun n v ha => (ih _ (hmem _ ha)).2 n v rfl) c site 1).bind fun x => hcall site f x.1 x.2
    | tuple items | list items =>
      rw [evalWith, evalWith]
      exact (evalItems_deepen hpart c site 0).next _
    | dict entries =>
      have hmem : ∀ p ∈ entries, Deepens host call call' p.1 ∧ Deepens host call call' p.2 := by
        intro p hp
        constructor <;> exact hpart _ (List.mem_flatMap.mpr ⟨p, hp, by simp⟩)
      rw [evalWith, evalWith]
      exact (evalEntries_deepen hmem c site 0 []).next _

/-- Only the call of a lambda depends on how bodies are evaluated. -/
theorem callWith_deepen {site : Identity} {runBody runBody' : Expr → Table Value → Outcome Value}
    (h : ∀ body scope, Approximates (runBody body scope) (runBody' body scope)) (callee : Value)
    (args : List Value) (keywords : List (String × Value)) :
    Approximates (callee.callWith host site runBody args keywords)
      (callee.callWith host site runBody' args keywords) := by
  cases callee with
  | lambda id params body closure => exact (Approximates.refl _).bind fun b => h body _
  | _ => exact .refl _

/-! ## Bounds -/

theorem evalWithin_succ (depth : Nat) (c : Context) (site : Identity) (e : Expr) :
    Approximates (evalWithin host depth c site e) (evalWithin host (depth + 1) c site e) := by
  induction depth generalizing c site e with
  | zero => exact Or.inl rfl
  | succ depth ih =>
    refine (deepens (fun place callee args keywords => ?_) e).1 c site
    exact callWith_deepen (fun body scope => ih scope (place.child 0) body) callee args keywords

/-- A deeper bound keeps an outcome, unless the bound was reached. -/
theorem evalWithin_deepen {depth depth' : Nat} (h : depth ≤ depth') (c : Context)
    (site : Identity) (e : Expr) :
    Approximates (evalWithin host depth c site e) (evalWithin host depth' c site e) := by
  induction h with
  | refl => exact .refl _
  | step _ ih => exact ih.trans (evalWithin_succ _ c site e)

/-- The outcome of an expression where the bound leaves room for one. -/
def Settles (host : Host) (c : Context) (site : Identity) (e : Expr) (o : Outcome Value) : Prop :=
  o ≠ .error .tooDeep ∧ ∃ depth, e.evalWithin host depth c site = o

namespace Settles

variable {c : Context} {site : Identity} {e : Expr} {o o' : Outcome Value}

/-- From some bound on, the outcome is always the same. -/
theorem eventually (h : e.Settles host c site o) :
    ∃ depth, ∀ depth' ≥ depth, e.evalWithin host depth' c site = o := by
  obtain ⟨hroom, depth, rfl⟩ := h
  refine ⟨depth, fun depth' hle => ?_⟩
  rcases evalWithin_deepen hle c site e with hreached | hsame
  · exact absurd hreached hroom
  · exact hsame.symm

theorem unique (h : e.Settles host c site o) (h' : e.Settles host c site o') : o = o' := by
  obtain ⟨depth, hdepth⟩ := h.eventually
  obtain ⟨depth', hdepth'⟩ := h'.eventually
  rw [← hdepth (max depth depth') (Nat.le_max_left _ _), hdepth' _ (Nat.le_max_right _ _)]

end Settles

end Expr

end FilterLang
