import FilterLang.Error
/-!
Computations that can fail: when a chain of them succeeds, what it can lead to, and when two of
them go alike.
-/

namespace FilterLang.Fallible

variable {ε α β : Type}

@[simp] theorem ok_bind (a : α) (f : α → Except ε β) : (.ok a >>= f) = f a := rfl

@[simp] theorem error_bind (e : ε) (f : α → Except ε β) : (.error e >>= f) = .error e := rfl

@[simp] theorem pure_eq (a : α) : (pure a : Except ε α) = .ok a := rfl

/-- A chain succeeds when its first part does and the rest does on what that gives. -/
theorem bind_eq_ok {x : Except ε α} {f : α → Except ε β} {b : β} :
    (x >>= f) = .ok b ↔ ∃ a, x = .ok a ∧ f a = .ok b := by
  cases x with
  | error e => simp
  | ok a => simp

/-- A chain fails when its first part does, or else the rest on what that gives. -/
theorem bind_eq_error {x : Except ε α} {f : α → Except ε β} {e : ε} :
    (x >>= f) = .error e ↔ x = .error e ∨ ∃ a, x = .ok a ∧ f a = .error e := by
  cases x with
  | error e' => simp
  | ok a => simp

/-- Chains with one beginning are the same when they go on the same from what it gives. -/
theorem bind_congr_ok {x : Except ε α} {f g : α → Except ε β}
    (h : ∀ a, x = .ok a → f a = g a) : (x >>= f) = (x >>= g) := by
  cases x with
  | error e => rfl
  | ok a => exact h a rfl

/-- A computation lands when its result has a property, or its error has one. -/
def Lands (P : α → Prop) (E : ε → Prop) : Except ε α → Prop
  | .ok a => P a
  | .error e => E e

namespace Lands

variable {P : α → Prop} {Q : β → Prop} {E : ε → Prop} {x : Except ε α}

theorem bind (h : Lands P E x) {f : α → Except ε β} (hf : ∀ a, P a → Lands Q E (f a)) :
    Lands Q E (x >>= f) := by
  cases x with
  | error e => exact h
  | ok a => exact hf a h

theorem imp {R : α → Prop} (h : Lands P E x) (hPR : ∀ a, P a → R a) : Lands R E x := by
  cases x with
  | error e => exact h
  | ok a => exact hPR a h

theorem map (h : Lands P E x) {f : α → β} (hf : ∀ a, P a → Q (f a)) : Lands Q E (x.map f) := by
  cases x with
  | error e => exact h
  | ok a => exact hf a h

theorem ite {c : Prop} [Decidable c] {y : Except ε α} (hx : c → Lands P E x)
    (hy : ¬ c → Lands P E y) : Lands P E (if c then x else y) := by
  by_cases h : c
  · rw [if_pos h]
    exact hx h
  · rw [if_neg h]
    exact hy h

end Lands

end FilterLang.Fallible

namespace FilterLang

/-- Outcomes that fail alike, or succeed with results in a relation. -/
inductive Related {α β : Type} (R : α → β → Prop) : Outcome α → Outcome β → Prop
  | failed (e : EvalError) : Related R (.error e) (.error e)
  | succeeded {a : α} {b : β} (h : R a b) : Related R (.ok a) (.ok b)

namespace Related

variable {α β γ δ : Type} {R : α → β → Prop} {S : γ → δ → Prop}

theorem refl {R : α → α → Prop} (hR : ∀ a, R a a) (x : Outcome α) : Related R x x := by
  cases x with
  | error e => exact .failed e
  | ok a => exact .succeeded (hR a)

theorem bind {x : Outcome α} {y : Outcome β} (h : Related R x y) {f : α → Outcome γ}
    {g : β → Outcome δ} (hfg : ∀ a b, R a b → Related S (f a) (g b)) :
    Related S (x >>= f) (y >>= g) := by
  cases h with
  | failed e => exact .failed e
  | succeeded h => exact hfg _ _ h

/-- Chains that go on the same from related results are the same. -/
theorem bind_eq {x : Outcome α} {y : Outcome β} (h : Related R x y) {f : α → Outcome γ}
    {g : β → Outcome γ} (hfg : ∀ a b, R a b → f a = g b) : (x >>= f) = (y >>= g) := by
  cases h with
  | failed e => rfl
  | succeeded h => exact hfg _ _ h

/-- Chains that begin alike go alike when they go on alike. -/
theorem bind_same (x : Outcome α) {f : α → Outcome γ} {g : α → Outcome δ}
    (hfg : ∀ a, Related S (f a) (g a)) : Related S (x >>= f) (x >>= g) := by
  cases x with
  | error e => exact .failed e
  | ok a => exact hfg a

theorem imp {T : α → β → Prop} {x : Outcome α} {y : Outcome β} (h : Related R x y)
    (hRT : ∀ a b, R a b → T a b) : Related T x y := by
  cases h with
  | failed e => exact .failed e
  | succeeded h => exact .succeeded (hRT _ _ h)

/-- Outcomes that are equal after a map are related by equality after it. -/
theorem of_map_eq {x : Outcome α} {y : Outcome β} {f : α → γ} {g : β → γ}
    (h : x.map f = y.map g) : Related (fun a b => x = .ok a ∧ f a = g b) x y := by
  cases x with
  | error e =>
    cases y with
    | error e' => cases h; exact .failed e
    | ok b => cases h
  | ok a =>
    cases y with
    | error e' => cases h
    | ok b => exact .succeeded ⟨rfl, Except.ok.inj h⟩

end Related

end FilterLang
